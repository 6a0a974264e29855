import LoxLexer.Scan

/-!
# The errors of a source, character by character

Which errors a source has can be told without any notion of a token. It takes
a reader that goes over single characters and remembers one of four things:
that it is in code, that it has just read a stroke in code, that it is in a
string, or that it is in a comment. In code every character that can be part
of no lexeme is an error; in strings and comments nothing is; and a string
that is still open at the end is one more.

The reader knows nothing of words, numbers and symbols, and so nothing of how
far they reach. It is a second account of the errors of a source, beside
`errorsOf`.
-/

namespace LoxLexer

/-- What a reader of single characters remembers. -/
inductive Mode where
  /-- That it is in code. -/
  | code
  /-- That it is in code, right behind a stroke. -/
  | stroke
  /-- That it is in a string, and where the quote stood that opened it. -/
  | string (quote : Position)
  /-- That it is in a comment. -/
  | comment
deriving DecidableEq, Repr

/-- The marks of punctuation. -/
def punctuation : List Char :=
  ['(', ')', '{', '}', ',', '.', '-', '+', ':', ';', '/', '*', '?', '!', '=',
   '>', '<']

/-- Whether a character can be part of a lexeme or a gap, outside strings and
comments. -/
def isCode (c : Char) : Bool :=
  c ∈ punctuation || isBlank c || isAlphabetic c || isDigit c || c = '_'

/-- The marks of punctuation are those characters that are symbols by
themselves. -/
theorem mem_punctuation_iff {c : Char} :
    c ∈ punctuation ↔ ∃ s, Symbol.ofChar? c = some s := by
  constructor
  · have h : punctuation.all (fun c => (Symbol.ofChar? c).isSome) = true := rfl
    exact fun hc => Option.isSome_iff_exists.mp (List.all_eq_true.mp h c hc)
  · rintro ⟨s, h⟩
    have hs := Symbol.ofChar?_eq_some_iff.mp h
    cases s <;> simp only [Symbol.spelling, List.cons.injEq, and_true,
      reduceCtorEq, and_false] at hs <;> subst hs <;> decide

/-- What can be part of a lexeme or a gap is a symbol by itself, or blank, or
stands in words. -/
theorem isCode_iff {c : Char} :
    isCode c = true ↔
      (∃ s, Symbol.ofChar? c = some s) ∨ isBlank c = true ∨
        isWordChar c = true := by
  simp only [isCode, isWordChar, Bool.or_eq_true, decide_eq_true_eq,
    mem_punctuation_iff, or_assoc]

namespace Mode

/-- The mode behind a character that was read in code at a given place. -/
def afterCode (place : Position) (c : Char) : Mode :=
  if c = '"' then string place else if c = '/' then stroke else code

/-- The mode behind a character that was read at a given place. -/
def after (mode : Mode) (place : Position) (c : Char) : Mode :=
  match mode with
  | code => afterCode place c
  | stroke => if c = '/' then comment else afterCode place c
  | string quote => if c = '"' then code else string quote
  | comment => if c = '\n' then code else comment

/-- Whether a character is an error in a mode. -/
def refuses : Mode → Char → Bool
  | code, c => c ≠ '"' && !isCode c
  | stroke, c => c ≠ '"' && !isCode c
  | string _, _ => false
  | comment, _ => false

/-- The errors of a text that is read from a given place on in a mode. -/
def errors (mode : Mode) (place : Position) : List Char → List LexError
  | [] =>
    match mode with
    | string quote =>
      [⟨.unterminatedString, place.line, ⟨quote.offset, place.offset⟩⟩]
    | _ => []
  | c :: cs =>
    let later := (mode.after place c).errors (place.after [c]) cs
    if mode.refuses c then
      ⟨.unexpectedCharacter c, place.line,
        ⟨place.offset, place.offset + c.utf8Size⟩⟩ :: later
    else later

end Mode

end LoxLexer
