import LoxLexer.Piece

/-!
# The grammar of lexemes

What a piece of a source may look like, said without saying how it is found.
`Lexeme text role` holds when a text is a lexeme of some kind, or a gap:

* a symbol is spelt in its one way;
* a number is digits, or digits, a point and digits;
* a string is a quote, a text without quotes, and a quote;
* a word begins with a letter or an underscore and goes on with these and
  digits; it is a keyword or an identifier by its whole text;
* a gap is one blank, or a comment, which runs to the end of its line.

A source may be cut into such texts in many ways. The way that is meant is the
one that takes the longest at every turn, `Longest`. Where nothing at all can
be taken, a quote has no partner and the fault is the whole rest, or else the
fault is the character itself; `Cut` puts this together.
-/

namespace LoxLexer

/-- The texts that a source is made of, and what they are. -/
inductive Lexeme : List Char → Role → Prop where
  /-- A symbol, in its one spelling. -/
  | symbol (s : Symbol) : Lexeme s.spelling (.lexeme (.symbol s))
  /-- A number without a fraction. -/
  | whole {digits : List Char} (ne : digits ≠ [])
      (all : ∀ c ∈ digits, isDigit c = true) :
      Lexeme digits (.lexeme .number)
  /-- A number with a fraction. -/
  | fraction {whole digits : List Char} (whole_ne : whole ≠ [])
      (whole_all : ∀ c ∈ whole, isDigit c = true) (ne : digits ≠ [])
      (all : ∀ c ∈ digits, isDigit c = true) :
      Lexeme (whole ++ '.' :: digits) (.lexeme .number)
  /-- A string. -/
  | string {content : List Char} (all : ∀ c ∈ content, c ≠ '"') :
      Lexeme ('"' :: content ++ ['"']) (.lexeme .string)
  /-- A word. -/
  | word {first : Char} {later : List Char} (start : isWordStart first = true)
      (all : ∀ c ∈ later, isWordChar c = true) :
      Lexeme (first :: later) (.lexeme (.ofWord (first :: later)))
  /-- A blank. -/
  | blank {c : Char} (blank : isBlank c = true) : Lexeme [c] .gap
  /-- A comment, without the end of its line. -/
  | comment {content : List Char} (all : ∀ c ∈ content, c ≠ '\n') :
      Lexeme ('/' :: '/' :: content) .gap

/-- A piece that is a lexeme or a gap, begins a source, and is not shorter
than any other such text that begins it. -/
def Longest (piece : Piece) (source : List Char) : Prop :=
  Lexeme piece.text piece.role ∧ piece.text <+: source ∧
    ∀ text role, Lexeme text role → text <+: source →
      text.length ≤ piece.text.length

/-- Whether no lexeme and no gap begins a source. -/
def Stuck (source : List Char) : Prop :=
  ∀ text role, Lexeme text role → ¬ text <+: source

/-- A source cut into pieces, the longest at every turn. -/
inductive Cut : List Char → List Piece → Prop where
  /-- Nothing is left. -/
  | nil : Cut [] []
  /-- A lexeme or a gap is next. -/
  | longest {piece : Piece} {rest : List Char} {later : List Piece}
      (longest : Longest piece (piece.text ++ rest)) (cut : Cut rest later) :
      Cut (piece.text ++ rest) (piece :: later)
  /-- A quote without a partner is next, and takes all that is left. -/
  | unterminated {rest : List Char} (stuck : Stuck ('"' :: rest)) :
      Cut ('"' :: rest) [⟨'"' :: rest, .faulty .unterminatedString⟩]
  /-- A character that begins nothing is next. -/
  | unexpected {c : Char} {rest : List Char} {later : List Piece}
      (not_quote : c ≠ '"') (stuck : Stuck (c :: rest)) (cut : Cut rest later) :
      Cut (c :: rest) (⟨[c], .faulty (.unexpectedCharacter c)⟩ :: later)

/-- No lexeme is empty, and no gap. -/
theorem Lexeme.ne_nil {text : List Char} {role : Role} (h : Lexeme text role) :
    text ≠ [] := by
  cases h with
  | symbol s => cases s <;> simp [Symbol.spelling]
  | whole ne => exact ne
  | fraction => simp
  | string => simp
  | word => simp
  | blank => simp
  | comment => simp

end LoxLexer
