/-!
# Kinds of token

A token is a symbol, a keyword, an identifier, a string, a number, or the end
of the source. Symbols and keywords have one spelling each and are types of
their own, so that what is said of all of them – every symbol has a spelling
of one or two characters, no two keywords are spelt alike – can be said
without exceptions for the rest.

Every kind has two texts. Its `name` is what listings print: `LEFT_PAREN`,
`IDENTIFIER`. Its `text` is how the kind is shown to a reader: the spelling
where there is only one, and else a word for the class.
-/

namespace LoxLexer

/-- A token made of punctuation, with one fixed spelling. -/
inductive Symbol where
  | leftParen
  | rightParen
  | leftBrace
  | rightBrace
  | comma
  | dot
  | minus
  | plus
  | colon
  | semicolon
  | slash
  | star
  | question
  | bang
  | bangEqual
  | equal
  | equalEqual
  | greater
  | greaterEqual
  | less
  | lessEqual
deriving DecidableEq, Repr

/-- A reserved word. -/
inductive Keyword where
  | andWord
  | classWord
  | elseWord
  | falseWord
  | forWord
  | funWord
  | ifWord
  | nilWord
  | orWord
  | returnWord
  | superWord
  | thisWord
  | trueWord
  | varWord
  | whileWord
deriving DecidableEq, Repr

/-- What a token is. -/
inductive Kind where
  | symbol (s : Symbol)
  | keyword (k : Keyword)
  | identifier
  | string
  | number
  | eof
deriving DecidableEq, Repr

/-! ## Symbols -/

namespace Symbol

/-- All symbols. -/
def all : List Symbol :=
  [leftParen, rightParen, leftBrace, rightBrace, comma, dot, minus, plus,
   colon, semicolon, slash, star, question, bang, bangEqual, equal,
   equalEqual, greater, greaterEqual, less, lessEqual]

/-- The characters of a symbol. -/
def spelling : Symbol → List Char
  | leftParen => ['(']
  | rightParen => [')']
  | leftBrace => ['{']
  | rightBrace => ['}']
  | comma => [',']
  | dot => ['.']
  | minus => ['-']
  | plus => ['+']
  | colon => [':']
  | semicolon => [';']
  | slash => ['/']
  | star => ['*']
  | question => ['?']
  | bang => ['!']
  | bangEqual => ['!', '=']
  | equal => ['=']
  | equalEqual => ['=', '=']
  | greater => ['>']
  | greaterEqual => ['>', '=']
  | less => ['<']
  | lessEqual => ['<', '=']

/-- The name of a symbol in listings. -/
def name : Symbol → String
  | leftParen => "LEFT_PAREN"
  | rightParen => "RIGHT_PAREN"
  | leftBrace => "LEFT_BRACE"
  | rightBrace => "RIGHT_BRACE"
  | comma => "COMMA"
  | dot => "DOT"
  | minus => "MINUS"
  | plus => "PLUS"
  | colon => "COLON"
  | semicolon => "SEMICOLON"
  | slash => "SLASH"
  | star => "STAR"
  | question => "QUESTION"
  | bang => "BANG"
  | bangEqual => "BANG_EQUAL"
  | equal => "EQUAL"
  | equalEqual => "EQUAL_EQUAL"
  | greater => "GREATER"
  | greaterEqual => "GREATER_EQUAL"
  | less => "LESS"
  | lessEqual => "LESS_EQUAL"

/-- The symbol that one character is by itself. -/
def ofChar? : Char → Option Symbol
  | '(' => some leftParen
  | ')' => some rightParen
  | '{' => some leftBrace
  | '}' => some rightBrace
  | ',' => some comma
  | '.' => some dot
  | '-' => some minus
  | '+' => some plus
  | ':' => some colon
  | ';' => some semicolon
  | '/' => some slash
  | '*' => some star
  | '?' => some question
  | '!' => some bang
  | '=' => some equal
  | '>' => some greater
  | '<' => some less
  | _ => none

/-- The symbol that a symbol becomes when an equals sign follows it. -/
def withEqual? : Symbol → Option Symbol
  | bang => some bangEqual
  | equal => some equalEqual
  | greater => some greaterEqual
  | less => some lessEqual
  | _ => none

/-- Every symbol is in the list of all. -/
theorem mem_all (s : Symbol) : s ∈ all := by
  cases s <;> decide

/-- A character is a symbol exactly when it is that symbol's spelling. -/
theorem ofChar?_eq_some_iff {c : Char} {s : Symbol} :
    ofChar? c = some s ↔ s.spelling = [c] := by
  constructor
  · intro h
    unfold ofChar? at h
    split at h <;> cases h <;> rfl
  · intro h
    cases s <;> simp only [spelling, List.cons.injEq, and_true, reduceCtorEq,
      and_false] at h <;> subst h <;> rfl

/-- Adding an equals sign adds it to the spelling. -/
theorem withEqual?_eq_some_iff {s t : Symbol} :
    s.withEqual? = some t ↔ t.spelling = s.spelling ++ ['='] := by
  cases s <;> cases t <;> decide

end Symbol

/-! ## Keywords -/

namespace Keyword

/-- All keywords, in the order of the alphabet. -/
def all : List Keyword :=
  [andWord, classWord, elseWord, falseWord, forWord, funWord, ifWord, nilWord,
   orWord, returnWord, superWord, thisWord, trueWord, varWord, whileWord]

/-- The word itself. -/
def text : Keyword → String
  | andWord => "and"
  | classWord => "class"
  | elseWord => "else"
  | falseWord => "false"
  | forWord => "for"
  | funWord => "fun"
  | ifWord => "if"
  | nilWord => "nil"
  | orWord => "or"
  | returnWord => "return"
  | superWord => "super"
  | thisWord => "this"
  | trueWord => "true"
  | varWord => "var"
  | whileWord => "while"

/-- The name of a keyword in listings. -/
def name : Keyword → String
  | andWord => "AND"
  | classWord => "CLASS"
  | elseWord => "ELSE"
  | falseWord => "FALSE"
  | forWord => "FOR"
  | funWord => "FUN"
  | ifWord => "IF"
  | nilWord => "NIL"
  | orWord => "OR"
  | returnWord => "RETURN"
  | superWord => "SUPER"
  | thisWord => "THIS"
  | trueWord => "TRUE"
  | varWord => "VAR"
  | whileWord => "WHILE"

/-- The keyword that is spelt exactly so, if there is one. Capitals count, and
a word that merely begins with a keyword is none. -/
def ofText? (word : String) : Option Keyword :=
  all.find? (fun k => k.text = word)

/-- Every keyword is in the list of all. -/
theorem mem_all (k : Keyword) : k ∈ all := by
  cases k <;> decide

/-- Looking up a word finds the keyword of that spelling. -/
theorem ofText?_eq_some_iff {word : String} {k : Keyword} :
    ofText? word = some k ↔ k.text = word := by
  constructor
  · intro h
    simpa using List.find?_some h
  · rintro rfl
    cases k <;> decide

end Keyword

/-! ## Names and texts of all kinds -/

namespace Kind

/-- All kinds. -/
def all : List Kind :=
  Symbol.all.map symbol ++ [identifier, string, number] ++
    Keyword.all.map keyword ++ [eof]

/-- The name of a kind in listings. -/
def name : Kind → String
  | symbol s => s.name
  | keyword k => k.name
  | identifier => "IDENTIFIER"
  | string => "STRING"
  | number => "NUMBER"
  | eof => "EOF"

/-- How a kind is shown to a reader: by its spelling if it has only one, else
by a word for the class. -/
def text : Kind → String
  | symbol s => String.ofList s.spelling
  | keyword k => k.text
  | identifier => "identifier"
  | string => "string"
  | number => "number"
  | eof => "<EOF>"

/-- The kind that has a name, if any has. -/
def ofName? (name : String) : Option Kind :=
  all.find? (fun kind => kind.name = name)

/-- The kind of a word: a keyword if it is spelt like one, else an
identifier. -/
def ofWord (word : List Char) : Kind :=
  match Keyword.ofText? (String.ofList word) with
  | some k => keyword k
  | none => identifier

/-- Every kind is in the list of all. -/
theorem mem_all (kind : Kind) : kind ∈ all := by
  rcases kind with s | k | _ | _ | _ | _
  · simp [all, Symbol.mem_all]
  · simp [all, Keyword.mem_all]
  all_goals decide

/-- No two kinds have the same name. -/
theorem name_injective {a b : Kind} (h : a.name = b.name) : a = b := by
  have key : ∀ a ∈ all, ∀ b ∈ all, a.name = b.name → a = b := by decide +kernel
  exact key a (mem_all a) b (mem_all b) h

/-- A name leads back to its kind. -/
@[simp] theorem ofName?_name (kind : Kind) : ofName? kind.name = some kind := by
  have h : ∃ k, ofName? kind.name = some k := by
    rw [← Option.isSome_iff_exists, ofName?, List.find?_isSome]
    exact ⟨kind, mem_all kind, by simp⟩
  obtain ⟨k, hk⟩ := h
  have hname : k.name = kind.name := by simpa using List.find?_some hk
  rw [hk, name_injective hname]

end Kind

end LoxLexer
