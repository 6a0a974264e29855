import LoxLexer.Literal
import LoxLexer.Scan
import LoxLexer.Proofs.CutOff

/-!
# What a lexeme stands for

`Kind.ofWord` and `Literal.ofLexeme` work out the kind and the literal of a
lexeme from its characters. `Denotes text kind literal` says the same by
classes: a keyword is one of the reserved words and nothing else, an
identifier is any other word, a string stands for the text between its
quotes, and a number for the floating-point number nearest to the decimal
fraction that its digits write.

That the two agree (`denotes_iff`) is what makes `Denotes` an account of the
tokens of a scan that owes nothing to how they are computed. It also is the
grammar of those texts of which a source can be put together on purpose.
-/

namespace LoxLexer

/-- **A text is a lexeme of a kind, and stands for a literal.** -/
inductive Denotes : List Char → Kind → Literal → Prop where
  /-- A symbol, in its one spelling. -/
  | symbol (s : Symbol) : Denotes s.spelling (.symbol s) .none
  /-- A keyword, in its one spelling. -/
  | keyword (k : Keyword) : Denotes k.text.toList (.keyword k) .none
  /-- A word that is spelt like no keyword. -/
  | identifier {first : Char} {later : List Char}
      (start : isWordStart first = true)
      (all : ∀ c ∈ later, isWordChar c = true)
      (free : ∀ k : Keyword, k.text.toList ≠ first :: later) :
      Denotes (first :: later) .identifier .none
  /-- A string, which stands for what is between its quotes. -/
  | string {content : List Char} (all : ∀ c ∈ content, c ≠ '"') :
      Denotes ('"' :: content ++ ['"']) .string
        (.string (String.ofList content))
  /-- A number without a fraction. -/
  | whole {digits : List Char} (ne : digits ≠ [])
      (all : ∀ c ∈ digits, isDigit c = true) :
      Denotes digits .number (.number (.nearest (.ofDigits digits [])))
  /-- A number with a fraction. -/
  | fraction {whole digits : List Char} (whole_ne : whole ≠ [])
      (whole_all : ∀ c ∈ whole, isDigit c = true) (ne : digits ≠ [])
      (all : ∀ c ∈ digits, isDigit c = true) :
      Denotes (whole ++ '.' :: digits) .number
        (.number (.nearest (.ofDigits whole digits)))

/-! ## Words -/

/-- A keyword is a word. -/
theorem Keyword.exists_toList_text (k : Keyword) :
    ∃ first later, k.text.toList = first :: later ∧
      isWordStart first = true ∧ ∀ c ∈ later, isWordChar c = true := by
  cases k <;> exact ⟨_, _, rfl, rfl, List.all_eq_true.mp rfl⟩

/-- A word is a keyword or an identifier. -/
theorem Kind.ofWord_cases (word : List Char) :
    (∃ k, Kind.ofWord word = .keyword k) ∨ Kind.ofWord word = .identifier := by
  unfold Kind.ofWord
  split
  · next k _ => exact .inl ⟨k, rfl⟩
  · exact .inr rfl

/-- A word is a keyword exactly when it is spelt like it. -/
theorem Kind.ofWord_eq_keyword_iff {word : List Char} {k : Keyword} :
    Kind.ofWord word = .keyword k ↔ k.text.toList = word := by
  have htext : k.text = String.ofList word ↔ k.text.toList = word := by
    rw [← String.toList_inj, String.toList_ofList]
  rw [← htext, ← Keyword.ofText?_eq_some_iff, Kind.ofWord]
  cases Keyword.ofText? (String.ofList word) <;> simp

/-- A word is an identifier exactly when it is spelt like no keyword. -/
theorem Kind.ofWord_eq_identifier_iff {word : List Char} :
    Kind.ofWord word = .identifier ↔ ∀ k : Keyword, k.text.toList ≠ word := by
  constructor
  · intro h k hk
    rw [Kind.ofWord_eq_keyword_iff.mpr hk] at h
    cases h
  · intro h
    obtain ⟨k, hk⟩ | hword := Kind.ofWord_cases word
    · exact absurd (Kind.ofWord_eq_keyword_iff.mp hk) (h k)
    · exact hword

/-! ## Numerals -/

/-- Digits are a numeral. -/
theorem Decimal.ofNumeral?_whole {digits : List Char} (ne : digits ≠ [])
    (all : ∀ c ∈ digits, isDigit c = true) :
    Decimal.ofNumeral? digits = some (.ofDigits digits []) := by
  have htake := (notNext_nil isDigit).takeWhile_append all
  have hdrop := (notNext_nil isDigit).dropWhile_append all
  rw [List.append_nil] at htake hdrop
  simp only [Decimal.ofNumeral?, htake, hdrop, if_neg ne]

/-- Digits, a point and digits are a numeral. -/
theorem Decimal.ofNumeral?_fraction {whole digits : List Char}
    (whole_ne : whole ≠ []) (whole_all : ∀ c ∈ whole, isDigit c = true)
    (ne : digits ≠ []) (all : ∀ c ∈ digits, isDigit c = true) :
    Decimal.ofNumeral? (whole ++ '.' :: digits) =
      some (.ofDigits whole digits) := by
  have hpoint : NotNext isDigit ('.' :: digits) := notNext_cons.mpr (by decide)
  have hall : digits.all isDigit = true := List.all_eq_true.mpr all
  simp only [Decimal.ofNumeral?, hpoint.takeWhile_append whole_all,
    hpoint.dropWhile_append whole_all]
  exact if_pos ⟨whole_ne, ne, hall⟩

/-- A text that is read as a decimal writes the number nearest to it. -/
theorem Binary64.ofNumeral_of_eq_some {text : List Char} {d : Decimal}
    (h : Decimal.ofNumeral? text = some d) : ofNumeral text = nearest d := by
  rw [ofNumeral, h]

/-! ## What is computed is what is denoted -/

/-- What stands for a literal is a lexeme. -/
theorem Denotes.lexeme {text : List Char} {kind : Kind} {literal : Literal}
    (h : Denotes text kind literal) : Lexeme text (.lexeme kind) := by
  cases h with
  | symbol s => exact .symbol s
  | keyword k =>
    obtain ⟨first, later, htext, start, all⟩ := k.exists_toList_text
    have hword := Lexeme.word start all
    rwa [← htext, Kind.ofWord_eq_keyword_iff.mpr rfl] at hword
  | identifier start all free =>
    have hword := Lexeme.word start all
    rwa [Kind.ofWord_eq_identifier_iff.mpr free] at hword
  | string all => exact .string all
  | whole ne all => exact .whole ne all
  | fraction whole_ne whole_all ne all =>
    exact .fraction whole_ne whole_all ne all

/-- No text is a lexeme of the kind that the end of the source has. -/
theorem Denotes.kind_ne_eof {text : List Char} {kind : Kind}
    {literal : Literal} (h : Denotes text kind literal) : kind ≠ .eof := by
  cases h <;> exact Kind.noConfusion

/-- The literal that a lexeme stands for is the one that is worked out. -/
theorem Denotes.literal_eq {text : List Char} {kind : Kind} {literal : Literal}
    (h : Denotes text kind literal) :
    literal = Literal.ofLexeme kind text := by
  cases h with
  | symbol => rfl
  | keyword => rfl
  | identifier => rfl
  | string => simp [Literal.ofLexeme]
  | whole ne all =>
    rw [Literal.ofLexeme,
      Binary64.ofNumeral_of_eq_some (Decimal.ofNumeral?_whole ne all)]
  | fraction whole_ne whole_all ne all =>
    rw [Literal.ofLexeme, Binary64.ofNumeral_of_eq_some
      (Decimal.ofNumeral?_fraction whole_ne whole_all ne all)]

/-- A lexeme stands for the literal that is worked out. -/
theorem Lexeme.denotes {text : List Char} {kind : Kind}
    (h : Lexeme text (.lexeme kind)) :
    Denotes text kind (Literal.ofLexeme kind text) := by
  generalize hrole : Role.lexeme kind = role at h
  cases h with
  | symbol s =>
    cases hrole
    exact .symbol s
  | whole ne all =>
    cases hrole
    rw [Literal.ofLexeme,
      Binary64.ofNumeral_of_eq_some (Decimal.ofNumeral?_whole ne all)]
    exact .whole ne all
  | fraction whole_ne whole_all ne all =>
    cases hrole
    rw [Literal.ofLexeme, Binary64.ofNumeral_of_eq_some
      (Decimal.ofNumeral?_fraction whole_ne whole_all ne all)]
    exact .fraction whole_ne whole_all ne all
  | @string content all =>
    cases hrole
    simpa [Literal.ofLexeme] using Denotes.string all
  | @word first later start all =>
    cases hrole
    obtain ⟨k, hk⟩ | hword := Kind.ofWord_cases (first :: later)
    · rw [hk, ← Kind.ofWord_eq_keyword_iff.mp hk]
      exact .keyword k
    · rw [hword]
      exact .identifier start all (Kind.ofWord_eq_identifier_iff.mp hword)
  | blank => cases hrole
  | comment => cases hrole

/-- **What is computed is what is denoted**: a text stands for a literal
exactly when it is a lexeme and the literal is the one worked out from it. -/
theorem denotes_iff {text : List Char} {kind : Kind} {literal : Literal} :
    Denotes text kind literal ↔
      Lexeme text (.lexeme kind) ∧ literal = Literal.ofLexeme kind text := by
  constructor
  · intro h
    exact ⟨h.lexeme, h.literal_eq⟩
  · rintro ⟨h, rfl⟩
    exact h.denotes

/-- **Every token of a source is denoted by its lexeme**, but for the end of
the source, which has none. -/
theorem eq_eof_or_denotes_of_mem_tokensOf {source : String} {t : Token}
    (h : t ∈ tokensOf source) :
    t = .eof (Position.start.after source.toList) ∨
      Denotes t.lexeme.toList t.kind t.literal := by
  rw [tokensOf, List.mem_append, List.mem_singleton] at h
  obtain h | rfl := h
  · obtain ⟨front, piece, rest, kind, hpieces, hrole, rfl⟩ :=
      exists_lexeme_of_mem_collectFrom h
    have hmem : piece ∈ pieces source.toList := by simp [hpieces]
    refine .inr ?_
    simpa [Token.ofLexeme] using
      (lexeme_of_mem_pieces piece hmem kind hrole).denotes
  · exact .inl rfl

/-! ## Blanks -/

/-- A lexeme that is no string holds no blank. -/
theorem Denotes.isBlank_of_mem {text : List Char} {kind : Kind}
    {literal : Literal} (h : Denotes text kind literal)
    (hkind : kind ≠ .string) : ∀ c ∈ text, isBlank c = false := by
  have hdigit : ∀ {c}, isDigit c = true → isBlank c = false := fun hc =>
    isBlank_of_isWordChar (isWordChar_of_isDigit hc)
  have hword : ∀ {first : Char} {later : List Char},
      isWordStart first = true → (∀ c ∈ later, isWordChar c = true) →
      ∀ c ∈ first :: later, isBlank c = false := by
    intro first later start all c hc
    obtain rfl | hc := List.mem_cons.mp hc
    · exact isBlank_of_isWordChar (isWordChar_of_isWordStart start)
    · exact isBlank_of_isWordChar (all c hc)
  cases h with
  | symbol s =>
    have hall : ∀ s : Symbol, s.spelling.all (fun c => !isBlank c) = true := by
      intro s
      cases s <;> decide
    intro c hc
    simpa using List.all_eq_true.mp (hall s) c hc
  | keyword k =>
    obtain ⟨first, later, htext, start, all⟩ := k.exists_toList_text
    rw [htext]
    exact hword start all
  | identifier start all => exact hword start all
  | string => exact absurd rfl hkind
  | whole _ all => exact fun c hc => hdigit (all c hc)
  | fraction _ whole_all _ all =>
    intro c hc
    obtain hc | hc := List.mem_append.mp hc
    · exact hdigit (whole_all c hc)
    obtain rfl | hc := List.mem_cons.mp hc
    · decide
    · exact hdigit (all c hc)

/-- A word is no string. -/
theorem Kind.ofWord_ne_string (word : List Char) : ofWord word ≠ .string := by
  obtain ⟨k, hk⟩ | hk := ofWord_cases word <;> rw [hk] <;> exact Kind.noConfusion

namespace CutOff

variable {piece : Piece} {rest : List Char}

/-- A piece holds no blank unless it is a gap or begins with a quote. -/
theorem isBlank_of_mem (h : CutOff piece rest) (hgap : piece.role ≠ .gap)
    (hstring : piece.role ≠ .lexeme .string)
    (closed : piece.role ≠ .faulty .unterminatedString) :
    ∀ c ∈ piece.text, isBlank c = false := by
  cases hrole : piece.role with
  | gap => exact absurd hrole hgap
  | lexeme kind =>
    have hlexeme := h.lexeme (by simp [hrole])
    rw [hrole] at hlexeme hstring
    exact hlexeme.denotes.isBlank_of_mem fun hkind => hstring (hkind ▸ rfl)
  | faulty fault =>
    cases h with
    | unterminated => exact absurd rfl closed
    | @unexpected c _ _ not_code =>
      rw [← Bool.not_eq_true, isCode_iff, not_or, not_or] at not_code
      simpa using not_code.2.1
    | _ => cases hrole

/-- A string is a content in quotes. -/
theorem exists_content (h : CutOff piece rest)
    (hstring : piece.role = .lexeme .string) :
    ∃ content, piece.text = '"' :: content ++ ['"'] := by
  cases h with
  | @string content => exact ⟨content, rfl⟩
  | word => exact absurd (Role.lexeme.inj hstring) (Kind.ofWord_ne_string _)
  | _ => cases hstring

/-- An open string is a quote and a content. -/
theorem exists_open_content (h : CutOff piece rest)
    (hopen : piece.role = .faulty .unterminatedString) :
    ∃ content, piece.text = '"' :: content := by
  cases h with
  | @unterminated content => exact ⟨content, rfl⟩
  | _ => cases hopen

/-- Only a gap begins with a line feed. -/
theorem head?_ne_lineFeed (h : CutOff piece rest) (hgap : piece.role ≠ .gap) :
    piece.text.head? ≠ some '\n' := by
  by_cases hstring : piece.role = .lexeme .string
  · obtain ⟨content, htext⟩ := h.exists_content hstring
    simp [htext]
  by_cases hopen : piece.role = .faulty .unterminatedString
  · obtain ⟨content, htext⟩ := h.exists_open_content hopen
    simp [htext]
  intro hhead
  have hblank := h.isBlank_of_mem hgap hstring hopen '\n' (List.mem_of_head? hhead)
  exact absurd hblank (by decide)

end CutOff

end LoxLexer
