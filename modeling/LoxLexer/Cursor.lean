import LoxLexer.Scan

/-!
# Scanning by a cursor

The scan of a source in `LoxLexer.Scan` hands texts around, and works out
offsets by adding up their lengths. This module has the same scan as a machine
that does it the other way about: a cursor runs through the characters of the
source and keeps nothing but offsets, and whatever text is needed is cut out
of the source between two of them.

Offsets can be wrong, and then there is nothing to cut out: a range may end
before it begins, reach beyond the source, or divide a character. The machine
breaks down at such a range (`Breakdown`), and so it does if it has to count
below zero. What a scan comes to is therefore a result or a breakdown, and
every text that is cut out is checked for itself.

So that more can be said of a scan than how it ends, it is watched: at the head
of its loop and before every text that it cuts out it notes where the cursor
stands (`Moment`). Nothing that it does depends on these notes.

The loop ends because a cursor only moves on, and has moved on behind every
token (`length_unread_lt_of_scanToken`).
-/

namespace LoxLexer

universe u

/-! ## Texts in ranges -/

/-- The text in a range of a source, if there is one: the range must not end
before it begins, and has to begin and end between two characters of the
source, or at either end of it. -/
def Span.text? (source : String) (range : Span) : Option String :=
  if h : range.start ≤ range.stop ∧
      String.Pos.Raw.IsValid source ⟨range.start⟩ ∧
      String.Pos.Raw.IsValid source ⟨range.stop⟩ then
    some (source.extract ⟨⟨range.start⟩, h.2.1⟩ ⟨⟨range.stop⟩, h.2.2⟩)
  else none

/-- Why a scan breaks down. -/
inductive Breakdown where
  /-- There is no text in a range. -/
  | noText (range : Span)
  /-- One is to be taken from nothing. -/
  | belowZero
deriving DecidableEq, Repr

/-! ## Moments of a scan -/

/-- What a text is cut out for. -/
inductive Part where
  /-- To be the lexeme of a token. -/
  | lexeme
  /-- To be the value of a string, which stands between its quotes. -/
  | content
  /-- To be read as a number. -/
  | numeral
  /-- To be looked up among the keywords. -/
  | word
deriving DecidableEq, Repr

/-- What a scan is about to do at a moment. -/
inductive Point where
  /-- To begin with the next piece, or to end. -/
  | head
  /-- To cut out the text in a range. -/
  | cut (part : Part) (range : Span)
deriving DecidableEq, Repr

/-- A moment of a scan. -/
structure Moment where
  /-- What the scan is about to do. -/
  point : Point
  /-- The range that the cursor has passed over since the piece began. -/
  span : Span
  /-- The characters that have not been read. -/
  unread : List Char
  /-- The line that has been reached. -/
  line : Nat
deriving DecidableEq, Repr

/-- What can be done by a scan that is watched: it notes moments, and may break
down. -/
abbrev Watched := StateT (Array Moment) (Except Breakdown)

namespace Watched

/-- Notes a moment. -/
def note (m : Moment) : Watched Unit :=
  modify (·.push m)

/-- One less than a number, which must not be zero. -/
def oneLess : Nat → Watched Nat
  | 0 => throw .belowZero
  | n + 1 => return n

/-- What is done after something else is done with its result. -/
theorem exists_of_bind_eq_ok {α β : Type} {x : Watched α} {f : α → Watched β}
    {log log' : Array Moment} {b : β}
    (h : (x >>= f).run log = .ok (b, log')) :
    ∃ a mid, x.run log = .ok (a, mid) ∧ (f a).run mid = .ok (b, log') := by
  rw [StateT.run_bind] at h
  cases hx : x.run log with
  | error => rw [hx] at h; cases h
  | ok r => exact ⟨r.1, r.2, rfl, by rwa [hx] at h⟩

end Watched

/-! ## Moving the cursor -/

/-- A cursor in a source, and what has been found so far. -/
structure Cursor where
  /-- The source. -/
  source : String
  /-- The characters that have not been read. -/
  unread : List Char
  /-- The offset at which reading goes on. -/
  offset : Nat
  /-- The range that has been passed over since the piece began. -/
  span : Span
  /-- The line that has been reached. -/
  line : Nat
  /-- The line on which the piece began. -/
  startLine : Nat
  /-- The tokens found so far. -/
  tokens : Array Token

namespace Cursor

/-- A cursor at the beginning of a source. -/
def new (source : String) : Cursor where
  source := source
  unread := source.toList
  offset := 0
  span := ⟨0, 0⟩
  line := 1
  startLine := 1
  tokens := #[]

/-- The next character and its offset, unless all have been read. -/
def peek? (c : Cursor) : Option (Nat × Char) :=
  c.unread.head?.map (fun first => (c.offset, first))

/-- Reads a character. The range that has been passed over then goes up to the
next one, or to the end of the source. -/
def advance? (c : Cursor) : Option (Char × Cursor) :=
  match c.unread with
  | [] => none
  | first :: later =>
    let c := { c with unread := later, offset := c.offset + first.utf8Size }
    let stop := match c.peek? with
      | some (offset, _) => offset
      | none => c.source.utf8ByteSize
    some (first, { c with span.stop := stop })

/-- Reads a character if it is one of a class. -/
def advanceIf? (p : Char → Bool) (c : Cursor) : Option Cursor :=
  match c.peek? with
  | some (_, first) => if p first then c.advance?.map Prod.snd else none
  | none => none

/-- Goes on to a new piece. -/
def begin (c : Cursor) : Cursor :=
  { c with span.start := c.span.stop, startLine := c.line }

/-- Goes on to a new line. -/
def newLine (c : Cursor) : Cursor :=
  { c with line := c.line + 1 }

/-- To read a character leaves less to be read. -/
theorem length_unread_of_advance? {c d : Cursor} {first : Char}
    (h : c.advance? = some (first, d)) :
    d.unread.length < c.unread.length := by
  unfold advance? at h
  split at h
  · cases h
  · next hunread =>
    cases h
    simp [hunread]

/-- To read a character of a class leaves less to be read. -/
theorem length_unread_of_advanceIf? {p : Char → Bool} {c d : Cursor}
    (h : c.advanceIf? p = some d) : d.unread.length < c.unread.length := by
  unfold advanceIf? at h
  split at h
  · split at h
    · obtain ⟨⟨first, d⟩, hadvance, rfl⟩ := Option.map_eq_some_iff.mp h
      exact length_unread_of_advance? hadvance
    · cases h
  · cases h

/-- Reads all characters of a class that come next. -/
def advanceWhile (p : Char → Bool) (c : Cursor) : Cursor :=
  match _ : c.advanceIf? p with
  | some d => d.advanceWhile p
  | none => c
termination_by c.unread.length
decreasing_by exact length_unread_of_advanceIf? ‹_›

/-- Reads up to the next quote and over it, counting lines, and tells whether
there is one. -/
def advanceToQuote (c : Cursor) : Bool × Cursor :=
  match _ : c.advance? with
  | none => (false, c)
  | some (first, d) =>
    if first = '"' then (true, d)
    else if first = '\n' then d.newLine.advanceToQuote
    else d.advanceToQuote
termination_by c.unread.length
decreasing_by
  all_goals
    have hless := length_unread_of_advance? ‹_›
    exact hless

/-! ## Cutting out texts -/

/-- The moment at which a scan is, when it is about to do something. -/
def moment (c : Cursor) (point : Point) : Moment :=
  ⟨point, c.span, c.unread, c.line⟩

/-- Cuts out the text in a range. -/
def cut (c : Cursor) (part : Part) (range : Span) : Watched String := do
  .note (c.moment (.cut part range))
  match range.text? c.source with
  | some text => return text
  | none => throw (.noText range)

/-- Adds a token for what has been passed over. -/
def addToken (c : Cursor) (kind : Kind) (literal : Literal) :
    Watched Cursor := do
  let lexeme ← c.cut .lexeme c.span
  return { c with
    tokens := c.tokens.push ⟨kind, lexeme, literal, c.startLine, c.span⟩ }

/-- The error of a fault that is noticed where the cursor stands. -/
def error (c : Cursor) (fault : Fault) : LexError :=
  ⟨fault, c.line, c.span⟩

/-! ## Pieces

Each of the following goes on from the first character of a piece. What is
found wrong with a piece is handed back with the cursor. -/

/-- After a quote. -/
def string (c : Cursor) : Watched (Option LexError × Cursor) :=
  match c.advanceToQuote with
  | (false, c) => return (some (c.error .unterminatedString), c)
  | (true, c) => do
    let stop ← .oneLess c.span.stop
    let content ← c.cut .content ⟨c.span.start + 1, stop⟩
    return (none, ← c.addToken .string (.string content))

/-- Whether a point comes next that belongs to a number, since a digit stands
behind it. -/
def atFraction (c : Cursor) : Bool :=
  match c.peek? with
  | some (offset, '.') =>
    match Span.text? c.source ⟨offset + 1, c.source.utf8ByteSize⟩ with
    | some rest => rest.toList.head?.any isDigit
    | none => false
  | _ => false

/-- Reads the fraction of a number, with the point in front of it, if there is
one. -/
def fraction (c : Cursor) : Cursor :=
  if c.atFraction then
    match c.advance? with
    | some (_, d) => d.advanceWhile isDigit
    | none => c
  else c

/-- After a digit. -/
def number (c : Cursor) : Watched Cursor := do
  let c := (c.advanceWhile isDigit).fraction
  let numeral ← c.cut .numeral c.span
  c.addToken .number (.number (.ofNumeral numeral.toList))

/-- After a letter or an underscore. -/
def word (c : Cursor) : Watched Cursor := do
  let c := c.advanceWhile isWordChar
  let word ← c.cut .word c.span
  c.addToken (.ofWord word.toList) .none

/-- After a stroke. -/
def stroke (c : Cursor) : Watched Cursor :=
  match c.advanceIf? (· = '/') with
  | some c => return c.advanceWhile (· ≠ '\n')
  | none => c.addToken (.symbol .slash) .none

/-- After a character that is a symbol. -/
def symbol (c : Cursor) (s : Symbol) : Watched Cursor :=
  match s.withEqual? with
  | none => c.addToken (.symbol s) .none
  | some t =>
    match c.advanceIf? (· = '=') with
    | some c => c.addToken (.symbol t) .none
    | none => c.addToken (.symbol s) .none

/-- Goes on with a piece by its first character. -/
def piece (c : Cursor) (first : Char) : Watched (Option LexError × Cursor) :=
  match Symbol.ofChar? first with
  | some .slash => return (none, ← c.stroke)
  | some s => return (none, ← c.symbol s)
  | none =>
    if first = '\n' then return (none, c.newLine)
    else if isBlank first then return (none, c)
    else if first = '"' then c.string
    else if isDigit first then return (none, ← c.number)
    else if isWordStart first then return (none, ← c.word)
    else return (some (c.error (.unexpectedCharacter first)), c)

/-- Reads a piece. -/
def scanToken (c : Cursor) : Watched (Option LexError × Cursor) :=
  match c.advance? with
  | none => return (none, c)
  | some (first, c) => c.piece first

/-! ## The loop -/

/-- To read all characters of a class leaves no more to be read. -/
theorem length_unread_advanceWhile_le (p : Char → Bool) (c : Cursor) :
    (c.advanceWhile p).unread.length ≤ c.unread.length := by
  fun_induction advanceWhile p c with
  | case1 c d h ih =>
    exact Nat.le_trans ih (Nat.le_of_lt (length_unread_of_advanceIf? h))
  | case2 => exact Nat.le_refl _

/-- To read up to a quote leaves no more to be read. -/
theorem length_unread_advanceToQuote_le (c : Cursor) :
    c.advanceToQuote.2.unread.length ≤ c.unread.length := by
  fun_induction advanceToQuote c with
  | case1 => exact Nat.le_refl _
  | case2 c d h => exact Nat.le_of_lt (length_unread_of_advance? h)
  | case3 c d h _ ih =>
    have hless := length_unread_of_advance? h
    exact Nat.le_trans ih (Nat.le_of_lt hless)
  | case4 c first d h _ _ ih =>
    exact Nat.le_trans ih (Nat.le_of_lt (length_unread_of_advance? h))

variable {c d : Cursor} {error? : Option LexError} {log log' : Array Moment}

/-- To add a token leaves the cursor where it is. -/
theorem unread_of_addToken {kind : Kind} {literal : Literal}
    (h : (c.addToken kind literal).run log = .ok (d, log')) :
    d.unread = c.unread := by
  obtain ⟨lexeme, mid, -, h⟩ := Watched.exists_of_bind_eq_ok h
  cases h
  rfl

/-- A piece with nothing wrong is handed back as it is. -/
theorem run_of_faultless {x : Watched Cursor}
    (h : StateT.run (do return (none, ← x)) log = .ok ((error?, d), log')) :
    x.run log = .ok (d, log') := by
  obtain ⟨e, _, he, h⟩ := Watched.exists_of_bind_eq_ok h
  cases h
  exact he

/-- A string goes forward. -/
theorem length_unread_string_le
    (h : c.string.run log = .ok ((error?, d), log')) :
    d.unread.length ≤ c.unread.length := by
  have hle := length_unread_advanceToQuote_le c
  unfold string at h
  split at h
  · next hquote =>
    cases h
    rwa [hquote] at hle
  · next moved hquote =>
    obtain ⟨stop, _, -, h⟩ := Watched.exists_of_bind_eq_ok h
    obtain ⟨content, _, -, h⟩ := Watched.exists_of_bind_eq_ok h
    rw [hquote] at hle
    rwa [unread_of_addToken (run_of_faultless h)]

/-- A fraction goes forward. -/
theorem length_unread_fraction_le (c : Cursor) :
    c.fraction.unread.length ≤ c.unread.length := by
  unfold fraction
  split
  · split
    · next first d h =>
      exact Nat.le_trans (length_unread_advanceWhile_le isDigit d)
        (Nat.le_of_lt (length_unread_of_advance? h))
    · exact Nat.le_refl _
  · exact Nat.le_refl _

/-- A number goes forward. -/
theorem length_unread_number_le (h : c.number.run log = .ok (d, log')) :
    d.unread.length ≤ c.unread.length := by
  obtain ⟨numeral, _, -, h⟩ := Watched.exists_of_bind_eq_ok h
  rw [unread_of_addToken h]
  exact Nat.le_trans (length_unread_fraction_le _)
    (length_unread_advanceWhile_le isDigit c)

/-- A word goes forward. -/
theorem length_unread_word_le (h : c.word.run log = .ok (d, log')) :
    d.unread.length ≤ c.unread.length := by
  obtain ⟨word, _, -, h⟩ := Watched.exists_of_bind_eq_ok h
  rw [unread_of_addToken h]
  exact length_unread_advanceWhile_le isWordChar c

/-- What a stroke begins goes forward. -/
theorem length_unread_stroke_le (h : c.stroke.run log = .ok (d, log')) :
    d.unread.length ≤ c.unread.length := by
  unfold stroke at h
  split at h
  · next e he =>
    cases h
    exact Nat.le_trans (length_unread_advanceWhile_le _ e)
      (Nat.le_of_lt (length_unread_of_advanceIf? he))
  · exact Nat.le_of_eq (congrArg List.length (unread_of_addToken h))

/-- A symbol goes forward. -/
theorem length_unread_symbol_le {s : Symbol}
    (h : (c.symbol s).run log = .ok (d, log')) :
    d.unread.length ≤ c.unread.length := by
  unfold symbol at h
  split at h
  · exact Nat.le_of_eq (congrArg List.length (unread_of_addToken h))
  · split at h
    · next e he =>
      rw [unread_of_addToken h]
      exact Nat.le_of_lt (length_unread_of_advanceIf? he)
    · exact Nat.le_of_eq (congrArg List.length (unread_of_addToken h))

/-- Going on with a piece never goes back. -/
theorem length_unread_piece_le {first : Char}
    (h : (c.piece first).run log = .ok ((error?, d), log')) :
    d.unread.length ≤ c.unread.length := by
  unfold piece at h
  split at h
  · exact length_unread_stroke_le (run_of_faultless h)
  · exact length_unread_symbol_le (run_of_faultless h)
  split at h
  · cases h
    exact Nat.le_refl _
  split at h
  · cases h
    exact Nat.le_refl _
  split at h
  · exact length_unread_string_le h
  split at h
  · exact length_unread_number_le (run_of_faultless h)
  split at h
  · exact length_unread_word_le (run_of_faultless h)
  · cases h
    exact Nat.le_refl _

/-- **Reading a piece moves on**, unless all has been read. -/
theorem length_unread_lt_of_scanToken (ne : c.unread ≠ [])
    (h : c.scanToken.run log = .ok ((error?, d), log')) :
    d.unread.length < c.unread.length := by
  unfold scanToken at h
  split at h
  · next hadvance =>
    unfold advance? at hadvance
    split at hadvance
    · next hunread => exact absurd hunread ne
    · cases hadvance
  · next first e he =>
    exact Nat.lt_of_le_of_lt (length_unread_piece_le h)
      (length_unread_of_advance? he)

/-- Scans what has not been read, piece after piece, handing every error to a
reporter. -/
def scanFrom {σ : Type u} (report : Reporter σ) (host : σ) (c : Cursor)
    (log : Array Moment) : Except Breakdown (Cursor × σ × Array Moment) :=
  let log := log.push (c.moment .head)
  if _ : c.unread = [] then .ok (c, host, log)
  else
    match _ : c.begin.scanToken.run log with
    | .error breakdown => .error breakdown
    | .ok ((error?, next), log) =>
      next.scanFrom report (error?.elim host (report host)) log
termination_by c.unread.length
decreasing_by
  have ne : c.begin.unread ≠ [] := ‹¬ c.unread = []›
  have hless := length_unread_lt_of_scanToken ne ‹_›
  exact hless

/-- Scans a source by a cursor. The result is the tokens, the last of them the
end of the source, the state in which the reporter is left, and the moments
that the scan has gone through. -/
def scan {σ : Type u} (report : Reporter σ) (host : σ) (source : String) :
    Except Breakdown (List Token × σ × List Moment) := do
  let (c, host, log) ← (new source).scanFrom report host #[]
  let tokens := c.tokens.push (.eof ⟨source.utf8ByteSize, c.line⟩)
  return (tokens.toList, host, log.toList)

end Cursor

end LoxLexer
