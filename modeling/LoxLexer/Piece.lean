import LoxLexer.Character
import LoxLexer.Kind
import LoxLexer.LexError

/-!
# Pieces of a source

A scan cuts its source into pieces from left to right and leaves nothing out.
A piece is a lexeme, a gap – one blank, or a comment – or the text to which a
fault is put down. Which piece comes next is settled by the characters ahead
and by nothing before them: there is no state that one piece hands to the
next. That is why a scan can be taken up at any boundary between two pieces.

Every piece is as long as it can be. Words and numbers run to the last
character that they can hold; a symbol takes an equals sign where one makes
it another symbol; a comment runs up to the end of its line. The one place
where two characters ahead have to be known is the point of a number, which
belongs to it only when a digit follows.

The main statements here are that a piece and the rest make up what was ahead
(`text_append_next`), that a piece is never empty (`text_next_ne_nil`), and
that the pieces of a source make up the source (`flatMap_text_pieces`).
-/

namespace LoxLexer

/-- What a piece of a source is to the scan. -/
inductive Role where
  /-- A lexeme, which becomes a token. -/
  | lexeme (kind : Kind)
  /-- A blank or a comment, which is skipped. -/
  | gap
  /-- A text that is put down to a fault, and reported. -/
  | faulty (fault : Fault)
deriving DecidableEq, Repr

/-- A piece of a source. -/
structure Piece where
  /-- The characters of the piece. -/
  text : List Char
  /-- What the piece is. -/
  role : Role
deriving DecidableEq, Repr

namespace Piece

/-! ## Cutting off one piece

Each of the following takes the characters ahead apart into a piece and the
rest. The last of them, `next`, decides by the first character which of the
others it is a case for. -/

/-- After a quote: the string up to the next quote, or, where there is none,
all that is left as an unclosed string. -/
def nextString (ahead : List Char) : Piece × List Char :=
  match ahead.dropWhile (· ≠ '"') with
  | [] => (⟨'"' :: ahead, .faulty .unterminatedString⟩, [])
  | quote :: rest =>
    (⟨'"' :: ahead.takeWhile (· ≠ '"') ++ [quote], .lexeme .string⟩, rest)

/-- The fraction of a number, with the point in front of it, if the characters
ahead begin with one, and the rest. -/
def nextFraction (ahead : List Char) : List Char × List Char :=
  match ahead with
  | '.' :: digit :: rest =>
    if isDigit digit then
      ('.' :: digit :: rest.takeWhile isDigit, rest.dropWhile isDigit)
    else ([], ahead)
  | _ => ([], ahead)

/-- After a digit: the number that begins with it. -/
def nextNumber (digit : Char) (ahead : List Char) : Piece × List Char :=
  let fraction := nextFraction (ahead.dropWhile isDigit)
  (⟨digit :: ahead.takeWhile isDigit ++ fraction.1, .lexeme .number⟩,
    fraction.2)

/-- After a letter or an underscore: the word that begins with it. -/
def nextWord (first : Char) (ahead : List Char) : Piece × List Char :=
  let word := first :: ahead.takeWhile isWordChar
  (⟨word, .lexeme (.ofWord word)⟩, ahead.dropWhile isWordChar)

/-- After the first stroke of a comment: the comment, up to the end of its
line. The line feed is left for a piece of its own. -/
def nextComment (ahead : List Char) : Piece × List Char :=
  (⟨'/' :: ahead.takeWhile (· ≠ '\n'), .gap⟩, ahead.dropWhile (· ≠ '\n'))

/-- After a character that is a symbol: that symbol, or the one that it makes
with an equals sign. -/
def nextSymbol (s : Symbol) (first : Char) (ahead : List Char) :
    Piece × List Char :=
  match s.withEqual?, ahead with
  | some t, '=' :: rest => (⟨[first, '='], .lexeme (.symbol t)⟩, rest)
  | _, _ => (⟨[first], .lexeme (.symbol s)⟩, ahead)

/-- The piece that begins with the character `first`, when `ahead` are the
characters after it, and the rest of these. -/
def next (first : Char) (ahead : List Char) : Piece × List Char :=
  if isBlank first then (⟨[first], .gap⟩, ahead)
  else if first = '"' then nextString ahead
  else if isDigit first then nextNumber first ahead
  else if isWordStart first then nextWord first ahead
  else if first = '/' ∧ ahead.head? = some '/' then nextComment ahead
  else
    match Symbol.ofChar? first with
    | some s => nextSymbol s first ahead
    | none => (⟨[first], .faulty (.unexpectedCharacter first)⟩, ahead)

/-! ## A piece and the rest -/

/-- A string, closed or not, and the rest make up what was ahead. -/
theorem text_append_nextString (ahead : List Char) :
    (nextString ahead).1.text ++ (nextString ahead).2 = '"' :: ahead := by
  have h := List.takeWhile_append_dropWhile (p := (· ≠ '"')) (l := ahead)
  rw [nextString]
  split
  · simp
  · next quote rest heq =>
    rw [heq] at h
    simpa using h

/-- A fraction and the rest make up what was ahead. -/
theorem append_nextFraction (ahead : List Char) :
    (nextFraction ahead).1 ++ (nextFraction ahead).2 = ahead := by
  unfold nextFraction
  split
  · split
    · simp
    · rfl
  · rfl

/-- A number and the rest make up what was ahead. -/
theorem text_append_nextNumber (digit : Char) (ahead : List Char) :
    (nextNumber digit ahead).1.text ++ (nextNumber digit ahead).2 =
      digit :: ahead := by
  simp [nextNumber, append_nextFraction]

/-- A word and the rest make up what was ahead. -/
theorem text_append_nextWord (first : Char) (ahead : List Char) :
    (nextWord first ahead).1.text ++ (nextWord first ahead).2 =
      first :: ahead := by
  simp [nextWord]

/-- A comment and the rest make up what was ahead. -/
theorem text_append_nextComment (ahead : List Char) :
    (nextComment ahead).1.text ++ (nextComment ahead).2 = '/' :: ahead := by
  simp [nextComment]

/-- A symbol and the rest make up what was ahead. -/
theorem text_append_nextSymbol (s : Symbol) (first : Char)
    (ahead : List Char) :
    (nextSymbol s first ahead).1.text ++ (nextSymbol s first ahead).2 =
      first :: ahead := by
  unfold nextSymbol
  split <;> rfl

/-- A piece and the rest make up what was ahead. -/
theorem text_append_next (first : Char) (ahead : List Char) :
    (next first ahead).1.text ++ (next first ahead).2 = first :: ahead := by
  unfold next
  split
  · rfl
  split
  · next h => rw [text_append_nextString, h]
  split
  · exact text_append_nextNumber first ahead
  split
  · exact text_append_nextWord first ahead
  split
  · next h => rw [text_append_nextComment, h.1]
  split
  · exact text_append_nextSymbol _ first ahead
  · rfl

/-- A piece begins with the character that it was cut off at. -/
theorem head?_text_next (first : Char) (ahead : List Char) :
    (next first ahead).1.text.head? = some first := by
  unfold next nextString nextNumber nextWord nextComment nextSymbol
  split
  · rfl
  split
  · next h => split <;> simp [h]
  split
  · simp
  split
  · simp
  split
  · next h => simp [h.1]
  split
  · split <;> rfl
  · rfl

/-- A piece is never empty. -/
theorem text_next_ne_nil (first : Char) (ahead : List Char) :
    (next first ahead).1.text ≠ [] := by
  intro h
  simpa [h] using head?_text_next first ahead

/-- The rest is no longer than what followed the first character. -/
theorem length_next_le (first : Char) (ahead : List Char) :
    (next first ahead).2.length ≤ ahead.length := by
  have happ := congrArg List.length (text_append_next first ahead)
  have hpos := List.length_pos_iff.mpr (text_next_ne_nil first ahead)
  simp only [List.length_append, List.length_cons] at happ
  omega

end Piece

/-! ## All pieces of a source -/

/-- The pieces of a source in front of which the pieces `done`, the last one
first, have been cut off already. -/
def piecesAfter (done : List Piece) : List Char → List Piece
  | [] => done.reverse
  | first :: ahead =>
    piecesAfter ((Piece.next first ahead).1 :: done) (Piece.next first ahead).2
termination_by source => source.length
decreasing_by
  have := Piece.length_next_le first ahead
  simp only [List.length_cons]
  omega

/-- The pieces of a source, from left to right. -/
def pieces (source : List Char) : List Piece :=
  piecesAfter [] source

/-- The pieces cut off already stay in front. -/
theorem piecesAfter_append (done before : List Piece) (source : List Char) :
    piecesAfter (done ++ before) source =
      before.reverse ++ piecesAfter done source := by
  fun_induction piecesAfter done source with
  | case1 done => simp [piecesAfter]
  | case2 done first ahead ih => rw [piecesAfter, ← ih, List.cons_append]

@[simp] theorem pieces_nil : pieces [] = [] := by
  simp [pieces, piecesAfter]

/-- The pieces of a source are the first one, and the pieces of the rest. -/
theorem pieces_cons (first : Char) (ahead : List Char) :
    pieces (first :: ahead) =
      (Piece.next first ahead).1 :: pieces (Piece.next first ahead).2 := by
  have h := piecesAfter_append [] [(Piece.next first ahead).1]
    (Piece.next first ahead).2
  rw [pieces, piecesAfter]
  exact h

/-- To show something of all sources, it is enough to show it of the empty
one, and of one that goes on from its first piece to a rest for which it
holds. -/
theorem pieces_induction {motive : List Char → Prop} (nil : motive [])
    (cons : ∀ first ahead, motive (Piece.next first ahead).2 →
      motive (first :: ahead)) (source : List Char) : motive source := by
  match source with
  | [] => exact nil
  | first :: ahead =>
    exact cons first ahead
      (pieces_induction nil cons (Piece.next first ahead).2)
termination_by source.length
decreasing_by
  have := Piece.length_next_le first ahead
  simp only [List.length_cons]
  omega

/-- The pieces of a source make up the source. -/
theorem flatMap_text_pieces (source : List Char) :
    (pieces source).flatMap Piece.text = source := by
  induction source using pieces_induction with
  | nil => simp
  | cons first ahead ih =>
    rw [pieces_cons, List.flatMap_cons, ih, Piece.text_append_next]

/-- No piece of a source is empty. -/
theorem text_ne_nil_of_mem_pieces (source : List Char) :
    ∀ p ∈ pieces source, p.text ≠ [] := by
  induction source using pieces_induction with
  | nil => simp
  | cons first ahead ih =>
    rw [pieces_cons]
    rintro p (_ | ⟨_, hp⟩)
    · exact Piece.text_next_ne_nil first ahead
    · exact ih p hp

end LoxLexer
