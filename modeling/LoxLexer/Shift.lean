import LoxLexer.Scan

/-!
# Tokens and errors further on

The same text, further on in a source, gives the same tokens and errors with
other positions. `shift` moves a token or an error on by some bytes and some
lines, and leaves the rest of it alone.

Tokens and errors have this in common, and what is collected of pieces needs
nothing else to be known of it: where it stands, that it moves on with its
piece, and that a gap comes to nothing. `Placed` says so of whatever pieces
come to. The main statements are that a scan knows of what stands before it by
its place alone: what pieces that stand further on come to is shifted by as
much (`Placed.collectFrom_shift`), and the pieces of two texts in turn come to
what those of the first do and, further on, those of the second
(`collectFrom_append`).
-/

namespace LoxLexer

/-- A span some bytes further on. -/
def Span.shift (bytes : Nat) (s : Span) : Span :=
  ⟨s.start + bytes, s.stop + bytes⟩

/-- A place some bytes and lines further on. -/
def Position.shift (bytes lines : Nat) (p : Position) : Position :=
  ⟨p.offset + bytes, p.line + lines⟩

/-- A token some bytes and lines further on. -/
def Token.shift (bytes lines : Nat) (t : Token) : Token :=
  { t with line := t.line + lines, span := t.span.shift bytes }

/-- An error some bytes and lines further on. -/
def LexError.shift (bytes lines : Nat) (e : LexError) : LexError :=
  { e with line := e.line + lines, span := e.span.shift bytes }

/-- Moving on twice is moving on by both together. -/
theorem Token.shift_shift (t : Token) (a b c d : Nat) :
    (t.shift a b).shift c d = t.shift (a + c) (b + d) := by
  simp [shift, Span.shift, Nat.add_assoc]

/-- Moving on twice is moving on by both together. -/
theorem LexError.shift_shift (e : LexError) (a b c d : Nat) :
    (e.shift a b).shift c d = e.shift (a + c) (b + d) := by
  simp [shift, Span.shift, Nat.add_assoc]

/-- Passing over a text and moving on may be done in either order. -/
theorem Position.after_shift (p : Position) (bytes lines : Nat)
    (text : List Char) :
    (p.shift bytes lines).after text = (p.after text).shift bytes lines := by
  simp [Position.shift, Position.after, Nat.add_right_comm]

/-- Passing over a text from the start moves on by its bytes and line
feeds. -/
theorem Position.after_eq_shift (p : Position) (text : List Char) :
    p.after text = p.shift (byteLength text) (lineFeeds text) := rfl

/-- The token of a lexeme moves on with it. -/
theorem Token.ofLexeme_shift (kind : Kind) (lexeme : List Char) (p : Position)
    (bytes lines : Nat) :
    Token.ofLexeme kind lexeme (p.shift bytes lines) =
      (Token.ofLexeme kind lexeme p).shift bytes lines := by
  simp [Token.ofLexeme, Token.shift, Span.shift, Position.shift,
    Nat.add_right_comm]

/-- The error of a piece moves on with it. -/
theorem LexError.atPiece_shift (fault : Fault) (text : List Char) (p : Position)
    (bytes lines : Nat) :
    LexError.atPiece fault text (p.shift bytes lines) =
      (LexError.atPiece fault text p).shift bytes lines := by
  simp [LexError.atPiece, LexError.shift, Span.shift, Position.shift,
    Nat.add_right_comm]

/-! ## What pieces come to -/

/-- What pieces in turn come to is what the first do, and what the others do
behind their texts. -/
theorem collectFrom_append {α : Type} (f : Piece → Position → Option α)
    (p : Position) (ps qs : List Piece) :
    collectFrom f p (ps ++ qs) =
      collectFrom f p ps ++
        collectFrom f (p.after (ps.flatMap Piece.text)) qs := by
  induction ps generalizing p with
  | nil => simp [collectFrom]
  | cons piece later ih => simp [collectFrom, ih, Position.after_append]

/-- **What pieces come to has its place from them**: `span` says where it
stands, and `shift` moves it on by some bytes and some lines. -/
structure Placed {α : Type} (f : Piece → Position → Option α)
    (span : α → Span) (shift : Nat → Nat → α → α) : Prop where
  /-- It stands where the piece does. -/
  span_eq : ∀ {piece p a}, f piece p = some a →
    span a = ⟨p.offset, (p.after piece.text).offset⟩
  /-- It moves on with the piece. -/
  shift_eq : ∀ piece p bytes lines,
    f piece (p.shift bytes lines) = (f piece p).map (shift bytes lines)
  /-- A gap comes to nothing. -/
  gap_eq : ∀ {piece}, piece.role = .gap → ∀ p, f piece p = none

/-- Tokens have their places from pieces. -/
theorem Token.placed : Placed Piece.token? Token.span Token.shift where
  span_eq h := by
    obtain ⟨kind, -, rfl⟩ := Piece.exists_of_token?_eq_some h
    rfl
  shift_eq piece p bytes lines := by
    cases hrole : piece.role <;>
      simp [Piece.token?, hrole, Token.ofLexeme_shift]
  gap_eq h _ := by rw [Piece.token?, h]

/-- Errors have their places from pieces. -/
theorem LexError.placed : Placed Piece.error? LexError.span LexError.shift where
  span_eq h := by
    obtain ⟨fault, -, rfl⟩ := Piece.exists_of_error?_eq_some h
    rfl
  shift_eq piece p bytes lines := by
    cases hrole : piece.role <;>
      simp [Piece.error?, hrole, LexError.atPiece_shift]
  gap_eq h _ := by rw [Piece.error?, h]

namespace Placed

variable {α : Type} {f : Piece → Position → Option α} {span : α → Span}
  {shift : Nat → Nat → α → α} {p : Position} {ps : List Piece} {a : α}

/-- Pieces that stand further on come to the same, further on. -/
theorem collectFrom_shift (h : Placed f span shift) (p : Position)
    (bytes lines : Nat) (ps : List Piece) :
    collectFrom f (p.shift bytes lines) ps =
      (collectFrom f p ps).map (shift bytes lines) := by
  induction ps generalizing p with
  | nil => rfl
  | cons piece later ih =>
    rw [collectFrom, collectFrom, Position.after_shift, ih, List.map_append,
      h.shift_eq, Option.toList_map]

/-- Gaps come to nothing. -/
theorem collectFrom_gaps (h : Placed f span shift)
    (gaps : ∀ piece ∈ ps, piece.role = .gap) (p : Position) :
    collectFrom f p ps = [] := by
  induction ps generalizing p with
  | nil => rfl
  | cons piece later ih =>
    rw [collectFrom, h.gap_eq (gaps piece List.mem_cons_self),
      ih fun q hq => gaps q (List.mem_cons_of_mem _ hq)]
    rfl

/-- What has been collected stands where one of the pieces does. -/
theorem exists_span_eq (h : Placed f span shift)
    (ha : a ∈ collectFrom f p ps) :
    ∃ front piece rest, ps = front ++ piece :: rest ∧
      span a = ⟨(p.after (front.flatMap Piece.text)).offset,
        ((p.after (front.flatMap Piece.text)).after piece.text).offset⟩ := by
  obtain ⟨front, piece, rest, hps, hpiece⟩ := exists_of_mem_collectFrom ha
  exact ⟨front, piece, rest, hps, h.span_eq hpiece⟩

/-- What has been collected does not end before it begins. -/
theorem start_le_stop (h : Placed f span shift)
    (ha : a ∈ collectFrom f p ps) : (span a).start ≤ (span a).stop := by
  obtain ⟨front, piece, rest, -, hspan⟩ := h.exists_span_eq ha
  rw [hspan]
  exact Nat.le_add_right _ _

/-- What has been collected does not begin in front of the place where the
pieces begin. -/
theorem offset_le_start (h : Placed f span shift)
    (ha : a ∈ collectFrom f p ps) : p.offset ≤ (span a).start := by
  obtain ⟨front, piece, rest, -, hspan⟩ := h.exists_span_eq ha
  rw [hspan]
  exact Nat.le_add_right _ _

/-- What has been collected does not end in front of the place where the
pieces begin. -/
theorem offset_le_stop (h : Placed f span shift)
    (ha : a ∈ collectFrom f p ps) : p.offset ≤ (span a).stop :=
  Nat.le_trans (h.offset_le_start ha) (h.start_le_stop ha)

end Placed

end LoxLexer
