/-!
# Positions in a source

Places in a source are counted in two ways. Offsets are in bytes of its UTF-8
form, so a character moves the offset by one to four. Lines are counted from
one and end at line feeds alone; a carriage return is a blank like any other.

`Position` is a place counted in both ways at once, and `Position.after` says
how a text moves it. Moving over two texts one after the other is moving over
both together (`after_append`), which is all that is ever needed of it.
-/

namespace LoxLexer

/-- The length of a text in bytes of UTF-8. -/
def byteLength (text : List Char) : Nat :=
  text.foldl (fun n c => n + c.utf8Size) 0

/-- The number of line feeds in a text. -/
def lineFeeds (text : List Char) : Nat :=
  text.count '\n'

/-- A range of bytes of a source, from `start` up to and without `stop`. -/
structure Span where
  /-- The first byte of the range. -/
  start : Nat
  /-- The first byte after the range. -/
  stop : Nat
deriving DecidableEq, Repr

/-- A place in a source. -/
structure Position where
  /-- The bytes before it. -/
  offset : Nat
  /-- Its line, counted from one. -/
  line : Nat
deriving DecidableEq, Repr

namespace Position

/-- The beginning of a source. -/
def start : Position :=
  ⟨0, 1⟩

/-- The place that is reached from `p` by passing over a text. -/
def after (p : Position) (text : List Char) : Position :=
  ⟨p.offset + byteLength text, p.line + lineFeeds text⟩

end Position

/-! ## Lengths of joined texts -/

@[simp] theorem byteLength_nil : byteLength [] = 0 := rfl

/-- Counting on from `n` adds `n` to the count. -/
theorem foldl_utf8Size (text : List Char) (n : Nat) :
    text.foldl (fun n c => n + c.utf8Size) n = n + byteLength text := by
  induction text generalizing n with
  | nil => rfl
  | cons c cs ih =>
    rw [byteLength, List.foldl_cons, List.foldl_cons, ih, ih, Nat.zero_add,
      Nat.add_assoc]

/-- A character in front adds its bytes. -/
@[simp] theorem byteLength_cons (c : Char) (cs : List Char) :
    byteLength (c :: cs) = c.utf8Size + byteLength cs := by
  rw [byteLength, List.foldl_cons, foldl_utf8Size, Nat.zero_add]

/-- The bytes of joined texts add up. -/
@[simp] theorem byteLength_append (a b : List Char) :
    byteLength (a ++ b) = byteLength a + byteLength b := by
  induction a with
  | nil => simp
  | cons c cs ih => simp [ih, Nat.add_assoc]

/-- A text that has characters has bytes. -/
theorem byteLength_pos {text : List Char} (h : text ≠ []) :
    0 < byteLength text := by
  cases text with
  | nil => exact absurd rfl h
  | cons c cs =>
    have := c.utf8Size_pos
    simp only [byteLength_cons]
    omega

/-- The bytes of a string are those of its characters. -/
theorem byteLength_toList (s : String) :
    byteLength s.toList = s.utf8ByteSize := by
  have h : ∀ l : List Char, byteLength l = (String.ofList l).utf8ByteSize := by
    intro l
    induction l with
    | nil => rfl
    | cons c cs ih => simp [String.ofList_cons, ih]
  rw [h, String.ofList_toList]

@[simp] theorem lineFeeds_nil : lineFeeds [] = 0 := rfl

/-- The line feeds of joined texts add up. -/
@[simp] theorem lineFeeds_append (a b : List Char) :
    lineFeeds (a ++ b) = lineFeeds a + lineFeeds b :=
  List.count_append

/-! ## Moving over joined texts -/

namespace Position

/-- The offset moves by the bytes of the text. -/
@[simp] theorem offset_after (p : Position) (text : List Char) :
    (p.after text).offset = p.offset + byteLength text := rfl

/-- The line moves by the line feeds of the text. -/
@[simp] theorem line_after (p : Position) (text : List Char) :
    (p.after text).line = p.line + lineFeeds text := rfl

@[simp] theorem after_nil (p : Position) : p.after [] = p := rfl

/-- Passing over two texts in turn is passing over both together. -/
theorem after_append (p : Position) (a b : List Char) :
    p.after (a ++ b) = (p.after a).after b := by
  simp [after, Nat.add_assoc]

end Position

end LoxLexer
