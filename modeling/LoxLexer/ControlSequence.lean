/-!
# Control sequences

A text that is quoted in a message may hold characters that a terminal obeys
and does not show: single control characters, and sequences that begin with an
escape character. `visible` leaves these out, so that a quoted text cannot
colour, move or retitle anything.

There are four forms of sequence.

* A short one is the escape character, any number of characters from the blank
  to the slash, and one character that ends it.
* One with a square bracket runs to the first character from `@` to `~`.
* A device string has a header, of parameters and of characters from the blank
  to the slash. Behind the header it is a string like the following.
* A string runs to the escape character of the sequence that ends it, or to
  its terminator: the byte `9C`, or a bell if the string is a title. A header
  has no terminator.

Whatever the form, a cancelling character ends it at once, and a sequence that
the end of the text cuts short is left out as well.

Tabs, line feeds, form feeds and carriage returns lay out a text. They are
shown even inside a short sequence or one with a bracket, which they
interrupt. What becomes of an interrupted sequence depends on the reader
(`Interruption`): either it is over, or the text behind the interruption is
shown until the next control character, and there the sequence goes on.

However a text is read, nothing is added to it (`Reading.shown_sublist`), and
it is left as it is exactly when it controls nothing (`visible_eq_self_iff`).
-/

namespace LoxLexer

/-- Whether a character lays out a text. -/
def isLayout (c : Char) : Bool :=
  c = '\t' || c = '\n' || c = '\x0c' || c = '\r'

/-- Whether a character controls a terminal, by its place in ASCII. -/
def isControl (c : Char) : Bool :=
  c.toNat < 0x20 || c.toNat = 0x7f

/-- Whether a character terminates a string that is no title, which it does
when its form in UTF-8 holds the byte for that. -/
def terminatesString (c : Char) : Bool :=
  (String.utf8EncodeChar c).contains 0x9c

/-- What a layout character does to the sequence that it interrupts. -/
inductive Interruption where
  /-- It ends the sequence. -/
  | ends
  /-- It pauses the sequence, which the next control character resumes. A
  character beyond ASCII ends the pause and the sequence. -/
  | pauses
deriving DecidableEq, Repr

/-- Where in a sequence a reader stands. -/
inductive Sequence where
  /-- Behind the escape character. -/
  | escape
  /-- In a short sequence, in its middle. -/
  | short
  /-- In a sequence with a square bracket. -/
  | bracket
  /-- In a device string, at the beginning of its header. -/
  | device
  /-- In a device string, among the parameters of its header. -/
  | parameters
  /-- In a device string, behind the parameters of its header. -/
  | headerEnd
  /-- In a string that is no title, or in a device string behind its header. -/
  | string
  /-- In a string that is a title. -/
  | title
deriving DecidableEq, Repr

namespace Sequence

/-- Whether layout characters are shown in a sequence, and interrupt it. -/
def interruptible : Sequence → Bool
  | escape | short | bracket => true
  | _ => false

/-- Where a reader stands behind the next character of a sequence, if not
behind its end. Escape and cancelling characters are dealt with elsewhere, and
so are those that interrupt. Where a character has no meaning, it is passed
over. -/
def next? (s : Sequence) (c : Char) : Option Sequence :=
  match s with
  | escape =>
    if c = '[' then some bracket
    else if c = ']' then some title
    else if c = 'P' then some device
    else if c = 'X' ∨ c = '^' ∨ c = '_' then some string
    else if ' ' ≤ c ∧ c ≤ '/' then some short
    else if '0' ≤ c ∧ c ≤ '~' then none
    else some escape
  | short => if '0' ≤ c ∧ c ≤ '~' then none else some short
  | bracket => if '@' ≤ c ∧ c ≤ '~' then none else some bracket
  | device =>
    if ' ' ≤ c ∧ c ≤ '/' then some headerEnd
    else if '0' ≤ c ∧ c ≤ '?' then some parameters
    else if '@' ≤ c ∧ c ≤ '~' then some string
    else some device
  | parameters =>
    if ' ' ≤ c ∧ c ≤ '/' then some headerEnd
    else if '<' ≤ c ∧ c ≤ '~' then some string
    else some parameters
  | headerEnd => if '0' ≤ c ∧ c ≤ '~' then some string else some headerEnd
  | string => if terminatesString c then none else some string
  | title => if c = '\x07' then none else some title

end Sequence

/-- Where in a text a reader stands. -/
inductive Reading where
  /-- Outside all sequences. -/
  | outside
  /-- In a sequence. -/
  | inside (s : Sequence)
  /-- In the pause of a sequence. -/
  | paused (s : Sequence)
deriving DecidableEq, Repr

namespace Reading

/-- Where a reader stands behind a layout character that interrupts a
sequence. -/
def interrupted (s : Sequence) : Interruption → Reading
  | .ends => outside
  | .pauses => paused s

/-- Whether a character is shown. -/
def shows : Reading → Char → Bool
  | inside s, c => s.interruptible && isLayout c
  | _, c => !isControl c || isLayout c

/-- Where a reader stands behind a character. -/
def next (i : Interruption) (r : Reading) (c : Char) : Reading :=
  if c = '\x1b' then inside .escape
  else if c = '\x18' ∨ c = '\x1a' then outside
  else match r with
    | outside => outside
    | inside s =>
      if s.interruptible ∧ isLayout c then interrupted s i
      else match s.next? c with
        | some s => inside s
        | none => outside
    | paused s =>
      if c.toNat ≥ 0x80 then outside
      else if isControl c ∧ ¬ isLayout c then inside s
      else paused s

/-- The characters of a text that are shown. -/
def shown (i : Interruption) (r : Reading) : List Char → List Char
  | [] => []
  | c :: cs =>
    if r.shows c then c :: (r.next i c).shown i cs
    else (r.next i c).shown i cs

/-- A character that is shown controls nothing, but may lay out the text. -/
theorem isLayout_of_shows {r : Reading} {c : Char} (h : r.shows c = true)
    (control : isControl c = true) : isLayout c = true := by
  cases r <;> simp_all [shows]

/-- What is shown stands in the text, in the same order. -/
theorem shown_sublist (i : Interruption) (r : Reading) (text : List Char) :
    (r.shown i text).Sublist text := by
  induction text generalizing r with
  | nil => exact .slnil
  | cons c cs ih =>
    rw [shown]
    split
    · exact (ih _).cons_cons c
    · exact (ih _).cons c

/-- Nothing is shown that controls, but for what lays out the text. -/
theorem isLayout_of_mem_shown {i : Interruption} {r : Reading}
    {text : List Char} {c : Char} (h : c ∈ r.shown i text)
    (control : isControl c = true) : isLayout c = true := by
  induction text generalizing r with
  | nil => cases h
  | cons d cs ih =>
    rw [shown] at h
    split at h
    · next hshows =>
      obtain rfl | h := List.mem_cons.mp h
      · exact isLayout_of_shows hshows control
      · exact ih h
    · exact ih h

/-- Outside all sequences, a text that controls nothing is shown as it is. -/
theorem shown_of_layout (i : Interruption) {text : List Char}
    (h : ∀ c ∈ text, isControl c = true → isLayout c = true) :
    outside.shown i text = text := by
  induction text with
  | nil => rfl
  | cons c cs ih =>
    have hc := h c List.mem_cons_self
    have hnext : outside.next i c = outside := by
      have hesc : c ≠ '\x1b' := by
        rintro rfl
        revert hc
        decide
      simp [next, hesc]
    have hshows : outside.shows c = true := by
      cases hcontrol : isControl c <;> simp_all [shows]
    rw [shown, if_pos hshows, hnext,
      ih fun d hd => h d (List.mem_cons_of_mem c hd)]

end Reading

/-- A text without its control characters and sequences. -/
def visible (i : Interruption) (text : List Char) : List Char :=
  Reading.outside.shown i text

/-- **A text is left as it is exactly when it controls nothing**, but for its
layout. -/
theorem visible_eq_self_iff {i : Interruption} {text : List Char} :
    visible i text = text ↔
      ∀ c ∈ text, isControl c = true → isLayout c = true := by
  constructor
  · intro h c hc
    rw [← h] at hc
    exact Reading.isLayout_of_mem_shown hc
  · exact Reading.shown_of_layout i

/-- What is visible stays so, whichever way it is read again. -/
theorem visible_visible (i j : Interruption) (text : List Char) :
    visible i (visible j text) = visible j text :=
  visible_eq_self_iff.mpr fun _ => Reading.isLayout_of_mem_shown

example : visible .ends (visible .pauses "\x1b[\tm\x01n".toList) =
    "\tm".toList := by
  decide

end LoxLexer
