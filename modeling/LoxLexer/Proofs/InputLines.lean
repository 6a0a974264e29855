import LoxLexer.Command
import LoxLexer.Proofs.Slice
import Mathlib.Data.List.Basic

/-!
# The lines of a text, and of its bytes

The command takes its standard input for bytes and cuts it into lines before
it asks whether they are UTF-8. A reader thinks of lines of characters:
`textLines` splits a text at its line feeds, takes one carriage return from the
end of every line that a line feed ends, and counts what is behind the last
line feed unless it is empty.

On UTF-8 the two are the same (`inputLines_toByteArray`). The reason is that
the bytes below 128 stand for themselves and occur in no other character, so a
line feed among the bytes is one of the text, and so is a carriage return.

Both ways of cutting are cases of one, `linesOf`, which asks of its elements
only whether they are the two marks. The command cuts any bytes in that way,
whether they are UTF-8 or not (`linesAfter_eq_linesOf`).
-/

namespace LoxLexer

/-! ## Lines of anything -/

section Marks

variable {α : Type} [DecidableEq α]

/-- A line without the mark at its end, if it has one there. -/
def withoutLast (mark : α) (line : List α) : List α :=
  if line.getLast? = some mark then line.dropLast else line

/-- **The lines of a list**, when a feed, or a mark and a feed, ends a line.
What stands behind the last feed is a line of its own unless it is empty, and
keeps a mark at its end. -/
def linesOf (feed mark : α) (xs : List α) : List (List α) :=
  let parts := xs.splitOn feed
  parts.dropLast.map (withoutLast mark) ++
    parts.getLast?.toList.filter (· ≠ [])

variable {feed mark : α}

/-- To show something of all lists, it is enough to show it of those without a
feed, and of one that goes on behind a feed with a list for which it holds. -/
theorem feed_induction (feed : α) {motive : List α → Prop}
    (last : ∀ line, feed ∉ line → motive line)
    (more : ∀ line rest, feed ∉ line → motive rest →
      motive (line ++ feed :: rest)) (xs : List α) : motive xs := by
  by_cases hfeed : feed ∈ xs
  · obtain ⟨line, rest, hxs, hline⟩ := List.eq_append_cons_of_mem hfeed
    rw [hxs]
    exact more line rest hline (feed_induction feed last more rest)
  · exact last xs hfeed
termination_by xs.length
decreasing_by
  simp only [hxs, List.length_append, List.length_cons]
  omega

/-- A list without a feed is one line, if it is not empty. -/
theorem linesOf_of_not_mem {line : List α} (h : feed ∉ line) :
    linesOf feed mark line = if line = [] then [] else [line] := by
  unfold linesOf
  rw [List.splitOn_eq_singleton h]
  split
  · next hnil => simp [hnil]
  · next hne => simp [hne]

/-- The first feed ends the first line. -/
theorem linesOf_append {line : List α} (h : feed ∉ line) (rest : List α) :
    linesOf feed mark (line ++ feed :: rest) =
      withoutLast mark line :: linesOf feed mark rest := by
  have hne := List.splitOn_ne_nil feed rest
  unfold linesOf
  rw [List.splitOn_append_cons_self_of_not_mem h]
  obtain ⟨first, later, hparts⟩ := List.exists_cons_of_ne_nil hne
  simp [hparts]

/-- A mark at the end of a line is taken away. -/
@[simp] theorem withoutLast_append_mark (content : List α) :
    withoutLast mark (content ++ [mark]) = content := by
  simp [withoutLast]

/-- A line that ends in something else stays as it is. -/
theorem withoutLast_eq_self {line : List α}
    (h : line.getLast? ≠ some mark) : withoutLast mark line = line :=
  if_neg h

/-- What is taken away from a line is nothing or a mark. -/
theorem exists_eq_withoutLast_append (mark : α) (line : List α) :
    ∃ behind, line = withoutLast mark line ++ behind ∧
      (behind = [] ∨ behind = [mark]) := by
  by_cases h : line.getLast? = some mark
  · obtain ⟨content, rfl⟩ := List.getLast?_eq_some_iff.mp h
    exact ⟨[mark], by simp, .inr rfl⟩
  · exact ⟨[], by simp [withoutLast_eq_self h], .inl rfl⟩

/-- There is no feed in a line. -/
theorem not_mem_of_mem_linesOf {xs line : List α}
    (h : line ∈ linesOf feed mark xs) : feed ∉ line := by
  induction xs using feed_induction feed with
  | last xs hfeed =>
    rw [linesOf_of_not_mem hfeed] at h
    split at h
    · cases h
    · rwa [List.mem_singleton.mp h]
  | more first rest hfeed ih =>
    rw [linesOf_append hfeed] at h
    obtain rfl | h := List.mem_cons.mp h
    · obtain ⟨behind, heq, -⟩ := exists_eq_withoutLast_append mark first
      exact fun hmem => hfeed (heq ▸ List.mem_append_left behind hmem)
    · exact ih h

end Marks

/-- **The lines of a text**, when a line feed, or a carriage return and a line
feed, ends a line. -/
def textLines (text : List Char) : List (List Char) :=
  linesOf '\n' '\r' text

/-! ## Bytes that stand for themselves -/

/-- A byte below 128 occurs only in the character with its number. -/
theorem toNat_eq_of_mem_utf8EncodeChar {c : Char} {b : UInt8}
    (hb : b.toNat < 128) (h : b ∈ String.utf8EncodeChar c) :
    c.toNat = b.toNat := by
  -- all bytes of a longer character have their highest bit set
  have hhigh : ∀ n, 128 ≤ n % 256 → b ≠ UInt8.ofNat n := by
    rintro n hn rfl
    rw [UInt8.toNat_ofNat'] at hb
    omega
  unfold String.utf8EncodeChar at h
  simp only at h
  split at h
  · rw [List.mem_singleton.mp h, UInt8.toNat_ofNat']
    show c.val.toNat = _
    omega
  split at h
  · simp only [List.mem_cons, List.not_mem_nil, or_false] at h
    obtain h | h := h <;> exact absurd h (hhigh _ (by omega))
  split at h
  · simp only [List.mem_cons, List.not_mem_nil, or_false] at h
    obtain h | h | h := h <;> exact absurd h (hhigh _ (by omega))
  · simp only [List.mem_cons, List.not_mem_nil, or_false] at h
    obtain h | h | h | h := h <;> exact absurd h (hhigh _ (by omega))

/-- The byte of a line feed is a line feed. -/
theorem eq_lineFeed_of_mem {c : Char} (h : 10 ∈ String.utf8EncodeChar c) :
    c = '\n' :=
  Char.toNat_inj.mp (toNat_eq_of_mem_utf8EncodeChar (by decide) h)

/-- The byte of a carriage return is a carriage return. -/
theorem eq_return_of_mem {c : Char} (h : 13 ∈ String.utf8EncodeChar c) :
    c = '\r' :=
  Char.toNat_inj.mp (toNat_eq_of_mem_utf8EncodeChar (by decide) h)

/-- The bytes of a text are those of its characters. -/
theorem utf8_ofList_eq_flatMap (text : List Char) :
    utf8 (String.ofList text) = text.flatMap String.utf8EncodeChar := by
  unfold utf8
  rw [String.toByteArray_ofList]
  exact List.toList_data_toByteArray

/-- Without a line feed a text has no byte of one. -/
theorem not_mem_utf8 {line : List Char} (h : '\n' ∉ line) :
    10 ∉ utf8 (String.ofList line) := by
  rw [utf8_ofList_eq_flatMap, List.mem_flatMap]
  rintro ⟨c, hc, hbyte⟩
  exact h (eq_lineFeed_of_mem hbyte ▸ hc)

/-! ## The command's lines -/

/-- A line feed ends the line in front of it. -/
theorem linesAfter_lineFeed (line bytes : List UInt8) :
    Command.linesAfter line (10 :: bytes) =
      (match line with
        | 13 :: line => line
        | line => line).reverse :: Command.linesAfter [] bytes := by
  rw [Command.linesAfter.eq_def line]
  exact if_pos rfl

/-- Bytes that are no line feed stand before what follows on its line. -/
theorem linesAfter_append {bytes : List UInt8} (h : 10 ∉ bytes)
    (line rest : List UInt8) :
    Command.linesAfter line (bytes ++ rest) =
      Command.linesAfter (bytes.reverse ++ line) rest := by
  induction bytes generalizing line with
  | nil => rfl
  | cons byte later ih =>
    obtain ⟨hbyte, hlater⟩ := not_or.mp (mt List.mem_cons.mpr h)
    have hstep : Command.linesAfter line (byte :: (later ++ rest)) =
        Command.linesAfter (byte :: line) (later ++ rest) := by
      rw [Command.linesAfter.eq_def line]
      exact if_neg (Ne.symm hbyte)
    rw [List.cons_append, hstep, ih hlater, List.reverse_cons,
      List.append_assoc, List.singleton_append]

/-- What the command takes from the end of a line, having it in reverse. -/
theorem reverse_withoutLast (line : List UInt8) :
    (match line.reverse with
      | 13 :: bytes => bytes
      | bytes => bytes).reverse = withoutLast 13 line := by
  obtain rfl | ⟨content, byte, rfl⟩ := List.eq_nil_or_concat' line
  · rfl
  · rw [List.reverse_concat]
    by_cases hbyte : byte = 13
    · rw [hbyte, withoutLast_append_mark]
      exact List.reverse_reverse content
    · have hlast : (content ++ [byte]).getLast? ≠ some 13 := by
        simpa using hbyte
      rw [withoutLast_eq_self hlast]
      split
      · next heq => exact absurd (List.cons.inj heq).1 hbyte
      · rw [List.reverse_cons, List.reverse_reverse]

/-- **The command cuts bytes into their lines**, whatever they are. -/
theorem linesAfter_eq_linesOf (bytes : List UInt8) :
    Command.linesAfter [] bytes = linesOf 10 13 bytes := by
  induction bytes using feed_induction (10 : UInt8) with
  | last line hfeed =>
    have hbytes := linesAfter_append hfeed [] []
    rw [List.append_nil, List.append_nil] at hbytes
    rw [hbytes, linesOf_of_not_mem hfeed, Command.linesAfter,
      List.reverse_reverse]
    simp only [List.reverse_eq_nil_iff]
  | more line rest hfeed ih =>
    rw [linesAfter_append hfeed, List.append_nil, linesAfter_lineFeed,
      reverse_withoutLast, linesOf_append hfeed, ih]

/-- The last byte of a text is one of its last character. -/
theorem mem_of_getLast?_utf8 {content : List Char} {c : Char} {byte : UInt8}
    (h : (utf8 (String.ofList (content ++ [c]))).getLast? = some byte) :
    byte ∈ String.utf8EncodeChar c := by
  rw [utf8_ofList_append, List.getLast?_append, utf8_ofList_eq_flatMap [c],
    List.flatMap_singleton,
    List.getLast?_eq_some_getLast String.utf8EncodeChar_ne_nil,
    Option.some_or] at h
  rw [← Option.some.inj h]
  exact List.getLast_mem _

/-- The carriage return that is taken from the bytes of a line is the one at the
end of the line. -/
theorem withoutLast_utf8 (line : List Char) :
    withoutLast 13 (utf8 (String.ofList line)) =
      utf8 (String.ofList (withoutLast '\r' line)) := by
  by_cases hlast : line.getLast? = some '\r'
  · obtain ⟨content, rfl⟩ := List.getLast?_eq_some_iff.mp hlast
    have hbyte : utf8 (String.ofList ['\r']) = [13] := by decide
    rw [utf8_ofList_append, hbyte, withoutLast_append_mark,
      withoutLast_append_mark]
  · rw [withoutLast_eq_self hlast]
    refine withoutLast_eq_self fun hbyte => ?_
    obtain rfl | ⟨content, c, rfl⟩ := List.eq_nil_or_concat' line
    · cases hbyte
    · have hreturn := eq_return_of_mem (mem_of_getLast?_utf8 hbyte)
      exact hlast (by rw [hreturn, List.getLast?_concat])

/-- The command's lines are those of the text, in bytes. -/
theorem linesAfter_utf8 (text : List Char) :
    Command.linesAfter [] (utf8 (String.ofList text)) =
      (textLines text).map (fun line => utf8 (String.ofList line)) := by
  rw [linesAfter_eq_linesOf]
  unfold textLines
  induction text using feed_induction '\n' with
  | last line hfeed =>
    rw [linesOf_of_not_mem (not_mem_utf8 hfeed), linesOf_of_not_mem hfeed]
    by_cases hline : line = []
    · rw [hline]
      rfl
    · have hlength := length_utf8_ofList line
      have hne : utf8 (String.ofList line) ≠ [] := by
        intro hnil
        rw [hnil] at hlength
        exact absurd hlength.symm (Nat.ne_of_gt (byteLength_pos hline))
      simp [hline, hne]
  | more line rest hfeed ih =>
    have hbyte : utf8 (String.ofList ['\n']) = [10] := by decide
    rw [linesOf_append hfeed, List.map_cons, ← ih, ← withoutLast_utf8,
      List.append_cons, List.append_assoc, utf8_ofList_append,
      utf8_ofList_append, hbyte, List.singleton_append,
      linesOf_append (not_mem_utf8 hfeed)]

/-- **The lines of an input are those of its text.** -/
theorem inputLines_toByteArray (text : String) :
    Command.inputLines text.toByteArray =
      (textLines text.toList).map
        (fun line => (String.ofList line).toByteArray) := by
  have hlines := linesAfter_utf8 text.toList
  rw [String.ofList_toList] at hlines
  unfold Command.inputLines
  show (Command.linesAfter [] (utf8 text)).map _ = _
  rw [hlines, List.map_map]
  rfl

end LoxLexer
