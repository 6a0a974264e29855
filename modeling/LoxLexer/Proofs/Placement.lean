import LoxLexer.Proofs.Denotation
import LoxLexer.Proofs.LineNumbers
import LoxLexer.Proofs.Runs
import LoxLexer.Proofs.Slice
import Mathlib.Data.List.DropRight

/-!
# Where a report points

The scanner and a report count places in two ways. The scanner counts bytes,
and lines by their line feeds; a report reads the bytes of a span as
characters, and its rows end at whatever Unicode takes for the end of a line.
`PointsAt` is what a reader would wish for: a report that points where the
scanner found the error.

The two ways agree in front of an error if all of that is ASCII and no line in
it ends but at a line feed. They must agree up to its end besides, or the span
reaches too far for the report to have a place at all. The main statement is
that there is no other way for a report to point where it should
(`report_points_iff`): rows only grow along a source, so a report that is too
far to the right and still in the right row is in a wrong column. Where the two
ways agree, the line that the report names besides is the row, or for an open
string as many lines further down as the string has line feeds
(`report_on_plain_lines`).
-/

namespace LoxLexer

/-- A text in which nothing is beyond ASCII. -/
def IsAscii (text : List Char) : Prop :=
  ∀ c ∈ text, c.toNat < 0x80

/-- **Lines end at line feeds alone** in a text; a carriage return may stand in
front of one. -/
def PlainLines (text : List Char) : Prop :=
  ∀ before c rest, text = before ++ c :: rest → endsLine c = true →
    c = '\n' ∨ c = '\r' ∧ rest.head? = some '\n'

/-- The last line of a text, as far as it goes: the characters behind the last
line feed. -/
def lastLine (text : List Char) : List Char :=
  text.rtakeWhile (· ≠ '\n')

/-- **A report points behind a text** by the rows and columns of the scanner:
it has a place, in the row that begins behind the last line feed of the text,
and in the column behind the characters of that row. -/
def PointsAt (path source : String) (e : LexError) (front : List Char) : Prop :=
  reportAll path source [e] =
    .ok [⟨e.message, some ⟨path, 1 + lineFeeds front,
      1 + (lastLine front).length, e.line⟩⟩]

/-! ## Bytes and characters -/

/-- A text has at least as many bytes as characters. -/
theorem length_le_byteLength (text : List Char) :
    text.length ≤ byteLength text := by
  induction text with
  | nil => exact Nat.le_refl _
  | cons c cs ih =>
    have hpos := c.utf8Size_pos
    rw [List.length_cons, byteLength_cons]
    omega

/-- A text has as many bytes as characters exactly when it is ASCII. -/
theorem byteLength_eq_length_iff {text : List Char} :
    byteLength text = text.length ↔ IsAscii text := by
  induction text with
  | nil => simp [IsAscii]
  | cons c cs ih =>
    have hpos := c.utf8Size_pos
    have hle := length_le_byteLength cs
    have hone : c.utf8Size = 1 ↔ c.toNat < 0x80 := by
      rw [Char.utf8Size_eq_one_iff, UInt32.le_iff_toNat_le]
      exact Nat.lt_succ_iff.symm
    have hcons : IsAscii (c :: cs) ↔ c.toNat < 0x80 ∧ IsAscii cs :=
      List.forall_mem_cons
    rw [hcons, ← hone, ← ih, byteLength_cons, List.length_cons]
    omega

/-! ## The ends of lines -/

/-- Where lines begin behind the ends of lines of a text that goes on, when `n`
characters stand in front of it. -/
def lineEndsFrom : (n : Nat) → List Char → List Nat
  | _, [] => []
  | n, c :: cs =>
    if endsLine c && !(c = '\r' && cs.head? = some '\n') then
      (n + 1) :: lineEndsFrom (n + 1) cs
    else lineEndsFrom (n + 1) cs

/-- What begins a text that goes on begins it already, unless it begins what the
text goes on with. -/
theorem head?_append_eq_some_iff {c : Char} {rest : List Char}
    (h : rest.head? ≠ some c) (text : List Char) :
    (text ++ rest).head? = some c ↔ text.head? = some c := by
  cases text with
  | nil => simpa using h
  | cons => rfl

/-- The lines of a text that goes on are those that begin behind its line ends,
and then those of what it goes on with. -/
theorem lineStartsFrom_append (n : Nat) (text : List Char) {rest : List Char}
    (ne : rest ≠ []) (hfeed : rest.head? ≠ some '\n') :
    lineStartsFrom n (text ++ rest) =
      lineEndsFrom n text ++ lineStartsFrom (n + text.length) rest := by
  induction text generalizing n with
  | nil => rfl
  | cons c cs ih =>
    have hempty : (cs ++ rest).isEmpty = false := by simp [ne]
    have hlength : n + (c :: cs).length = n + 1 + cs.length :=
      (Nat.succ_add_eq_add_succ n cs.length).symm
    simp only [List.cons_append, lineStartsFrom, lineEndsFrom, hempty,
      head?_append_eq_some_iff hfeed, Bool.not_false, Bool.and_true, ih, hlength]
    split
    · rfl
    · rfl

/-- Line ends of texts in turn, if they do not meet within one. -/
theorem lineEndsFrom_append (n : Nat) (text : List Char) {rest : List Char}
    (hfeed : rest.head? ≠ some '\n') :
    lineEndsFrom n (text ++ rest) =
      lineEndsFrom n text ++ lineEndsFrom (n + text.length) rest := by
  induction text generalizing n with
  | nil => rfl
  | cons c cs ih =>
    have hlength : n + (c :: cs).length = n + 1 + cs.length :=
      (Nat.succ_add_eq_add_succ n cs.length).symm
    simp only [List.cons_append, lineEndsFrom, head?_append_eq_some_iff hfeed,
      ih, hlength]
    split
    · rfl
    · rfl

theorem le_of_mem_lineEndsFrom {n m : Nat} {text : List Char}
    (h : m ∈ lineEndsFrom n text) : m ≤ n + text.length := by
  induction text generalizing n with
  | nil => cases h
  | cons c cs ih =>
    rw [List.length_cons]
    rw [lineEndsFrom] at h
    split at h
    · obtain rfl | h := List.mem_cons.mp h
      · omega
      · have := ih h
        omega
    · have := ih h
      omega

theorem lt_of_mem_lineStartsFrom {n m : Nat} {text : List Char}
    (h : m ∈ lineStartsFrom n text) : n < m := by
  induction text generalizing n with
  | nil => cases h
  | cons c cs ih =>
    rw [lineStartsFrom] at h
    split at h
    · obtain rfl | h := List.mem_cons.mp h
      · exact Nat.lt_succ_self n
      · exact Nat.lt_of_succ_lt (ih h)
    · exact Nat.lt_of_succ_lt (ih h)

/-! ## Plain lines -/

theorem plainLines_cons {c : Char} {cs : List Char} :
    PlainLines (c :: cs) ↔
      (endsLine c = true → c = '\n' ∨ c = '\r' ∧ cs.head? = some '\n') ∧
        PlainLines cs := by
  constructor
  · intro h
    refine ⟨h [] c cs rfl, fun before d rest heq => ?_⟩
    exact h (c :: before) d rest (by rw [heq, List.cons_append])
  · rintro ⟨hfirst, hlater⟩ before d rest heq
    cases before with
    | nil =>
      obtain ⟨rfl, rfl⟩ := List.cons.inj heq
      exact hfirst
    | cons b before =>
      obtain ⟨rfl, rfl⟩ := List.cons.inj heq
      exact hlater before d rest rfl

/-- Of what ends a line in ASCII, only vertical tabs, form feeds and carriage
returns by themselves are not plain. -/
theorem plainLines_of_isAscii {text : List Char} (ascii : IsAscii text)
    (no_tab : '\x0b' ∉ text) (no_form_feed : '\x0c' ∉ text)
    (returns : ∀ before later, text = before ++ '\r' :: later →
      later.head? = some '\n') : PlainLines text := by
  intro before c rest htext hends
  have hmem : c ∈ text := by simp [htext]
  have hlow := ascii c hmem
  simp only [endsLine, Bool.or_eq_true, decide_eq_true_eq] at hends
  obtain (((((rfl | rfl) | rfl) | rfl) | rfl) | rfl) | rfl := hends
  · exact .inl rfl
  · exact absurd hmem no_tab
  · exact absurd hmem no_form_feed
  · exact .inr ⟨rfl, returns before rest htext⟩
  all_goals exact absurd hlow (by decide)

/-- The lines of a text are plain if those of a longer one are. -/
theorem PlainLines.of_append {front text : List Char}
    (h : PlainLines (front ++ text)) : PlainLines text := by
  rintro before c rest rfl
  exact h (front ++ before) c rest (by rw [List.append_assoc])

/-- Every line feed ends a line, and where nothing else does, there are as many
line ends as line feeds. -/
theorem length_lineEndsFrom (n : Nat) (text : List Char) :
    lineFeeds text ≤ (lineEndsFrom n text).length ∧
      ((lineEndsFrom n text).length = lineFeeds text ↔ PlainLines text) := by
  induction text generalizing n with
  | nil => simp [lineEndsFrom, PlainLines]
  | cons c cs ih =>
    obtain ⟨hle, hplain⟩ := ih (n + 1)
    rw [plainLines_cons, ← hplain, lineEndsFrom]
    by_cases hc : c = '\n'
    · subst hc
      have hfeeds : lineFeeds ('\n' :: cs) = lineFeeds cs + 1 :=
        List.count_cons_self
      have hends : endsLine '\n' = true := rfl
      simp [hends, hfeeds, hle]
    · have hfeeds : lineFeeds (c :: cs) = lineFeeds cs :=
        List.count_cons_of_ne hc
      have hends : (endsLine c && !(c = '\r' && cs.head? = some '\n')) = true ↔
          ¬ (endsLine c = true → c = '\n' ∨ c = '\r' ∧ cs.head? = some '\n') := by
        by_cases hreturn : c = '\r' <;> simp [hc, hreturn]
      rw [hfeeds]
      by_cases hfirst : endsLine c = true →
          c = '\n' ∨ c = '\r' ∧ cs.head? = some '\n'
      · rw [if_neg (mt hends.mp (not_not.mpr hfirst))]
        exact ⟨hle, (and_iff_right hfirst).symm⟩
      · -- the end of a line that is not plain is one more than there should be
        rw [if_pos (hends.mpr hfirst), List.length_cons]
        refine ⟨Nat.le_succ_of_le hle, iff_of_false ?_ fun h => hfirst h.1⟩
        omega

/-- Behind a line feed a line begins, and no later one as yet. -/
theorem getLast?_lineEndsFrom (n : Nat) (text : List Char) :
    (lineEndsFrom n (text ++ ['\n'])).getLast? = some (n + text.length + 1) := by
  induction text generalizing n with
  | nil => rfl
  | cons c cs ih =>
    have hlast : (lineEndsFrom (n + 1) (cs ++ ['\n'])).getLast? =
        some (n + (c :: cs).length + 1) := by
      rw [ih, List.length_cons]
      congr 1
      omega
    rw [List.cons_append, lineEndsFrom]
    split
    · rw [List.getLast?_cons, hlast]
      rfl
    · exact hlast

/-- A text is all of its lines but the last, of which the last one ends in a line
feed, and then its last line. -/
theorem exists_append_lastLine (text : List Char) :
    ∃ lines, text = lines ++ lastLine text ∧
      (lines = [] ∨ ∃ before, lines = before ++ ['\n']) := by
  refine ⟨text.rdropWhile (· ≠ '\n'),
    List.rdropWhile_append_rtakeWhile.symm, ?_⟩
  by_cases hnil : text.rdropWhile (· ≠ '\n') = []
  · exact .inl hnil
  · have hlast := List.rdropWhile_last_not _ _ hnil
    have hfeed : (text.rdropWhile (· ≠ '\n')).getLast hnil = '\n' := by
      simpa using hlast
    refine .inr (List.getLast?_eq_some_iff.mp ?_)
    rw [List.getLast?_eq_some_getLast hnil, hfeed]

/-- There is no line feed in the last line. -/
theorem lineFeed_not_mem_lastLine (text : List Char) :
    '\n' ∉ lastLine text := by
  intro h
  simpa using List.mem_rtakeWhile_imp h

/-- Where lines end at line feeds alone, the last one begins in front of as many
characters as it has so far. -/
theorem getLastD_lineEndsFrom {text : List Char} (h : PlainLines text) :
    (lineEndsFrom 0 text).getLastD 0 + (lastLine text).length =
      text.length := by
  obtain ⟨lines, htext, hlines⟩ := exists_append_lastLine text
  have hfeed := lineFeed_not_mem_lastLine text
  generalize lastLine text = line at htext hfeed
  subst htext
  have hends : lineEndsFrom (0 + lines.length) line = [] := by
    have hcount := (length_lineEndsFrom (0 + lines.length) line).2.mpr
      (h.of_append)
    rw [lineFeeds, List.count_eq_zero.mpr hfeed] at hcount
    exact List.eq_nil_of_length_eq_zero hcount
  have hhead : line.head? ≠ some '\n' := fun hhead =>
    hfeed (List.mem_of_head? hhead)
  have hlast : (lineEndsFrom 0 lines).getLastD 0 = lines.length := by
    obtain rfl | ⟨before, rfl⟩ := hlines
    · rfl
    · rw [List.getLastD_eq_getLast?, getLast?_lineEndsFrom]
      simp
  rw [lineEndsFrom_append 0 lines hhead, hends, List.append_nil, hlast,
    List.length_append]

namespace LineIndex

variable {text rest : List Char}

/-- The lines that a place behind a text has reached are those that begin behind
the line ends of the text. -/
theorem reached_append (ne : rest ≠ []) (hfeed : rest.head? ≠ some '\n') :
    (ofText (text ++ rest)).reached text.length = lineEndsFrom 0 text := by
  have hbefore : ∀ m ∈ lineEndsFrom 0 text,
      decide (m ≤ text.length) = true := fun m hm => by
    have := le_of_mem_lineEndsFrom hm
    exact decide_eq_true (by omega)
  have hbehind : (lineStartsFrom (0 + text.length) rest).takeWhile
      (· ≤ text.length) = [] := by
    refine List.takeWhile_eq_nil_iff.mpr fun hpos hle => ?_
    have hlt := lt_of_mem_lineStartsFrom (List.get_mem _ ⟨0, hpos⟩)
    have hle := of_decide_eq_true hle
    omega
  rw [reached, ofText, lineStartsFrom_append 0 text ne hfeed,
    List.takeWhile_append_of_pos hbefore, hbehind, List.append_nil]

/-- A place further on has reached the same lines, and perhaps more. -/
theorem reached_prefix (lines : LineIndex) {n m : Nat} (h : n ≤ m) :
    lines.reached n <+: lines.reached m := by
  have hreached : lines.reached n = (lines.reached m).takeWhile (· ≤ n) := by
    unfold reached
    rw [List.takeWhile_takeWhile]
    refine congrArg (List.takeWhile · lines.laterStarts) (funext fun x => ?_)
    rw [decide_eq_decide, decide_eq_true_eq, decide_eq_true_eq]
    omega
  rw [hreached]
  exact List.takeWhile_prefix _

end LineIndex

/-! ## Reports of errors -/

/-- An error that does not end before it begins is reported. -/
theorem reportAll_singleton {e : LexError} (h : e.span.start ≤ e.span.stop)
    (path source : String) :
    reportAll path source [e] =
      .ok [.describing path (.ofText source.toList) e] :=
  reportAll_eq_ok (by simpa using h) path source

section Placement

variable {source : String} {e : LexError} {front text rest : List Char}

/-- A report points behind a text exactly when it has a place and that is the
scanner's. -/
theorem pointsAt_iff_eq (h : e.span.start ≤ e.span.stop) (path : String) :
    PointsAt path source e front ↔
      Report.fits source.length e.span = true ∧
        (LineIndex.ofText source.toList).row e.span.start =
          1 + lineFeeds front ∧
        (LineIndex.ofText source.toList).column e.span.start =
          1 + (lastLine front).length := by
  have hlength : (LineIndex.ofText source.toList).length = source.length :=
    String.length_toList
  rw [PointsAt, reportAll_singleton h, Report.describing, hlength]
  split
  · next hfits => simp [hfits]
  · next hfits => simp [hfits]

/-- The span of some bytes fits exactly when it reaches no further than one
character beyond the end. -/
theorem fits_iff {length : Nat} {s : Span} (h : s.start < s.stop) :
    Report.fits length s = true ↔ s.stop ≤ length + 1 := by
  simp only [Report.fits, Bool.and_eq_true, Bool.or_eq_true, decide_eq_true_eq]
  omega

/-- **A report points where it should** exactly when all in front of the error
is ASCII, no line there ends but at a line feed, and the span of the error
reaches no further than one character beyond the end of the source. -/
theorem pointsAt_iff (hsource : source.toList = front ++ text ++ rest)
    (ne : text ≠ []) (hfeed : text.head? ≠ some '\n')
    (hspan : e.span = .behind front text) (path : String) :
    PointsAt path source e front ↔
      IsAscii front ∧ PlainLines front ∧ e.span.stop ≤ source.length + 1 := by
  have hstart : e.span.start = byteLength front := by rw [hspan]; rfl
  have hlt : e.span.start < e.span.stop :=
    Span.Holds.start_lt_stop ⟨front, rest, hsource, hspan⟩ ne
  have hle := length_le_byteLength front
  have hreached : (LineIndex.ofText source.toList).reached front.length =
      lineEndsFrom 0 front := by
    rw [hsource, List.append_assoc]
    refine LineIndex.reached_append (by simp [ne]) ?_
    rwa [List.head?_append_of_ne_nil _ ne]
  obtain ⟨hcount, hcountPlain⟩ := length_lineEndsFrom 0 front
  rw [pointsAt_iff_eq (Nat.le_of_lt hlt), fits_iff hlt, hstart,
    ← byteLength_eq_length_iff, LineIndex.row, LineIndex.column]
  constructor
  · rintro ⟨hfits, hrow, hcolumn⟩
    -- the report has reached the lines in front of the error, and no more
    have hbegin := LineIndex.reached_prefix (.ofText source.toList) hle
    have hsame : (LineIndex.ofText source.toList).reached (byteLength front) =
        lineEndsFrom 0 front := by
      rw [hreached] at hbegin
      have hlength := hbegin.length_le
      exact (hbegin.eq_of_length (by omega)).symm
    rw [hsame] at hrow hcolumn
    have hplain : PlainLines front := hcountPlain.mp (by omega)
    have hlast := getLastD_lineEndsFrom hplain
    exact ⟨by omega, hplain, hfits⟩
  · rintro ⟨hascii, hplain, hfits⟩
    have hlast := getLastD_lineEndsFrom hplain
    have hfeeds := hcountPlain.mpr hplain
    rw [hascii, hreached]
    exact ⟨hfits, by omega, by omega⟩

end Placement

/-! ## Errors of a scan -/

/-- **An error stands somewhere in its source**: its span holds a text that is
not empty and does not begin with a line feed, and its line is behind that
text. -/
theorem exists_append_of_mem_errorsOf {source : String} {e : LexError}
    (h : e ∈ errorsOf source) :
    ∃ front text rest : List Char, source.toList = front ++ text ++ rest ∧
      e.span = .behind front text ∧ text ≠ [] ∧ text.head? ≠ some '\n' ∧
      e.line = 1 + lineFeeds front + lineFeeds text ∧
      ∀ c, e.fault = .unexpectedCharacter c → lineFeeds text = 0 := by
  obtain ⟨front, piece, rest, fault, hpieces, hrole, rfl⟩ :=
    exists_fault_of_mem_collectFrom h
  have hcut := cutOff_of_pieces_eq hpieces
  refine ⟨front.flatMap Piece.text, piece.text, rest.flatMap Piece.text, ?_, ?_,
    hcut.text_ne_nil, hcut.head?_ne_lineFeed (by simp [hrole]), rfl, ?_⟩
  · rw [← flatMap_text_pieces source.toList, hpieces]
    simp
  · simp [LexError.atPiece, Span.behind, Position.start]
  · rintro c rfl
    exact hcut.lineFeeds_of_unexpected hrole

/-- Two beginnings of a text with as many bytes are the same. -/
theorem append_inj_of_byteLength {a b c d : List Char} (h : a ++ b = c ++ d)
    (hsize : byteLength a = byteLength c) : a = c ∧ b = d := by
  have hempty : ∀ text : List Char, byteLength text = 0 → text = [] :=
    fun text hzero => by_contra fun hne => (byteLength_pos hne).ne' hzero
  obtain ⟨x, rfl, rfl⟩ | ⟨x, rfl, rfl⟩ := List.append_eq_append_iff.mp h
  · rw [byteLength_append] at hsize
    rw [hempty x (by omega)]
    simp
  · rw [byteLength_append] at hsize
    rw [hempty x (by omega)]
    simp

/-- **A report points at its error** exactly when all in front of the error is
ASCII, no line there ends but at a line feed, and the span of the error reaches
no further than one character beyond the end of the source. It may be that the
report has no place at all, but there always is one, with the message of the
error. -/
theorem report_points_iff {source : String} {e : LexError}
    (he : e ∈ (scan source .empty).2.toList) (path : String) :
    ∃ front text rest : String, source = front ++ text ++ rest ∧
      e.span = ⟨front.utf8ByteSize, (front ++ text).utf8ByteSize⟩ ∧
      (∃ r, reportAll path source [e] = .ok [r] ∧ r.message = e.message) ∧
      (PointsAt path source e front.toList ↔
        IsAscii front.toList ∧ PlainLines front.toList ∧
          e.span.stop ≤ source.length + 1) := by
  rw [toList_snd_scan, Diagnostics.toList_empty, List.nil_append] at he
  obtain ⟨front, text, rest, hsource, hspan, ne, hfeed, -, -⟩ :=
    exists_append_of_mem_errorsOf he
  refine ⟨.ofList front, .ofList text, .ofList rest, ?_, ?_, ?_, ?_⟩
  · rw [← String.ofList_append, ← String.ofList_append, ← hsource,
      String.ofList_toList]
  · rw [hspan, ← String.ofList_append, ← byteLength_toList,
      ← byteLength_toList, String.toList_ofList, String.toList_ofList]
    rfl
  · exact ⟨_, reportAll_singleton (span_le_of_mem_errorsOf he) path source, rfl⟩
  · rw [String.toList_ofList]
    exact pointsAt_iff hsource ne hfeed hspan path

/-- One character beyond ASCII in front of an error is enough, so that the report
is in no right place, or has none: it is one column too far to the right behind
`é`, and points beyond the end of the source behind `€`. -/
theorem not_pointsAt_behind_accent :
    (⟨.unexpectedCharacter '#', 1, ⟨2, 3⟩⟩ : LexError) ∈
        (scan "é#" .empty).2.toList ∧
      ¬ PointsAt "t" "é#" ⟨.unexpectedCharacter '#', 1, ⟨2, 3⟩⟩ ['é'] ∧
      reportAll "t" "é#" [⟨.unexpectedCharacter '#', 1, ⟨2, 3⟩⟩] =
        .ok [⟨"Unexpected character '#'.", some ⟨"t", 1, 3, 1⟩⟩] ∧
      (⟨.unexpectedCharacter '#', 1, ⟨3, 4⟩⟩ : LexError) ∈
        (scan "€#" .empty).2.toList ∧
      reportAll "t" "€#" [⟨.unexpectedCharacter '#', 1, ⟨3, 4⟩⟩] =
        .ok [⟨"Unexpected character '#'.", none⟩] := by
  have hright : reportAll "t" "é#" [⟨.unexpectedCharacter '#', 1, ⟨2, 3⟩⟩] =
      .ok [⟨"Unexpected character '#'.", some ⟨"t", 1, 3, 1⟩⟩] := rfl
  refine ⟨by decide +kernel, ?_, hright, by decide +kernel, rfl⟩
  rw [PointsAt, hright]
  decide +kernel

/-- The same source for the error of which nothing stands in front. -/
theorem report_points_iff_at_euro :
    (⟨.unexpectedCharacter '€', 1, ⟨0, 3⟩⟩ : LexError) ∈
        (scan "€#" .empty).2.toList ∧
      ∃ front text rest : String, "€#" = front ++ text ++ rest ∧
        (⟨0, 3⟩ : Span) = ⟨front.utf8ByteSize, (front ++ text).utf8ByteSize⟩ ∧
        (∃ r, reportAll "t" "€#" [⟨.unexpectedCharacter '€', 1, ⟨0, 3⟩⟩] =
          .ok [r] ∧ r.message = "Unexpected character '€'.") ∧
        (PointsAt "t" "€#" ⟨.unexpectedCharacter '€', 1, ⟨0, 3⟩⟩ front.toList ↔
          IsAscii front.toList ∧ PlainLines front.toList ∧
            3 ≤ "€#".length + 1) := by
  have he : (⟨.unexpectedCharacter '€', 1, ⟨0, 3⟩⟩ : LexError) ∈
      (scan "€#" .empty).2.toList := by
    decide +kernel
  exact ⟨he, report_points_iff he "t"⟩

/-- **On plain lines rows and lines agree.** If a source is ASCII up to the end
of an error, and in front of it holds no vertical tab, no form feed, and no
carriage return but in front of a line feed, then the report of the error has a
place: the column is behind the characters since the last line feed, and the
line that is named besides is the row, or for an open string as many lines
further down as there are line feeds in it. -/
theorem report_on_plain_lines {source front text rest : String} {e : LexError}
    (he : e ∈ (scan source .empty).2.toList)
    (hsource : source = front ++ text ++ rest)
    (hspan : e.span = ⟨front.utf8ByteSize, (front ++ text).utf8ByteSize⟩)
    (ascii : ∀ c ∈ (front ++ text).toList, c.toNat < 0x80)
    (no_tab : '\x0b' ∉ front.toList) (no_form_feed : '\x0c' ∉ front.toList)
    (returns : ∀ before later, front.toList = before ++ '\r' :: later →
      later.head? = some '\n') (path : String) :
    ∃ label : Label, reportAll path source [e] =
        .ok [⟨e.message, some label⟩] ∧
      label.path = path ∧
      label.row = 1 + lineFeeds front.toList ∧
      label.column = 1 + (lastLine front.toList).length ∧
      label.line = match e.fault with
        | .unexpectedCharacter _ => label.row
        | .unterminatedString => label.row + lineFeeds text.toList := by
  rw [toList_snd_scan, Diagnostics.toList_empty, List.nil_append] at he
  obtain ⟨front', text', rest', hsource', hspan', ne, hfeed, hline, hchar⟩ :=
    exists_append_of_mem_errorsOf he
  -- the span leaves no choice of what stands in front of the error and in it
  obtain ⟨hstart, hstop⟩ := Span.mk.inj (hspan'.symm.trans hspan)
  rw [← byteLength_toList] at hstart hstop
  rw [String.toList_append] at ascii hstop
  have hwhole : source.toList = front.toList ++ text.toList ++ rest.toList := by
    rw [hsource, String.toList_append, String.toList_append]
  obtain ⟨hboth, rfl⟩ :=
    append_inj_of_byteLength (hwhole.symm.trans hsource') hstop.symm
  obtain ⟨rfl, rfl⟩ := append_inj_of_byteLength hboth hstart.symm
  have hascii := List.forall_mem_append.mp ascii
  have hplain := plainLines_of_isAscii hascii.1 no_tab no_form_feed returns
  have hfits : e.span.stop ≤ source.length + 1 := by
    have hbytes := byteLength_eq_length_iff.mpr ascii
    have hlength := congrArg List.length hwhole
    rw [String.length_toList, List.length_append] at hlength
    have hstop' : e.span.stop = byteLength (front.toList ++ text.toList) := by
      rw [hspan']
      rfl
    omega
  have hpoints := (pointsAt_iff hwhole ne hfeed hspan' path).mpr
    ⟨hascii.1, hplain, hfits⟩
  refine ⟨_, hpoints, rfl, rfl, rfl, ?_⟩
  cases hfault : e.fault with
  | unexpectedCharacter c => simp [hline, hchar c hfault]
  | unterminatedString => exact hline

/-- An open string on the second line is noticed on the third. -/
theorem report_on_plain_lines_of_open_string :
    (⟨.unterminatedString, 3, ⟨4, 8⟩⟩ : LexError) ∈
        (scan "1\r\n \"a\nb" .empty).2.toList ∧
      "1\r\n \"a\nb" = "1\r\n " ++ "\"a\nb" ++ "" ∧
      (⟨4, 8⟩ : Span) = ⟨"1\r\n ".utf8ByteSize,
        ("1\r\n " ++ "\"a\nb").utf8ByteSize⟩ ∧
      (∀ c ∈ ("1\r\n " ++ "\"a\nb").toList, c.toNat < 0x80) ∧
      '\x0b' ∉ "1\r\n ".toList ∧ '\x0c' ∉ "1\r\n ".toList ∧
      (∀ before later, "1\r\n ".toList = before ++ '\r' :: later →
        later.head? = some '\n') ∧
      ∃ label : Label, reportAll "t" "1\r\n \"a\nb"
          [⟨.unterminatedString, 3, ⟨4, 8⟩⟩] =
            .ok [⟨"Unterminated string.", some label⟩] ∧
        label.path = "t" ∧ label.row = 2 ∧ label.column = 2 ∧
        label.line = label.row + 1 := by
  have he : (⟨.unterminatedString, 3, ⟨4, 8⟩⟩ : LexError) ∈
      (scan "1\r\n \"a\nb" .empty).2.toList := by
    decide +kernel
  have hsource : "1\r\n \"a\nb" = "1\r\n " ++ "\"a\nb" ++ "" := rfl
  have hspan : (⟨4, 8⟩ : Span) = ⟨"1\r\n ".utf8ByteSize,
      ("1\r\n " ++ "\"a\nb").utf8ByteSize⟩ := rfl
  have ascii : ∀ c ∈ ("1\r\n " ++ "\"a\nb").toList, c.toNat < 0x80 := by
    simp
  have no_tab : '\x0b' ∉ "1\r\n ".toList := by decide
  have no_form_feed : '\x0c' ∉ "1\r\n ".toList := by decide
  have returns : ∀ before later, "1\r\n ".toList = before ++ '\r' :: later →
      later.head? = some '\n' := by
    intro before later h
    have hsplit : ['1', '\r', '\n', ' '] = before ++ '\r' :: later := h
    simp only [List.cons_eq_append_iff, List.nil_eq_append_iff] at hsplit
    grind
  exact ⟨he, hsource, hspan, ascii, no_tab, no_form_feed, returns,
    report_on_plain_lines he hsource hspan ascii no_tab no_form_feed returns "t"⟩

end LoxLexer
