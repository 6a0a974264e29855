import LoxLexer.Position

/-!
# The bytes in a span

A span is two numbers, and what it says of a source is said in bytes: which
bytes stand in it (`Span.slice`), and whether it begins and ends between two
characters (`IsBoundary`). The scanner counts characters and adds up their
lengths, and never looks at a byte.

`Span.Holds` is what ties the two together: a source in characters is cut in
three, and the span is that of the middle part. A span that holds a text lies
in the source, on boundaries of characters, and its bytes are those of the
text.
-/

namespace LoxLexer

/-- The bytes of a text in UTF-8. -/
def utf8 (text : String) : List UInt8 :=
  text.toByteArray.data.toList

/-- The bytes of a source in a span. -/
def Span.slice (source : String) (s : Span) : List UInt8 :=
  ((utf8 source).take s.stop).drop s.start

/-- Whether an offset in a source lies between two characters, or at either
end. -/
def IsBoundary (source : String) (offset : Nat) : Prop :=
  String.Pos.Raw.IsValid source ⟨offset⟩

/-- The span of a text that stands behind another one. -/
def Span.behind (before text : List Char) : Span :=
  ⟨byteLength before, byteLength (before ++ text)⟩

/-- **A span of a source holds a text.** -/
def Span.Holds (source : List Char) (s : Span) (text : List Char) : Prop :=
  ∃ before rest, source = before ++ text ++ rest ∧ s = .behind before text

/-- The bytes of two texts in turn are those of each. -/
@[simp] theorem utf8_ofList_append (a b : List Char) :
    utf8 (String.ofList (a ++ b)) =
      utf8 (String.ofList a) ++ utf8 (String.ofList b) := by
  rw [utf8, String.ofList_append, String.toByteArray_append,
    ByteArray.data_append, Array.toList_append]
  rfl

/-- No characters have no bytes. -/
@[simp] theorem utf8_ofList_nil : utf8 (String.ofList []) = [] := rfl

/-- A text has as many bytes as its characters have together. -/
@[simp] theorem length_utf8_ofList (text : List Char) :
    (utf8 (String.ofList text)).length = byteLength text := by
  rw [← String.toList_ofList (l := text), byteLength_toList,
    String.toList_ofList]
  rfl

/-- The bytes from one offset up to another are those of the text between. -/
theorem Span.slice_behind (before text rest : List Char) :
    (Span.behind before text).slice (String.ofList (before ++ text ++ rest)) =
      utf8 (String.ofList text) := by
  have htake : (utf8 (String.ofList (before ++ text ++ rest))).take
      (byteLength (before ++ text)) = utf8 (String.ofList (before ++ text)) := by
    rw [utf8_ofList_append (before ++ text), List.take_left']
    exact length_utf8_ofList _
  show ((utf8 _).take (byteLength (before ++ text))).drop (byteLength before) = _
  rw [htake, utf8_ofList_append, List.drop_left']
  exact length_utf8_ofList _

/-- An offset is a boundary behind every beginning of a source. -/
theorem isBoundary_byteLength (before rest : List Char) :
    IsBoundary (String.ofList (before ++ rest)) (byteLength before) := by
  refine String.Pos.Raw.isValid_iff_exists_append.mpr
    ⟨String.ofList before, String.ofList rest, String.ofList_append, ?_⟩
  rw [← String.toList_ofList (l := before), byteLength_toList,
    String.toList_ofList]
  rfl

/-- **A boundary of a source is an offset behind one of its beginnings.** -/
theorem isBoundary_iff {source : List Char} {offset : Nat} :
    IsBoundary (String.ofList source) offset ↔
      ∃ before rest, source = before ++ rest ∧ offset = byteLength before := by
  constructor
  · intro h
    obtain ⟨before, rest, hsource, hoffset⟩ :=
      String.Pos.Raw.isValid_iff_exists_append.mp h
    refine ⟨before.toList, rest.toList, ?_, ?_⟩
    · rw [← String.toList_append, ← hsource, String.toList_ofList]
    · rw [byteLength_toList]
      exact congrArg String.Pos.Raw.byteIdx hoffset
  · rintro ⟨before, rest, rfl, rfl⟩
    exact isBoundary_byteLength before rest

namespace Span.Holds

variable {source text : List Char} {s : Span}

/-- A span has the bytes of the text that it holds. -/
theorem slice_eq (h : s.Holds source text) :
    s.slice (String.ofList source) = utf8 (String.ofList text) := by
  obtain ⟨before, rest, rfl, rfl⟩ := h
  exact slice_behind before text rest

/-- A span that holds a text lies in the source. -/
theorem stop_le (h : s.Holds source text) :
    s.stop ≤ byteLength source := by
  obtain ⟨before, rest, rfl, rfl⟩ := h
  rw [byteLength_append (before ++ text)]
  exact Nat.le_add_right _ _

/-- A span that holds some text is not empty. -/
theorem start_lt_stop (h : s.Holds source text) (ne : text ≠ []) :
    s.start < s.stop := by
  obtain ⟨before, rest, rfl, rfl⟩ := h
  have hpos := byteLength_pos ne
  simp only [behind, byteLength_append]
  omega

/-- A span that holds a text begins and ends between characters. -/
theorem isBoundary (h : s.Holds source text) :
    IsBoundary (String.ofList source) s.start ∧
      IsBoundary (String.ofList source) s.stop := by
  obtain ⟨before, rest, rfl, rfl⟩ := h
  refine ⟨?_, isBoundary_byteLength (before ++ text) rest⟩
  rw [List.append_assoc]
  exact isBoundary_byteLength before (text ++ rest)

/-- A span that holds a text does not end before it begins. -/
theorem start_le_stop (h : s.Holds source text) : s.start ≤ s.stop := by
  obtain ⟨before, rest, -, rfl⟩ := h
  simp [behind]

end Span.Holds

/-- A span from one boundary to another one that is not in front of it holds a
text. -/
theorem Span.exists_holds {source : List Char} {s : Span}
    (hle : s.start ≤ s.stop) (hstart : IsBoundary (.ofList source) s.start)
    (hstop : IsBoundary (.ofList source) s.stop) :
    ∃ text, s.Holds source text := by
  obtain ⟨start, stop⟩ := s
  obtain ⟨before, rest, rfl, rfl⟩ := isBoundary_iff.mp hstart
  obtain ⟨upto, rest', hsource, rfl⟩ := isBoundary_iff.mp hstop
  -- of two beginnings of a source one begins the other
  obtain ⟨text, rfl⟩ | ⟨more, rfl⟩ :=
    List.prefix_or_prefix_of_prefix ⟨rest, rfl⟩ ⟨rest', hsource.symm⟩
  · exact ⟨text, before, rest', hsource, rfl⟩
  · cases more with
    | nil => exact ⟨[], upto, rest, by simp, by simp [behind]⟩
    | cons c later =>
      have hpos := byteLength_pos (List.cons_ne_nil c later)
      simp only [byteLength_append] at hle
      omega

end LoxLexer
