import LoxLexer.Proofs.LineNumbers
import LoxLexer.Proofs.Spacing

/-!
# Blanks and comments may be inserted

Where a token or an error begins or ends, blanks and comments may be put into a
source: what stands in front stays as it is, and what stands behind moves on.
The rules for cutting off ask for nothing that a blank would spoil, so all that
has to be looked at is how the text in front ends. A stroke must not be followed
by a comment, whose first stroke would make another comment of it. And a string
that is left open takes up whatever comes behind it, so that at the end of such
a source nothing can be inserted (`not_insertsCleanly_open_string`).

A comment at the end is no such case, although it does run on: up to the first
line feed of what is inserted, and to the end of the source if there is none. It
stays a gap, and that is enough for the texts to be set apart
(`SetApart.comment`).
-/

namespace LoxLexer

/-- **An offset at which something may be inserted**: the beginning of the
source, or where a token or an error begins or ends, but for the end of an open
string. -/
def IsInsertionPoint (source : String) (offset : Nat) : Prop :=
  offset = 0 ∨
    (∃ t ∈ (scan source .empty).1,
      offset = t.span.start ∨ offset = t.span.stop) ∨
    ∃ e ∈ (scan source .empty).2.toList, offset = e.span.start ∨
      e.fault ≠ .unterminatedString ∧ offset = e.span.stop

/-- What becomes of a token when some bytes and lines are inserted at an offset:
a lexeme that ends there or in front stays, and all else moves on. -/
def Token.afterInsertion (offset bytes lines : Nat) (t : Token) : Token :=
  if t.kind ≠ .eof ∧ t.span.stop ≤ offset then t else t.shift bytes lines

/-- What becomes of an error when some bytes and lines are inserted at an
offset: one that ends there or in front stays, unless it is that of an open
string, and all else moves on. -/
def LexError.afterInsertion (offset bytes lines : Nat) (e : LexError) :
    LexError :=
  if e.fault ≠ .unterminatedString ∧ e.span.stop ≤ offset then e
  else e.shift bytes lines

/-- **A text inserted into a source changes nothing but places.** -/
def InsertsCleanly (source : String) (offset : Nat) (inserted : String) :
    Prop :=
  ∃ front back, source = front ++ back ∧ front.utf8ByteSize = offset ∧
    (scan (front ++ inserted ++ back) .empty).1 =
      (scan source .empty).1.map (.afterInsertion offset
        inserted.utf8ByteSize (lineFeeds inserted.toList)) ∧
    (scan (front ++ inserted ++ back) .empty).2.toList =
      (scan source .empty).2.toList.map (.afterInsertion offset
        inserted.utf8ByteSize (lineFeeds inserted.toList))

/-! ## Where texts fall apart -/

/-- Where something may be inserted, a source falls apart. -/
theorem IsInsertionPoint.exists_append {source : String} {offset : Nat}
    (h : IsInsertionPoint source offset) :
    ∃ front back, source = front ++ back ∧ front.utf8ByteSize = offset ∧
      pieces (front ++ back).toList =
        pieces front.toList ++ pieces back.toList := by
  have hseam : offset = 0 ∨ IsSeam source offset := by
    obtain h | ⟨t, ht, hoffset⟩ | ⟨e, he, hoffset⟩ := h
    · exact .inl h
    · exact .inr ⟨t.span, List.mem_append_left _ (List.mem_map_of_mem ht), hoffset⟩
    · exact .inr ⟨e.span, List.mem_append_right _ (List.mem_map_of_mem he),
        hoffset.imp_right (·.2)⟩
  obtain rfl | hseam := hseam
  · exact ⟨"", source, by simp, rfl, by simp⟩
  · exact hseam.exists_append

/-- A piece of a source ends behind its beginning, and in the source. -/
theorem offset_of_pieces_eq {source : List Char} {front rest : List Piece}
    {piece : Piece} (h : pieces source = front ++ piece :: rest) :
    let place := Position.start.after (front.flatMap Piece.text)
    0 < (place.after piece.text).offset ∧
      (place.after piece.text).offset ≤ byteLength source := by
  have hpos := byteLength_pos (text_ne_nil_of_mem_pieces source piece (by simp [h]))
  have hsource := congrArg (fun ps => byteLength (ps.flatMap Piece.text)) h
  simp only [flatMap_text_pieces, List.flatMap_append, List.flatMap_cons,
    byteLength_append] at hsource
  simp only [Position.offset_after, Position.start]
  omega

/-- What comes of a piece of a source ends behind the beginning, and in the
source. -/
theorem Placed.stop_of_mem {α : Type} {f : Piece → Position → Option α}
    {span : α → Span} {shift : Nat → Nat → α → α}
    (hplaced : Placed f span shift) {source : List Char} {a : α}
    (h : a ∈ collectFrom f .start (pieces source)) :
    0 < (span a).stop ∧ (span a).stop ≤ byteLength source := by
  obtain ⟨front, piece, rest, hpieces, hspan⟩ := hplaced.exists_span_eq h
  rw [hspan]
  exact offset_of_pieces_eq hpieces

/-! ## What moves on -/

section Halves

variable {front back : String}

/-- The lexemes of the first half stay. -/
theorem map_afterInsertion_tokensOf_front (bytes lines : Nat) :
    (tokensOf front).dropLast.map
        (.afterInsertion front.utf8ByteSize bytes lines) =
      (tokensOf front).dropLast := by
  rw [tokensOf, List.dropLast_concat]
  refine (List.map_congr_left fun t ht => ?_).trans (List.map_id _)
  have hstop := (Token.placed.stop_of_mem ht).2
  rw [byteLength_toList] at hstop
  exact if_pos ⟨kind_ne_eof_of_mem_collectFrom ht, hstop⟩

/-- The errors of the first half stay, if no string is left open in it. -/
theorem map_afterInsertion_errorsOf_front
    (closed : ∀ e ∈ errorsOf front, e.fault ≠ .unterminatedString)
    (bytes lines : Nat) :
    (errorsOf front).map
        (.afterInsertion front.utf8ByteSize bytes lines) = errorsOf front := by
  refine (List.map_congr_left fun e he => ?_).trans (List.map_id _)
  have hstop := (LexError.placed.stop_of_mem he).2
  rw [byteLength_toList] at hstop
  exact if_pos ⟨closed e he, hstop⟩

/-- The tokens of the second half move on, and so does the end. -/
theorem map_afterInsertion_tokensOf_back (offset feeds bytes lines : Nat) :
    ((tokensOf back).map (Token.shift offset feeds)).map
        (Token.afterInsertion offset bytes lines) =
      (tokensOf back).map (Token.shift (offset + bytes) (feeds + lines)) := by
  rw [List.map_map]
  refine List.map_congr_left fun t ht => ?_
  have hmoves : ¬ (t.kind ≠ .eof ∧ t.span.stop + offset ≤ offset) := by
    rintro ⟨hkind, hstop⟩
    rw [tokensOf, List.mem_append, List.mem_singleton] at ht
    obtain ht | rfl := ht
    · have hpos := (Token.placed.stop_of_mem ht).1
      omega
    · exact hkind rfl
  exact (if_neg hmoves).trans (t.shift_shift offset feeds bytes lines)

/-- The errors of the second half move on. -/
theorem map_afterInsertion_errorsOf_back (offset feeds bytes lines : Nat) :
    ((errorsOf back).map (LexError.shift offset feeds)).map
        (LexError.afterInsertion offset bytes lines) =
      (errorsOf back).map (LexError.shift (offset + bytes) (feeds + lines)) := by
  rw [List.map_map]
  refine List.map_congr_left fun e he => ?_
  have hmoves : ¬ (e.fault ≠ .unterminatedString ∧
      e.span.stop + offset ≤ offset) := by
    rintro ⟨-, hstop⟩
    have hpos := (LexError.placed.stop_of_mem he).1
    omega
  exact (if_neg hmoves).trans (e.shift_shift offset feeds bytes lines)

/-- Where a source falls apart, a text that sets the halves apart may be
inserted, if no string is left open in the first. -/
theorem insertsCleanly_of_setApart {inserted : String}
    (hpieces : pieces (front ++ back).toList =
      pieces front.toList ++ pieces back.toList)
    (closed : ∀ e ∈ errorsOf front, e.fault ≠ .unterminatedString)
    (h : SetApart front.toList inserted.toList back.toList) :
    InsertsCleanly (front ++ back) front.utf8ByteSize inserted := by
  have hbytes : (front ++ inserted).utf8ByteSize =
      front.utf8ByteSize + inserted.utf8ByteSize := String.utf8ByteSize_append
  have hlines : lineFeeds (front ++ inserted).toList =
      lineFeeds front.toList + lineFeeds inserted.toList := by
    rw [String.toList_append, lineFeeds_append]
  refine ⟨front, back, rfl, rfl, ?_, ?_⟩
  · rw [fst_scan, fst_scan, tokensOf_setApart h, tokensOf_append hpieces,
      List.map_append, map_afterInsertion_tokensOf_front,
      map_afterInsertion_tokensOf_back, hbytes, hlines]
  · rw [toList_snd_scan, toList_snd_scan, Diagnostics.toList_empty,
      List.nil_append, List.nil_append, errorsOf_setApart h,
      errorsOf_append hpieces, List.map_append,
      map_afterInsertion_errorsOf_front closed,
      map_afterInsertion_errorsOf_back, hbytes, hlines]

/-- Nothing may be inserted anywhere. -/
theorem insertsCleanly_empty (front back : String) :
    InsertsCleanly (front ++ back) front.utf8ByteSize "" := by
  have htoken : Token.afterInsertion front.utf8ByteSize "".utf8ByteSize
      (lineFeeds "".toList) = id := by
    funext t
    exact ite_self t
  have herror : LexError.afterInsertion front.utf8ByteSize "".utf8ByteSize
      (lineFeeds "".toList) = id := by
    funext e
    exact ite_self e
  refine ⟨front, back, rfl, rfl, ?_, ?_⟩
  · rw [htoken, List.map_id, String.append_empty]
  · rw [herror, List.map_id, String.append_empty]

end Halves

/-! ## What sets the halves apart -/

/-- Blanks and comments go on to the first line feed, and what is left begins
with it, unless nothing is. -/
theorem Spacing.exists_line {text : List Char} (h : Spacing text) :
    ∃ line rest, text = line ++ rest ∧ (∀ c ∈ line, c ≠ '\n') ∧
      Spacing rest ∧ NotNext (· ≠ '\n') rest := by
  induction h with
  | nil => exact ⟨[], [], rfl, by simp, .nil, by simp⟩
  | @blank c text hblank more ih =>
    by_cases hfeed : c = '\n'
    · exact ⟨[], c :: text, rfl, by simp, .blank hblank more, by simpa using hfeed⟩
    · obtain ⟨line, rest, rfl, hline, hrest, hstop⟩ := ih
      exact ⟨c :: line, rest, rfl, by simpa [hfeed] using hline, hrest, hstop⟩
  | @comment content text all more _ =>
    exact ⟨'/' :: '/' :: content, '\n' :: text, rfl, by simpa using all,
      .blank (by decide) more, by simp⟩

/-- Blanks and comments begin with a blank or a stroke. -/
theorem Spacing.exists_eq_cons {text : List Char} (h : Spacing text)
    (ne : text ≠ []) :
    ∃ c later, text = c :: later ∧ isWordChar c = false ∧ c ≠ '.' ∧ c ≠ '=' := by
  cases h with
  | nil => exact absurd rfl ne
  | blank hblank =>
    exact ⟨_, _, rfl, isWordChar_of_isBlank hblank, ne_of_class hblank rfl,
      ne_of_class hblank rfl⟩
  | comment => exact ⟨_, _, rfl, by decide, by decide, by decide⟩

/-- **A comment runs on** up to the first line feed, and stays a gap. -/
theorem SetApart.comment {content between back : List Char}
    (all : ∀ c ∈ content, c ≠ '\n') (stop : NotNext (· ≠ '\n') back)
    (h : Spacing between) :
    SetApart ('/' :: '/' :: content) between back := by
  obtain ⟨line, rest, rfl, hline, hrest, hfeed⟩ := h.exists_line
  obtain ⟨gs, hpieces, hgaps⟩ := hrest.exists_pieces_append back
  have hstop : NotNext (· ≠ '\n') (rest ++ back) := by
    cases rest with
    | nil => exact stop
    | cons c later => exact notNext_cons.mpr (notNext_cons.mp hfeed)
  have hall : ∀ c ∈ content ++ line, c ≠ '\n' := by
    simpa [or_imp, forall_and] using ⟨all, hline⟩
  have hfront : CutOff ⟨'/' :: '/' :: content, .gap⟩ [] := .comment all (by simp)
  have hwhole : CutOff ⟨'/' :: '/' :: (content ++ line), .gap⟩ (rest ++ back) :=
    .comment hall hstop
  refine ⟨[], [⟨'/' :: '/' :: content, .gap⟩],
    ⟨'/' :: '/' :: (content ++ line), .gap⟩ :: gs, ?_, ?_, by simpa using hgaps⟩
  · simpa using hfront.pieces_append
  · simpa [hpieces] using hwhole.pieces_append

/-- **A piece is set apart** from what comes behind it by blanks and comments,
if it is no open string, and no stroke with a comment behind it. -/
theorem CutOff.setApart {piece : Piece} {between back : List Char}
    (h : CutOff piece back)
    (closed : piece.role ≠ .faulty .unterminatedString)
    (hbetween : Spacing between) (ne : between ≠ [])
    (hstroke : piece.role = .lexeme (.symbol .slash) →
      between.head? ≠ some '/') :
    SetApart piece.text between back := by
  have hnil := hbetween.setApart_nil back
  have hend := h.shorten List.nil_prefix
  by_cases hgap : piece.role = .gap
  · cases h with
    | blank hblank => exact hnil.cons hend (.blank hblank)
    | comment all stop => exact .comment all stop hbetween
    | _ => cases hgap
  · obtain ⟨c, later, rfl, hword, hpoint, hequal⟩ := hbetween.exists_eq_cons ne
    have hset := hnil.cons hend (hend.append_stop hgap closed hword hpoint hequal
      (fun hs => by simpa using hstroke hs) (later ++ back))
    rwa [List.append_nil] at hset

/-- Where a text falls apart, blanks and comments set its halves apart, if no
string is left open in the first, and no stroke at its end becomes a comment. -/
theorem setApart_of_pieces_append {front between back : List Char}
    (hpieces : pieces (front ++ back) = pieces front ++ pieces back)
    (closed : ∀ piece ∈ pieces front,
      piece.role ≠ .faulty .unterminatedString)
    (hbetween : Spacing between) (ne : between ≠ [])
    (hstroke : ∀ piece ∈ (pieces front).getLast?,
      piece.role = .lexeme (.symbol .slash) → between.head? ≠ some '/') :
    SetApart front between back := by
  have hdigit : NotNext isDigit (between ++ back) := by
    obtain ⟨c, later, rfl, hword, -, -⟩ := hbetween.exists_eq_cons ne
    refine notNext_cons.mpr (Bool.eq_false_iff.mpr fun hdigit => ?_)
    exact Bool.false_ne_true (hword.symm.trans (isWordChar_of_isDigit hdigit))
  refine setApart_of_last hdigit (hbetween.setApart_nil back)
    fun piece hpiece _ => ?_
  obtain ⟨ps, hfront⟩ := List.getLast?_eq_some_iff.mp hpiece
  have hcut : CutOff piece back := by
    rw [hfront, List.append_assoc, List.singleton_append] at hpieces
    have hcut := cutOff_of_pieces_eq hpieces
    rwa [flatMap_text_pieces] at hcut
  exact hcut.setApart (closed piece (List.mem_of_getLast? hpiece)) hbetween ne
    (hstroke piece hpiece)

/-! ## Insertions -/

/-- Where a source falls apart, no string is left open in the first half, unless
that is the whole of a source in which one is. -/
theorem role_ne_of_pieces_append {front back : String}
    (hpieces : pieces (front ++ back).toList =
      pieces front.toList ++ pieces back.toList)
    (closed : front.utf8ByteSize = (front ++ back).utf8ByteSize →
      ∀ e ∈ (scan (front ++ back) .empty).2.toList,
        e.fault ≠ .unterminatedString) :
    ∀ piece ∈ pieces front.toList,
      piece.role ≠ .faulty .unterminatedString := by
  intro piece hpiece hrole
  obtain ⟨before, later, hfront⟩ := List.append_of_mem hpiece
  rw [hfront, List.append_assoc, List.cons_append] at hpieces
  -- nothing comes behind an open string, so nothing is in the second half
  have hrest := (cutOff_of_pieces_eq hpieces).rest_of_unterminated hrole
  rw [List.flatMap_append, flatMap_text_pieces, List.append_eq_nil_iff] at hrest
  obtain rfl : back = "" := String.toList_eq_nil_iff.mp hrest.2
  rw [String.append_empty] at closed
  have hclosed := closed rfl
  rw [← String.ofList_toList (s := front)] at hclosed
  exact role_ne_of_errors hclosed piece hpiece hrole

/-- The lexeme at the end of the first half has its token end there. -/
theorem exists_token_of_getLast? {front back : String}
    (hpieces : pieces (front ++ back).toList =
      pieces front.toList ++ pieces back.toList)
    {piece : Piece} (hpiece : piece ∈ (pieces front.toList).getLast?)
    {kind : Kind} (hrole : piece.role = .lexeme kind) :
    ∃ t ∈ (scan (front ++ back) .empty).1, t.kind = kind ∧
      t.span.stop = front.utf8ByteSize := by
  obtain ⟨ps, hfront⟩ := List.getLast?_eq_some_iff.mp hpiece
  have htext := flatMap_text_pieces front.toList
  rw [hfront, List.flatMap_append, List.flatMap_singleton] at htext
  refine ⟨.ofLexeme kind piece.text
    (Position.start.after (ps.flatMap Piece.text)), ?_, rfl, ?_⟩
  · rw [fst_scan, tokensOf, hpieces, hfront, collectFrom_append,
      collectFrom_append]
    simp [collectFrom, Piece.token?, hrole]
  · rw [← byteLength_toList, ← htext, byteLength_append]
    simp [Token.ofLexeme, Position.start]

/-- **Blanks and comments may be inserted where a token or an error begins or
ends.** What ends there or in front stays as it is; all else moves on, by the
bytes and the line feeds of what is inserted, and nothing else about it changes.
Comments that are inserted are closed by the ends of their lines; what begins
with one is not inserted right behind a stroke; and nothing is inserted at the
end of a source in which a string is left open. -/
theorem scan_insert_spacing {source inserted : String} {offset : Nat}
    (hpoint : IsInsertionPoint source offset)
    (hspacing : Spacing inserted.toList)
    (hstroke : ∀ t ∈ (scan source .empty).1, t.kind = .symbol .slash →
      t.span.stop = offset → inserted.toList.head? ≠ some '/')
    (closed : inserted ≠ "" → offset = source.utf8ByteSize →
      ∀ e ∈ (scan source .empty).2.toList, e.fault ≠ .unterminatedString) :
    InsertsCleanly source offset inserted := by
  obtain ⟨front, back, rfl, rfl, hpieces⟩ := hpoint.exists_append
  by_cases hempty : inserted = ""
  · subst hempty
    exact insertsCleanly_empty front back
  have hroles := role_ne_of_pieces_append hpieces (closed hempty)
  have hne : inserted.toList ≠ [] := mt String.toList_eq_nil_iff.mp hempty
  refine insertsCleanly_of_setApart hpieces ?_ ?_
  · intro e he hfault
    obtain ⟨before, piece, rest, fault, hfront, hrole, rfl⟩ :=
      exists_fault_of_mem_collectFrom he
    refine hroles piece (by simp [hfront]) (hrole.trans ?_)
    exact congrArg Role.faulty hfault
  · rw [String.toList_append] at hpieces
    refine setApart_of_pieces_append hpieces hroles hspacing hne
      fun piece hpiece hrole => ?_
    rw [← String.toList_append] at hpieces
    obtain ⟨t, ht, hkind, hstop⟩ := exists_token_of_getLast? hpieces hpiece hrole
    exact hstroke t ht hkind hstop

/-- A blank keeps the comment that is inserted apart from the stroke, and the
quote in it opens no string. -/
theorem scan_insert_spacing_behind_stroke :
    IsInsertionPoint "é/x // c" 3 ∧ Spacing " //\"\n".toList ∧
      (∀ t ∈ (scan "é/x // c" .empty).1, t.kind = .symbol .slash →
        t.span.stop = 3 → " //\"\n".toList.head? ≠ some '/') ∧
      (" //\"\n" ≠ "" → 3 = "é/x // c".utf8ByteSize →
        ∀ e ∈ (scan "é/x // c" .empty).2.toList,
          e.fault ≠ .unterminatedString) ∧
      InsertsCleanly "é/x // c" 3 " //\"\n" := by
  have hmem : (⟨.symbol .slash, "/", .none, 1, ⟨2, 3⟩⟩ : Token) ∈
      (scan "é/x // c" .empty).1 := by
    decide +kernel
  have hpoint : IsInsertionPoint "é/x // c" 3 := .inr (.inl ⟨_, hmem, .inr rfl⟩)
  have hspacing : Spacing " //\"\n".toList :=
    .blank (by decide) (@Spacing.comment ['"'] [] (by simp) .nil)
  have hstroke : ∀ t ∈ (scan "é/x // c" .empty).1, t.kind = .symbol .slash →
      t.span.stop = 3 → " //\"\n".toList.head? ≠ some '/' := by
    decide +kernel
  have closed : " //\"\n" ≠ "" → 3 = "é/x // c".utf8ByteSize →
      ∀ e ∈ (scan "é/x // c" .empty).2.toList,
        e.fault ≠ .unterminatedString := by
    decide +kernel
  exact ⟨hpoint, hspacing, hstroke, closed,
    scan_insert_spacing hpoint hspacing hstroke closed⟩

/-- At the end of an open string not even a blank may be inserted, although the
end of the source begins there: the string takes it up, and still begins where
it did. -/
theorem not_insertsCleanly_open_string :
    IsInsertionPoint "\"" 1 ∧ Spacing " ".toList ∧
      (∀ t ∈ (scan "\"" .empty).1, t.kind = .symbol .slash →
        t.span.stop = 1 → " ".toList.head? ≠ some '/') ∧
      ¬ InsertsCleanly "\"" 1 " " := by
  have hmem : (⟨.eof, "", .none, 1, ⟨1, 1⟩⟩ : Token) ∈
      (scan "\"" .empty).1 := by
    decide +kernel
  refine ⟨.inr (.inl ⟨_, hmem, .inl rfl⟩), .blank (by decide) .nil,
    by decide +kernel, ?_⟩
  rintro ⟨front, back, hsource, hsize, -, herrors⟩
  -- there is only one way to take the source apart at its end
  have hbytes : 1 = 1 + back.utf8ByteSize := by
    have happend := congrArg String.utf8ByteSize hsource
    rwa [String.utf8ByteSize_append, hsize] at happend
  obtain rfl : back = "" := String.utf8ByteSize_eq_zero_iff.mp (by omega)
  rw [String.append_empty] at hsource
  subst hsource
  revert herrors
  decide +kernel

end LoxLexer
