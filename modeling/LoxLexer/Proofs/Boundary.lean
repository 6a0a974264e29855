import LoxLexer.Diagnostics
import LoxLexer.Proofs.CutOff
import LoxLexer.Shift

/-!
# Cutting a source between two pieces

No state passes from one piece to the next, but every piece was cut off in
front of some rest, and one half of a source has another rest than the whole.
What makes a source fall apart into two halves is that the rules for cutting
off only ever forbid: what may not come next does not come next either where
less comes (`CutOff.shorten`). So pieces that a source begins with are the
pieces of their own text, and the others are those of what is left
(`pieces_of_eq_append`).

A host knows nothing of pieces, but it knows where tokens and errors begin and
end. Every such offset, a **seam**, lies between two pieces, and the main
statement is that a scan can be cut there, and taken up there
(`scan_at_seam`).
-/

namespace LoxLexer

/-! ## Less of a rest -/

section Prefix

variable {rest part : List Char}

/-- What comes next in a part comes next in the rest. -/
theorem head?_of_part (h : part <+: rest) {c : Char}
    (hc : part.head? = some c) : rest.head? = some c := by
  obtain ⟨behind, rfl⟩ := h
  rw [List.head?_append, hc, Option.some_or]

/-- What does not come next does not come next in a part. -/
theorem NotNext.shorten {p : Char → Bool} (h : NotNext p rest)
    (hpart : part <+: rest) : NotNext p part :=
  fun c hc => h c (head?_of_part hpart hc)

/-- A part of a rest without a fraction has none. -/
theorem NoFraction.shorten (h : NoFraction rest) (hpart : part <+: rest) :
    NoFraction part := by
  rintro digit later rfl
  obtain ⟨behind, rfl⟩ := hpart
  exact h digit (later ++ behind) rfl

/-- A symbol that ends in front of a rest ends in front of a part of it. -/
theorem Symbol.EndsAt.shorten {s : Symbol} (h : s.EndsAt rest)
    (hpart : part <+: rest) : s.EndsAt part :=
  ⟨fun hs hc => h.1 hs (head?_of_part hpart hc),
    fun hs hc => h.2 hs (head?_of_part hpart hc)⟩

/-- **What is cut off in front of a rest is cut off in front of less of it.** -/
theorem CutOff.shorten {piece : Piece} (h : CutOff piece rest)
    (hpart : part <+: rest) : CutOff piece part := by
  cases h with
  | blank hblank => exact .blank hblank
  | comment all stop => exact .comment all (stop.shorten hpart)
  | string all => exact .string all
  | whole ne all stop no_fraction =>
    exact .whole ne all (stop.shorten hpart) (no_fraction.shorten hpart)
  | fraction whole_ne whole_all ne all stop =>
    exact .fraction whole_ne whole_all ne all (stop.shorten hpart)
  | word start all stop => exact .word start all (stop.shorten hpart)
  | symbol stop => exact .symbol (stop.shorten hpart)
  | unterminated all =>
    obtain rfl := List.prefix_nil.mp hpart
    exact .unterminated all
  | unexpected not_quote not_code => exact .unexpected not_quote not_code

end Prefix

/-! ## Between two pieces -/

/-- **Between two pieces a source falls apart**: the pieces in front are those
of their own text, and so are the pieces behind. -/
theorem pieces_of_eq_append {source : List Char} {ps qs : List Piece}
    (h : pieces source = ps ++ qs) :
    pieces (ps.flatMap Piece.text) = ps ∧
      pieces (qs.flatMap Piece.text) = qs := by
  induction source using cutOff_induction generalizing ps with
  | nil =>
    rw [pieces_nil, eq_comm, List.append_eq_nil_iff] at h
    obtain ⟨rfl, rfl⟩ := h
    exact ⟨pieces_nil, pieces_nil⟩
  | cons piece rest hcut ih =>
    cases ps with
    | nil =>
      rw [List.nil_append] at h
      rw [← h, flatMap_text_pieces]
      exact ⟨pieces_nil, rfl⟩
    | cons p ps =>
      rw [hcut.pieces_append, List.cons_append] at h
      obtain ⟨rfl, hrest⟩ := List.cons.inj h
      obtain ⟨hps, hqs⟩ := ih hrest
      -- the texts of the pieces in front begin the rest
      have hpart : ps.flatMap Piece.text <+: rest := by
        rw [← flatMap_text_pieces rest, hrest, List.flatMap_append]
        exact List.prefix_append _ _
      refine ⟨?_, hqs⟩
      rw [List.flatMap_cons, (hcut.shorten hpart).pieces_append, hps]

/-- A piece of a source was cut off in front of what comes behind it. -/
theorem cutOff_of_pieces_eq {source : List Char} {front later : List Piece}
    {piece : Piece} (h : pieces source = front ++ piece :: later) :
    CutOff piece (later.flatMap Piece.text) := by
  have hpieces := (pieces_of_eq_append h).2
  have hne : (piece :: later).flatMap Piece.text ≠ [] := by
    intro hnil
    rw [hnil, pieces_nil] at hpieces
    cases hpieces
  obtain ⟨first, ahead, hsource⟩ := List.exists_cons_of_ne_nil hne
  rw [hsource, pieces_cons] at hpieces
  obtain ⟨rfl, rfl⟩ := List.cons.inj hpieces
  rw [flatMap_text_pieces]
  exact Piece.cutOff_next first ahead

/-- The end of a text is as far on as the text has bytes and line feeds. -/
theorem Position.after_start_toList (text : String) :
    Position.start.after text.toList =
      Position.start.shift text.utf8ByteSize (lineFeeds text.toList) := by
  rw [after_eq_shift, byteLength_toList]

/-- The end of a text is that of its second half, as far on as its first half
reaches. -/
theorem Position.after_start_append (front back : String) :
    Position.start.after (front ++ back).toList =
      (Position.start.after back.toList).shift front.utf8ByteSize
        (lineFeeds front.toList) := by
  rw [String.toList_append, after_append, after_start_toList, after_shift]

/-- Where a text falls apart, its pieces come to what those of its first half
do, and those of its second half further on. -/
theorem Placed.collectFrom_pieces_append {α : Type}
    {f : Piece → Position → Option α} {span : α → Span}
    {shift : Nat → Nat → α → α} (hplaced : Placed f span shift)
    {front back : String}
    (h : pieces (front ++ back).toList =
      pieces front.toList ++ pieces back.toList) :
    collectFrom f .start (pieces (front ++ back).toList) =
      collectFrom f .start (pieces front.toList) ++
        (collectFrom f .start (pieces back.toList)).map
          (shift front.utf8ByteSize (lineFeeds front.toList)) := by
  rw [h, collectFrom_append, flatMap_text_pieces, Position.after_start_toList,
    hplaced.collectFrom_shift]

/-- If the lexemes of a text are those of two texts, the second further on, and
its end is that of the second, so are its tokens. -/
theorem tokensOf_eq_append {whole front back : String} {bytes lines : Nat}
    (hlexemes : collectFrom Piece.token? .start (pieces whole.toList) =
      collectFrom Piece.token? .start (pieces front.toList) ++
        (collectFrom Piece.token? .start (pieces back.toList)).map
          (.shift bytes lines))
    (hend : Position.start.after whole.toList =
      (Position.start.after back.toList).shift bytes lines) :
    tokensOf whole =
      (tokensOf front).dropLast ++
        (tokensOf back).map (.shift bytes lines) := by
  unfold tokensOf
  rw [hlexemes, hend, List.dropLast_concat, List.map_append,
    List.append_assoc]
  rfl

/-- The tokens of a text are those of its first half without the end, and those
of its second half further on. -/
theorem tokensOf_append {front back : String}
    (h : pieces (front ++ back).toList =
      pieces front.toList ++ pieces back.toList) :
    tokensOf (front ++ back) =
      (tokensOf front).dropLast ++ (tokensOf back).map
        (.shift front.utf8ByteSize (lineFeeds front.toList)) :=
  tokensOf_eq_append (Token.placed.collectFrom_pieces_append h)
    (Position.after_start_append front back)

/-- The errors of a text are those of its first half, and those of its second
half further on. -/
theorem errorsOf_append {front back : String}
    (h : pieces (front ++ back).toList =
      pieces front.toList ++ pieces back.toList) :
    errorsOf (front ++ back) =
      errorsOf front ++ (errorsOf back).map
        (.shift front.utf8ByteSize (lineFeeds front.toList)) :=
  LexError.placed.collectFrom_pieces_append h

/-! ## Seams -/

/-- **An offset is a seam of a source**: a token or an error begins or ends
there. -/
def IsSeam (source : String) (offset : Nat) : Prop :=
  ∃ s ∈ (scan source .empty).1.map Token.span ++
      (scan source .empty).2.toList.map LexError.span,
    offset = s.start ∨ offset = s.stop

/-- A seam lies between two pieces. -/
theorem IsSeam.exists_pieces_eq {source : String} {offset : Nat}
    (h : IsSeam source offset) :
    ∃ ps qs, pieces source.toList = ps ++ qs ∧
      offset = byteLength (ps.flatMap Piece.text) := by
  -- it is enough to look at the piece whose span it is
  have hpiece : ∀ front piece rest, pieces source.toList = front ++ piece :: rest →
      offset = byteLength (front.flatMap Piece.text) ∨
        offset = byteLength ((front ++ [piece]).flatMap Piece.text) →
      ∃ ps qs, pieces source.toList = ps ++ qs ∧
        offset = byteLength (ps.flatMap Piece.text) := by
    rintro front piece rest hpieces (hoffset | hoffset)
    · exact ⟨front, piece :: rest, hpieces, hoffset⟩
    · exact ⟨front ++ [piece], rest, by simp [hpieces], hoffset⟩
  obtain ⟨s, hs, hoffset⟩ := h
  rw [fst_scan, toList_snd_scan, Diagnostics.toList_empty, List.nil_append,
    List.mem_append, List.mem_map, List.mem_map] at hs
  obtain ⟨t, ht, rfl⟩ | ⟨e, he, rfl⟩ := hs
  · rw [tokensOf, List.mem_append, List.mem_singleton] at ht
    obtain ht | rfl := ht
    · obtain ⟨front, piece, rest, kind, hpieces, -, rfl⟩ :=
        exists_lexeme_of_mem_collectFrom ht
      refine hpiece front piece rest hpieces ?_
      simpa [Token.ofLexeme, Position.start] using hoffset
    · refine ⟨pieces source.toList, [], (List.append_nil _).symm, ?_⟩
      rw [flatMap_text_pieces]
      simpa [Token.eof, Position.start] using hoffset
  · obtain ⟨front, piece, rest, fault, hpieces, -, rfl⟩ :=
      exists_fault_of_mem_collectFrom he
    refine hpiece front piece rest hpieces ?_
    simpa [LexError.atPiece, Position.start] using hoffset

/-- At a seam a source falls apart into two halves. -/
theorem IsSeam.exists_append {source : String} {offset : Nat}
    (h : IsSeam source offset) :
    ∃ front back, source = front ++ back ∧ front.utf8ByteSize = offset ∧
      pieces (front ++ back).toList =
        pieces front.toList ++ pieces back.toList := by
  obtain ⟨ps, qs, hpieces, rfl⟩ := h.exists_pieces_eq
  obtain ⟨hps, hqs⟩ := pieces_of_eq_append hpieces
  have hsource : source =
      .ofList (ps.flatMap Piece.text) ++ .ofList (qs.flatMap Piece.text) := by
    rw [← String.ofList_append, ← List.flatMap_append, ← hpieces,
      flatMap_text_pieces, String.ofList_toList]
  refine ⟨_, _, hsource, ?_, ?_⟩
  · rw [← byteLength_toList, String.toList_ofList]
  · rw [← hsource, hpieces, String.toList_ofList, String.toList_ofList, hps, hqs]

/-- The lexeme of a token, scanned by itself, gives a token of the same kind
and with the same literal. -/
theorem exists_head?_scan_lexeme {source : String} {t : Token}
    (h : t ∈ tokensOf source) :
    ∃ u, (scan t.lexeme .empty).1.head? = some u ∧ u.kind = t.kind ∧
      u.literal = t.literal := by
  rw [tokensOf, List.mem_append, List.mem_singleton] at h
  obtain h | rfl := h
  · obtain ⟨front, piece, rest, kind, hpieces, hrole, rfl⟩ :=
      exists_lexeme_of_mem_collectFrom h
    have halone := (cutOff_of_pieces_eq hpieces).shorten List.nil_prefix
    have hpiece := halone.pieces_append
    rw [List.append_nil, pieces_nil] at hpiece
    refine ⟨.ofLexeme kind piece.text .start, ?_, rfl, rfl⟩
    rw [fst_scan, Token.ofLexeme, tokensOf, String.toList_ofList, hpiece]
    simp [collectFrom, Piece.token?, hrole, Token.ofLexeme]
  · refine ⟨.eof .start, ?_, rfl, rfl⟩
    simp [Token.eof, tokensOf, collectFrom]

/-- **A scan can be cut at its seams.** Where a token or an error begins or
ends, the source falls apart into two halves: the tokens of the scan are those
of the first half without its end, and then those of the second half, as many
bytes and lines further on as the first half has; and likewise the errors. Nor
does a token know anything of what stands around it: its kind and its literal
are those that a scan of its lexeme alone finds. -/
theorem scan_at_seam (source : String) :
    (∀ offset, IsSeam source offset →
      ∃ front back, source = front ++ back ∧ front.utf8ByteSize = offset ∧
        (scan source .empty).1 =
          (scan front .empty).1.dropLast ++ (scan back .empty).1.map
            (.shift offset (lineFeeds front.toList)) ∧
        (scan source .empty).2.toList =
          (scan front .empty).2.toList ++ (scan back .empty).2.toList.map
            (.shift offset (lineFeeds front.toList))) ∧
      ∀ t ∈ (scan source .empty).1, ∃ u,
        (scan t.lexeme .empty).1.head? = some u ∧ u.kind = t.kind ∧
          u.literal = t.literal := by
  constructor
  · intro offset hseam
    obtain ⟨front, back, rfl, rfl, hpieces⟩ := hseam.exists_append
    refine ⟨front, back, rfl, rfl, ?_, ?_⟩
    · simp only [fst_scan]
      exact tokensOf_append hpieces
    · simp only [toList_snd_scan, Diagnostics.toList_empty, List.nil_append]
      exact errorsOf_append hpieces
  · intro t ht
    rw [fst_scan] at ht
    exact exists_head?_scan_lexeme ht

/-- Behind a string that holds a line feed, the second half of a source is
scanned as if it began on the second line. -/
theorem scan_at_seam_behind_string :
    IsSeam "\"é\n\"!=x" 5 ∧
      (∃ front back, "\"é\n\"!=x" = front ++ back ∧ front.utf8ByteSize = 5 ∧
        (scan "\"é\n\"!=x" .empty).1 =
          (scan front .empty).1.dropLast ++ (scan back .empty).1.map
            (.shift 5 (lineFeeds front.toList)) ∧
        (scan "\"é\n\"!=x" .empty).2.toList =
          (scan front .empty).2.toList ++ (scan back .empty).2.toList.map
            (.shift 5 (lineFeeds front.toList))) ∧
      ∃ u, (scan "\"é\n\"" .empty).1.head? = some u ∧ u.kind = .string ∧
        u.literal = .string "é\n" := by
  have hmem : (⟨.string, "\"é\n\"", .string "é\n", 1, ⟨0, 5⟩⟩ : Token) ∈
      (scan "\"é\n\"!=x" .empty).1 := by
    decide +kernel
  obtain ⟨hseams, halone⟩ := scan_at_seam "\"é\n\"!=x"
  have hseam : IsSeam "\"é\n\"!=x" 5 := by
    refine ⟨_, List.mem_append_left _ (List.mem_map_of_mem hmem), ?_⟩
    exact .inr rfl
  refine ⟨hseam, hseams 5 hseam, ?_⟩
  simpa only using halone _ hmem

end LoxLexer
