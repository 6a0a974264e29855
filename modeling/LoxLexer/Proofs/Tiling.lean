import LoxLexer.Diagnostics
import LoxLexer.Proofs.Denotation
import LoxLexer.Proofs.Slice
import Mathlib.Data.List.Sort

/-!
# Tokens, errors and gaps make up the source

The spans of the tokens and of the errors of a scan, put in order, lie apart
in the source, and what they leave out is blanks and comments. `Tiling` says
this in bytes, of the tokens and errors that a host receives, and asks nothing
about pieces.

A host sees two lists and not their order, so the first step is to merge them:
`marksFrom` gives the spans as the pieces do, and sorting by where they begin
comes to the same (`marks_eq_marksFrom`). The second is the invariant `Tiled`,
which goes along the source and holds, at every boundary, a gap, a marked text
and what is tiled behind it; the gap has to know what follows, since a comment
in it may end only at the end of its line. All that `Tiling` asks is then read
off `Tiled`.
-/

namespace LoxLexer

/-- The spans of tokens and errors, in the order in which they begin. -/
def marks (tokens : List Token) (errors : List LexError) : List Span :=
  (tokens.map Token.span ++ errors.map LexError.span).mergeSort
    (fun a b => a.start ≤ b.start)

/-- The spans before, between and behind others, from one offset up to
another. -/
def gaps (start stop : Nat) : List Span → List Span
  | [] => [⟨start, stop⟩]
  | s :: later => ⟨start, s.start⟩ :: gaps s.stop stop later

/-- Spans with the gaps before, between and behind them, in turn. -/
def interleaved (start stop : Nat) : List Span → List Span
  | [] => [⟨start, stop⟩]
  | s :: later => ⟨start, s.start⟩ :: s :: interleaved s.stop stop later

/-- **A text is skipped in front of a rest**: it is made of blanks and of
comments, and every comment goes on to the next line feed, or to the end of
the source. -/
inductive Skipped (rest : List Char) : List Char → Prop where
  /-- No text at all. -/
  | nil : Skipped rest []
  /-- A blank, and more. -/
  | blank {c : Char} {text : List Char} (blank : isBlank c = true)
      (more : Skipped rest text) : Skipped rest (c :: text)
  /-- A comment, and more. -/
  | comment {content text : List Char} (all : ∀ c ∈ content, c ≠ '\n')
      (line : text ++ rest = [] ∨ ∃ later, text ++ rest = '\n' :: later)
      (more : Skipped rest text) :
      Skipped rest ('/' :: '/' :: content ++ text)

/-- **Tokens and errors tile a source.** The marks are the spans of the errors
and of all tokens but the end of the source. -/
structure Tiling (source : String) (tokens : List Token)
    (errors : List LexError) : Prop where
  /-- The last token is the end of the source. -/
  last : ∃ line, tokens.getLast? = some
    ⟨.eof, "", .none, line, ⟨source.utf8ByteSize, source.utf8ByteSize⟩⟩
  /-- No other token is. -/
  only_last : ∀ t ∈ tokens.dropLast, t.kind ≠ .eof
  /-- A lexeme is what stands in its span, byte for byte. -/
  lexeme : ∀ t ∈ tokens, utf8 t.lexeme = t.span.slice source
  /-- No mark is empty. -/
  nonempty : ∀ s ∈ marks (tokens.filter (·.kind ≠ .eof)) errors,
    s.start < s.stop
  /-- All marks lie in the source. -/
  inside : ∀ s ∈ marks (tokens.filter (·.kind ≠ .eof)) errors,
    s.stop ≤ source.utf8ByteSize
  /-- All marks begin and end between characters. -/
  boundary : ∀ s ∈ marks (tokens.filter (·.kind ≠ .eof)) errors,
    IsBoundary source s.start ∧ IsBoundary source s.stop
  /-- The marks ascend and lie apart. -/
  apart : (marks (tokens.filter (·.kind ≠ .eof)) errors).Pairwise
    (fun a b => a.stop ≤ b.start)
  /-- What the marks leave out is skipped. -/
  skipped : ∀ gap ∈ gaps 0 source.utf8ByteSize
      (marks (tokens.filter (·.kind ≠ .eof)) errors),
    ∃ text rest, Skipped rest text ∧
      gap.slice source = utf8 (String.ofList text) ∧
      Span.slice source ⟨gap.stop, source.utf8ByteSize⟩ =
        utf8 (String.ofList rest)
  /-- Marks and gaps in turn are the source, byte for byte. -/
  whole : (interleaved 0 source.utf8ByteSize
      (marks (tokens.filter (·.kind ≠ .eof)) errors)).flatMap
    (Span.slice source) = utf8 source

/-! ## The marks in order -/

/-- The spans of the lexemes and faults among pieces that stand one after
another from a given place. -/
def marksFrom (place : Position) : List Piece → List Span
  | [] => []
  | piece :: later =>
    let span : Span := ⟨place.offset, (place.after piece.text).offset⟩
    (if piece.role = .gap then [] else [span]) ++
      marksFrom (place.after piece.text) later

/-- The marks are the spans of the tokens and those of the errors. -/
theorem marksFrom_perm (place : Position) (ps : List Piece) :
    ((collectFrom Piece.token? place ps).map Token.span ++
      (collectFrom Piece.error? place ps).map LexError.span).Perm
        (marksFrom place ps) := by
  induction ps generalizing place with
  | nil => exact .nil
  | cons piece later ih =>
    have hlater := ih (place.after piece.text)
    cases hrole : piece.role with
    | gap =>
      simpa [collectFrom, marksFrom, Piece.token?, Piece.error?,
        hrole] using hlater
    | lexeme kind =>
      simpa [collectFrom, marksFrom, Piece.token?, Piece.error?,
        hrole, Token.ofLexeme] using hlater
    | faulty fault =>
      have hmiddle := List.perm_middle.trans (hlater.cons
        ⟨place.offset, (place.after piece.text).offset⟩)
      simpa [collectFrom, marksFrom, Piece.token?, Piece.error?,
        hrole, LexError.atPiece] using hmiddle

/-- Marks begin no earlier than their pieces do. -/
theorem offset_le_of_mem_marksFrom {place : Position} {ps : List Piece}
    {s : Span} (h : s ∈ marksFrom place ps) : place.offset ≤ s.start := by
  induction ps generalizing place with
  | nil => simp [marksFrom] at h
  | cons piece later ih =>
    rw [marksFrom, List.mem_append] at h
    obtain h | h := h
    · split at h
      · cases h
      · obtain rfl := List.mem_singleton.mp h
        exact Nat.le_refl _
    · exact Nat.le_trans (Nat.le_add_right _ _) (ih h)

/-- The marks of pieces ascend and lie apart. -/
theorem pairwise_marksFrom (place : Position) (ps : List Piece) :
    (marksFrom place ps).Pairwise (fun a b => a.stop ≤ b.start) := by
  induction ps generalizing place with
  | nil => exact .nil
  | cons piece later ih =>
    rw [marksFrom]
    split
    · exact ih _
    · exact .cons (fun s hs => offset_le_of_mem_marksFrom hs) (ih _)

/-- **Sorting puts the marks in the order of the pieces.** -/
theorem marks_eq_marksFrom {place : Position} {ps : List Piece}
    (ne : ∀ s ∈ marksFrom place ps, s.start < s.stop) :
    marks (collectFrom Piece.token? place ps) (collectFrom Piece.error? place ps) =
      marksFrom place ps := by
  have hstrict : (marksFrom place ps).Pairwise
      (fun a b => a.start < b.start) :=
    (pairwise_marksFrom place ps).imp_of_mem fun ha _ hab =>
      Nat.lt_of_lt_of_le (ne _ ha) hab
  have hsorted : (marksFrom place ps).Pairwise
      (fun a b => decide (a.start ≤ b.start) = true) :=
    hstrict.imp fun hab => decide_eq_true (Nat.le_of_lt hab)
  have hsort : (marks (collectFrom Piece.token? place ps)
      (collectFrom Piece.error? place ps)).Pairwise
        (fun a b => decide (a.start ≤ b.start) = true) :=
    List.pairwise_mergeSort (fun a b c hab hbc => by simp at *; omega)
      (fun a b => by simp; omega) _
  have hperm : (marks (collectFrom Piece.token? place ps)
      (collectFrom Piece.error? place ps)).Perm (marksFrom place ps) :=
    (List.mergeSort_perm _ _).trans (marksFrom_perm place ps)
  -- two marks that begin together are one, so there is only one order
  have hanti : ∀ a ∈ marksFrom place ps, ∀ b ∈ marksFrom place ps,
      a.start ≤ b.start → b.start ≤ a.start → a = b :=
    List.Pairwise.forall_of_forall_of_flip (fun _ _ _ _ => rfl)
      (hstrict.imp fun hab _ hba => absurd hba (Nat.not_le_of_lt hab))
      (hstrict.imp fun hba hab _ => absurd hab (Nat.not_le_of_lt hba))
  refine hperm.eq_of_pairwise (fun a b ha hb hab hba => ?_) hsort hsorted
  exact hanti a (hperm.subset ha) b hb (of_decide_eq_true hab)
    (of_decide_eq_true hba)

/-! ## The invariant along the source -/

/-- **What is ahead is tiled by spans** when `before` stands in front of it:
a text is skipped, another one is marked, and so on to the end. -/
inductive Tiled : (before ahead : List Char) → List Span → Prop where
  /-- All that is left is skipped. -/
  | last {before text : List Char} (skipped : Skipped [] text) :
      Tiled before text []
  /-- A text is skipped and the next one marked. -/
  | next {before gap text rest : List Char} {later : List Span}
      (skipped : Skipped (text ++ rest) gap) (ne : text ≠ [])
      (tiled : Tiled (before ++ gap ++ text) rest later) :
      Tiled before (gap ++ text ++ rest)
        (.behind (before ++ gap) text :: later)

namespace Tiled

variable {before ahead : List Char} {spans : List Span}

/-- A blank may be put in front of what is tiled. -/
theorem blank {c : Char} (h : Tiled (before ++ [c]) ahead spans)
    (hblank : isBlank c = true) : Tiled before (c :: ahead) spans := by
  generalize hfront : before ++ [c] = front at h
  cases h with
  | last skipped => exact .last (.blank hblank skipped)
  | @next _ gap text rest later skipped ne tiled =>
    subst hfront
    have hnext : Tiled before (c :: gap ++ text ++ rest) _ :=
      .next (.blank hblank skipped) ne (by simpa using tiled)
    simpa using hnext

/-- A comment may be put in front of what is tiled, if its line ends there. -/
theorem comment {content : List Char}
    (h : Tiled (before ++ '/' :: '/' :: content) ahead spans)
    (all : ∀ c ∈ content, c ≠ '\n')
    (line : ahead = [] ∨ ∃ later, ahead = '\n' :: later) :
    Tiled before ('/' :: '/' :: content ++ ahead) spans := by
  generalize hfront : before ++ '/' :: '/' :: content = front at h
  cases h with
  | last skipped => exact .last (.comment all (by simpa using line) skipped)
  | @next _ gap text rest later skipped ne tiled =>
    subst hfront
    have hgap := Skipped.comment all (by simpa using line) skipped
    have hnext : Tiled before ('/' :: '/' :: content ++ gap ++ text ++ rest) _ :=
      .next hgap ne (by simpa using tiled)
    simpa using hnext

/-- Every span holds some text of the source. -/
theorem holds (h : Tiled before ahead spans) :
    ∀ s ∈ spans, ∃ text, text ≠ [] ∧ s.Holds (before ++ ahead) text := by
  induction h with
  | last => simp
  | @next before gap text rest later _ ne _ ih =>
    intro s hs
    obtain rfl | hs := List.mem_cons.mp hs
    · exact ⟨text, ne, before ++ gap, rest, by simp, rfl⟩
    · obtain ⟨text', ne', hholds⟩ := ih s hs
      exact ⟨text', ne', by simpa using hholds⟩

/-- What the spans leave out is skipped. -/
theorem skipped (h : Tiled before ahead spans) :
    ∀ gap ∈ gaps (byteLength before) (byteLength (before ++ ahead)) spans,
      ∃ front text rest, before ++ ahead = front ++ text ++ rest ∧
        gap = .behind front text ∧ Skipped rest text := by
  induction h with
  | @last before text skipped =>
    intro gap hgap
    obtain rfl := List.mem_singleton.mp hgap
    exact ⟨before, text, [], by simp, rfl, skipped⟩
  | @next before gap text rest later skipped _ _ ih =>
    intro g hg
    rw [Span.behind, gaps, List.mem_cons] at hg
    obtain rfl | hg := hg
    · exact ⟨before, gap, text ++ rest, by simp, rfl, skipped⟩
    · rw [← List.append_assoc, ← List.append_assoc] at hg
      obtain ⟨front, text', rest', hsource, hspan, hskipped⟩ := ih g hg
      exact ⟨front, text', rest', by simpa using hsource, hspan, hskipped⟩

/-- Spans and gaps in turn are the bytes of what is ahead. -/
theorem flatMap_slice (h : Tiled before ahead spans) :
    (interleaved (byteLength before) (byteLength (before ++ ahead)) spans).flatMap
      (Span.slice (String.ofList (before ++ ahead))) =
        utf8 (String.ofList ahead) := by
  induction h with
  | @last before text =>
    have hslice := Span.slice_behind before text []
    rw [List.append_nil] at hslice
    rw [interleaved, List.flatMap_singleton]
    exact hslice
  | @next before gap text rest later _ _ _ ih =>
    have hgap := Span.slice_behind before gap (text ++ rest)
    have htext := Span.slice_behind (before ++ gap) text rest
    have hsource : before ++ (gap ++ text ++ rest) =
        before ++ gap ++ text ++ rest := by simp
    rw [← List.append_assoc (before ++ gap)] at hgap
    rw [hsource, Span.behind, interleaved, List.flatMap_cons,
      List.flatMap_cons, ih]
    show Span.slice _ (.behind before gap) ++
      (Span.slice _ (.behind (before ++ gap) text) ++ _) = _
    rw [hgap, htext, utf8_ofList_append, utf8_ofList_append, List.append_assoc]

end Tiled

/-- **The pieces tile the source.** -/
theorem tiled_pieces (before ahead : List Char) :
    Tiled before ahead
      (marksFrom (Position.start.after before) (pieces ahead)) := by
  induction ahead using cutOff_induction generalizing before with
  | nil =>
    rw [pieces_nil]
    exact .last .nil
  | cons piece rest h ih =>
    have htiled := ih (before ++ piece.text)
    rw [h.pieces_append, marksFrom, ← Position.after_append]
    by_cases hgap : piece.role = .gap
    · rw [if_pos hgap, List.nil_append]
      cases h with
      | blank hblank => exact htiled.blank hblank
      | comment all stop =>
        refine htiled.comment all ?_
        cases rest with
        | nil => exact .inl rfl
        | cons c later => exact .inr ⟨later, by simpa using stop⟩
      | _ => cases hgap
    · rw [if_neg hgap]
      -- the gap in front is empty as yet: its pieces are put there one by one
      have hnext : Tiled before ([] ++ piece.text ++ rest) _ :=
        .next .nil h.text_ne_nil (by rwa [List.append_nil])
      simpa [Span.behind, Position.after, Position.start] using hnext

/-! ## The tokens in their spans -/

/-- The span of a token holds its lexeme. -/
theorem holds_of_mem_collectFrom {source : List Char} {t : Token}
    (h : t ∈ collectFrom Piece.token? .start (pieces source)) :
    t.span.Holds source t.lexeme.toList := by
  obtain ⟨front, piece, rest, kind, hpieces, -, rfl⟩ :=
    exists_lexeme_of_mem_collectFrom h
  refine ⟨front.flatMap Piece.text, rest.flatMap Piece.text, ?_, ?_⟩
  · rw [← flatMap_text_pieces source, hpieces]
    simp [Token.ofLexeme]
  · simp [Token.ofLexeme, Span.behind, Position.start]

/-- The token of a lexeme is not the end of the source. -/
theorem kind_ne_eof_of_mem_collectFrom {source : List Char} {place : Position}
    {t : Token} (h : t ∈ collectFrom Piece.token? place (pieces source)) :
    t.kind ≠ .eof := by
  obtain ⟨front, piece, rest, kind, hpieces, hrole, rfl⟩ :=
    exists_lexeme_of_mem_collectFrom h
  have hmem : piece ∈ pieces source := by simp [hpieces]
  exact (lexeme_of_mem_pieces piece hmem kind hrole).denotes.kind_ne_eof

/-- The marks of a scan are those of the pieces. -/
theorem marks_scan (source : List Char) :
    marks ((scan (String.ofList source) .empty).1.filter (·.kind ≠ .eof))
      (scan (String.ofList source) .empty).2.toList =
        marksFrom .start (pieces source) := by
  have htokens : (tokensOf (String.ofList source)).filter (·.kind ≠ .eof) =
      collectFrom Piece.token? .start (pieces source) := by
    rw [tokensOf, String.toList_ofList, List.filter_append,
      List.filter_eq_self.mpr fun t ht => by
        simpa using kind_ne_eof_of_mem_collectFrom ht]
    simp [Token.eof]
  rw [fst_scan, toList_snd_scan, htokens, errorsOf, String.toList_ofList]
  refine marks_eq_marksFrom fun s hs => ?_
  obtain ⟨text, ne, h⟩ := (tiled_pieces [] source).holds s hs
  exact h.start_lt_stop ne

/-- **Tokens, errors and gaps make up the source.** The spans of the tokens of
a scan and of the errors that it reports are not empty, lie in the source in
ascending order and apart, and begin and end between characters; a lexeme is
what stands in its span; the last token, and only it, is the end of the
source; and what no span covers is blanks and whole comments, so that no byte
is lost and none is covered twice. -/
theorem scan_tiling (source : String) :
    Tiling source (scan source .empty).1 (scan source .empty).2.toList := by
  obtain ⟨chars, rfl⟩ : ∃ chars, source = String.ofList chars :=
    ⟨source.toList, String.ofList_toList.symm⟩
  have hsize : (String.ofList chars).utf8ByteSize = byteLength chars := by
    rw [← byteLength_toList, String.toList_ofList]
  have htiled : Tiled [] chars (marksFrom .start (pieces chars)) :=
    tiled_pieces [] chars
  have hholds := htiled.holds
  have hspans := marks_scan chars
  constructor
  case last =>
    refine ⟨(Position.start.after chars).line, ?_⟩
    simp [tokensOf, Token.eof, hsize, Position.start]
  case only_last =>
    intro t ht
    rw [fst_scan, tokensOf, String.toList_ofList,
      List.dropLast_concat] at ht
    exact kind_ne_eof_of_mem_collectFrom ht
  case lexeme =>
    intro t ht
    rw [fst_scan, tokensOf, String.toList_ofList, List.mem_append] at ht
    obtain ht | ht := ht
    · rw [(holds_of_mem_collectFrom ht).slice_eq, String.ofList_toList]
    · obtain rfl := List.mem_singleton.mp ht
      simp [Token.eof, Span.slice, utf8, Position.start]
  case nonempty =>
    rw [hspans]
    intro s hs
    obtain ⟨text, ne, h⟩ := hholds s hs
    exact h.start_lt_stop ne
  case inside =>
    rw [hspans, hsize]
    intro s hs
    obtain ⟨text, -, h⟩ := hholds s hs
    exact h.stop_le
  case boundary =>
    rw [hspans]
    intro s hs
    obtain ⟨text, -, h⟩ := hholds s hs
    exact h.isBoundary
  case apart =>
    rw [hspans]
    exact pairwise_marksFrom .start (pieces chars)
  case skipped =>
    rw [hspans, hsize]
    intro gap hgap
    obtain ⟨front, text, rest, hsource, rfl, hskipped⟩ :=
      htiled.skipped gap hgap
    obtain rfl : chars = front ++ text ++ rest := hsource
    refine ⟨text, rest, hskipped, Span.slice_behind front text rest, ?_⟩
    have hrest := Span.slice_behind (front ++ text) rest []
    rwa [List.append_nil] at hrest
  case whole =>
    rw [hspans, hsize]
    exact htiled.flatMap_slice

end LoxLexer
