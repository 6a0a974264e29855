import LoxLexer.Diagnostics
import LoxLexer.Proofs.LineNumbers
import LoxLexer.Proofs.Spacing

/-!
# Line ends may be normalized

A source may end its lines with a carriage return and a line feed. If every such
pair is made a line feed alone, a scan comes to the same: only strings that hold
a pair change, and places move back by the pairs in front of them.

A pair has two characters, and a piece may end between them. That can only be a
gap, since no lexeme and no fault ends in a carriage return or begins with a
line feed (`CutOff.getLast?_ne_return`, `CutOff.head?_ne_lineFeed`). All other
pieces are cut off as before, with the pairs inside them made line feeds
(`CutOff.normalize`); a gap loses its carriage return, or is lost with it, and
comes to nothing either way (`CutOff.normalize_gap`). The main statement is
`scan_normalizeLineEnds`.
-/

namespace LoxLexer

/-- A text with a line feed in the place of each pair of a carriage return and a
line feed. -/
def normalizeLineEnds : List Char → List Char
  | [] => []
  | '\r' :: '\n' :: later => '\n' :: normalizeLineEnds later
  | c :: later => c :: normalizeLineEnds later

/-- The number of pairs of a carriage return and a line feed in a text. -/
def lineEndPairs : List Char → Nat
  | [] => 0
  | '\r' :: '\n' :: later => lineEndPairs later + 1
  | _ :: later => lineEndPairs later

/-- A literal with the pairs in its text made line feeds. -/
def Literal.normalize : Literal → Literal
  | .string text => .string (.ofList (normalizeLineEnds text.toList))
  | literal => literal

/-- **An offset of a source has moved back** by the number of the pairs in front
of it. -/
def MovesBack (source : List Char) (offset offset' : Nat) : Prop :=
  ∃ before rest, source = before ++ rest ∧ byteLength before = offset ∧
    offset' + lineEndPairs before = offset

/-- **A token after line ends have been normalized**, and the token before. -/
structure Token.Normalized (source : List Char) (t t' : Token) : Prop where
  /-- The kind is the same. -/
  kind_eq : t'.kind = t.kind
  /-- The pairs in the lexeme are line feeds. -/
  lexeme_eq : t'.lexeme = .ofList (normalizeLineEnds t.lexeme.toList)
  /-- The pairs in the literal are line feeds. -/
  literal_eq : t'.literal = t.literal.normalize
  /-- Nothing but a string of more than one line changes. -/
  unchanged : t.kind ≠ .string ∨ '\n' ∉ t.lexeme.toList →
    t'.lexeme = t.lexeme ∧ t'.literal = t.literal
  /-- The line is the same. -/
  line_eq : t'.line = t.line
  /-- The beginning moves back. -/
  start : MovesBack source t.span.start t'.span.start
  /-- The end moves back. -/
  stop : MovesBack source t.span.stop t'.span.stop

/-- **An error after line ends have been normalized**, and the error before. -/
structure LexError.Normalized (source : List Char) (e e' : LexError) : Prop where
  /-- The fault is the same, and with it the character. -/
  fault_eq : e'.fault = e.fault
  /-- The line is the same. -/
  line_eq : e'.line = e.line
  /-- The beginning moves back. -/
  start : MovesBack source e.span.start e'.span.start
  /-- The end moves back. -/
  stop : MovesBack source e.span.stop e'.span.stop

/-! ## Normalized texts -/

@[simp] theorem normalizeLineEnds_nil : normalizeLineEnds [] = [] := rfl

/-- What goes is each carriage return that has a line feed behind it. -/
theorem normalizeLineEnds_cons (c : Char) (text : List Char) :
    normalizeLineEnds (c :: text) =
      if c = '\r' ∧ text.head? = some '\n' then normalizeLineEnds text
      else c :: normalizeLineEnds text := by
  rw [normalizeLineEnds.eq_def]
  split
  · next h => cases h
  · next later h =>
    cases h
    rw [if_pos ⟨rfl, rfl⟩, normalizeLineEnds]
    simp
  · next d later hpair h =>
    cases h
    refine (if_neg ?_).symm
    rintro ⟨rfl, hhead⟩
    obtain ⟨rest, rfl⟩ := List.head?_eq_some_iff.mp hhead
    exact hpair rest rfl rfl

/-- A character that is no carriage return stays. -/
theorem normalizeLineEnds_cons_of_ne {c : Char} (h : c ≠ '\r')
    (text : List Char) :
    normalizeLineEnds (c :: text) = c :: normalizeLineEnds text := by
  rw [normalizeLineEnds_cons, if_neg fun hpair => h hpair.1]

/-- **Texts are normalized one by one**, if no pair stands where they meet. -/
theorem normalizeLineEnds_append {a b : List Char}
    (h : a.getLast? ≠ some '\r' ∨ b.head? ≠ some '\n') :
    normalizeLineEnds (a ++ b) = normalizeLineEnds a ++ normalizeLineEnds b := by
  induction a with
  | nil => rfl
  | cons c a ih =>
    cases a with
    | nil =>
      have hmeet : ¬ (c = '\r' ∧ b.head? = some '\n') := by
        simpa [imp_iff_not_or] using h
      rw [List.singleton_append, normalizeLineEnds_cons, if_neg hmeet,
        normalizeLineEnds_cons c [], if_neg (by simp)]
      rfl
    | cons d later =>
      have hlater := ih (by simpa using h)
      rw [List.cons_append, normalizeLineEnds_cons, hlater,
        normalizeLineEnds_cons c, List.cons_append, List.head?_cons,
        List.head?_cons]
      split <;> rfl

-- a carriage return that is left may have a line feed behind it
example : normalizeLineEnds (['\r'] ++ ['\r', '\n', '\r']) =
    ['\r', '\n', '\r'] :=
  rfl

/-- A text without line feeds stays as it is, or loses a carriage return at its
end to a line feed behind it. -/
theorem normalizeLineEnds_append_of_not_mem {text : List Char}
    (h : '\n' ∉ text) (rest : List Char) :
    ∃ line, normalizeLineEnds (text ++ rest) = line ++ normalizeLineEnds rest ∧
      (text = line ∨ text = line ++ ['\r']) := by
  induction text with
  | nil => exact ⟨[], rfl, .inl rfl⟩
  | cons c text ih =>
    have htext := fun hmem => h (List.mem_cons_of_mem c hmem)
    rw [List.cons_append, normalizeLineEnds_cons]
    split
    · next hpair =>
      -- what comes next is a line feed, so it is not in the text
      obtain rfl : text = [] := by
        cases text with
        | nil => rfl
        | cons d later =>
          cases hpair.2
          exact absurd List.mem_cons_self htext
      exact ⟨[], rfl, .inr (by rw [hpair.1]; rfl)⟩
    · obtain ⟨line, hline, hends⟩ := ih htext
      refine ⟨c :: line, by rw [hline, List.cons_append], ?_⟩
      exact hends.imp (congrArg (c :: ·)) (congrArg (c :: ·))

/-- A text without line feeds stays as it is. -/
theorem normalizeLineEnds_of_not_mem {text : List Char} (h : '\n' ∉ text) :
    normalizeLineEnds text = text := by
  induction text with
  | nil => rfl
  | cons c text ih =>
    have htext := fun hmem => h (List.mem_cons_of_mem c hmem)
    have hhead : text.head? ≠ some '\n' := fun hhead =>
      htext (List.mem_of_head? hhead)
    rw [normalizeLineEnds_cons, if_neg fun hpair => hhead hpair.2, ih htext]

/-- All characters of a normalized text are of the text. -/
theorem normalizeLineEnds_subset (text : List Char) :
    normalizeLineEnds text ⊆ text := by
  induction text with
  | nil => exact List.Subset.refl []
  | cons c text ih =>
    rw [normalizeLineEnds_cons]
    split
    · exact List.subset_cons_of_subset c ih
    · exact List.cons_subset_cons c ih

/-- What is normalized has as many line feeds. -/
@[simp] theorem lineFeeds_normalizeLineEnds (text : List Char) :
    lineFeeds (normalizeLineEnds text) = lineFeeds text := by
  unfold lineFeeds
  induction text with
  | nil => rfl
  | cons c text ih =>
    rw [normalizeLineEnds_cons]
    split
    · next hpair => rw [ih, hpair.1, List.count_cons_of_ne (by decide)]
    · rw [List.count_cons, List.count_cons, ih]

/-- What is normalized has a byte less for each pair. -/
theorem byteLength_normalizeLineEnds (text : List Char) :
    byteLength (normalizeLineEnds text) + lineEndPairs text =
      byteLength text := by
  fun_induction normalizeLineEnds text with
  | case1 => rfl
  | case2 later ih =>
    have hreturn : '\r'.utf8Size = 1 := rfl
    rw [lineEndPairs, byteLength_cons, byteLength_cons, byteLength_cons]
    omega
  | case3 c later hpair ih =>
    rw [lineEndPairs, byteLength_cons, byteLength_cons]
    · omega
    · exact hpair

/-! ## Normalized pieces -/

/-- What may not come next does not come next where pairs are line feeds, if it
is no line feed. -/
theorem NotNext.normalize {p : Char → Bool} {rest : List Char}
    (h : NotNext p rest) (hfeed : p '\n' = false) :
    NotNext p (normalizeLineEnds rest) := by
  cases rest with
  | nil => exact h
  | cons c later =>
    rw [normalizeLineEnds_cons]
    split
    · next hpair =>
      obtain ⟨behind, rfl⟩ := List.head?_eq_some_iff.mp hpair.2
      rw [normalizeLineEnds_cons_of_ne (by decide)]
      exact notNext_cons.mpr hfeed
    · exact notNext_cons.mpr (notNext_cons.mp h)

/-- What begins with a character that is no line feed where pairs are line feeds
begins with it. -/
theorem head?_of_normalizeLineEnds {text : List Char} {c : Char} (hc : c ≠ '\n')
    (h : (normalizeLineEnds text).head? = some c) : text.head? = some c := by
  by_contra hne
  have hnext : NotNext (· = c) text := fun d hd => decide_eq_false fun heq =>
    hne (heq ▸ hd)
  have hnone := hnext.normalize (decide_eq_false hc.symm) c h
  simp at hnone

theorem NoFraction.normalize {rest : List Char} (h : NoFraction rest) :
    NoFraction (normalizeLineEnds rest) := by
  intro digit later heq
  obtain ⟨behind, rfl⟩ : ∃ behind, rest = '.' :: behind :=
    List.head?_eq_some_iff.mp
      (head?_of_normalizeLineEnds (by decide) (congrArg List.head? heq))
  have hbehind : NotNext isDigit behind := by
    cases behind with
    | nil => exact notNext_nil _
    | cons d rest => exact notNext_cons.mpr (h d rest rfl)
  rw [normalizeLineEnds_cons_of_ne (by decide)] at heq
  have hlater := hbehind.normalize (by decide)
  rw [(List.cons.inj heq).2] at hlater
  exact notNext_cons.mp hlater

theorem Symbol.EndsAt.normalize {s : Symbol} {rest : List Char}
    (h : s.EndsAt rest) : s.EndsAt (normalizeLineEnds rest) :=
  ⟨fun hs hc => h.1 hs (head?_of_normalizeLineEnds (by decide) hc),
    fun hs hc => h.2 hs (head?_of_normalizeLineEnds (by decide) hc)⟩

/-- A content in quotes is normalized between them. -/
theorem normalizeLineEnds_quoted (content : List Char) :
    normalizeLineEnds ('"' :: content ++ ['"']) =
      '"' :: normalizeLineEnds content ++ ['"'] := by
  have hmeet : ['"'].head? ≠ some '\n' := by decide
  rw [List.cons_append, normalizeLineEnds_cons_of_ne (by decide),
    normalizeLineEnds_append (.inr hmeet)]
  rfl

/-- **Normalized lexemes and faults are cut off** in front of what is
normalized. -/
theorem CutOff.normalize {piece : Piece} {rest : List Char}
    (h : CutOff piece rest) (hgap : piece.role ≠ .gap) :
    CutOff ⟨normalizeLineEnds piece.text, piece.role⟩
      (normalizeLineEnds rest) := by
  have hkeep : piece.role ≠ .lexeme .string →
      piece.role ≠ .faulty .unterminatedString →
      normalizeLineEnds piece.text = piece.text := fun hstring closed =>
    normalizeLineEnds_of_not_mem fun hmem =>
      absurd (h.isBlank_of_mem hgap hstring closed '\n' hmem) (by decide)
  cases h with
  | blank => exact absurd rfl hgap
  | comment => exact absurd rfl hgap
  | string all =>
    rw [normalizeLineEnds_quoted]
    exact .string fun c hc => all c (normalizeLineEnds_subset _ hc)
  | whole ne all stop no_fraction =>
    rw [hkeep (by simp) (by simp)]
    exact .whole ne all (stop.normalize rfl) no_fraction.normalize
  | fraction whole_ne whole_all ne all stop =>
    rw [hkeep (by simp) (by simp)]
    exact .fraction whole_ne whole_all ne all (stop.normalize rfl)
  | word start all stop =>
    rw [hkeep (by simp [Kind.ofWord_ne_string]) (by simp)]
    exact .word start all (stop.normalize rfl)
  | symbol stop =>
    rw [hkeep (by simp) (by simp)]
    exact .symbol stop.normalize
  | unterminated all =>
    rw [normalizeLineEnds_cons_of_ne (by decide)]
    exact .unterminated fun c hc => all c (normalizeLineEnds_subset _ hc)
  | unexpected not_quote not_code =>
    rw [hkeep (by simp) (by simp)]
    exact .unexpected not_quote not_code

/-- Only a gap ends in a carriage return, or an open string, and nothing comes
behind that. -/
theorem CutOff.getLast?_ne_return {piece : Piece} {rest : List Char}
    (h : CutOff piece rest) (hgap : piece.role ≠ .gap) :
    piece.text.getLast? ≠ some '\r' ∨ rest.head? ≠ some '\n' := by
  by_cases hstring : piece.role = .lexeme .string
  · left
    obtain ⟨content, htext⟩ := h.exists_content hstring
    rw [htext, List.getLast?_concat]
    decide
  by_cases hopen : piece.role = .faulty .unterminatedString
  · right
    rw [h.rest_of_unterminated hopen]
    decide
  · left
    intro hlast
    have hblank := h.isBlank_of_mem hgap hstring hopen '\r'
      (List.mem_of_getLast? hlast)
    exact absurd hblank (by decide)

/-- **A normalized gap is a gap**, or nothing at all. -/
theorem CutOff.normalize_gap {piece : Piece} {rest : List Char}
    (h : CutOff piece rest) (hgap : piece.role = .gap) :
    ∃ gs, normalizeLineEnds (piece.text ++ rest) =
        gs.flatMap Piece.text ++ normalizeLineEnds rest ∧
      pieces (normalizeLineEnds (piece.text ++ rest)) =
        gs ++ pieces (normalizeLineEnds rest) ∧ ∀ g ∈ gs, g.role = .gap := by
  cases h with
  | @blank c _ hblank =>
    rw [List.singleton_append, normalizeLineEnds_cons]
    split
    · exact ⟨[], rfl, rfl, by simp⟩
    · have hcut : CutOff ⟨[c], .gap⟩ (normalizeLineEnds rest) := .blank hblank
      exact ⟨[⟨[c], .gap⟩], rfl, hcut.pieces_append, by simp⟩
  | @comment content _ all stop =>
    obtain ⟨line, hline, hends⟩ := normalizeLineEnds_append_of_not_mem
      (fun hmem => all '\n' hmem rfl) rest
    have hall : ∀ c ∈ line, c ≠ '\n' := fun c hc => all c (by
      obtain rfl | rfl := hends <;> simp [hc])
    have hcut : CutOff ⟨'/' :: '/' :: line, .gap⟩ (normalizeLineEnds rest) :=
      .comment hall (stop.normalize rfl)
    have htext : normalizeLineEnds ('/' :: '/' :: content ++ rest) =
        '/' :: '/' :: line ++ normalizeLineEnds rest := by
      rw [List.cons_append, List.cons_append,
        normalizeLineEnds_cons_of_ne (by decide),
        normalizeLineEnds_cons_of_ne (by decide), hline]
      rfl
    refine ⟨[⟨'/' :: '/' :: line, .gap⟩], ?_, ?_, by simp⟩
    · rw [htext, List.flatMap_singleton]
    · rw [htext]
      exact hcut.pieces_append
  | _ => cases hgap

/-- What a lexeme stands for is normalized with it. -/
theorem Denotes.normalize {text : List Char} {kind : Kind} {literal : Literal}
    (h : Denotes text kind literal) :
    Denotes (normalizeLineEnds text) kind literal.normalize := by
  by_cases hkind : kind = .string
  · subst hkind
    cases h with
    | string all =>
      rw [normalizeLineEnds_quoted, Literal.normalize, String.toList_ofList]
      exact .string fun c hc => all c (normalizeLineEnds_subset _ hc)
  · have hfeed : '\n' ∉ text := fun hmem =>
      absurd (h.isBlank_of_mem hkind '\n' hmem) (by decide)
    rw [normalizeLineEnds_of_not_mem hfeed]
    cases h with
    | symbol s => exact .symbol s
    | keyword k => exact .keyword k
    | identifier start all free => exact .identifier start all free
    | string => exact absurd rfl hkind
    | whole ne all => exact .whole ne all
    | fraction whole_ne whole_all ne all =>
      exact .fraction whole_ne whole_all ne all

/-! ## Normalized sources -/

section Places

variable {before before' rest : List Char}

/-- An offset moves back as long as no pair stands around it. -/
theorem movesBack_byteLength
    (h : normalizeLineEnds (before ++ rest) = before' ++ normalizeLineEnds rest)
    (hmeet : before.getLast? ≠ some '\r' ∨ rest.head? ≠ some '\n') :
    MovesBack (before ++ rest) (byteLength before) (byteLength before') := by
  rw [normalizeLineEnds_append hmeet] at h
  rw [← List.append_cancel_right h]
  exact ⟨before, rest, rfl, rfl, byteLength_normalizeLineEnds before⟩

/-- Lines stay the same. -/
theorem lineFeeds_eq_of_normalize
    (h : normalizeLineEnds (before ++ rest) =
      before' ++ normalizeLineEnds rest) :
    lineFeeds before' = lineFeeds before := by
  have hfeeds := congrArg lineFeeds h
  simp only [lineFeeds_normalizeLineEnds, lineFeeds_append] at hfeeds
  omega

variable {piece : Piece}

/-- Where a lexeme or a fault begins and ends, offsets move back and lines stay
the same. -/
theorem CutOff.movesBack (hcut : CutOff piece rest) (hgap : piece.role ≠ .gap)
    (h : normalizeLineEnds (before ++ (piece.text ++ rest)) =
      before' ++ normalizeLineEnds (piece.text ++ rest)) :
    MovesBack (before ++ (piece.text ++ rest)) (byteLength before)
        (byteLength before') ∧
      MovesBack (before ++ (piece.text ++ rest))
        (byteLength (before ++ piece.text))
        (byteLength (before' ++ normalizeLineEnds piece.text)) ∧
      lineFeeds before' = lineFeeds before := by
  have hhead : (piece.text ++ rest).head? ≠ some '\n' := by
    rw [List.head?_append_of_ne_nil _ hcut.text_ne_nil]
    exact hcut.head?_ne_lineFeed hgap
  have hlast : (before ++ piece.text).getLast? ≠ some '\r' ∨
      rest.head? ≠ some '\n' := by
    rw [List.getLast?_append_of_ne_nil _ hcut.text_ne_nil]
    exact hcut.getLast?_ne_return hgap
  have hnext : normalizeLineEnds (before ++ piece.text ++ rest) =
      before' ++ normalizeLineEnds piece.text ++ normalizeLineEnds rest := by
    rw [List.append_assoc, h,
      normalizeLineEnds_append (hcut.getLast?_ne_return hgap),
      List.append_assoc]
  have hstop := movesBack_byteLength hnext hlast
  rw [List.append_assoc before] at hstop
  exact ⟨movesBack_byteLength h (.inr hhead), hstop,
    lineFeeds_eq_of_normalize h⟩

end Places

/-- **Pieces come to the same**, but for the pairs in them: those behind one text
and those behind another. -/
def ComesToSame (source before before' : List Char) (ps ps' : List Piece) :
    Prop :=
  let place := Position.start.after before
  let place' := Position.start.after before'
  List.Forall₂ (Token.Normalized source) (collectFrom Piece.token? place ps)
      (collectFrom Piece.token? place' ps') ∧
    List.Forall₂ (LexError.Normalized source) (collectFrom Piece.error? place ps)
      (collectFrom Piece.error? place' ps')

/-- Pieces that come to the same may follow one another. -/
theorem ComesToSame.append {source before before' : List Char}
    {ps ps' qs qs' : List Piece} (h : ComesToSame source before before' ps ps')
    (hlater : ComesToSame source (before ++ ps.flatMap Piece.text)
      (before' ++ ps'.flatMap Piece.text) qs qs') :
    ComesToSame source before before' (ps ++ qs) (ps' ++ qs') := by
  simp only [ComesToSame, Position.after_append] at hlater
  simp only [ComesToSame, collectFrom_append]
  exact ⟨List.rel_append h.1 hlater.1, List.rel_append h.2 hlater.2⟩

/-- Gaps come to the same: to nothing. -/
theorem comesToSame_of_gaps {gs gs' : List Piece} (h : ∀ g ∈ gs, g.role = .gap)
    (h' : ∀ g ∈ gs', g.role = .gap) (source before before' : List Char) :
    ComesToSame source before before' gs gs' := by
  rw [ComesToSame, Token.placed.collectFrom_gaps h,
    Token.placed.collectFrom_gaps h', LexError.placed.collectFrom_gaps h,
    LexError.placed.collectFrom_gaps h']
  exact ⟨.nil, .nil⟩

/-- The token of a normalized lexeme is normalized. -/
theorem Denotes.normalized {source text : List Char} {kind : Kind}
    {literal : Literal} (h : Denotes text kind literal) {place place' : Position}
    (hstart : MovesBack source place.offset place'.offset)
    (hstop : MovesBack source (place.after text).offset
      (place'.after (normalizeLineEnds text)).offset)
    (hlines : place'.line = place.line) :
    Token.Normalized source (.ofLexeme kind text place)
      (.ofLexeme kind (normalizeLineEnds text) place') where
  kind_eq := rfl
  lexeme_eq := by simp [Token.ofLexeme]
  literal_eq := by
    show Literal.ofLexeme kind (normalizeLineEnds text) =
      (Literal.ofLexeme kind text).normalize
    rw [← h.literal_eq, ← h.normalize.literal_eq]
  unchanged := by
    intro honce
    have hfeed : '\n' ∉ text := by
      obtain hkind | hfeed := honce
      · exact fun hmem => absurd (h.isBlank_of_mem hkind '\n' hmem) (by decide)
      · simpa [Token.ofLexeme] using hfeed
    rw [normalizeLineEnds_of_not_mem hfeed]
    exact ⟨rfl, rfl⟩
  line_eq := hlines
  start := hstart
  stop := hstop

/-- A lexeme or a fault comes to the same. -/
theorem CutOff.comesToSame {piece : Piece} {before before' rest : List Char}
    (hcut : CutOff piece rest) (hgap : piece.role ≠ .gap)
    (h : normalizeLineEnds (before ++ (piece.text ++ rest)) =
      before' ++ normalizeLineEnds (piece.text ++ rest)) :
    ComesToSame (before ++ (piece.text ++ rest)) before before' [piece]
      [⟨normalizeLineEnds piece.text, piece.role⟩] := by
  obtain ⟨hstart, hstop, hlines⟩ := hcut.movesBack hgap h
  cases hrole : piece.role with
  | gap => exact absurd hrole hgap
  | lexeme kind =>
    have hlexeme := hcut.lexeme (by simp [hrole])
    rw [hrole] at hlexeme
    have ht : Token.Normalized (before ++ (piece.text ++ rest))
        (.ofLexeme kind piece.text (Position.start.after before))
        (.ofLexeme kind (normalizeLineEnds piece.text)
          (Position.start.after before')) := by
      refine hlexeme.denotes.normalized ?_ ?_ (by simp [hlines])
      · simpa [Position.start] using hstart
      · simpa [Position.start] using hstop
    refine ⟨?_, ?_⟩
    · simpa [collectFrom, Piece.token?, hrole] using ht
    · simp [collectFrom, Piece.error?, hrole]
  | faulty fault =>
    have he : LexError.Normalized (before ++ (piece.text ++ rest))
        (.atPiece fault piece.text (Position.start.after before))
        (.atPiece fault (normalizeLineEnds piece.text)
          (Position.start.after before')) :=
      { fault_eq := rfl
        line_eq := by simp [LexError.atPiece, hlines]
        start := by simpa [LexError.atPiece, Position.start] using hstart
        stop := by simpa [LexError.atPiece, Position.start] using hstop }
    refine ⟨?_, ?_⟩
    · simp [collectFrom, Piece.token?, hrole]
    · simpa [collectFrom, Piece.error?, hrole] using he

/-- **One piece at a time**: what is cut off comes to the same, and the rest is
normalized behind it. -/
theorem CutOff.exists_comesToSame {piece : Piece}
    {before before' rest : List Char} (hcut : CutOff piece rest)
    (h : normalizeLineEnds (before ++ (piece.text ++ rest)) =
      before' ++ normalizeLineEnds (piece.text ++ rest)) :
    ∃ ps', normalizeLineEnds (piece.text ++ rest) =
        ps'.flatMap Piece.text ++ normalizeLineEnds rest ∧
      pieces (normalizeLineEnds (piece.text ++ rest)) =
        ps' ++ pieces (normalizeLineEnds rest) ∧
      ComesToSame (before ++ (piece.text ++ rest)) before before' [piece] ps' := by
  by_cases hgap : piece.role = .gap
  · obtain ⟨gs, htext, hpieces, hgaps⟩ := hcut.normalize_gap hgap
    exact ⟨gs, htext, hpieces,
      comesToSame_of_gaps (by simpa using hgap) hgaps _ _ _⟩
  · have htext := normalizeLineEnds_append (hcut.getLast?_ne_return hgap)
    refine ⟨[⟨normalizeLineEnds piece.text, piece.role⟩], ?_, ?_,
      hcut.comesToSame hgap h⟩
    · rw [htext, List.flatMap_singleton]
    · rw [htext]
      exact (hcut.normalize hgap).pieces_append

/-- **All pieces come to the same**, those of a text and those of the normalized
text. -/
theorem comesToSame_pieces (text : List Char) {before before' : List Char}
    (h : normalizeLineEnds (before ++ text) =
      before' ++ normalizeLineEnds text) :
    ComesToSame (before ++ text) before before' (pieces text)
      (pieces (normalizeLineEnds text)) := by
  induction text using cutOff_induction generalizing before before' with
  | nil => exact comesToSame_of_gaps (by simp) (by simp) _ _ _
  | cons piece rest hcut ih =>
    obtain ⟨ps', htext, hpieces, hsame⟩ := hcut.exists_comesToSame h
    rw [htext, ← List.append_assoc, ← List.append_assoc] at h
    have hlater := ih h
    rw [List.append_assoc] at hlater
    rw [hcut.pieces_append, hpieces]
    exact hsame.append (by rwa [List.flatMap_singleton])

/-- The end of a normalized source is that of the source. -/
theorem normalized_eof (source : List Char) :
    Token.Normalized source (.eof (Position.start.after source))
      (.eof (Position.start.after (normalizeLineEnds source))) := by
  have hoffset : MovesBack source (Position.start.after source).offset
      (Position.start.after (normalizeLineEnds source)).offset := by
    refine ⟨source, [], (List.append_nil _).symm, ?_, ?_⟩
    · simp [Position.start]
    · simpa [Position.start] using byteLength_normalizeLineEnds source
  exact
    { kind_eq := rfl
      lexeme_eq := rfl
      literal_eq := rfl
      unchanged := fun _ => ⟨rfl, rfl⟩
      line_eq := by simp [Token.eof]
      start := hoffset
      stop := hoffset }

/-- A source with line feeds in the place of its pairs. -/
def normalizeSource (source : String) : String :=
  .ofList (normalizeLineEnds source.toList)

/-- **Line ends may be normalized.** A source with a line feed in the place of
each pair of a carriage return and a line feed has as many tokens and errors as
before, of the same kinds and on the same lines. In lexemes and strings too the
pairs are line feeds, so that only strings of more than one line change; and
every token and error begins and ends as many bytes further to the front as
there are pairs in front of it. -/
theorem scan_normalizeLineEnds (source : String) :
    List.Forall₂ (Token.Normalized source.toList) (scan source .empty).1
        (scan (normalizeSource source) .empty).1 ∧
      List.Forall₂ (LexError.Normalized source.toList)
        (scan source .empty).2.toList
        (scan (normalizeSource source) .empty).2.toList := by
  have hsource : normalizeLineEnds ([] ++ source.toList) =
      [] ++ normalizeLineEnds source.toList := rfl
  obtain ⟨htokens, herrors⟩ := comesToSame_pieces source.toList hsource
  have hend := List.Forall₂.cons (normalized_eof source.toList) .nil
  simp only [fst_scan, toList_snd_scan, Diagnostics.toList_empty,
    List.nil_append, tokensOf, errorsOf, normalizeSource, String.toList_ofList]
  exact ⟨List.rel_append htokens hend, herrors⟩

end LoxLexer
