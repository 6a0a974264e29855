import LoxLexer.Proofs.Denotation
import LoxLexer.Proofs.Insertion

/-!
# Strings and comments are opaque

What stands between two quotes, or behind the two strokes of a comment, can be
anything that does not end it. No other token and no error depends on it but by
its place: behind another content they stand as much further on, or back, as it
is longer or shorter.

The reason is that a piece is cut off by looking no further than the first
character of the next one, unless that is a point (`CutOff.replace`). A string
begins with a quote and a comment with a stroke whatever they hold, so what
stands in front of them does not change when they do (`pieces_replace`), and
what stands behind them never knew. The main statement is
`scan_replace_content`.
-/

namespace LoxLexer

/-- A content in quotes. -/
def quoted (content : String) : String :=
  "\"" ++ content ++ "\""

/-- A string token that holds another content, and ends where that does. -/
def Token.withContent (t : Token) (content : String) : Token :=
  { t with
    lexeme := quoted content
    literal := .string content
    span := ⟨t.span.start, t.span.start + (quoted content).utf8ByteSize⟩ }

/-- **A comment of a source**: two strokes and a content that the scan cuts off
as a gap, between a text in front and one behind. -/
def IsComment (source front content back : String) : Prop :=
  source = front ++ "//" ++ content ++ back ∧
    ∃ ps qs, pieces source.toList =
        ps ++ ⟨'/' :: '/' :: content.toList, .gap⟩ :: qs ∧
      ps.flatMap Piece.text = front.toList

/-- **A token has moved** as a token does behind a text in the place of which a
new one is put: the two would be the same if each stood further on by the other
text. -/
def Token.Moved (old new : String) (t t' : Token) : Prop :=
  t'.shift old.utf8ByteSize (lineFeeds old.toList) =
    t.shift new.utf8ByteSize (lineFeeds new.toList)

/-- **An error has moved** as a token does. -/
def LexError.Moved (old new : String) (e e' : LexError) : Prop :=
  e'.shift old.utf8ByteSize (lineFeeds old.toList) =
    e.shift new.utf8ByteSize (lineFeeds new.toList)

/-- What becomes of a token when, somewhere behind an offset, a new text is put
in the place of an old one: if it ends at the offset or in front of it, it stays
as it is, and else it moves. -/
def Token.Replaced (offset : Nat) (old new : String) (t t' : Token) : Prop :=
  if t.span.stop ≤ offset then t' = t else t.Moved old new t'

/-- What becomes of an error when, somewhere behind an offset, a new text is put
in the place of an old one. -/
def LexError.Replaced (offset : Nat) (old new : String) (e e' : LexError) :
    Prop :=
  if e.span.stop ≤ offset then e' = e else e.Moved old new e'

/-! ## What stands in front does not change -/

/-- **A rest may change behind a character** that is no point: the piece in
front of it is cut off all the same. -/
theorem CutOff.replace {piece : Piece} {front later later' : List Char}
    {c : Char} (h : CutOff piece (front ++ c :: later)) (hpoint : c ≠ '.') :
    CutOff piece (front ++ c :: later') := by
  have hone : CutOff piece (front ++ [c]) :=
    h.shorten ⟨later, by simp⟩
  have hmore : CutOff piece (front ++ [c] ++ later') := by
    refine hone.append (fun hnil => by simp at hnil) fun hdot => ?_
    have hlast := congrArg List.getLast? hdot
    exact absurd (by simpa using hlast) hpoint
  simpa using hmore

/-- The first piece of a source is cut off in front of the others, and those are
the pieces of what is left. -/
theorem cutOff_of_pieces_eq_cons {source : List Char} {piece : Piece}
    {later : List Piece} (h : pieces source = piece :: later) :
    CutOff piece (later.flatMap Piece.text) ∧
      pieces (later.flatMap Piece.text) = later := by
  rw [← List.nil_append (piece :: later)] at h
  have hcut := cutOff_of_pieces_eq h
  rw [List.nil_append, ← List.singleton_append] at h
  exact ⟨hcut, (pieces_of_eq_append h).2⟩

/-- **A piece may be put in the place of another** that begins with the same
character, and no point, if it too is cut off in front of what stands
behind. -/
theorem pieces_replace {source : List Char} {ps qs : List Piece}
    {piece piece' : Piece} (h : pieces source = ps ++ piece :: qs)
    {c : Char} (hpoint : c ≠ '.') (hhead : piece.text.head? = some c)
    (hhead' : piece'.text.head? = some c)
    (hcut : CutOff piece' (qs.flatMap Piece.text)) :
    pieces (ps.flatMap Piece.text ++ (piece'.text ++ qs.flatMap Piece.text)) =
      ps ++ piece' :: qs := by
  induction ps generalizing source with
  | nil =>
    rw [List.flatMap_nil, List.nil_append, hcut.pieces_append,
      (cutOff_of_pieces_eq_cons h).2]
    rfl
  | cons p ps ih =>
    rw [List.cons_append] at h
    obtain ⟨hp, hpieces⟩ := cutOff_of_pieces_eq_cons h
    have hlater := ih hpieces
    obtain ⟨text, htext⟩ := List.head?_eq_some_iff.mp hhead
    obtain ⟨text', htext'⟩ := List.head?_eq_some_iff.mp hhead'
    rw [List.flatMap_append, List.flatMap_cons, htext, List.cons_append] at hp
    have hp' : CutOff p (ps.flatMap Piece.text ++
        (piece'.text ++ qs.flatMap Piece.text)) := by
      rw [htext', List.cons_append]
      exact hp.replace hpoint
    rw [List.flatMap_cons, List.append_assoc, hp'.pieces_append, hlater]
    rfl

/-! ## What stands behind moves -/

/-- The same token behind an old text and behind a new one has moved. -/
theorem Token.moved_shift (t : Token) (bytes : Nat) (old new : String) :
    (t.shift (bytes + old.utf8ByteSize) (lineFeeds old.toList)).Moved old new
      (t.shift (bytes + new.utf8ByteSize) (lineFeeds new.toList)) := by
  rw [Moved, shift_shift, shift_shift, Nat.add_right_comm,
    Nat.add_comm (lineFeeds new.toList)]

/-- The same error behind an old text and behind a new one has moved. -/
theorem LexError.moved_shift (e : LexError) (bytes : Nat) (old new : String) :
    (e.shift (bytes + old.utf8ByteSize) (lineFeeds old.toList)).Moved old new
      (e.shift (bytes + new.utf8ByteSize) (lineFeeds new.toList)) := by
  rw [Moved, shift_shift, shift_shift, Nat.add_right_comm,
    Nat.add_comm (lineFeeds new.toList)]

/-- What pieces come to is what those in front of a piece do, the piece itself,
and those behind it, as far on as the piece reaches. -/
theorem Placed.collectFrom_append_cons {α : Type}
    {f : Piece → Position → Option α} {span : α → Span}
    {shift : Nat → Nat → α → α} (hplaced : Placed f span shift)
    (ps : List Piece) (piece : Piece) (qs : List Piece) :
    let place := Position.start.after (ps.flatMap Piece.text)
    collectFrom f .start (ps ++ piece :: qs) =
      collectFrom f .start ps ++ (f piece place).toList ++
        (collectFrom f place qs).map
          (shift (byteLength piece.text) (lineFeeds piece.text)) := by
  intro place
  rw [collectFrom_append, collectFrom, Position.after_eq_shift _ piece.text,
    hplaced.collectFrom_shift, List.append_assoc]

/-- The tokens of pieces that stand one after another from a given place, and
the end of the source behind them. -/
def tokensToEnd (place : Position) (ps : List Piece) : List Token :=
  collectFrom Piece.token? place ps ++
    [.eof (place.after (ps.flatMap Piece.text))]

section Replacement

variable {source : String} {ps qs : List Piece} {piece : Piece}

/-- The tokens of a source are those in front of a piece, its own, and those
behind it, as far on as the piece reaches. -/
theorem tokensOf_of_pieces_eq (h : pieces source.toList = ps ++ piece :: qs) :
    let place := Position.start.after (ps.flatMap Piece.text)
    tokensOf source =
      collectFrom Piece.token? .start ps ++ (piece.token? place).toList ++
        (tokensToEnd place qs).map
          (.shift (byteLength piece.text) (lineFeeds piece.text)) := by
  intro place
  have hsource : source.toList = ps.flatMap Piece.text ++
      (piece.text ++ qs.flatMap Piece.text) := by
    rw [← flatMap_text_pieces source.toList, h, List.flatMap_append,
      List.flatMap_cons]
  have hend : Position.start.after source.toList =
      (place.after (qs.flatMap Piece.text)).shift (byteLength piece.text)
        (lineFeeds piece.text) := by
    rw [hsource, Position.after_append, Position.after_append,
      Position.after_eq_shift _ piece.text, Position.after_shift]
  rw [tokensOf, h, hend, Token.placed.collectFrom_append_cons, tokensToEnd,
    List.map_append, List.append_assoc _ (List.map _ _)]
  rfl

/-- The errors of a source are those in front of a piece, its own, and those
behind it, as far on as the piece reaches. -/
theorem errorsOf_of_pieces_eq (h : pieces source.toList = ps ++ piece :: qs) :
    let place := Position.start.after (ps.flatMap Piece.text)
    errorsOf source =
      collectFrom Piece.error? .start ps ++ (piece.error? place).toList ++
        (collectFrom Piece.error? place qs).map
          (.shift (byteLength piece.text) (lineFeeds piece.text)) := by
  intro place
  rw [errorsOf, h]
  exact LexError.placed.collectFrom_append_cons ps piece qs

end Replacement

/-! ## Another content -/

/-- **A piece wraps a content** if it has two characters more, which are no line
feeds, and is no fault: the quotes of a string, or the strokes of a comment. -/
structure Piece.Wraps (piece : Piece) (content : String) : Prop where
  /-- The two characters have a byte each. -/
  bytes : byteLength piece.text = 2 + content.utf8ByteSize
  /-- The lines end in the content. -/
  lines : lineFeeds piece.text = lineFeeds content.toList
  /-- The piece is not put down to a fault. -/
  sound : ∀ place, piece.error? place = none

/-- A string wraps what stands between its quotes. -/
theorem Piece.wraps_string (content : String) :
    Wraps ⟨(quoted content).toList, .lexeme .string⟩ content where
  bytes := by
    simp only [quoted, String.toList_append, byteLength_append,
      byteLength_toList]
    exact Nat.add_right_comm 1 content.utf8ByteSize 1
  lines := by
    simp only [quoted, String.toList_append, lineFeeds_append]
    exact Nat.zero_add _
  sound _ := rfl

/-- A comment wraps what stands behind its strokes. -/
theorem Piece.wraps_comment (content : String) :
    Wraps ⟨'/' :: '/' :: content.toList, .gap⟩ content where
  bytes := by
    rw [byteLength_cons, byteLength_cons, byteLength_toList, ← Nat.add_assoc]
    rfl
  lines := rfl
  sound _ := rfl

/-- What stays in front of a piece and what moves behind it correspond. -/
theorem forall₂_append_map {α β : Type} {R : α → α → Prop} {f g : β → α}
    {stays : List α} {moves : List β} (hstays : ∀ a ∈ stays, R a a)
    (hmoves : ∀ b ∈ moves, R (f b) (g b)) :
    List.Forall₂ R (stays ++ moves.map f) (stays ++ moves.map g) := by
  refine List.rel_append (List.forall₂_same.mpr hstays) ?_
  rw [List.forall₂_map_left_iff, List.forall₂_map_right_iff]
  exact List.forall₂_same.mpr hmoves

section Contents

variable {source source' content content' : String} {ps qs : List Piece}
variable {piece piece' : Piece}

/-- Behind another content all tokens have moved. -/
theorem Piece.Wraps.forall₂_moved (hwraps : piece.Wraps content)
    (hwraps' : piece'.Wraps content') (ts : List Token) :
    List.Forall₂ (Token.Moved content content')
      (ts.map (.shift (byteLength piece.text) (lineFeeds piece.text)))
      (ts.map (.shift (byteLength piece'.text) (lineFeeds piece'.text))) := by
  rw [hwraps.bytes, hwraps.lines, hwraps'.bytes, hwraps'.lines]
  rw [List.forall₂_map_left_iff, List.forall₂_map_right_iff]
  exact List.forall₂_same.mpr fun t _ => t.moved_shift 2 content content'

/-- Another content replaces the errors of a source. -/
theorem Piece.Wraps.forall₂_errorsOf (hwraps : piece.Wraps content)
    (hwraps' : piece'.Wraps content')
    (h : pieces source.toList = ps ++ piece :: qs)
    (h' : pieces source'.toList = ps ++ piece' :: qs) :
    List.Forall₂
      (LexError.Replaced (byteLength (ps.flatMap Piece.text)) content content')
      (errorsOf source) (errorsOf source') := by
  rw [errorsOf_of_pieces_eq h, errorsOf_of_pieces_eq h', hwraps.sound,
    hwraps'.sound, hwraps.bytes, hwraps.lines, hwraps'.bytes, hwraps'.lines,
    Option.toList_none, List.append_nil]
  refine forall₂_append_map (fun e he => ?_) fun e he => ?_
  · rw [← (pieces_of_eq_append h).1] at he
    exact Eq.mpr (if_pos (LexError.placed.stop_of_mem he).2) rfl
  · have hle := LexError.placed.offset_le_stop he
    rw [Position.offset_after, Position.start, Nat.zero_add] at hle
    have hbehind : ¬ e.span.stop + (2 + content.utf8ByteSize) ≤
        byteLength (ps.flatMap Piece.text) := by
      omega
    exact Eq.mpr (if_neg hbehind) (e.moved_shift 2 content content')

/-- Another content of a piece that has no token replaces the tokens of a
source. -/
theorem Piece.Wraps.forall₂_tokensOf (hwraps : piece.Wraps content)
    (hwraps' : piece'.Wraps content') (hgap : piece.role = .gap)
    (hgap' : piece'.role = .gap)
    (h : pieces source.toList = ps ++ piece :: qs)
    (h' : pieces source'.toList = ps ++ piece' :: qs) :
    List.Forall₂
      (Token.Replaced (byteLength (ps.flatMap Piece.text)) content content')
      (tokensOf source) (tokensOf source') := by
  have hnone : ∀ place, piece.token? place = none := fun _ => by
    rw [Piece.token?, hgap]
  have hnone' : ∀ place, piece'.token? place = none := fun _ => by
    rw [Piece.token?, hgap']
  rw [tokensOf_of_pieces_eq h, tokensOf_of_pieces_eq h', hnone, hnone',
    hwraps.bytes, hwraps.lines, hwraps'.bytes, hwraps'.lines,
    Option.toList_none, List.append_nil]
  refine forall₂_append_map (fun t ht => ?_) fun t ht => ?_
  · rw [← (pieces_of_eq_append h).1] at ht
    exact Eq.mpr (if_pos (Token.placed.stop_of_mem ht).2) rfl
  · have hle : byteLength (ps.flatMap Piece.text) ≤ t.span.stop := by
      rw [tokensToEnd, List.mem_append, List.mem_singleton] at ht
      obtain ht | rfl := ht
      · simpa [Position.start] using Token.placed.offset_le_stop ht
      · simp [Token.eof, Position.start]
    have hbehind : ¬ t.span.stop + (2 + content.utf8ByteSize) ≤
        byteLength (ps.flatMap Piece.text) := by
      omega
    exact Eq.mpr (if_neg hbehind) (t.moved_shift 2 content content')

end Contents

/-- Behind a text without line feeds in the place of another all tokens stay on
their lines. -/
theorem Token.Replaced.line_eq {offset : Nat} {old new : String} {t t' : Token}
    (h : t.Replaced offset old new t') (hold : '\n' ∉ old.toList)
    (hnew : '\n' ∉ new.toList) : t'.line = t.line := by
  rw [Replaced] at h
  split at h
  · rw [h]
  · have hlines := congrArg Token.line h
    simpa [shift, lineFeeds, List.count_eq_zero.mpr hold,
      List.count_eq_zero.mpr hnew] using hlines

/-- Behind a text without line feeds in the place of another all errors stay on
their lines. -/
theorem LexError.Replaced.line_eq {offset : Nat} {old new : String}
    {e e' : LexError} (h : e.Replaced offset old new e')
    (hold : '\n' ∉ old.toList) (hnew : '\n' ∉ new.toList) :
    e'.line = e.line := by
  rw [Replaced] at h
  split at h
  · rw [h]
  · have hlines := congrArg LexError.line h
    simpa [shift, lineFeeds, List.count_eq_zero.mpr hold,
      List.count_eq_zero.mpr hnew] using hlines

/-! ## Strings -/

/-- The token of a content in quotes is that of any other, but for what it
holds. -/
theorem Token.withContent_ofLexeme (content content' : String)
    (place : Position) :
    (ofLexeme .string (quoted content).toList place).withContent content' =
      ofLexeme .string (quoted content').toList place := by
  have hliteral : Literal.ofLexeme .string (quoted content').toList =
      .string content' := by
    simp [Literal.ofLexeme, quoted]
  simp [withContent, ofLexeme, hliteral, byteLength_toList]

/-- The string tokens of a source come from pieces that are contents in
quotes. -/
theorem exists_quoted_of_mem_tokensOf {source : String} {t : Token}
    (h : t ∈ tokensOf source) (hkind : t.kind = .string) :
    ∃ ps qs content, pieces source.toList =
        ps ++ ⟨(quoted content).toList, .lexeme .string⟩ :: qs ∧
      t = .ofLexeme .string (quoted content).toList
        (Position.start.after (ps.flatMap Piece.text)) := by
  rw [tokensOf, List.mem_append, List.mem_singleton] at h
  obtain h | rfl := h
  · obtain ⟨ps, ⟨text, role⟩, qs, kind, hpieces, hrole, rfl⟩ :=
      exists_lexeme_of_mem_collectFrom h
    obtain rfl : role = .lexeme .string := hrole.trans (congrArg _ hkind)
    obtain rfl : kind = .string := hkind
    obtain ⟨content, rfl⟩ := (cutOff_of_pieces_eq hpieces).exists_content rfl
    refine ⟨ps, qs, .ofList content, ?_, ?_⟩
    · simpa [quoted] using hpieces
    · simp [quoted]
  · cases hkind

/-- A string token stands where a content in quotes does, and another content
without a quote may be put in its place. -/
theorem exists_pieces_of_mem_tokensOf {source : String} {t : Token}
    (h : t ∈ tokensOf source) (hkind : t.kind = .string) :
    ∃ front content back ps qs, source = front ++ quoted content ++ back ∧
      byteLength (ps.flatMap Piece.text) = front.utf8ByteSize ∧
      t = .ofLexeme .string (quoted content).toList
        (Position.start.after (ps.flatMap Piece.text)) ∧
      pieces source.toList =
        ps ++ ⟨(quoted content).toList, .lexeme .string⟩ :: qs ∧
      ∀ content', '"' ∉ content'.toList →
        pieces (front ++ quoted content' ++ back).toList =
          ps ++ ⟨(quoted content').toList, .lexeme .string⟩ :: qs := by
  obtain ⟨ps, qs, content, hpieces, ht⟩ :=
    exists_quoted_of_mem_tokensOf h hkind
  refine ⟨.ofList (ps.flatMap Piece.text), content,
    .ofList (qs.flatMap Piece.text), ps, qs, ?_, ?_, ht, hpieces,
    fun content' all => ?_⟩
  · rw [← String.toList_inj, ← flatMap_text_pieces source.toList, hpieces]
    simp
  · rw [← byteLength_toList, String.toList_ofList]
  · have hhead : ∀ text, (quoted text).toList.head? = some '"' := by
      simp [quoted]
    have hcut : CutOff ⟨'"' :: content'.toList ++ ['"'], .lexeme .string⟩
        (qs.flatMap Piece.text) :=
      .string fun c hc hquote => all (hquote ▸ hc)
    have hquoted : (quoted content').toList =
        '"' :: content'.toList ++ ['"'] := by
      simp [quoted]
    rw [← hquoted] at hcut
    have hreplace := pieces_replace hpieces (by decide) (hhead content)
      (hhead content') hcut
    simpa using hreplace

/-- Another content in quotes leaves what stands in front of it as it is, and
moves what stands behind. -/
theorem tokensOf_replace_quoted {source source' content content' : String}
    {ps qs : List Piece}
    (h : pieces source.toList =
      ps ++ ⟨(quoted content).toList, .lexeme .string⟩ :: qs)
    (h' : pieces source'.toList =
      ps ++ ⟨(quoted content').toList, .lexeme .string⟩ :: qs) :
    let place := Position.start.after (ps.flatMap Piece.text)
    ∃ ts us us',
      tokensOf source =
        ts ++ .ofLexeme .string (quoted content).toList place :: us ∧
      tokensOf source' =
        ts ++ .ofLexeme .string (quoted content').toList place :: us' ∧
      List.Forall₂ (Token.Moved content content') us us' := by
  intro place
  refine ⟨collectFrom Piece.token? .start ps, _, _, ?_, ?_,
    (Piece.wraps_string content).forall₂_moved (Piece.wraps_string content')
      (tokensToEnd place qs)⟩
  · rw [tokensOf_of_pieces_eq h, List.append_assoc]
    rfl
  · rw [tokensOf_of_pieces_eq h', List.append_assoc]
    rfl

/-! ## Comments -/

/-- A comment has no line feed, and goes on to one or to the end of the
source. -/
theorem CutOff.of_comment {content rest : List Char}
    (h : CutOff ⟨'/' :: '/' :: content, .gap⟩ rest) :
    '\n' ∉ content ∧ NotNext (· ≠ '\n') rest := by
  generalize hpiece : (⟨'/' :: '/' :: content, .gap⟩ : Piece) = piece at h
  cases h with
  | comment all stop =>
    cases hpiece
    exact ⟨fun hmem => all '\n' hmem rfl, stop⟩
  | _ => simp at hpiece

/-- Another content without a line feed may be put in the place of that of a
comment. -/
theorem IsComment.exists_pieces {source front content back : String}
    (h : IsComment source front content back) :
    '\n' ∉ content.toList ∧ ∃ ps qs,
      byteLength (ps.flatMap Piece.text) = front.utf8ByteSize ∧
      pieces source.toList = ps ++ ⟨'/' :: '/' :: content.toList, .gap⟩ :: qs ∧
      ∀ content', '\n' ∉ content'.toList →
        pieces (front ++ "//" ++ content' ++ back).toList =
          ps ++ ⟨'/' :: '/' :: content'.toList, .gap⟩ :: qs := by
  obtain ⟨rfl, ps, qs, hpieces, hfront⟩ := h
  have hcomment := (cutOff_of_pieces_eq hpieces).of_comment
  have hback : qs.flatMap Piece.text = back.toList := by
    have htext := flatMap_text_pieces (front ++ "//" ++ content ++ back).toList
    rw [hpieces] at htext
    simpa [hfront] using htext
  refine ⟨hcomment.1, ps, qs, ?_, hpieces, fun content' all => ?_⟩
  · rw [hfront, byteLength_toList]
  · have hcut : CutOff ⟨'/' :: '/' :: content'.toList, .gap⟩
        (qs.flatMap Piece.text) :=
      .comment (fun c hc hfeed => all (hfeed ▸ hc)) hcomment.2
    have hreplace := pieces_replace hpieces (by decide) rfl rfl hcut
    simpa [hfront, hback] using hreplace

/-! ## Contents are opaque -/

/-- **What strings and comments hold is opaque.** Whatever else is put between
the quotes of a string token, as long as it has no quote, the token holds it
instead and ends where it does, what stands in front stays, and what stands
behind moves. And whatever else is put behind the strokes of a comment, as long
as it has no line feed, all lexemes in front stay, all behind move, and all stay
on their lines. The same is true of the errors. -/
theorem scan_replace_content (source : String) :
    (∀ t ∈ (scan source .empty).1, t.kind = .string →
      ∃ front content back, source = front ++ quoted content ++ back ∧
        t.span.start = front.utf8ByteSize ∧ t = t.withContent content ∧
        ∀ content', '"' ∉ content'.toList →
          (∃ ts us us', (scan source .empty).1 = ts ++ t :: us ∧
            (scan (front ++ quoted content' ++ back) .empty).1 =
              ts ++ t.withContent content' :: us' ∧
            List.Forall₂ (Token.Moved content content') us us') ∧
          List.Forall₂
            (LexError.Replaced front.utf8ByteSize content content')
            (scan source .empty).2.toList
            (scan (front ++ quoted content' ++ back) .empty).2.toList) ∧
    ∀ front content back, IsComment source front content back →
      ∀ content', '\n' ∉ content'.toList →
        List.Forall₂
          (fun t t' => t'.line = t.line ∧
            t.Replaced front.utf8ByteSize content content' t')
          (scan source .empty).1
          (scan (front ++ "//" ++ content' ++ back) .empty).1 ∧
        List.Forall₂
          (fun e e' => e'.line = e.line ∧
            e.Replaced front.utf8ByteSize content content' e')
          (scan source .empty).2.toList
          (scan (front ++ "//" ++ content' ++ back) .empty).2.toList := by
  simp only [fst_scan, toList_snd_scan, Diagnostics.toList_empty,
    List.nil_append]
  constructor
  · intro t ht hkind
    obtain ⟨front, content, back, ps, qs, hsource, hfront, rfl, hpieces, hall⟩ :=
      exists_pieces_of_mem_tokensOf ht hkind
    refine ⟨front, content, back, hsource, ?_,
      (Token.withContent_ofLexeme content content _).symm, fun content' all => ?_⟩
    · rw [← hfront]
      exact Nat.zero_add _
    · rw [Token.withContent_ofLexeme, ← hfront]
      exact ⟨tokensOf_replace_quoted hpieces (hall content' all),
        (Piece.wraps_string content).forall₂_errorsOf
          (Piece.wraps_string content') hpieces (hall content' all)⟩
  · intro front content back hcomment content' all
    obtain ⟨hold, ps, qs, hfront, hpieces, hall⟩ := hcomment.exists_pieces
    have hwraps := Piece.wraps_comment content
    have hwraps' := Piece.wraps_comment content'
    rw [← hfront]
    exact ⟨(hwraps.forall₂_tokensOf hwraps' rfl rfl hpieces (hall content' all)).imp
        fun _ _ h => ⟨h.line_eq hold all, h⟩,
      (hwraps.forall₂_errorsOf hwraps' hpieces (hall content' all)).imp
        fun _ _ h => ⟨h.line_eq hold all, h⟩⟩

-- a quote in a comment opens no string, and a stroke in front is its own lexeme
example : IsComment "/ //a\"\n" "/ " "a\"" "\n" := by
  refine ⟨by decide, [⟨['/'], .lexeme (.symbol .slash)⟩, ⟨[' '], .gap⟩],
    [⟨['\n'], .gap⟩], ?_, rfl⟩
  decide +kernel

end LoxLexer
