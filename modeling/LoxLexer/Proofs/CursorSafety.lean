import LoxLexer.Proofs.CursorMoves
import LoxLexer.Proofs.Placement

/-!
# A cursor never breaks down

The scan of `LoxLexer.Cursor` works on offsets, and breaks down as soon as one
of them is wrong. None ever is. A cursor stands in its source at every moment
(`Cursor.standing`), so the range that it has passed over holds a text; and the
range that is cut out for the value of a string, a byte narrower at both ends,
holds the text between the quotes, which have a byte each.

What is stated is more than that the scan gets through. Its moments are noted
while it runs, and `Moment.InOrder` says of each of them what the numbers of the
cursor have to do with the source and with what has not been read. `Trace` says
how moments follow one another: from the beginning of the source to its end,
with something read at every turn of the loop.

The proof goes along the definitions of the machine. `Watched.Yields` is said of
any work that comes to a result with all its moments of a kind. Reading a piece
yields what comes of the piece that `Piece.next` cuts off, so that the loop is
an induction on the pieces of the source, and finds what any scan finds. With
this the errors are those of pieces, which are never empty, and no error that a
run raises is one that cannot be reported.
-/

namespace LoxLexer

universe u

/-- The range in which a text stands that is cut out for something, when the
cursor has passed over a range. -/
def Part.within (span : Span) : Part → Span
  | content => ⟨span.start + 1, span.stop - 1⟩
  | _ => span

/-- **The cursor is in order at a moment** of the scan of a source. -/
structure Moment.InOrder (source : String) (m : Moment) : Prop where
  /-- The range does not end before it begins. -/
  start_le : m.span.start ≤ m.span.stop
  /-- It lies in the source. -/
  stop_le : m.span.stop ≤ source.utf8ByteSize
  /-- It begins and ends between characters. -/
  boundary : IsBoundary source m.span.start ∧ IsBoundary source m.span.stop
  /-- It ends where reading goes on: what has not been read is all that stands
  behind it in the source. -/
  unread : ∃ before, source.toList = before ++ m.unread ∧
    m.span.stop = byteLength before
  /-- There are no more lines than bytes, but for one. -/
  line_le : m.line ≤ 1 + source.utf8ByteSize
  /-- What is cut out is what has been passed over, or for the value of a string
  what is left of it without a byte at either end. -/
  within : ∀ part range, m.point = .cut part range → range = part.within m.span
  /-- There is something to cut out. -/
  text : ∀ part range, m.point = .cut part range →
    range.start ≤ range.stop ∧ range.stop ≤ source.utf8ByteSize ∧
      IsBoundary source range.start ∧ IsBoundary source range.stop

/-- **Moments follow one another in a scan** of what has not been read of a
source. -/
structure Trace (source : String) (unread : List Char) (moments : List Moment) :
    Prop where
  /-- The cursor is in order at all of them. -/
  inOrder : ∀ m ∈ moments, m.InOrder source
  /-- The first is at the head of the loop. -/
  first : ∃ m, moments.head? = some m ∧ m.point = .head ∧ m.unread = unread
  /-- The last is there again, with nothing left to be read. -/
  last : ∃ m, moments.getLast? = some m ∧ m.point = .head ∧ m.unread = []
  /-- Every turn of the loop reads at least one character. -/
  moving : (moments.filter (·.point = .head)).Pairwise
    (fun a b => b.unread.length < a.unread.length)

/-- **A source is scanned without a breakdown**, and its errors are reported. -/
structure SafelyScanned (source : String) : Prop where
  /-- A scan by a cursor goes from the beginning to the end of the source, and
  comes to what any scan comes to. -/
  completed : ∃ moments, Trace source source.toList moments ∧
    ∀ {σ : Type u} (report : Reporter σ) (host : σ),
      Cursor.scan report host source =
        .ok ((scanWith report host source).1,
          (scanWith report host source).2, moments)
  /-- A collection only grows. -/
  kept : ∀ diagnostics : Diagnostics,
    diagnostics.errors.size ≤ (scan source diagnostics).2.errors.size
  /-- What it grows by are errors whose spans are not empty and lie in the
  source. -/
  raised : ∀ diagnostics : Diagnostics,
    ∀ e ∈ (scan source diagnostics).2.since diagnostics.errors.size,
      e.span.start < e.span.stop ∧ e.span.stop ≤ source.utf8ByteSize
  /-- A run reports all that it has raised, whatever has been collected before:
  an error collected there that cannot be reported does not stop it. -/
  reported : ∀ path diagnostics, ∃ shown left,
    run path source diagnostics = .ok (shown, left)

/-! ## Work that is done without a breakdown -/

namespace Watched

variable {α β : Type} {P : Moment → Prop}

/-- **Work comes to a result** without a breakdown, and all moments that it
notes are of a kind. -/
def Yields (P : Moment → Prop) (x : Watched α) (a : α) : Prop :=
  ∃ moments : List Moment, (∀ m ∈ moments, P m) ∧
    ∀ log, x.run log = .ok (a, log ++ moments.toArray)

/-- To return a result is to come to it. -/
theorem Yields.pure (a : α) : Yields P (Pure.pure a) a :=
  ⟨[], by simp, fun log => by simp; rfl⟩

/-- Work that comes to a result may be followed by work that goes on from that
result. -/
theorem Yields.bind {x : Watched α} {f : α → Watched β} {a : α} {b : β}
    (hx : Yields P x a) (hf : Yields P (f a) b) : Yields P (x >>= f) b := by
  obtain ⟨before, hbefore, hx⟩ := hx
  obtain ⟨later, hlater, hf⟩ := hf
  refine ⟨before ++ later, ?_, fun log => ?_⟩
  · intro m hm
    obtain hm | hm := List.mem_append.mp hm
    · exact hbefore m hm
    · exact hlater m hm
  · rw [StateT.run_bind, hx]
    show (f a).run _ = _
    rw [hf]
    simp

/-- A moment may be noted if it is of the kind. -/
theorem Yields.note {m : Moment} (h : P m) : Yields P (note m) () :=
  ⟨[m], by simpa using h, fun log => by simp [Watched.note]; rfl⟩

end Watched

/-- A moment at which a text is cut out, with the cursor in order. -/
def Moment.IsSafeCut (source : List Char) (m : Moment) : Prop :=
  m.InOrder (.ofList source) ∧ m.point ≠ .head

/-- A word stands for nothing but itself. -/
theorem Literal.ofLexeme_ofWord (word text : List Char) :
    Literal.ofLexeme (.ofWord word) text = .none := by
  obtain ⟨k, hkind⟩ | hkind := Kind.ofWord_cases word <;> rw [hkind] <;> rfl

namespace Cursor

variable {before text ahead : List Char} {tokens : Array Token}

/-- **A cursor that stands in its source is in order.** -/
theorem inOrder_standing {point : Point}
    (h : ∀ part range, point = .cut part range →
      range = part.within (.behind before text) ∧
        ∃ content, range.Holds (before ++ text ++ ahead) content) :
    ((standing before text ahead tokens).moment point).InOrder
      (.ofList (before ++ text ++ ahead)) := by
  have hholds : (Span.behind before text).Holds (before ++ text ++ ahead)
      text := ⟨before, ahead, rfl, rfl⟩
  have hsize : (String.ofList (before ++ text ++ ahead)).utf8ByteSize =
      byteLength (before ++ text ++ ahead) := by
    rw [← byteLength_toList, String.toList_ofList]
  constructor
  case start_le => exact hholds.start_le_stop
  case stop_le => exact hsize ▸ hholds.stop_le
  case boundary => exact hholds.isBoundary
  case unread => exact ⟨before ++ text, String.toList_ofList, rfl⟩
  case line_le =>
    have hfeeds : lineFeeds (before ++ text) ≤ byteLength (before ++ text) :=
      Nat.le_trans List.count_le_length (length_le_byteLength _)
    rw [hsize, byteLength_append (before ++ text)]
    show 1 + lineFeeds (before ++ text) ≤ _
    omega
  case within => exact fun part range hpoint => (h part range hpoint).1
  case text =>
    intro part range hpoint
    obtain ⟨-, content, hcontent⟩ := h part range hpoint
    exact ⟨hcontent.start_le_stop, hsize ▸ hcontent.stop_le,
      hcontent.isBoundary⟩

/-- A text that a range holds can be cut out. -/
theorem cut_standing {part : Part} {range : Span} (content : List Char)
    (hwithin : range = part.within (.behind before text))
    (hholds : range.Holds (before ++ text ++ ahead) content) :
    Watched.Yields (Moment.IsSafeCut (before ++ text ++ ahead))
      ((standing before text ahead tokens).cut part range)
      (.ofList content) := by
  have htext : range.text? (standing before text ahead tokens).source =
      some (.ofList content) := hholds.text?_eq
  refine .bind (.note ⟨inOrder_standing ?_, Point.noConfusion⟩) ?_
  · rintro _ _ ⟨⟩
    exact ⟨hwithin, content, hholds⟩
  · simp only [htext]
    exact .pure _

/-- The token that is added is that of the text that has been passed over. -/
theorem addToken_standing {kind : Kind} {literal : Literal}
    (h : literal = .ofLexeme kind text) :
    Watched.Yields (Moment.IsSafeCut (before ++ text ++ ahead))
      ((standing before text ahead tokens).addToken kind literal)
      (standing before text ahead
        (tokens.push (.ofLexeme kind text (Position.start.after before)))) := by
  refine .bind (cut_standing _ rfl ⟨before, ahead, rfl, rfl⟩) ?_
  have htoken : ⟨kind, .ofList text, literal,
      (Position.start.after before).line, .behind before text⟩ =
        Token.ofLexeme kind text (Position.start.after before) := by
    simp [h, Token.ofLexeme, Span.behind, Position.start]
  rw [← htoken]
  exact .pure _

/-- The error of a fault is that of the text that has been passed over. -/
theorem error_standing (fault : Fault) :
    (standing before text ahead tokens).error fault =
      .atPiece fault text (Position.start.after before) := by
  simp [error, standing, LexError.atPiece, Span.behind, Position.start,
    Nat.add_assoc]

/-! ## Reading a piece -/

/-- What comes of a piece that has been cut off in front of a rest: its error,
if it has one, and a cursor that stands behind it and has its token. -/
def behind (before : List Char) (tokens : Array Token)
    (cutOff : Piece × List Char) : Option LexError × Cursor :=
  (cutOff.1.error? (Position.start.after before),
    standing before cutOff.1.text cutOff.2 (tokens ++
      (cutOff.1.token? (Position.start.after before)).toList.toArray))

/-- A lexeme comes to its token. -/
theorem behind_lexeme (kind : Kind) :
    behind before tokens (⟨text, .lexeme kind⟩, ahead) =
      (none, standing before text ahead
        (tokens.push (.ofLexeme kind text (Position.start.after before)))) := by
  simp [behind, Piece.error?, Piece.token?]

/-- A gap comes to nothing. -/
theorem behind_gap :
    behind before tokens (⟨text, .gap⟩, ahead) =
      (none, standing before text ahead tokens) := by
  simp [behind, Piece.error?, Piece.token?]

/-- A faulty piece comes to its error. -/
theorem behind_faulty (fault : Fault) :
    behind before tokens (⟨text, .faulty fault⟩, ahead) =
      (some (.atPiece fault text (Position.start.after before)),
        standing before text ahead tokens) := by
  simp [behind, Piece.error?, Piece.token?]

/-- What adds the token of a lexeme reads the piece. -/
theorem faultless_standing {P : Moment → Prop} {kind : Kind}
    {x : Watched Cursor}
    (h : Watched.Yields P x (standing before text ahead
      (tokens.push (.ofLexeme kind text (Position.start.after before))))) :
    Watched.Yields P (do return (none, ← x))
      (behind before tokens (⟨text, .lexeme kind⟩, ahead)) := by
  rw [behind_lexeme]
  exact .bind h (.pure _)

/-- Where all of a lexeme has been read, what is left is to add its token. -/
theorem lexeme_standing {kind : Kind} {literal : Literal}
    (h : literal = .ofLexeme kind text) :
    Watched.Yields (Moment.IsSafeCut (before ++ text ++ ahead))
      (do return (none,
        ← (standing before text ahead tokens).addToken kind literal))
      (behind before tokens (⟨text, .lexeme kind⟩, ahead)) :=
  faultless_standing (addToken_standing h)

/-- A digit begins a number. -/
theorem number_standing (digit : Char) :
    Watched.Yields (Moment.IsSafeCut (before ++ digit :: ahead))
      (do return (none, ← (standing before [digit] ahead tokens).number))
      (behind before tokens (Piece.nextNumber digit ahead)) := by
  have hsource := Piece.text_append_nextNumber digit ahead
  rw [← hsource, ← List.append_assoc]
  refine faultless_standing ?_
  rw [number, advanceWhile_standing rfl, fraction_standing]
  refine .bind (cut_standing _ rfl ⟨before, _, rfl, rfl⟩) ?_
  rw [String.toList_ofList]
  exact addToken_standing rfl

/-- A letter or an underscore begins a word. -/
theorem word_standing (first : Char) :
    Watched.Yields (Moment.IsSafeCut (before ++ first :: ahead))
      (do return (none, ← (standing before [first] ahead tokens).word))
      (behind before tokens (Piece.nextWord first ahead)) := by
  have hsource := Piece.text_append_nextWord first ahead
  rw [← hsource, ← List.append_assoc]
  refine faultless_standing ?_
  rw [word, advanceWhile_standing (by decide)]
  refine .bind (cut_standing _ rfl ⟨before, _, rfl, rfl⟩) ?_
  rw [String.toList_ofList]
  exact addToken_standing (Literal.ofLexeme_ofWord _ _).symm

/-- A symbol takes up an equals sign if the two are a symbol together. -/
theorem symbol_standing (s : Symbol) (first : Char) :
    Watched.Yields (Moment.IsSafeCut (before ++ first :: ahead))
      (do return (none, ← (standing before [first] ahead tokens).symbol s))
      (behind before tokens (Piece.nextSymbol s first ahead)) := by
  rw [List.append_cons]
  cases hwith : s.withEqual? with
  | none =>
    simp only [symbol, Piece.nextSymbol, hwith]
    exact lexeme_standing rfl
  | some t =>
    by_cases hequal : ahead.head? = some '='
    · obtain ⟨later, rfl⟩ := List.head?_eq_some_iff.mp hequal
      have hsource : before ++ [first] ++ '=' :: later =
          before ++ [first, '='] ++ later := by simp
      simp only [symbol, Piece.nextSymbol, hwith, hsource,
        advanceIf?_char '=' (by decide)]
      exact lexeme_standing rfl
    · have hnext : Piece.nextSymbol s first ahead =
          (⟨[first], .lexeme (.symbol s)⟩, ahead) := by
        rw [Piece.nextSymbol]
        exact fun _ later _ h => hequal (by rw [h]; rfl)
      simp only [symbol, hwith, advanceIf?_char_of_ne hequal, hnext]
      exact lexeme_standing rfl

/-- A stroke in front of another one begins a comment, and else is a symbol. -/
theorem stroke_standing :
    Watched.Yields (Moment.IsSafeCut (before ++ '/' :: ahead))
      (do return (none, ← (standing before ['/'] ahead tokens).stroke))
      (behind before tokens (Piece.next '/' ahead)) := by
  by_cases hstroke : ahead.head? = some '/'
  · obtain ⟨later, rfl⟩ := List.head?_eq_some_iff.mp hstroke
    simp only [stroke, advanceIf?_char '/' (by decide)]
    rw [Piece.next_comment, advanceWhile_standing (by decide)]
    show Watched.Yields _ _ (behind before tokens (⟨_, .gap⟩, _))
    rw [behind_gap]
    exact .bind (.pure _) (.pure _)
  · have hslash : Symbol.ofChar? '/' = some .slash := rfl
    rw [Piece.next_of_ofChar? hslash fun _ => hstroke, List.append_cons]
    simp only [stroke, advanceIf?_char_of_ne hstroke]
    exact lexeme_standing rfl

/-- A quote begins a string, and is put down to a fault if it is not closed. -/
theorem string_standing :
    Watched.Yields (Moment.IsSafeCut (before ++ '"' :: ahead))
      (standing before ['"'] ahead tokens).string
      (behind before tokens (Piece.nextString ahead)) := by
  rw [string, advanceToQuote_standing, Piece.nextString]
  cases hdrop : ahead.dropWhile (· ≠ '"') with
  | nil =>
    rw [behind_faulty, ← error_standing]
    exact .pure _
  | cons quote rest =>
    obtain rfl : quote = '"' := by
      have hhead := List.head?_dropWhile_not (· ≠ '"') ahead
      rw [hdrop] at hhead
      simpa using hhead
    have hsource : '"' :: ahead =
        '"' :: ahead.takeWhile (· ≠ '"') ++ ['"'] ++ rest := by
      have hahead : ahead.takeWhile (· ≠ '"') ++ ahead.dropWhile (· ≠ '"') =
          ahead := List.takeWhile_append_dropWhile
      rw [hdrop] at hahead
      simpa using hahead.symm
    rw [hsource, ← List.append_assoc]
    generalize ahead.takeWhile (· ≠ '"') = content
    show Watched.Yields _ (do
      let stop ← Watched.oneLess
        (byteLength (before ++ ('"' :: content ++ ['"'])))
      let c := standing before ('"' :: content ++ ['"']) rest tokens
      let text ← c.cut .content ⟨c.span.start + 1, stop⟩
      return (none, ← c.addToken .string (.string text))) _
    -- a quote has one byte, so the content begins one behind the piece and ends
    -- one in front of its end
    have hquote : '"'.utf8Size = 1 := rfl
    have hstop : byteLength (before ++ ('"' :: content ++ ['"'])) =
        byteLength (before ++ '"' :: content) + 1 := by
      simp [hquote, Nat.add_assoc]
    rw [hstop]
    refine .bind (.pure _) (.bind (cut_standing content ?_ ?_) ?_)
    · show (⟨_, _⟩ : Span) = ⟨_, byteLength _ - 1⟩
      rw [hstop]
      rfl
    · refine ⟨before ++ ['"'], '"' :: rest, by simp, ?_⟩
      simp [standing, Span.behind, hquote]
    · refine lexeme_standing ?_
      simp [Literal.ofLexeme]

/-- **A piece is read without a breakdown**, as it is cut off. -/
theorem scanToken_standing (before : List Char) (tokens : Array Token)
    (first : Char) (ahead : List Char) :
    Watched.Yields (Moment.IsSafeCut (before ++ first :: ahead))
      (standing before [] (first :: ahead) tokens).scanToken
      (behind before tokens (Piece.next first ahead)) := by
  rw [scanToken]
  by_cases hfeed : first = '\n'
  · rw [hfeed, advance?_standing, Piece.next_of_isBlank rfl, behind_gap]
    show Watched.Yields _ (return (none, Cursor.newLine _)) _
    rw [newLine_standing]
    exact .pure _
  rw [advance?_standing_of_ne hfeed]
  show Watched.Yields _ ((standing before [first] ahead tokens).piece first) _
  rw [piece]
  split
  · next hsymbol =>
    obtain rfl : '/' = first := by
      simpa [Symbol.spelling] using Symbol.ofChar?_eq_some_iff.mp hsymbol
    exact stroke_standing
  · next s hslash hsymbol =>
    rw [Piece.next_of_ofChar? hsymbol fun h => absurd h hslash]
    exact symbol_standing s first
  · next hsymbol =>
    rw [if_neg hfeed]
    by_cases hblank : isBlank first = true
    · rw [if_pos hblank, Piece.next_of_isBlank hblank, behind_gap]
      exact .pure _
    rw [if_neg hblank]
    by_cases hquote : first = '"'
    · rw [if_pos hquote, hquote, Piece.next_quote]
      exact string_standing
    rw [if_neg hquote]
    by_cases hdigit : isDigit first = true
    · rw [if_pos hdigit, Piece.next_of_isDigit hdigit]
      exact number_standing first
    rw [if_neg hdigit]
    by_cases hstart : isWordStart first = true
    · rw [if_pos hstart, Piece.next_of_isWordStart hstart]
      exact word_standing first
    rw [if_neg hstart]
    have hword := mt isWordChar_iff.mp (not_or.mpr ⟨hstart, hdigit⟩)
    have hcode : isCode first = false := by
      rw [← Bool.not_eq_true, isCode_iff, hsymbol]
      simp [hblank, hword]
    rw [Piece.next_of_not_isCode hquote hcode, behind_faulty, ← error_standing]
    exact .pure _

end Cursor

/-! ## The whole scan -/

namespace Trace

variable {source : String} {unread : List Char} {m : Moment}
  {cuts moments : List Moment}

/-- At no turn of the loop is there more to be read than at the first. -/
theorem length_unread_le (h : Trace source unread moments) :
    ∀ m ∈ moments.filter (·.point = .head),
      m.unread.length ≤ unread.length := by
  obtain ⟨m, hfirst, hhead, rfl⟩ := h.first
  obtain ⟨later, rfl⟩ := List.head?_eq_some_iff.mp hfirst
  have hmoving := h.moving
  rw [List.filter_cons_of_pos (by simpa using hhead)] at hmoving ⊢
  intro a ha
  obtain rfl | ha := List.mem_cons.mp ha
  · exact Nat.le_refl _
  · exact Nat.le_of_lt (List.rel_of_pairwise_cons hmoving ha)

/-- A scan ends when all has been read. -/
theorem end_of_source (hm : m.InOrder source) (hhead : m.point = .head)
    (hunread : m.unread = []) : Trace source m.unread [m] where
  inOrder := by simpa using hm
  first := ⟨m, rfl, hhead, rfl⟩
  last := ⟨m, rfl, hhead, hunread⟩
  moving := by simp [hhead]

/-- A turn of the loop reads something, and leaves less for those behind it. -/
theorem turn (hm : m.InOrder source) (hhead : m.point = .head)
    (hcuts : ∀ cut ∈ cuts, cut.InOrder source ∧ cut.point ≠ .head)
    (h : Trace source unread moments)
    (hless : unread.length < m.unread.length) :
    Trace source m.unread (m :: cuts ++ moments) where
  inOrder := by
    intro a ha
    rw [List.cons_append, List.mem_cons, List.mem_append] at ha
    obtain rfl | ha | ha := ha
    · exact hm
    · exact (hcuts a ha).1
    · exact h.inOrder a ha
  first := ⟨m, rfl, hhead, rfl⟩
  last := by
    obtain ⟨b, hlast, hb⟩ := h.last
    exact ⟨b, by rw [List.getLast?_append, hlast]; rfl, hb⟩
  moving := by
    have hnone : cuts.filter (·.point = .head) = [] :=
      List.filter_eq_nil_iff.mpr fun a ha => by simpa using (hcuts a ha).2
    rw [List.cons_append, List.filter_cons_of_pos (by simpa using hhead),
      List.filter_append, hnone, List.nil_append]
    refine .cons (fun a ha => ?_) h.moving
    exact Nat.lt_of_le_of_lt (h.length_unread_le a ha) hless

end Trace

namespace Cursor

variable {before text ahead : List Char}

/-- At the head of the loop a cursor that stands in its source is in order. -/
theorem inOrder_head (before text ahead : List Char) (tokens : Array Token) :
    ((standing before text ahead tokens).moment .head).InOrder
      (.ofList (before ++ text ++ ahead)) :=
  inOrder_standing fun _ _ => Point.noConfusion

/-- A turn of the loop reads a piece and reports its error. -/
theorem scanFrom_of_run {σ : Type u} (report : Reporter σ) (host : σ)
    {c next : Cursor} {error? : Option LexError} {log log' : Array Moment}
    (ne : c.unread ≠ [])
    (h : c.begin.scanToken.run (log.push (c.moment .head)) =
      .ok ((error?, next), log')) :
    c.scanFrom report host log =
      next.scanFrom report (error?.elim host (report host)) log' := by
  rw [scanFrom, dif_neg ne]
  split
  · next heq =>
    rw [h] at heq
    cases heq
  · next heq =>
    rw [h] at heq
    cases heq
    rfl

/-- **A scan by a cursor goes on from where it stands to the end**, with the
tokens and errors of the pieces ahead. -/
theorem exists_scanFrom_eq (before text ahead : List Char)
    (tokens : Array Token) :
    ∃ c moments, Trace (.ofList (before ++ text ++ ahead)) ahead moments ∧
      c.tokens = tokens ++ (collectFrom Piece.token?
        (Position.start.after (before ++ text)) (pieces ahead)).toArray ∧
      c.line = (Position.start.after (before ++ text ++ ahead)).line ∧
      ∀ {σ : Type u} (report : Reporter σ) (host : σ) (log : Array Moment),
        (standing before text ahead tokens).scanFrom report host log =
          .ok (c, (collectFrom Piece.error?
            (Position.start.after (before ++ text))
            (pieces ahead)).foldl report host, log ++ moments.toArray) := by
  induction ahead using pieces_induction generalizing before text tokens with
  | nil =>
    refine ⟨standing before text [] tokens,
      [(standing before text [] tokens).moment .head],
      .end_of_source (inOrder_head before text [] tokens) rfl rfl, ?_, ?_, ?_⟩
    · simp [standing, collectFrom]
    · simp [standing]
    · intro σ report host log
      have hunread : (standing before text [] tokens).unread = [] := rfl
      rw [scanFrom, dif_pos hunread]
      simp [collectFrom]
  | cons first ahead ih =>
    -- one turn cuts off the first piece, and what comes behind it is scanned
    -- from where that turn has left the cursor
    obtain ⟨cuts, hcuts, hrun⟩ :=
      scanToken_standing (before ++ text) tokens first ahead
    have hsource := Piece.text_append_next first ahead
    have hless := Nat.lt_succ_of_le (Piece.length_next_le first ahead)
    have hpieces := pieces_cons first ahead
    generalize Piece.next first ahead = cutOff at hrun hsource hless hpieces ih
    obtain ⟨piece, rest⟩ := cutOff
    obtain ⟨c, moments, htrace, htokens, hline, hlater⟩ :=
      ih (before ++ text) piece.text (tokens ++
        (piece.token? (Position.start.after (before ++ text))).toList.toArray)
    rw [List.append_assoc (before ++ text), hsource] at htrace hline
    refine ⟨c, (standing before text (first :: ahead) tokens).moment .head ::
        cuts ++ moments,
      .turn (inOrder_head before text _ tokens) rfl hcuts htrace hless,
      ?_, hline, ?_⟩
    · rw [htokens, hpieces, collectFrom, ← Position.after_append,
        Array.append_assoc]
      simp only [List.append_toArray]
    · intro σ report host log
      have hturn := hrun (log.push
        ((standing before text (first :: ahead) tokens).moment .head))
      rw [← begin_standing] at hturn
      rw [scanFrom_of_run report host (List.cons_ne_nil first ahead) hturn,
        hlater, hpieces, collectFrom, ← Position.after_append]
      cases piece.error? (Position.start.after (before ++ text)) <;> simp

/-- **A scan by a cursor comes to what any scan comes to**, and its moments are
the same whoever is told of the errors. -/
theorem exists_scan_eq (source : String) :
    ∃ moments, Trace source source.toList moments ∧
      ∀ {σ : Type u} (report : Reporter σ) (host : σ),
        Cursor.scan report host source =
          .ok ((scanWith report host source).1,
            (scanWith report host source).2, moments) := by
  obtain ⟨chars, rfl⟩ : ∃ chars, source = String.ofList chars :=
    ⟨source.toList, String.ofList_toList.symm⟩
  obtain ⟨c, moments, htrace, htokens, hline, hscan⟩ :=
    exists_scanFrom_eq [] [] chars #[]
  refine ⟨moments, by rwa [String.toList_ofList], fun report host => ?_⟩
  have htokens : c.tokens =
      (collectFrom Piece.token? .start (pieces chars)).toArray := by
    simpa using htokens
  have hplace : ⟨(String.ofList chars).utf8ByteSize, c.line⟩ =
      Position.start.after chars := by
    simp [hline, Position.after, Position.start, ← byteLength_toList]
  rw [Cursor.scan, new_ofList, hscan, scanWith_eq]
  simp [tokensOf, errorsOf, htokens, hplace]

/-- **The cursor refines the scan**: when nobody asks for its moments, a scan by
a cursor is a scan. -/
theorem map_scan_eq {σ : Type u} (report : Reporter σ) (host : σ)
    (source : String) :
    (Cursor.scan report host source).map (fun found => (found.1, found.2.1)) =
      .ok (scanWith report host source) := by
  obtain ⟨moments, -, hscan⟩ := exists_scan_eq source
  rw [hscan]
  rfl

end Cursor

/-- **No scan breaks down.** The cursor is in order at every turn of its loop
and wherever a text is cut out, every turn reads something, and at the last one
all has been read. The spans of the errors that are raised are not empty, so
that a run gets through its reports, whichever errors have been collected
before. -/
theorem scan_safely (source : String) : SafelyScanned.{u} source := by
  constructor
  case completed => exact Cursor.exists_scan_eq source
  case kept =>
    intro diagnostics
    have hsize : (scan source diagnostics).2.errors.size =
        diagnostics.errors.size + (errorsOf source).length := by
      simpa [Diagnostics.toList] using
        congrArg List.length (toList_snd_scan source diagnostics)
    rw [hsize]
    exact Nat.le_add_right _ _
  case raised =>
    intro diagnostics e he
    rw [since_scan] at he
    obtain ⟨front, text, rest, hsource, hspan, ne, -⟩ :=
      exists_append_of_mem_errorsOf he
    have hholds : e.span.Holds source.toList text :=
      ⟨front, rest, hsource, hspan⟩
    exact ⟨hholds.start_lt_stop ne, byteLength_toList source ▸ hholds.stop_le⟩
  case reported =>
    intro path diagnostics
    exact ⟨_, _, run_eq_ok path source diagnostics⟩

end LoxLexer
