import LoxLexer.Diagnostics
import LoxLexer.Proofs.Denotation
import Mathlib.Data.List.Forall2

/-!
# Every piece is the longest there is

`Cut` says what it is to cut a source into the longest lexemes and gaps, with
a quantifier over all texts of the grammar at every turn. The scan never
compares two texts: it looks at one or two characters and decides. This
module proves that the pieces of a source are nevertheless its one and only
cut (`cut_iff`).

The step is `Lexeme.length_le_next`: a lexeme that begins a source is no
longer than the piece that is cut off there, and the piece is then no fault.
Which piece that is, the first character settles for each class on its own,
so no two classes are ever compared. That the longest is only one follows
from a text being of one class (`Lexeme.role_unique`), and this in turn from
the scan: a lexeme alone in a source is cut off as what it is.
-/

namespace LoxLexer

/-- A lexeme or a gap that stands at the end of a source is cut off there. -/
theorem Lexeme.cutOff {text : List Char} {role : Role} (h : Lexeme text role) :
    CutOff ⟨text, role⟩ [] := by
  cases h with
  | symbol s => exact .symbol ⟨fun _ => by simp, fun _ => by simp⟩
  | whole ne all =>
    exact .whole ne all (notNext_nil _) fun _ _ heq => nomatch heq
  | fraction whole_ne whole_all ne all =>
    exact .fraction whole_ne whole_all ne all (notNext_nil _)
  | string all => exact .string all
  | word start all => exact .word start all (notNext_nil _)
  | blank hblank => exact .blank hblank
  | comment all => exact .comment all (notNext_nil _)

/-- A text is a lexeme or a gap in one way only. -/
theorem Lexeme.role_unique {text : List Char} {role role' : Role}
    (h : Lexeme text role) (h' : Lexeme text role') : role = role' := by
  obtain ⟨first, later, htext⟩ := List.exists_cons_of_ne_nil h.ne_nil
  have hsource : text ++ [] = first :: later := by rw [htext, List.append_nil]
  have hnext := h.cutOff.next_eq hsource
  rw [h'.cutOff.next_eq hsource] at hnext
  exact (congrArg (fun next => next.1.role) hnext).symm

/-! ## No lexeme is longer -/

/-- A run of characters of a class that begins a text is no longer than the
longest one. -/
theorem length_le_takeWhile {p : Char → Bool} {run text : List Char}
    (h : run <+: text) (all : ∀ c ∈ run, p c = true) :
    run.length ≤ (text.takeWhile p).length := by
  obtain ⟨behind, rfl⟩ := h
  rw [List.takeWhile_append_of_pos all, List.length_append]
  exact Nat.le_add_right _ _

theorem Piece.role_nextSymbol (s : Symbol) (first : Char)
    (ahead : List Char) :
    ∃ t, (nextSymbol s first ahead).1.role = .lexeme (.symbol t) := by
  unfold nextSymbol
  split
  · exact ⟨_, rfl⟩
  · exact ⟨_, rfl⟩

open Piece in
/-- **No lexeme is longer than what is cut off**, and where a lexeme begins,
what is cut off is no fault. -/
theorem Lexeme.length_le_next {text : List Char} {role : Role}
    (h : Lexeme text role) {first : Char} {ahead : List Char}
    (hbegins : text <+: first :: ahead) :
    text.length ≤ (next first ahead).1.text.length ∧
      ∀ fault, (next first ahead).1.role ≠ .faulty fault := by
  have hpos : 0 < (next first ahead).1.text.length :=
    List.length_pos_iff.mpr (text_next_ne_nil first ahead)
  cases h with
  | symbol s =>
    obtain ⟨c, hc, hs⟩ | ⟨c, t, hc, ht, hs⟩ := s.spelling_cases
    · rw [hs] at hbegins ⊢
      obtain ⟨rfl, -⟩ := List.cons_prefix_cons.mp hbegins
      refine ⟨hpos, fun fault => ?_⟩
      -- a stroke may begin a comment, which is longer still
      by_cases hcomment : s = .slash ∧ ahead.head? = some '/'
      · obtain ⟨rfl, hhead⟩ := hcomment
        obtain ⟨later, rfl⟩ := List.head?_eq_some_iff.mp hhead
        obtain rfl : '/' = c := by simpa [Symbol.spelling] using hs
        rw [next_comment]
        simp [nextComment]
      · obtain ⟨t, ht⟩ := role_nextSymbol s c ahead
        rw [next_of_ofChar? hc (not_and.mp hcomment), ht]
        simp
    · rw [hs] at hbegins ⊢
      obtain ⟨rfl, hequal⟩ := List.cons_prefix_cons.mp hbegins
      obtain ⟨later, rfl⟩ := hequal
      have hstroke : t = .slash → ('=' :: later).head? ≠ some '/' := by simp
      rw [List.singleton_append, next_of_ofChar? hc hstroke]
      simp [nextSymbol, ht]
  | whole ne all =>
    obtain ⟨d, later, rfl⟩ := List.exists_cons_of_ne_nil ne
    obtain ⟨rfl, hlater⟩ := List.cons_prefix_cons.mp hbegins
    have hlength := length_le_takeWhile hlater fun c hc =>
      all c (List.mem_cons_of_mem d hc)
    rw [next_of_isDigit (all d List.mem_cons_self), nextNumber]
    refine ⟨?_, by simp⟩
    simp only [List.length_cons, List.length_append]
    omega
  | @fraction whole digits whole_ne whole_all ne all =>
    obtain ⟨d, later, rfl⟩ := List.exists_cons_of_ne_nil whole_ne
    obtain ⟨d', digits, rfl⟩ := List.exists_cons_of_ne_nil ne
    obtain ⟨behind, hbehind⟩ := hbegins
    obtain ⟨rfl, rfl⟩ : d = first ∧
        later ++ '.' :: d' :: (digits ++ behind) = ahead := by
      simpa using hbehind
    -- the digits in front end at the point, and the digit behind it makes
    -- the point part of the number
    have hpoint : NotNext isDigit ('.' :: d' :: (digits ++ behind)) :=
      notNext_cons.mpr (by decide)
    have hlength := length_le_takeWhile (List.prefix_append digits behind)
      fun c hc => all c (List.mem_cons_of_mem d' hc)
    rw [next_of_isDigit (whole_all d List.mem_cons_self),
      nextNumber_append (fun c hc => whole_all c (List.mem_cons_of_mem d hc))
        hpoint, nextFraction, if_pos (all d' List.mem_cons_self)]
    refine ⟨?_, by simp⟩
    simp only [List.length_cons, List.length_append]
    omega
  | @string content all =>
    obtain ⟨behind, hbehind⟩ := hbegins
    obtain ⟨rfl, rfl⟩ : '"' = first ∧ content ++ '"' :: behind = ahead := by
      simpa using hbehind
    rw [next_quote, nextString_append all]
    exact ⟨Nat.le_refl _, by simp⟩
  | word start all =>
    obtain ⟨rfl, hlater⟩ := List.cons_prefix_cons.mp hbegins
    have hlength := length_le_takeWhile hlater all
    rw [next_of_isWordStart start, nextWord]
    exact ⟨Nat.succ_le_succ hlength, by simp⟩
  | blank hblank =>
    obtain ⟨rfl, -⟩ := List.cons_prefix_cons.mp hbegins
    rw [next_of_isBlank hblank]
    exact ⟨Nat.le_refl _, by simp⟩
  | @comment content all =>
    obtain ⟨rfl, hlater⟩ := List.cons_prefix_cons.mp hbegins
    obtain ⟨behind, rfl⟩ := hlater
    have hlength := length_le_takeWhile (p := (· ≠ '\n'))
      (List.prefix_append ('/' :: content) behind) (by simpa using all)
    rw [List.cons_append, next_comment, nextComment]
    exact ⟨Nat.succ_le_succ hlength, by simp⟩

/-! ## The longest, and where there is none -/

namespace CutOff

/-- What is cut off is the longest lexeme or gap, unless it is put down to a
fault. -/
theorem longest {piece : Piece} {rest : List Char} (h : CutOff piece rest)
    (hfault : ∀ fault, piece.role ≠ .faulty fault) :
    Longest piece (piece.text ++ rest) := by
  refine ⟨h.lexeme hfault, List.prefix_append _ _, ?_⟩
  intro text role hlexeme hbegins
  obtain ⟨first, ahead, hsource, hnext⟩ := h.exists_next_eq
  rw [hsource] at hbegins
  have hlength := (hlexeme.length_le_next hbegins).1
  rwa [hnext] at hlength

/-- Nothing begins a source where what is cut off is put down to a fault. -/
theorem stuck {piece : Piece} {rest : List Char} (h : CutOff piece rest)
    {fault : Fault} (hfault : piece.role = .faulty fault) :
    Stuck (piece.text ++ rest) := by
  intro text role hlexeme hbegins
  obtain ⟨first, ahead, hsource, hnext⟩ := h.exists_next_eq
  rw [hsource] at hbegins
  refine (hlexeme.length_le_next hbegins).2 fault ?_
  rw [hnext, hfault]

end CutOff

/-- There is only one longest. -/
theorem Longest.unique {p q : Piece} {source : List Char}
    (hp : Longest p source) (hq : Longest q source) : p = q := by
  have hpq : p.text.length ≤ q.text.length := hq.2.2 _ _ hp.1 hp.2.1
  have hqp : q.text.length ≤ p.text.length := hp.2.2 _ _ hq.1 hq.2.1
  have htext : p.text = q.text :=
    (List.prefix_of_prefix_length_le hp.2.1 hq.2.1 hpq).eq_of_length
      (Nat.le_antisymm hpq hqp)
  have hrole : p.role = q.role := (htext ▸ hp.1).role_unique hq.1
  exact congrArg₂ Piece.mk htext hrole

/-- The longest is what is cut off. -/
theorem Longest.cutOff {piece : Piece} {rest : List Char}
    (h : Longest piece (piece.text ++ rest)) : CutOff piece rest := by
  have hne : piece.text ++ rest ≠ [] :=
    List.append_ne_nil_of_left_ne_nil h.1.ne_nil rest
  obtain ⟨first, ahead, hsource⟩ := List.exists_cons_of_ne_nil hne
  rw [hsource] at h
  have hcut := Piece.cutOff_next first ahead
  have happ := Piece.text_append_next first ahead
  have hlongest := hcut.longest (h.1.length_le_next h.2.1).2
  rw [happ] at hlongest
  -- with the piece the rest is settled too, as both make up one source
  rw [← h.unique hlongest] at happ hcut
  rwa [List.append_cancel_left (happ.trans hsource.symm)] at hcut

/-- Where nothing begins a source with a quote in front, no quote is left. -/
theorem Stuck.no_quote {content : List Char} (h : Stuck ('"' :: content)) :
    ∀ c ∈ content, c ≠ '"' := by
  rintro c hc rfl
  obtain ⟨before, behind, rfl, hbefore⟩ := List.eq_append_cons_of_mem hc
  have hstring : Lexeme ('"' :: before ++ ['"']) (.lexeme .string) :=
    .string fun d hd hquote => hbefore (hquote ▸ hd)
  exact h _ _ hstring ⟨behind, by simp⟩

/-- Where nothing begins a source, its first character can be part of no
lexeme. -/
theorem Stuck.not_isCode {c : Char} {rest : List Char}
    (h : Stuck (c :: rest)) : isCode c = false := by
  have hone : [c] <+: c :: rest := ⟨rest, rfl⟩
  refine Bool.eq_false_iff.mpr fun hcode => ?_
  obtain ⟨s, hs⟩ | hblank | hword := isCode_iff.mp hcode
  · have hsymbol := Lexeme.symbol s
    rw [Symbol.ofChar?_eq_some_iff.mp hs] at hsymbol
    exact h _ _ hsymbol hone
  · exact h _ _ (.blank hblank) hone
  · obtain hstart | hdigit := isWordChar_iff.mp hword
    · exact h _ _ (.word hstart (by simp)) hone
    · exact h _ _ (.whole (by simp) (by simpa using hdigit)) hone

/-! ## The one cut of a source -/

/-- The pieces of a source cut it, the longest at every turn. -/
theorem cut_pieces (source : List Char) : Cut source (pieces source) := by
  induction source using cutOff_induction with
  | nil =>
    rw [pieces_nil]
    exact .nil
  | cons piece rest h ih =>
    rw [h.pieces_append]
    by_cases hfault : ∃ fault, piece.role = .faulty fault
    · obtain ⟨fault, hfault⟩ := hfault
      have hstuck := h.stuck hfault
      cases h with
      | unterminated =>
        rw [List.append_nil] at hstuck ⊢
        rw [pieces_nil]
        exact .unterminated hstuck
      | unexpected not_quote => exact .unexpected not_quote hstuck ih
      | _ => cases hfault
    · exact .longest (h.longest (not_exists.mp hfault)) ih

/-- **A source is cut in one way**: into its pieces. -/
theorem cut_iff {source : List Char} {ps : List Piece} :
    Cut source ps ↔ ps = pieces source := by
  constructor
  · intro h
    induction h with
    | nil => rw [pieces_nil]
    | longest longest _ ih => rw [longest.cutOff.pieces_append, ih]
    | @unterminated rest stuck =>
      have hcut := CutOff.unterminated stuck.no_quote
      have hpieces := hcut.pieces_append
      rwa [List.append_nil, pieces_nil, eq_comm] at hpieces
    | @unexpected c rest _ not_quote stuck _ ih =>
      have hcut : CutOff ⟨[c], _⟩ rest := .unexpected not_quote stuck.not_isCode
      rw [ih]
      exact hcut.pieces_append.symm
  · rintro rfl
    exact cut_pieces source

/-! ## What becomes of the pieces -/

/-- Whether a piece becomes a token. -/
def Piece.isLexeme (piece : Piece) : Bool :=
  match piece.role with
  | .lexeme _ => true
  | _ => false

/-- The fault that a piece is put down to, if any. -/
def Piece.fault? (piece : Piece) : Option Fault :=
  match piece.role with
  | .faulty fault => some fault
  | _ => none

/-- **A token tells of a piece**: it has the kind of its class, its text as
lexeme, and the literal that the text stands for. -/
structure Token.TellsOf (t : Token) (piece : Piece) : Prop where
  /-- The piece is a lexeme of the kind of the token. -/
  role : piece.role = .lexeme t.kind
  /-- The lexeme of the token is the text of the piece. -/
  lexeme : t.lexeme = String.ofList piece.text
  /-- The text stands for the literal of the token. -/
  literal : Denotes piece.text t.kind t.literal

/-- The tokens of pieces tell of those that are lexemes, in order. -/
theorem forall₂_tellsOf_collectFrom {ps : List Piece}
    (h : ∀ piece ∈ ps, ∀ kind, piece.role = .lexeme kind →
      Lexeme piece.text (.lexeme kind)) (place : Position) :
    List.Forall₂ (fun piece t => Token.TellsOf t piece)
      (ps.filter Piece.isLexeme) (collectFrom Piece.token? place ps) := by
  induction ps generalizing place with
  | nil => exact .nil
  | cons piece later ih =>
    have hlater := ih (fun p hp => h p (List.mem_cons_of_mem piece hp))
      (place.after piece.text)
    cases hrole : piece.role with
    | lexeme kind =>
      have hlexeme := h piece List.mem_cons_self kind hrole
      simp only [collectFrom, Piece.token?, hrole, Piece.isLexeme,
        List.filter_cons, if_true, Option.toList_some, List.singleton_append]
      exact .cons ⟨hrole, rfl, hlexeme.denotes⟩ hlater
    | gap => simpa [collectFrom, Piece.token?, Piece.isLexeme, hrole] using hlater
    | faulty fault =>
      simpa [collectFrom, Piece.token?, Piece.isLexeme, hrole] using hlater

/-- The errors of pieces are the faults of those that are put down to one, in
order. -/
theorem map_fault_collectFrom (place : Position) (ps : List Piece) :
    (collectFrom Piece.error? place ps).map LexError.fault =
      ps.filterMap Piece.fault? := by
  induction ps generalizing place with
  | nil => rfl
  | cons piece later ih =>
    cases hrole : piece.role <;>
      simp [collectFrom, Piece.error?, Piece.fault?, hrole, ih, LexError.atPiece]

/-- A source without the error of an open string has no piece that is put down
to one. -/
theorem role_ne_of_errors {source : List Char}
    (h : ∀ e ∈ (scan (String.ofList source) .empty).2.toList,
      e.fault ≠ .unterminatedString) :
    ∀ piece ∈ pieces source, piece.role ≠ .faulty .unterminatedString := by
  intro piece hpiece hrole
  have hfault : .unterminatedString ∈ (pieces source).filterMap Piece.fault? :=
    List.mem_filterMap.mpr ⟨piece, hpiece, by rw [Piece.fault?, hrole]⟩
  rw [← map_fault_collectFrom .start, List.mem_map] at hfault
  obtain ⟨e, he, hfault⟩ := hfault
  refine h e ?_ hfault
  rwa [toList_snd_scan, errorsOf, String.toList_ofList]

/-- **Every piece is the longest there is.** A source is cut in exactly one
way so that at every turn the longest lexeme or gap is taken, and a fault only
where there is none. The tokens of a scan tell of the lexemes of this cut, one
of each and in order, with the end of the source behind them; the errors are
the faults, one of each and in order. -/
theorem scan_cut_longest (source : String) (diagnostics : Diagnostics) :
    ∃ ps, (∀ qs, Cut source.toList qs ↔ qs = ps) ∧
      (∃ tokens, (scan source diagnostics).1 =
          tokens ++ [.eof (Position.start.after source.toList)] ∧
        List.Forall₂ (fun piece t => Token.TellsOf t piece)
          (ps.filter Piece.isLexeme) tokens) ∧
      ∃ errors,
        (scan source diagnostics).2.toList = diagnostics.toList ++ errors ∧
        errors.map LexError.fault = ps.filterMap Piece.fault? := by
  refine ⟨pieces source.toList, fun qs => cut_iff, ?_, ?_⟩
  · exact ⟨collectFrom Piece.token? .start (pieces source.toList),
      fst_scan source diagnostics,
      forall₂_tellsOf_collectFrom lexeme_of_mem_pieces .start⟩
  · exact ⟨errorsOf source, toList_snd_scan source diagnostics,
      map_fault_collectFrom .start (pieces source.toList)⟩

end LoxLexer
