import LoxLexer.Proofs.Boundary

/-!
# Line numbers

Lines are counted as the scan goes, over whatever pieces there are: blanks,
comments, and strings that run over several lines. A token keeps the line on
which it begins, and an error the line on which it was noticed. That these are
two rules shows only in an unclosed string, which is noticed at the end of the
source; any other error is one character, and that is never a line feed.

`Numbered` says it of tokens and errors as a host receives them, with their
lines and offsets only, and the main statement is that a scan numbers its
tokens and errors so (`scan_numbered`). It comes down to what a place is: both
its offset and its line are sums over the text in front of it, so a line feed
counts once, wherever it stands, and nothing else counts.
-/

namespace LoxLexer

/-- **An offset lies on a line**: the source falls apart there, and the line is
one more than the line feeds in front. -/
def LiesOn (source : String) (offset line : Nat) : Prop :=
  ∃ before rest, source = before ++ rest ∧ before.utf8ByteSize = offset ∧
    line = 1 + before.toList.count '\n'

/-- **Tokens and errors are numbered by the lines of a source.** -/
structure Numbered (source : String) (tokens : List Token)
    (errors : List LexError) : Prop where
  /-- A token has the line on which it begins. -/
  token : ∀ t ∈ tokens, LiesOn source t.span.start t.line
  /-- The last token has the last line. -/
  last : tokens.getLast?.map Token.line = some (1 + source.toList.count '\n')
  /-- Lines never decrease from one token to the next. -/
  ascending : tokens.Pairwise (fun a b => a.line ≤ b.line)
  /-- An unexpected character has the line on which it stands. -/
  unexpected : ∀ e ∈ errors, ∀ c, e.fault = .unexpectedCharacter c →
    LiesOn source e.span.start e.line
  /-- An unclosed string has the last line. -/
  unterminated : ∀ e ∈ errors, e.fault = .unterminatedString →
    e.line = 1 + source.toList.count '\n'

/-! ## Lines in front of pieces -/

/-- The place in front of some pieces of a source lies on its line. -/
theorem liesOn_of_pieces_eq {source : String} {front later : List Piece}
    (h : pieces source.toList = front ++ later) :
    LiesOn source (Position.start.after (front.flatMap Piece.text)).offset
      (Position.start.after (front.flatMap Piece.text)).line := by
  refine ⟨.ofList (front.flatMap Piece.text),
    .ofList (later.flatMap Piece.text), ?_, ?_, ?_⟩
  · rw [← String.ofList_append, ← List.flatMap_append, ← h,
      flatMap_text_pieces, String.ofList_toList]
  · rw [← byteLength_toList, String.toList_ofList]
    simp [Position.start]
  · rw [String.toList_ofList]
    rfl

/-- The token of a piece has a line between those of the places in front of the
pieces and behind them. -/
theorem line_of_mem_collectFrom {place : Position} {ps : List Piece}
    {t : Token} (h : t ∈ collectFrom Piece.token? place ps) :
    place.line ≤ t.line ∧
      t.line ≤ (place.after (ps.flatMap Piece.text)).line := by
  obtain ⟨front, piece, rest, kind, rfl, -, rfl⟩ :=
    exists_lexeme_of_mem_collectFrom h
  simp only [Token.ofLexeme, Position.line_after, List.flatMap_append,
    lineFeeds_append]
  omega

/-- The lines of the tokens of pieces never decrease. -/
theorem pairwise_line_collectFrom (place : Position) (ps : List Piece) :
    (collectFrom Piece.token? place ps).Pairwise
      (fun a b => a.line ≤ b.line) := by
  induction ps generalizing place with
  | nil => exact .nil
  | cons piece later ih =>
    rw [collectFrom]
    cases hrole : piece.role with
    | lexeme kind =>
      rw [Piece.token?, hrole]
      refine .cons (fun t ht => ?_) (ih _)
      exact Nat.le_trans (Nat.le_add_right _ _) (line_of_mem_collectFrom ht).1
    | gap => simpa [Piece.token?, hrole] using ih _
    | faulty fault => simpa [Piece.token?, hrole] using ih _

/-! ## Lines of faults -/

namespace CutOff

variable {piece : Piece} {rest : List Char}

/-- A piece that is put down to an unexpected character is on one line. -/
theorem lineFeeds_of_unexpected (h : CutOff piece rest) {c : Char}
    (hrole : piece.role = .faulty (.unexpectedCharacter c)) :
    lineFeeds piece.text = 0 := by
  cases h with
  | unexpected not_quote not_code =>
    have hfeed := ne_of_class (c := '\n') rfl not_code
    exact List.count_eq_zero.mpr (by simpa using hfeed)
  | _ => cases hrole

/-- Nothing comes behind an unclosed string. -/
theorem rest_of_unterminated (h : CutOff piece rest)
    (hrole : piece.role = .faulty .unterminatedString) : rest = [] := by
  cases h with
  | unterminated => rfl
  | _ => cases hrole

end CutOff

/-- **A scan numbers its tokens and errors by the lines of its source.** -/
theorem scan_numbered (source : String) :
    Numbered source (scan source .empty).1 (scan source .empty).2.toList := by
  rw [fst_scan, toList_snd_scan, Diagnostics.toList_empty, List.nil_append]
  constructor
  case token =>
    intro t ht
    rw [tokensOf, List.mem_append, List.mem_singleton] at ht
    obtain ht | rfl := ht
    · obtain ⟨front, piece, rest, kind, hpieces, -, rfl⟩ :=
        exists_lexeme_of_mem_collectFrom ht
      exact liesOn_of_pieces_eq hpieces
    · have hlies := liesOn_of_pieces_eq
        (List.append_nil (pieces source.toList)).symm
      rwa [flatMap_text_pieces] at hlies
  case last => simp [tokensOf, Token.eof, Position.start, lineFeeds]
  case ascending =>
    refine List.pairwise_append.mpr
      ⟨pairwise_line_collectFrom _ _, List.pairwise_singleton _ _, ?_⟩
    intro t ht u hu
    obtain rfl := List.mem_singleton.mp hu
    have hline := (line_of_mem_collectFrom ht).2
    rwa [flatMap_text_pieces] at hline
  case unexpected =>
    intro e he c hfault
    obtain ⟨front, piece, rest, fault, hpieces, hrole, rfl⟩ :=
      exists_fault_of_mem_collectFrom he
    obtain rfl : fault = .unexpectedCharacter c := hfault
    have hfeeds := (cutOff_of_pieces_eq hpieces).lineFeeds_of_unexpected hrole
    have hlies := liesOn_of_pieces_eq hpieces
    simpa [LexError.atPiece, hfeeds] using hlies
  case unterminated =>
    intro e he hfault
    obtain ⟨front, piece, rest, fault, hpieces, hrole, rfl⟩ :=
      exists_fault_of_mem_collectFrom he
    obtain rfl : fault = .unterminatedString := hfault
    have hrest := (cutOff_of_pieces_eq hpieces).rest_of_unterminated hrole
    -- behind the piece nothing is left, so its end is that of the source
    have hsource : source.toList = front.flatMap Piece.text ++ piece.text := by
      rw [← flatMap_text_pieces source.toList, hpieces, List.flatMap_append,
        List.flatMap_cons, hrest, List.append_nil]
    rw [hsource, List.count_append, ← Nat.add_assoc]
    rfl

end LoxLexer
