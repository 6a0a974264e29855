import LoxLexer.Proofs.Boundary
import LoxLexer.Proofs.ModeErrors
import LoxLexer.Proofs.Tiling

/-!
# How far a scan looks ahead

A scan of a text that is still being written is of use only as far as it will
not change. What may change is little: a rule looks at the first character of
the rest and never beyond it, but for the point behind a whole number, of which
it has to be known whether a digit follows. So more text behind a rest is of no
concern to a piece in front of it, unless the rest is empty or a point alone
(`CutOff.append`), and a rest of two bytes is neither.

For the tokens this is an induction over the pieces, which are the same up to
the last two bytes. It would not do for the errors, of which even the last is
final: the piece in front of the end may change, yet not if it is an unexpected
character. The account of the errors character by character needs no such
distinction, as it looks ahead at nothing at all (`Mode.filter_errors_append`).
Together they are the main statement, `scan_append_stable`.
-/

namespace LoxLexer

/-- A rest in front of which no fraction comes may be gone on with, if no digit
comes behind a point at its end. -/
theorem NoFraction.append {c : Char} {rest more : List Char}
    (h : NoFraction (c :: rest))
    (hpoint : c :: rest = ['.'] → NotNext isDigit more) :
    NoFraction (c :: rest ++ more) := by
  rintro digit later heq
  cases rest with
  | nil =>
    obtain ⟨rfl, rfl⟩ : c = '.' ∧ more = digit :: later := by simpa using heq
    exact notNext_cons.mp (hpoint rfl)
  | cons d behind =>
    obtain ⟨rfl, rfl, rfl⟩ : c = '.' ∧ d = digit ∧ behind ++ more = later := by
      simpa using heq
    exact h d behind rfl

/-- **More text behind a rest is of no concern**, unless the rest is empty, or
is a point alone. -/
theorem CutOff.append {piece : Piece} {rest more : List Char}
    (h : CutOff piece rest) (hnil : rest = [] → CutOff piece more)
    (hpoint : rest = ['.'] → NotNext isDigit more) :
    CutOff piece (rest ++ more) := by
  cases rest with
  | nil => exact hnil rfl
  | cons c rest =>
    -- what comes next is the same character as before
    have hnext : ∀ {p}, NotNext p (c :: rest) → NotNext p (c :: rest ++ more) :=
      fun hstop => notNext_cons.mpr (notNext_cons.mp hstop)
    cases h with
    | blank hblank => exact .blank hblank
    | comment all stop => exact .comment all (hnext stop)
    | string all => exact .string all
    | whole ne all stop no_fraction =>
      exact .whole ne all (hnext stop) (no_fraction.append hpoint)
    | fraction whole_ne whole_all ne all stop =>
      exact .fraction whole_ne whole_all ne all (hnext stop)
    | word start all stop => exact .word start all (hnext stop)
    | symbol stop => exact .symbol stop
    | unexpected not_quote not_code => exact .unexpected not_quote not_code

/-- **What is cut off at the end of a source is cut off in front of more**, if
what comes next goes on with no word, number or symbol; unless it is a gap, or
an open string. -/
theorem CutOff.append_stop {piece : Piece} {c : Char} (h : CutOff piece [])
    (hgap : piece.role ≠ .gap)
    (closed : piece.role ≠ .faulty .unterminatedString)
    (hword : isWordChar c = false) (hpoint : c ≠ '.') (hequal : c ≠ '=')
    (hstroke : piece.role = .lexeme (.symbol .slash) → c ≠ '/')
    (later : List Char) : CutOff piece (c :: later) := by
  have hdigit : NotNext isDigit (c :: later) := by
    refine notNext_cons.mpr (Bool.eq_false_iff.mpr fun hdigit => ?_)
    exact Bool.false_ne_true (hword.symm.trans (isWordChar_of_isDigit hdigit))
  cases h with
  | blank => exact absurd rfl hgap
  | comment => exact absurd rfl hgap
  | string all => exact .string all
  | whole ne all =>
    refine .whole ne all hdigit fun digit rest heq => ?_
    exact absurd (List.cons.inj heq).1 hpoint
  | fraction whole_ne whole_all ne all =>
    exact .fraction whole_ne whole_all ne all hdigit
  | word start all => exact .word start all (notNext_cons.mpr hword)
  | symbol =>
    refine .symbol ⟨fun _ heq => hequal (Option.some.inj heq), fun hs heq => ?_⟩
    exact hstroke (hs ▸ rfl) (Option.some.inj heq)
  | unterminated => exact absurd rfl closed
  | unexpected not_quote not_code => exact .unexpected not_quote not_code

/-! ## Tokens that are settled -/

/-- The token of a piece ends where the piece does. -/
theorem stop_of_mem_token? {piece : Piece} {place : Position} {t : Token}
    (h : t ∈ (piece.token? place).toList) :
    t.span.stop = (place.after piece.text).offset :=
  congrArg Span.stop (Token.placed.span_eq (Option.mem_toList.mp h))

/-- **Tokens that end two bytes before the end of a text are settled**: they
come first whatever is written behind it. -/
theorem filter_collectFrom_append (place : Position) (text more : List Char) :
    (collectFrom Piece.token? place (pieces text)).filter
        (fun t => t.span.stop + 2 ≤ (place.after text).offset) <+:
      collectFrom Piece.token? place (pieces (text ++ more)) := by
  induction text using cutOff_induction generalizing place with
  | nil => simp [collectFrom]
  | cons piece rest h ih =>
    have hend : (place.after (piece.text ++ rest)).offset =
        (place.after piece.text).offset + byteLength rest := by
      rw [Position.after_append]
      rfl
    by_cases hfar : 2 ≤ byteLength rest
    · -- the piece is settled, and so is its token, if it has one
      have hcut : CutOff piece (rest ++ more) := by
        refine h.append ?_ ?_
        · rintro rfl
          exact absurd hfar (by decide)
        · rintro rfl
          exact absurd hfar (by decide)
      have htoken : (piece.token? place).toList.filter
          (fun t => t.span.stop + 2 ≤ (place.after (piece.text ++ rest)).offset) =
            (piece.token? place).toList := by
        refine List.filter_eq_self.mpr fun t ht => decide_eq_true ?_
        rw [stop_of_mem_token? ht, hend]
        omega
      have hrest := ih (place.after piece.text)
      rw [← Position.after_append] at hrest
      rw [List.append_assoc, h.pieces_append, hcut.pieces_append, collectFrom,
        collectFrom, List.filter_append, htoken]
      exact (List.prefix_append_right_inj _).mpr hrest
    · -- all tokens end behind the piece, and so too near to the end
      have hnone : (collectFrom Piece.token? place
          (pieces (piece.text ++ rest))).filter (fun t =>
            t.span.stop + 2 ≤ (place.after (piece.text ++ rest)).offset) =
              [] := by
        refine List.filter_eq_nil_iff.mpr fun t ht hstop => ?_
        have hle : (place.after piece.text).offset ≤ t.span.stop := by
          rw [h.pieces_append, collectFrom, List.mem_append] at ht
          obtain ht | ht := ht
          · exact Nat.le_of_eq (stop_of_mem_token? ht).symm
          · exact Token.placed.offset_le_stop ht
        have hstop := of_decide_eq_true hstop
        omega
      rw [hnone]
      exact List.nil_prefix

/-! ## Errors that are settled -/

/-- **All errors of a text are settled** but that of a string that is still
open. -/
theorem Mode.filter_errors_append (mode : Mode) (place : Position)
    (text more : List Char) :
    (mode.errors place text).filter (·.fault ≠ .unterminatedString) <+:
      mode.errors place (text ++ more) := by
  induction text generalizing mode place with
  | nil => cases mode <;> simp [errors]
  | cons c later ih =>
    have hlater := ih (mode.after place c) (place.after [c])
    rw [List.cons_append, errors, errors]
    by_cases hrefuses : mode.refuses c = true
    · rw [if_pos hrefuses, if_pos hrefuses,
        List.filter_cons_of_pos (by simp)]
      exact (List.prefix_cons_inj _).mpr hlater
    · rw [if_neg hrefuses, if_neg hrefuses]
      exact hlater

/-- **A scan looks less than two bytes ahead.** Whatever is written behind a
source, those of its tokens that end at least two bytes before its end come
first again, the same in all their parts; and so do its errors, but for that of
a string that is not closed as yet. -/
theorem scan_append_stable (source more : String) :
    (scan source .empty).1.filter
        (fun t => t.kind ≠ .eof ∧ t.span.stop + 2 ≤ source.utf8ByteSize) <+:
      (scan (source ++ more) .empty).1 ∧
    (scan source .empty).2.toList.filter
        (fun e => e.fault ≠ .unterminatedString) <+:
      (scan (source ++ more) .empty).2.toList := by
  simp only [fst_scan, toList_snd_scan, Diagnostics.toList_empty,
    List.nil_append]
  constructor
  · have hsettled := filter_collectFrom_append .start source.toList more.toList
    have hkinds : (collectFrom Piece.token? .start (pieces source.toList)).filter
        (fun t => t.kind ≠ .eof ∧ t.span.stop + 2 ≤ source.utf8ByteSize) =
          (collectFrom Piece.token? .start (pieces source.toList)).filter
            (fun t => t.span.stop + 2 ≤
              (Position.start.after source.toList).offset) := by
      refine List.filter_congr fun t ht => ?_
      simp [kind_ne_eof_of_mem_collectFrom ht, byteLength_toList, Position.start]
    unfold tokensOf
    rw [List.filter_append, hkinds, List.filter_singleton,
      String.toList_append]
    simpa [Token.eof] using hsettled.trans (List.prefix_append _ _)
  · have hsettled := Mode.filter_errors_append .code .start source.toList
      more.toList
    unfold errorsOf
    rwa [collectFrom_eq_errors, collectFrom_eq_errors, String.toList_append]

-- a token that ends one byte before the end is not settled
example : (scan "1." .empty).1.map Token.lexeme = ["1", ".", ""] ∧
    (scan "1.5" .empty).1.map Token.lexeme = ["1.5", ""] := by
  decide +kernel

end LoxLexer
