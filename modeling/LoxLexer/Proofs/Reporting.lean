import LoxLexer.Diagnostics
import LoxLexer.Shift

/-!
# What a reporter sees of a scan

A scan hands its errors over while it goes on producing tokens, and it hands
them to whatever the host has chosen. Nothing comes back. So there is one list
of errors to a source, the one that an empty collection ends up with, and any
reporter is left in the state that these errors lead to, each handed over once
and in the order in which they stand in the source.

`Reported` says this of all reporters at once, and the main statement is that
it holds of every source (`scan_reported`). The reporters that a host has at
hand are cases of it: a collection that holds errors already, a log of lines
and messages, and a `Receiver`, of which the scan knows no more than that it
takes errors.

That the errors ascend has its reason in the pieces: none is empty, so what
comes behind an error begins further on (`Placed.pairwise_start`).
-/

namespace LoxLexer

universe u

/-- **A reporter that keeps its state to itself.** What kind of state that is
does not show: all that can be done with a receiver is to hand it an error. -/
structure Receiver where
  /-- The kind of state. -/
  {State : Type u}
  /-- How an error changes the state. -/
  report : Reporter State
  /-- The state. -/
  host : State

/-- Hands an error to a receiver. -/
def Receiver.receive : Reporter Receiver.{u} :=
  fun receiver e => { receiver with host := receiver.report receiver.host e }

/-- **What reporters see of the scan of a source.** -/
structure Reported (source : String) : Prop where
  /-- Any reporter gets the errors that an empty collection gets, one after
  another, and has no say in the tokens. -/
  folded : ∀ {σ : Type u} (report : Reporter σ) (host : σ),
    scanWith report host source =
      ((scan source .empty).1,
        (scan source .empty).2.toList.foldl report host)
  /-- Every error begins further on than the one before it. -/
  ascending : (scan source .empty).2.toList.Pairwise
    (fun a b => a.span.start < b.span.start)
  /-- A reporter that keeps its state to itself is served as any other. -/
  hidden : ∀ {σ : Type u} (report : Reporter σ) (host : σ),
    scanWith Receiver.receive ⟨report, host⟩ source =
      ((scanWith report host source).1,
        ⟨report, (scanWith report host source).2⟩)
  /-- To scan into a collection is to have it for a reporter. -/
  direct : ∀ diagnostics,
    scan source diagnostics = scanWith Diagnostics.report diagnostics source
  /-- A collection keeps what it holds, and gets the errors behind it. -/
  collected : ∀ diagnostics, (scan source diagnostics).2.toList =
    diagnostics.toList ++ (scan source .empty).2.toList
  /-- A log gets the line and the message of each error. -/
  logged : ∀ log : MessageLog,
    (scanWith MessageLog.report log source).2.toList =
      log.toList ++ (scan source .empty).2.toList.map
        (fun e => (e.line, e.message))

/-! ## Errors in order -/

/-- What comes of pieces of which none is empty begins further and further
on. -/
theorem Placed.pairwise_start {α : Type} {f : Piece → Position → Option α}
    {span : α → Span} {shift : Nat → Nat → α → α}
    (hplaced : Placed f span shift) (place : Position) {ps : List Piece}
    (ne : ∀ p ∈ ps, p.text ≠ []) :
    (collectFrom f place ps).Pairwise
      (fun a b => (span a).start < (span b).start) := by
  induction ps generalizing place with
  | nil => exact .nil
  | cons piece later ih =>
    have hlater := ih (place.after piece.text)
      fun p hp => ne p (List.mem_cons_of_mem piece hp)
    rw [collectFrom]
    refine List.pairwise_append.mpr ⟨?_, hlater, ?_⟩
    · cases f piece place with
      | none => exact .nil
      | some a => exact List.pairwise_singleton _ a
    · intro a ha b hb
      have hstart : (span a).start = place.offset :=
        congrArg Span.start (hplaced.span_eq (Option.mem_toList.mp ha))
      have hpos := byteLength_pos (ne piece List.mem_cons_self)
      have hle := hplaced.offset_le_start hb
      rw [Position.offset_after] at hle
      omega

/-! ## Reporters at hand -/

/-- A log takes the errors in order. -/
theorem MessageLog.toList_foldl_report (log : MessageLog)
    (errors : List LexError) :
    (errors.foldl report log).toList =
      log.toList ++ errors.map (fun e => (e.line, e.message)) := by
  induction errors generalizing log with
  | nil => simp
  | cons e later ih =>
    rw [List.foldl_cons, ih, report, Array.toList_push, List.append_assoc]
    rfl

/-- **A scan hands its errors over and forgets them.** -/
theorem scan_reported (source : String) : Reported.{u} source := by
  have herrors : (scan source .empty).2.toList = errorsOf source := by
    rw [toList_snd_scan, Diagnostics.toList_empty, List.nil_append]
  constructor
  case folded =>
    intro σ report host
    rw [scanWith_eq, fst_scan, herrors]
  case ascending =>
    rw [herrors]
    exact LexError.placed.pairwise_start _ (text_ne_nil_of_mem_pieces _)
  case hidden =>
    intro σ report host
    have hfold : (errorsOf source).foldl Receiver.receive ⟨report, host⟩ =
        ⟨report, (errorsOf source).foldl report host⟩ :=
      List.foldl_hom (Receiver.mk report) fun _ _ => rfl
    rw [scanWith_eq, scanWith_eq, hfold]
  case direct => exact fun _ => rfl
  case collected =>
    intro diagnostics
    rw [toList_snd_scan, herrors]
  case logged =>
    intro log
    rw [scanWith_eq, MessageLog.toList_foldl_report, herrors]

example : (scanWith (fun (n : Nat) _ => n + 1) 0 "@ \"open\n#").2 = 2 := by
  decide +kernel

end LoxLexer
