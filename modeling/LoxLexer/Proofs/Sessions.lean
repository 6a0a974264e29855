import LoxLexer.Proofs.Runs
import LoxLexer.Session
import Mathlib.Data.List.DropRight
import Mathlib.Data.List.Forall2

/-!
# What a session remembers

A host shares one collection of errors among all the steps of a session, and
never looks at where in it the errors of one step begin. That this does no harm
is because the collection only ever grows at its end or is emptied as a whole:
what it holds is what has been raised since it was last cleared
(`raisedSinceClear`), and what a run finds behind the errors that were there
before it are its own.

So the invariant speaks of the steps that have been taken and of nothing else,
and one step keeps it (`Step.exists_recorded`). The main statement is that every
step of a session is answered and leaves the collection so
(`session_recorded`). Nothing is asked of the errors that a host reports: one
with a reversed span could not be shown to a reader, but no run ever shows the
errors of a host.
-/

namespace LoxLexer

/-- The errors that a step raises: those of a scan over a collection of its
own, or the one that the host reports. -/
def Step.raises : Step → List LexError
  | .scan source => (LoxLexer.scan source .empty).2.toList
  | .run _ source => (LoxLexer.scan source .empty).2.toList
  | .report e => [e]
  | .clear => []
  | .errors => []

/-- **The errors raised since the last clearing**, in the order of the steps. -/
def raisedSinceClear (steps : List Step) : List LexError :=
  (steps.rtakeWhile (· ≠ .clear)).flatMap Step.raises

/-- **A step is answered, and leaves a collection**, as it has to behind the
steps of the past. -/
structure Recorded (past : List Step) (step : Step) (answer : Answer)
    (left : Diagnostics) : Prop where
  /-- The collection holds what has been raised since it was last cleared. -/
  collected : left.toList = raisedSinceClear (past ++ [step])
  /-- It tells of errors exactly when it holds some. -/
  told : left.hadError = true ↔ raisedSinceClear (past ++ [step]) ≠ []
  /-- The answer is the one that the step gives over an empty collection,
  unless it asks for what has been collected. -/
  afresh : step ≠ .errors → ∃ other, step.take .empty = .ok (answer, other)
  /-- What has been collected is told when it is asked for. -/
  asked : step = .errors → answer = .errors (raisedSinceClear past)
  /-- A run prints all tokens of its source, the text of each and a line feed
  behind it, and reports the errors of its source, one by one, and no others. -/
  shown : ∀ path source, step = .run path source →
    ∃ output reports, answer = .shown ⟨output, reports⟩ ∧
      output.toList = (scan source .empty).1.flatMap
        (fun t => t.text.toList ++ ['\n']) ∧
      List.Forall₂
        (fun e r => Report.ofError path (.ofText source.toList) e = .ok r)
        (scan source .empty).2.toList reports

/-! ## The invariant -/

/-- Clearing leaves nothing behind. -/
theorem raisedSinceClear_concat_clear (past : List Step) :
    raisedSinceClear (past ++ [.clear]) = [] := by
  rw [raisedSinceClear, List.rtakeWhile_concat_neg _ _ _ (by simp),
    List.flatMap_nil]

/-- Every other step adds what it raises. -/
theorem raisedSinceClear_concat {step : Step} (h : step ≠ .clear)
    (past : List Step) :
    raisedSinceClear (past ++ [step]) =
      raisedSinceClear past ++ step.raises := by
  unfold raisedSinceClear
  rw [List.rtakeWhile_concat_pos _ _ _ (by simpa using h),
    List.flatMap_append, List.flatMap_singleton]

/-- A scan adds what it raises over an empty collection. -/
theorem toList_snd_scan_empty (source : String) (diagnostics : Diagnostics) :
    (scan source diagnostics).2.toList =
      diagnostics.toList ++ (scan source .empty).2.toList := by
  simp

/-- The listing of a source is the text of each of its tokens with a line feed
behind it. -/
theorem toList_listing_tokensOf (source : String) :
    (listing (tokensOf source)).toList =
      (scan source .empty).1.flatMap (fun t => t.text.toList ++ ['\n']) := by
  rw [fst_scan]
  simp [listing, List.flatMap_map]

/-- The reports of a run are those of its errors, one by one. -/
theorem forall₂_ofError (path source : String) :
    List.Forall₂
      (fun e r => Report.ofError path (.ofText source.toList) e = .ok r)
      (scan source .empty).2.toList
      ((errorsOf source).map (.describing path (.ofText source.toList))) := by
  rw [toList_snd_scan, Diagnostics.toList_empty, List.nil_append,
    List.forall₂_map_right_iff, List.forall₂_same]
  intro e he
  exact if_neg (Nat.not_lt_of_le (span_le_of_mem_errorsOf he))

/-- **One step keeps the invariant**: taken over a collection that holds what
has been raised since it was last cleared, it is answered as it has to be and
leaves such a collection again. -/
theorem Step.exists_recorded (step : Step) {diagnostics : Diagnostics}
    {past : List Step} (h : diagnostics.toList = raisedSinceClear past) :
    ∃ answer left, step.take diagnostics = .ok (answer, left) ∧
      Recorded past step answer left := by
  -- all steps but one leave what was there, and behind it what they raise
  have hgrown : step ≠ .clear → ∀ left : Diagnostics,
      left.toList = diagnostics.toList ++ step.raises →
      left.toList = raisedSinceClear (past ++ [step]) := by
    intro hclear left hleft
    rw [raisedSinceClear_concat hclear, hleft, h]
  have htold : ∀ {left : Diagnostics},
      left.toList = raisedSinceClear (past ++ [step]) →
      (left.hadError = true ↔ raisedSinceClear (past ++ [step]) ≠ []) := by
    intro left hleft
    rw [Diagnostics.hadError_iff, hleft]
  cases step with
  | scan source =>
    have hleft := hgrown (by simp) (LoxLexer.scan source diagnostics).2
      (toList_snd_scan_empty source diagnostics)
    refine ⟨.tokens (LoxLexer.scan source diagnostics).1, _, rfl, hleft,
      htold hleft, fun _ => ⟨(LoxLexer.scan source .empty).2, ?_⟩, by simp,
      by simp⟩
    rw [fst_scan, ← fst_scan source .empty]
    rfl
  | run path source =>
    have hleft := hgrown (by simp) (LoxLexer.scan source diagnostics).2
      (toList_snd_scan_empty source diagnostics)
    refine ⟨_, _, by rw [take, run_eq_ok]; rfl, hleft, htold hleft,
      fun _ => ⟨(LoxLexer.scan source .empty).2, by rw [take, run_eq_ok]; rfl⟩,
      by simp, ?_⟩
    rintro _ _ ⟨⟩
    exact ⟨_, _, rfl, toList_listing_tokensOf source,
      forall₂_ofError path source⟩
  | report e =>
    have hleft := hgrown (by simp) _ (Diagnostics.toList_report diagnostics e)
    exact ⟨.done, _, rfl, hleft, htold hleft, fun _ => ⟨_, rfl⟩, by simp,
      by simp⟩
  | clear =>
    have hleft : diagnostics.clear.toList =
        raisedSinceClear (past ++ [.clear]) := by
      rw [raisedSinceClear_concat_clear, Diagnostics.toList_clear]
    exact ⟨.done, _, rfl, hleft, htold hleft, fun _ => ⟨_, rfl⟩, by simp,
      by simp⟩
  | errors =>
    have hleft := hgrown (by simp) _ (List.append_nil diagnostics.toList).symm
    exact ⟨.errors diagnostics.toList, _, rfl, hleft, htold hleft,
      fun hne => absurd rfl hne, fun _ => by rw [h], by simp⟩

/-! ## All steps of a session -/

/-- The steps of a session that goes on from a collection are answered as they
have to be behind the steps of the past. -/
theorem exists_session_eq (steps : List Step) {diagnostics : Diagnostics}
    {past : List Step} (h : diagnostics.toList = raisedSinceClear past) :
    ∃ taken, session steps diagnostics = .ok taken ∧
      taken.length = steps.length ∧
      ∀ i step, steps[i]? = some step →
        ∃ answer left, taken[i]? = some (answer, left) ∧
          Recorded (past ++ steps.take i) step answer left := by
  induction steps generalizing diagnostics past with
  | nil => exact ⟨[], rfl, rfl, by simp⟩
  | cons step steps ih =>
    obtain ⟨answer, left, htake, hrecorded⟩ := step.exists_recorded h
    obtain ⟨later, hsession, hlength, hlater⟩ := ih hrecorded.collected
    refine ⟨(answer, left) :: later, ?_, by simp [hlength], ?_⟩
    · rw [session, htake]
      show (do let later ← session steps left; return _) = _
      rw [hsession]
      rfl
    · rintro (_ | i) s hs
      · obtain rfl : step = s := by simpa using hs
        exact ⟨answer, left, rfl, by simpa using hrecorded⟩
      · obtain ⟨answer', left', htaken, hrecorded'⟩ := hlater i s (by simpa using hs)
        exact ⟨answer', left', by simpa using htaken, by simpa using hrecorded'⟩

/-- **A session remembers what was raised since it was last cleared, and
answers every step afresh.** No step fails. Behind each the collection holds
the errors of the steps since the last clearing, and those alone; and each is
answered as if nothing had been collected, so that a run prints all its tokens
and reports its own errors. -/
theorem session_recorded (steps : List Step) :
    ∃ taken, session steps .empty = .ok taken ∧
      taken.length = steps.length ∧
      ∀ i step, steps[i]? = some step →
        ∃ answer left, taken[i]? = some (answer, left) ∧
          Recorded (steps.take i) step answer left := by
  have hempty : Diagnostics.empty.toList = raisedSinceClear [] := rfl
  exact exists_session_eq steps hempty

/-- A host reports an error that no reader could be shown, and runs a source
with an error of its own, before and behind a clearing. -/
theorem session_recorded_around_clear :
    ∃ taken,
      session [.report ⟨.unterminatedString, 3, ⟨5, 2⟩⟩, .run "a.lox" "é # 1",
        .clear, .run "b.lox" "@"] .empty = .ok taken ∧
      taken.length = 4 ∧
      (∃ answer left, taken[1]? = some (answer, left) ∧
        left.toList = [⟨.unterminatedString, 3, ⟨5, 2⟩⟩,
          ⟨.unexpectedCharacter '#', 1, ⟨3, 4⟩⟩] ∧
        Recorded [.report ⟨.unterminatedString, 3, ⟨5, 2⟩⟩]
          (.run "a.lox" "é # 1") answer left) ∧
      ∃ answer left, taken[3]? = some (answer, left) ∧
        left.toList = [⟨.unexpectedCharacter '@', 1, ⟨0, 1⟩⟩] := by
  obtain ⟨taken, hsession, hlength, hsteps⟩ := session_recorded
    [.report ⟨.unterminatedString, 3, ⟨5, 2⟩⟩, .run "a.lox" "é # 1", .clear,
      .run "b.lox" "@"]
  obtain ⟨answer, left, htaken, hrecorded⟩ := hsteps 1 _ rfl
  obtain ⟨answer', left', htaken', hrecorded'⟩ := hsteps 3 _ rfl
  refine ⟨taken, hsession, hlength, ⟨answer, left, htaken, ?_, hrecorded⟩,
    answer', left', htaken', ?_⟩
  · rw [hrecorded.collected]
    decide +kernel
  · rw [hrecorded'.collected]
    decide +kernel

end LoxLexer
