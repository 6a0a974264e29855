import LoxLexer.Command
import LoxLexer.Shift

/-!
# What a run comes to

A run could fail at one point only: an error whose span is reversed cannot be
reported. No scan raises such an error (`span_le_of_mem_errorsOf`), so every
run shows the tokens of its source and one report of each of its errors
(`run_eq_ok`), whatever has been collected before.

For a script that can be read this settles all that the command does
(`execute_script_eq_ok`). Lines that can be read are run one after another,
each as if it were the only one (`runLinesAfter_append`).
-/

namespace LoxLexer

/-- An error that a scan raises does not end before it begins. -/
theorem span_le_of_mem_errorsOf {source : String} {e : LexError}
    (h : e ∈ errorsOf source) : e.span.start ≤ e.span.stop :=
  LexError.placed.start_le_stop h

/-- Errors that do not end before they begin are all reported. -/
theorem reportAll_eq_ok {errors : List LexError}
    (h : ∀ e ∈ errors, e.span.start ≤ e.span.stop) (path source : String) :
    reportAll path source errors =
      .ok (errors.map (.describing path (.ofText source.toList))) := by
  unfold reportAll
  induction errors with
  | nil => rfl
  | cons e later ih =>
    have hlater := ih fun e he => h e (List.mem_cons_of_mem _ he)
    have hspan : ¬ e.span.stop < e.span.start :=
      Nat.not_lt_of_le (h e List.mem_cons_self)
    simp only at hlater
    rw [List.mapM_cons, hlater, Report.ofError, if_neg hspan]
    rfl

/-- What a scan adds to a collection are the errors of its source. -/
theorem since_scan (source : String) (diagnostics : Diagnostics) :
    (scan source diagnostics).2.since diagnostics.errors.size =
      errorsOf source := by
  rw [Diagnostics.since, toList_snd_scan]
  exact List.drop_left' (Array.length_toList)

/-- **A run shows the tokens and reports the errors of its source**, and its
collection is that of the scan. -/
theorem run_eq_ok (path source : String) (diagnostics : Diagnostics) :
    run path source diagnostics =
      .ok (⟨listing (tokensOf source),
        (errorsOf source).map (.describing path (.ofText source.toList))⟩,
        (scan source diagnostics).2) := by
  have hspan : ∀ e ∈ errorsOf source, e.span.start ≤ e.span.stop :=
    fun _ => span_le_of_mem_errorsOf
  have hreports := reportAll_eq_ok hspan path source
  unfold run
  simp only [since_scan, fst_scan, hreports]
  rfl

/-- **The command runs a script that can be read**: it prints the tokens,
reports the errors, and tells by its exit code whether there are any. -/
theorem execute_script_eq_ok {args : List String}
    {lookUp : String → Except ReadError ByteArray} {path : String}
    {contents : ByteArray} {source : String}
    (hargs : Invocation.ofArguments args = .ok (.script path))
    (hlookUp : lookUp path = .ok contents)
    (htext : String.fromUTF8? contents = some source) (input : ByteArray) :
    Command.execute args lookUp input =
      .ok ⟨if errorsOf source = [] then 0 else Command.dataError,
        listing (tokensOf source),
        (errorsOf source).map (.describing path (.ofText source.toList)),
        none⟩ := by
  rw [Command.execute, hargs]
  show Command.runScript path (lookUp path) = _
  have herror : (scan source .empty).2.hadError = true ↔
      ¬ errorsOf source = [] := by
    rw [Diagnostics.hadError_iff, toList_snd_scan]
    rfl
  simp only [Command.runScript, hlookUp, bind, Except.bind, htext, run_eq_ok,
    herror, ite_not]
  rfl

/-! ## Lines -/

/-- Bytes that are read as a text are the bytes of that text. -/
theorem fromUTF8?_eq_some_iff {contents : ByteArray} {text : String} :
    String.fromUTF8? contents = some text ↔ contents = text.toByteArray := by
  unfold String.fromUTF8?
  constructor
  · intro h
    split at h
    · rw [← Option.some.inj h]
      rfl
    · cases h
  · rintro rfl
    exact dif_pos text.isValidUTF8

/-- Token lists in turn are listed in turn. -/
theorem listing_append (ts us : List Token) :
    listing (ts ++ us) = listing ts ++ listing us := by
  unfold listing
  rw [List.map_append, String.join_append]

/-- The reports of the errors of a line of the standard input. -/
def lineReports (source : String) : List Report :=
  (errorsOf source).map
    (.describing Command.inputName (.ofText source.toList))

/-- **The command runs lines that can be read one after another**, each as if
it were the only one: it prints the tokens of all and reports the errors of
all, and goes on with what comes behind them. -/
theorem runLinesAfter_append (output : String) (reports : Array Report)
    (sources : List String) (later : List ByteArray) :
    Command.runLinesAfter output reports .empty
        (sources.map String.toByteArray ++ later) =
      Command.runLinesAfter (output ++ listing (sources.flatMap tokensOf))
        (reports ++ (sources.flatMap lineReports).toArray) .empty later := by
  induction sources generalizing output reports with
  | nil => simp [listing]
  | cons source sources ih =>
    have htext : String.fromUTF8? source.toByteArray = some source :=
      fromUTF8?_eq_some_iff.mpr rfl
    rw [List.map_cons, List.cons_append, Command.runLinesAfter, htext]
    simp only [run_eq_ok, bind, Except.bind]
    -- the collection is cleared behind a line, so it is empty again
    show Command.runLinesAfter (output ++ listing (tokensOf source))
      (reports ++ lineReports source) .empty _ = _
    have hreports : reports ++ lineReports source ++
        (sources.flatMap lineReports).toArray =
          reports ++ (lineReports source ++ sources.flatMap lineReports).toArray := by
      refine Array.toList_inj.mp ?_
      simp
    rw [ih, hreports, List.flatMap_cons, List.flatMap_cons, listing_append,
      String.append_assoc]

end LoxLexer
