import LoxLexer.Proofs.InputLines
import LoxLexer.Proofs.Runs
import Mathlib.Data.List.TakeWhile

/-!
# Lines that know nothing of each other

The command runs all lines of its standard input over one collection of
errors. It clears the collection behind each line, so every line meets an empty
one, and what the command shows in the end is what the lines show by themselves,
one after another. A line that is not UTF-8 ends the input: the lines in front
of it have been run by then, and what they have shown stays.

The input may hold any bytes. Its lines are those of `linesOf`, cut before
anything is decoded, so a line that is broken does not bear on where the others
begin. The main statement is `execute_lines_afresh`; the loop itself is settled
by `runLinesAfter_append` for the lines that can be read, and by
`runLinesAfter_eq_ok` for what comes behind them.
-/

namespace LoxLexer

/-- Whether the bytes of a line are UTF-8. -/
def isText (line : List UInt8) : Bool :=
  (String.fromUTF8? ⟨line.toArray⟩).isSome

/-- **What a line shows by itself**: the bytes are the UTF-8 of a source, and a
run of this source over an empty collection shows it. -/
def ShownAfresh (line : List UInt8) (shown : Shown) : Prop :=
  ∃ source left, String.fromUTF8? ⟨line.toArray⟩ = some source ∧
    run "<stdin>" source .empty = .ok (shown, left)

/-! ## Lines that can be read -/

/-- What a run of a source shows over an empty collection. -/
def shownOf (source : String) : Shown :=
  ⟨listing (tokensOf source), lineReports source⟩

/-- A line that can be read shows what its source does. -/
theorem shownAfresh_shownOf {line : List UInt8} {source : String}
    (h : String.fromUTF8? ⟨line.toArray⟩ = some source) :
    ShownAfresh line (shownOf source) :=
  ⟨source, _, h, run_eq_ok Command.inputName source .empty⟩

/-- Lines that can be read are the bytes of sources. -/
theorem exists_sources {lines : List (List UInt8)}
    (h : ∀ line ∈ lines, isText line = true) :
    ∃ sources : List String,
      lines.map (fun line => (⟨line.toArray⟩ : ByteArray)) =
        sources.map String.toByteArray ∧
      List.Forall₂ ShownAfresh lines (sources.map shownOf) := by
  induction lines with
  | nil => exact ⟨[], rfl, .nil⟩
  | cons line later ih =>
    obtain ⟨sources, hlater, hshown⟩ :=
      ih fun l hl => h l (List.mem_cons_of_mem line hl)
    obtain ⟨source, hsource⟩ :=
      Option.isSome_iff_exists.mp (h line List.mem_cons_self)
    refine ⟨source :: sources, ?_, .cons (shownAfresh_shownOf hsource) hshown⟩
    rw [List.map_cons, List.map_cons, hlater, fromUTF8?_eq_some_iff.mp hsource]

/-- What sources print in turn is what each of them prints. -/
theorem listing_flatMap_tokensOf (sources : List String) :
    listing (sources.flatMap tokensOf) =
      String.join ((sources.map shownOf).map Shown.output) := by
  induction sources with
  | nil => rfl
  | cons source later ih =>
    rw [List.flatMap_cons, listing_append, ih, List.map_cons, List.map_cons,
      String.join_cons]
    rfl

/-- What sources report in turn is what each of them reports. -/
theorem flatMap_lineReports (sources : List String) :
    sources.flatMap lineReports =
      (sources.map shownOf).flatMap Shown.reports := by
  rw [List.flatMap_map]
  rfl

/-! ## The end of the input -/

/-- At its end, and at a line that cannot be read, an input is done with: what
has been shown stays, and the exit code tells which of the two it was. -/
theorem runLinesAfter_eq_ok (output : String) (reports : Array Report)
    (diagnostics : Diagnostics) (lines : List (List UInt8))
    (h : ∀ line ∈ lines.head?, isText line = false) :
    ∃ complaint?,
      Command.runLinesAfter output reports diagnostics
          (lines.map (fun line => ⟨line.toArray⟩)) =
        .ok ⟨if lines = [] then 0 else 1, output, reports.toList,
          complaint?⟩ := by
  cases lines with
  | nil => exact ⟨none, rfl⟩
  | cons line later =>
    have hline : String.fromUTF8? ⟨line.toArray⟩ = none := by
      simpa [isText] using h line rfl
    let reason := ReadError.notText.reason
    refine ⟨some (Command.complaint reason reason), ?_⟩
    rw [List.map_cons, Command.runLinesAfter, hline]
    rfl

/-- **Every line of the standard input is run by itself.** The lines up to the
first that is not UTF-8 show what they show over an empty collection, one after
another, and the command ends well exactly when there is no such line, whatever
was reported. A backspace (U+0008) is taken for any other character, so this is
meant of inputs without one. -/
theorem execute_lines_afresh {args : List String}
    (hargs : Invocation.ofArguments args = .ok .lines)
    (lookUp : String → Except ReadError ByteArray) (input : ByteArray) :
    ∃ outcome shown,
      Command.execute args lookUp input = .ok outcome ∧
      List.Forall₂ ShownAfresh
        ((linesOf 10 13 input.data.toList).takeWhile isText) shown ∧
      outcome.output = String.join (shown.map Shown.output) ∧
      outcome.reports = shown.flatMap Shown.reports ∧
      outcome.exitCode =
        if (linesOf 10 13 input.data.toList).all isText then 0 else 1 := by
  have hlines : Command.inputLines input =
      (linesOf 10 13 input.data.toList).map (fun line => ⟨line.toArray⟩) := by
    rw [Command.inputLines, linesAfter_eq_linesOf]
  generalize linesOf 10 13 input.data.toList = lines at hlines ⊢
  have hsplit : lines = lines.takeWhile isText ++ lines.dropWhile isText :=
    List.takeWhile_append_dropWhile.symm
  obtain ⟨sources, hfront, hshown⟩ :=
    exists_sources (List.all_eq_true.mp (List.all_takeWhile (l := lines)))
  obtain ⟨complaint?, hback⟩ :=
    runLinesAfter_eq_ok ("" ++ listing (sources.flatMap tokensOf))
      (#[] ++ (sources.flatMap lineReports).toArray) .empty
      (lines.dropWhile isText) fun line hline => by
        have hnot := List.head?_dropWhile_not isText lines
        rw [hline] at hnot
        simpa using hnot
  rw [hsplit, List.map_append, hfront] at hlines
  rw [Command.execute, hargs]
  show ∃ outcome shown, Command.runInput input = .ok outcome ∧ _
  rw [Command.runInput, hlines, runLinesAfter_append, hback]
  refine ⟨_, sources.map shownOf, rfl, hshown, ?_, ?_, ?_⟩
  · rw [String.empty_append, listing_flatMap_tokensOf]
  · rw [Array.empty_append, flatMap_lineReports]
  · simp only [List.dropWhile_eq_nil_iff, List.all_eq_true]

/-- Of four lines the third is not UTF-8. The first reports a character, the
second opens a string, and neither bears on what is shown of the other. -/
theorem execute_afresh_up_to_broken_line :
    Invocation.ofArguments [] = .ok .lines ∧
      ∃ outcome shown,
        Command.execute [] (fun _ => .error .missing)
          ⟨#[64, 32, 49, 13, 10, 34, 10, 0xFF, 10, 50]⟩ = .ok outcome ∧
        List.Forall₂ ShownAfresh [[64, 32, 49], [34]] shown ∧
        outcome.output = String.join (shown.map Shown.output) ∧
        outcome.reports = shown.flatMap Shown.reports ∧
        outcome.exitCode = 1 := by
  have hargs : Invocation.ofArguments [] = .ok .lines := by
    cbv
  have hlines : (linesOf 10 13 [64, 32, 49, 13, 10, 34, 10, 0xFF, 10, 50] :
      List (List UInt8)).takeWhile isText = [[64, 32, 49], [34]] := by
    decide +kernel
  have hbroken : (linesOf 10 13 [64, 32, 49, 13, 10, 34, 10, 0xFF, 10, 50] :
      List (List UInt8)).all isText = false := by
    decide +kernel
  obtain ⟨outcome, shown, hrun, hshown, houtput, hreports, hexit⟩ :=
    execute_lines_afresh hargs (fun _ => .error .missing)
      ⟨#[64, 32, 49, 13, 10, 34, 10, 0xFF, 10, 50]⟩
  rw [hlines] at hshown
  rw [hbroken] at hexit
  exact ⟨hargs, outcome, shown, hrun, hshown, houtput, hreports, hexit⟩

end LoxLexer
