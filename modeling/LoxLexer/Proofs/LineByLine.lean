import LoxLexer.Proofs.InputLines
import LoxLexer.Proofs.LookAhead
import LoxLexer.Proofs.MaximalMunch

/-!
# A script and its lines

The command runs a script as one source, and its standard input as one source
for every line. When no string is left open at the end of a line, the two come
to the same, but for the ends of the sources: the same tokens are printed in
the same order, and the same messages are reported
(`execute_line_by_line`).

The step is one line (`filterMap_pieces_append`). A line feed ends every piece
but an open string, so the pieces in front of it are those of the line, and the
scan takes up behind it as if nothing had been there. The carriage return that
the command takes away from a line was a blank there, or the last character of
a comment, and that is why the pieces of the line are not quite the same. But
blanks and comments come to nothing, and all else is. So the step speaks of
what pieces come to, whatever that is: the texts of their tokens, or the
messages of their faults.

That the printed lines can be compared one by one takes that a token of one
line is printed on one line (`not_mem_of_listed`), and that none is printed as
the end of a source is (`text_ne_of_kind_ne_eof`).
-/

namespace LoxLexer

/-! ## The pieces of a line -/

/-- In front of a blank everything is cut off that is cut off at the end of the
source, unless it is a gap or an open string. -/
theorem CutOff.append_blank {piece : Piece} {c : Char} (h : CutOff piece [])
    (hgap : piece.role ≠ .gap)
    (closed : piece.role ≠ .faulty .unterminatedString)
    (hblank : isBlank c = true) (later : List Char) :
    CutOff piece (c :: later) := by
  refine h.append_stop hgap closed (isWordChar_of_isBlank hblank)
    (ne_of_class hblank rfl) (ne_of_class hblank rfl)
    (fun _ => ne_of_class hblank rfl) later

section Lines

variable {β : Type} {f : Piece → Option β}

/-- What comes to something in a source with a piece in front is what does so in
the piece, and then what does so behind it. -/
theorem filterMap_pieces_cons {piece : Piece} {rest : List Char}
    (h : CutOff piece rest) :
    (pieces (piece.text ++ rest)).filterMap f =
      (f piece).toList ++ (pieces rest).filterMap f := by
  rw [h.pieces_append, List.filterMap_cons]
  cases f piece <;> rfl

/-- A blank in front of a source comes to nothing. -/
theorem filterMap_pieces_blank (hgap : ∀ p, p.role = .gap → f p = none)
    {c : Char} (h : isBlank c = true) (rest : List Char) :
    (pieces (c :: rest)).filterMap f = (pieces rest).filterMap f := by
  have hcut : CutOff ⟨[c], .gap⟩ rest := .blank h
  have hpieces := filterMap_pieces_cons (f := f) hcut
  rwa [hgap _ rfl] at hpieces

/-- The end of a line comes to nothing. -/
theorem filterMap_pieces_lineEnd (hgap : ∀ p, p.role = .gap → f p = none)
    {behind : List Char} (hbehind : behind = [] ∨ behind = ['\r'])
    (rest : List Char) :
    (pieces (behind ++ '\n' :: rest)).filterMap f =
      (pieces rest).filterMap f := by
  have hfeed := filterMap_pieces_blank hgap (c := '\n') (by decide) rest
  obtain rfl | rfl := hbehind
  · exact hfeed
  · exact (filterMap_pieces_blank hgap (by decide) _).trans hfeed

/-- The last piece of a line comes to what it comes to at the end of the
source. -/
theorem filterMap_pieces_last (hgap : ∀ p, p.role = .gap → f p = none)
    {piece : Piece} (h : CutOff piece [])
    (closed : piece.role ≠ .faulty .unterminatedString) {behind : List Char}
    (hbehind : behind = [] ∨ behind = ['\r']) (rest : List Char) :
    (pieces (piece.text ++ (behind ++ '\n' :: rest))).filterMap f =
      (f piece).toList ++ (pieces rest).filterMap f := by
  have hend := filterMap_pieces_lineEnd hgap hbehind rest
  by_cases hrole : piece.role = .gap
  · rw [hgap piece hrole]
    cases h with
    | blank hblank => exact (filterMap_pieces_blank hgap hblank _).trans hend
    | @comment content _ all =>
      -- the carriage return has become the last character of the comment
      have hall : ∀ c ∈ content ++ behind, c ≠ '\n' := by
        obtain rfl | rfl := hbehind
        · simpa using all
        · simpa [or_imp, forall_and] using all
      have hcut : CutOff ⟨'/' :: '/' :: (content ++ behind), .gap⟩
          ('\n' :: rest) := .comment hall (by simp)
      have hpieces := filterMap_pieces_cons (f := f) hcut
      rw [hgap _ rfl, filterMap_pieces_blank hgap (by decide) rest] at hpieces
      simpa using hpieces
    | _ => cases hrole
  · have hcut : CutOff piece (behind ++ '\n' :: rest) := by
      obtain rfl | rfl := hbehind
      · exact h.append_blank hrole closed (by decide) _
      · exact h.append_blank hrole closed (by decide) _
    rw [filterMap_pieces_cons hcut, hend]

/-- **Behind a line the scan is taken up anew**: what comes to something in a
text is what does so in its first line, without the carriage return at its end,
and then what does so in the rest. -/
theorem filterMap_pieces_append (hgap : ∀ p, p.role = .gap → f p = none)
    {line behind : List Char}
    (closed : ∀ piece ∈ pieces line,
      piece.role ≠ .faulty .unterminatedString)
    (hbehind : behind = [] ∨ behind = ['\r']) (rest : List Char) :
    (pieces (line ++ (behind ++ '\n' :: rest))).filterMap f =
      (pieces line).filterMap f ++ (pieces rest).filterMap f := by
  induction line using cutOff_induction with
  | nil =>
    rw [pieces_nil]
    exact filterMap_pieces_lineEnd hgap hbehind rest
  | cons piece later h ih =>
    rw [filterMap_pieces_cons h, List.append_assoc]
    rw [h.pieces_append] at closed
    have hopen := closed piece List.mem_cons_self
    have hlater := ih fun p hp => closed p (List.mem_cons_of_mem piece hp)
    by_cases hnil : later = []
    · subst hnil
      rw [pieces_nil, List.filterMap_nil, List.append_nil]
      exact filterMap_pieces_last hgap h hopen hbehind rest
    · have hcut : CutOff piece (later ++ (behind ++ '\n' :: rest)) := by
        refine h.append (fun h => absurd h hnil) fun _ => ?_
        obtain rfl | rfl := hbehind
        · exact notNext_cons.mpr (by decide)
        · exact notNext_cons.mpr (by decide)
      rw [filterMap_pieces_cons hcut, hlater, List.append_assoc]

/-- What comes to something in a text is what does so in its lines. -/
theorem filterMap_pieces_textLines (hgap : ∀ p, p.role = .gap → f p = none)
    {text : List Char}
    (closed : ∀ line ∈ textLines text, ∀ piece ∈ pieces line,
      piece.role ≠ .faulty .unterminatedString) :
    (pieces text).filterMap f =
      (textLines text).flatMap (fun line => (pieces line).filterMap f) := by
  unfold textLines at closed ⊢
  induction text using feed_induction '\n' with
  | last line hfeed =>
    rw [linesOf_of_not_mem hfeed]
    split
    · next hnil => rw [hnil, pieces_nil]; rfl
    · rw [List.flatMap_singleton]
  | more line rest hfeed ih =>
    rw [linesOf_append hfeed] at closed ⊢
    obtain ⟨behind, hline, hbehind⟩ := exists_eq_withoutLast_append '\r' line
    have hfirst := closed _ List.mem_cons_self
    have hlater := ih fun l hl => closed l (List.mem_cons_of_mem _ hl)
    have hstep := filterMap_pieces_append hgap hfirst hbehind rest
    rw [← List.append_assoc, ← hline] at hstep
    rw [hstep, hlater, List.flatMap_cons]

end Lines

/-! ## What is printed -/

/-- The lines of what is printed, the last of them what stands behind the last
line feed. -/
def printedLines (output : String) : List String :=
  (output.toList.splitOn '\n').map String.ofList

/-- How a listing shows a piece, if it becomes a token. -/
def Piece.listed? (piece : Piece) : Option String :=
  (piece.token? .start).map Token.text

/-- The message that a piece leads to, if it is put down to a fault. -/
def Piece.message? (piece : Piece) : Option String :=
  piece.fault?.map Fault.message

/-- How tokens are shown does not depend on where they stand. -/
theorem map_text_collectFrom (place : Position) (ps : List Piece) :
    (collectFrom Piece.token? place ps).map Token.text =
      ps.filterMap Piece.listed? := by
  induction ps generalizing place with
  | nil => rfl
  | cons piece later ih =>
    cases hrole : piece.role <;>
      simp [collectFrom, Piece.token?, Piece.listed?, hrole, ih,
        Token.ofLexeme, Token.text]

/-- A listing shows the lexemes of a source, and then its end. -/
theorem map_text_tokensOf (source : String) :
    (tokensOf source).map Token.text =
      (pieces source.toList).filterMap Piece.listed? ++ ["EOF "] := by
  unfold tokensOf
  rw [List.map_append, map_text_collectFrom]
  rfl

/-- The messages of a source are those of its faults. -/
theorem map_message_errorsOf (source : String) :
    (errorsOf source).map LexError.message =
      (pieces source.toList).filterMap Piece.message? := by
  unfold errorsOf Piece.message?
  rw [← List.map_filterMap, ← map_fault_collectFrom .start, List.map_map]
  rfl

/-- Tokens that are shown on one line each are printed on lines of their own,
and nothing behind them. -/
theorem printedLines_listing {ts : List Token}
    (h : ∀ line ∈ ts.map Token.text, '\n' ∉ line.toList) :
    printedLines (listing ts) = ts.map Token.text ++ [""] := by
  induction ts with
  | nil => rfl
  | cons t later ih =>
    have hlater := ih fun line hline => h line (List.mem_cons_of_mem _ hline)
    have hlisting : (listing (t :: later)).toList =
        t.text.toList ++ '\n' :: (listing later).toList := by
      simp [listing]
    unfold printedLines at hlater ⊢
    rw [hlisting,
      List.splitOn_append_cons_self_of_not_mem (h _ List.mem_cons_self),
      List.map_cons, hlater, String.ofList_toList, List.map_cons,
      List.cons_append]

/-! ## Lines and ends among what is printed -/

/-- The name of a kind is written on one line. -/
theorem Kind.lineFeed_not_mem_name (kind : Kind) :
    '\n' ∉ kind.name.toList := by
  have hall : ∀ kind ∈ all, '\n' ∉ kind.name.toList := by decide +kernel
  exact hall kind (mem_all kind)

/-- The name of a kind has two characters or more. -/
theorem Kind.two_le_length_name (kind : Kind) :
    2 ≤ kind.name.toList.length := by
  have hall : ∀ kind ∈ all, 2 ≤ kind.name.toList.length := by decide +kernel
  exact hall kind (mem_all kind)

/-- Only the name of the end of a source begins as it does. -/
theorem Kind.eq_eof_of_take_name {kind : Kind}
    (h : kind.name.toList.take 2 = ['E', 'O']) : kind = .eof := by
  have hall : ∀ kind ∈ all,
      kind.name.toList.take 2 = ['E', 'O'] → kind = .eof := by
    decide +kernel
  exact hall kind (mem_all kind) h

/-- No token but the end of a source is shown as that is. -/
theorem text_ne_of_kind_ne_eof {t : Token} (h : t.kind ≠ .eof) :
    t.text ≠ "EOF " := by
  intro htext
  have htake := congrArg (fun s : String => s.toList.take 2) htext
  rw [Token.text] at htake
  simp only [String.toList_append, List.append_assoc] at htake
  rw [List.take_append_of_le_length t.kind.two_le_length_name] at htake
  exact h (Kind.eq_eof_of_take_name htake)

/-- A number is written on one line. -/
theorem Binary64.lineFeed_not_mem_text (x : Binary64) :
    '\n' ∉ x.text.toList := by
  have hnumeral : ∀ d : Decimal, '\n' ∉ d.text.toList := by
    intro d hmem
    rw [Decimal.text, String.toList_ofList] at hmem
    obtain h | h := Decimal.isDigit_or_point_of_mem_numeral hmem
    · exact absurd h (by decide)
    · exact absurd h (by decide)
  have hsign : ∀ b : Bool, '\n' ∉ (if b then "-" else "" : String).toList := by
    decide
  unfold text
  split
  · decide
  · simp only
    split
    · simpa using hsign x.isNegative
    · simpa [hnumeral] using hsign x.isNegative

/-- The literal of a lexeme is written with the characters of the lexeme, or on
one line. -/
theorem Literal.lineFeed_not_mem_text {kind : Kind} {lexeme : List Char}
    (h : '\n' ∉ lexeme) : '\n' ∉ (ofLexeme kind lexeme).text.toList := by
  unfold ofLexeme
  split
  · rw [text, String.toList_ofList]
    exact fun hmem => h (List.mem_of_mem_tail (List.dropLast_subset _ hmem))
  · exact Binary64.lineFeed_not_mem_text _
  · decide

/-- A token on one line is shown on one line. -/
theorem lineFeed_not_mem_text_ofLexeme {kind : Kind} {lexeme : List Char}
    (h : '\n' ∉ lexeme) (place : Position) :
    '\n' ∉ (Token.ofLexeme kind lexeme place).text.toList := by
  have hname := kind.lineFeed_not_mem_name
  have hliteral : '\n' ∉ (Literal.ofLexeme kind lexeme).text.toList :=
    Literal.lineFeed_not_mem_text h
  show '\n' ∉ (kind.name ++ " " ++ String.ofList lexeme ++
    if (Literal.ofLexeme kind lexeme).isNone then ""
      else " " ++ (Literal.ofLexeme kind lexeme).text).toList
  split
  · simp [hname, h]
  · simp [hname, h, hliteral]

/-- What is listed for the pieces of a line is listed on one line. -/
theorem not_mem_of_listed {line : List Char} (h : '\n' ∉ line) :
    ∀ s ∈ (pieces line).filterMap Piece.listed?, '\n' ∉ s.toList := by
  intro s hs
  rw [← map_text_collectFrom .start, List.mem_map] at hs
  obtain ⟨t, ht, rfl⟩ := hs
  obtain ⟨front, piece, rest, kind, hpieces, -, rfl⟩ :=
    exists_lexeme_of_mem_collectFrom ht
  refine lineFeed_not_mem_text_ofLexeme (fun hmem => h ?_) _
  rw [← flatMap_text_pieces line, hpieces]
  simp [hmem]

/-- What is listed for the pieces of a source is not listed as its end is. -/
theorem ne_of_listed {source : List Char} :
    ∀ s ∈ (pieces source).filterMap Piece.listed?, s ≠ "EOF " := by
  intro s hs
  rw [← map_text_collectFrom .start, List.mem_map] at hs
  obtain ⟨t, ht, rfl⟩ := hs
  exact text_ne_of_kind_ne_eof (kind_ne_eof_of_mem_collectFrom ht)

/-! ## The command -/

/-- **The command runs an input that can be read**: it prints the tokens of its
lines, reports their errors, and ends well. -/
theorem execute_lines_eq_ok {args : List String} {contents : ByteArray}
    {text : String} (hargs : Invocation.ofArguments args = .ok .lines)
    (htext : String.fromUTF8? contents = some text)
    (lookUp : String → Except ReadError ByteArray) :
    Command.execute args lookUp contents =
      .ok ⟨0,
        listing (((textLines text.toList).map String.ofList).flatMap tokensOf),
        ((textLines text.toList).map String.ofList).flatMap lineReports,
        none⟩ := by
  have hlines : Command.inputLines contents =
      ((textLines text.toList).map String.ofList).map String.toByteArray := by
    rw [fromUTF8?_eq_some_iff.mp htext, inputLines_toByteArray, List.map_map]
    rfl
  have hrun := runLinesAfter_append "" #[]
    ((textLines text.toList).map String.ofList) []
  rw [List.append_nil, ← hlines] at hrun
  rw [Command.execute, hargs]
  show Command.runInput contents = _
  rw [Command.runInput, hrun, Command.runLinesAfter]
  simp

/-- What is listed of lines, with the end of each behind it. -/
theorem map_text_flatMap_tokensOf (lines : List (List Char)) :
    ((lines.map String.ofList).flatMap tokensOf).map Token.text =
      lines.flatMap
        (fun line => (pieces line).filterMap Piece.listed? ++ ["EOF "]) := by
  rw [List.map_flatMap, List.flatMap_map]
  simp only [map_text_tokensOf, String.toList_ofList]

/-- The messages of lines are those of each. -/
theorem map_message_flatMap_lineReports (lines : List (List Char)) :
    ((lines.map String.ofList).flatMap lineReports).map Report.message =
      lines.flatMap (fun line => (pieces line).filterMap Piece.message?) := by
  have hline : ∀ source, (lineReports source).map Report.message =
      (errorsOf source).map LexError.message := by
    intro source
    rw [lineReports, List.map_map]
    rfl
  rw [List.map_flatMap, List.flatMap_map]
  simp only [hline, map_message_errorsOf, String.toList_ofList]

/-- A source that comes to the same as its lines is printed on as many lines as
it has tokens. -/
theorem printedLines_tokensOf {text : String}
    (h : (pieces text.toList).filterMap Piece.listed? =
      (textLines text.toList).flatMap
        (fun line => (pieces line).filterMap Piece.listed?)) :
    printedLines (listing (tokensOf text)) =
      (textLines text.toList).flatMap
        (fun line => (pieces line).filterMap Piece.listed?) ++
          ["EOF "] ++ [""] := by
  rw [← h, ← map_text_tokensOf]
  refine printedLines_listing fun shown hshown => ?_
  rw [map_text_tokensOf, h, List.mem_append, List.mem_flatMap] at hshown
  obtain ⟨line, hline, hshown⟩ | hshown := hshown
  · exact not_mem_of_listed (not_mem_of_mem_linesOf hline) shown hshown
  · rw [List.mem_singleton.mp hshown]
    decide

/-- The lines of a text are printed on as many lines as they have tokens. -/
theorem printedLines_flatMap_tokensOf (text : List Char) :
    printedLines
        (listing (((textLines text).map String.ofList).flatMap tokensOf)) =
      (textLines text).flatMap
        (fun line => (pieces line).filterMap Piece.listed? ++ ["EOF "]) ++
          [""] := by
  rw [← map_text_flatMap_tokensOf]
  refine printedLines_listing fun shown hshown => ?_
  rw [map_text_flatMap_tokensOf, List.mem_flatMap] at hshown
  obtain ⟨line, hline, hshown⟩ := hshown
  obtain hshown | hshown := List.mem_append.mp hshown
  · exact not_mem_of_listed (not_mem_of_mem_linesOf hline) shown hshown
  · rw [List.mem_singleton.mp hshown]
    decide

/-- The pieces of a source are what is left without the lines for ends. -/
theorem filter_listed (source : List Char) :
    ((pieces source).filterMap Piece.listed?).filter (· ≠ "EOF ") =
      (pieces source).filterMap Piece.listed? :=
  List.filter_eq_self.mpr fun shown hshown =>
    decide_eq_true (ne_of_listed shown hshown)

/-- No piece of a source is among the lines for ends. -/
theorem count_listed (source : List Char) :
    ((pieces source).filterMap Piece.listed?).count "EOF " = 0 :=
  List.count_eq_zero.mpr fun hmem => ne_of_listed _ hmem rfl

/-- **A script and its lines come to the same.** When no string is left open at
the end of a line, the command prints the same lines for a script and for its
lines on the standard input, the ends of sources apart, of which there is one
for the script and one for each line. It reports the same messages; and its
exit code tells of them for the script alone. A backspace (U+0008) is taken for
any other character, so this is meant of texts without one. -/
theorem execute_line_by_line {contents : ByteArray} {text : String}
    (htext : String.fromUTF8? contents = some text)
    (closed : ∀ line ∈ textLines text.toList,
      ∀ e ∈ (scan (String.ofList line) .empty).2.toList,
        e.fault ≠ .unterminatedString)
    {scriptArgs : List String} {path : String}
    {lookUp : String → Except ReadError ByteArray}
    (hscript : Invocation.ofArguments scriptArgs = .ok (.script path))
    (hlookUp : lookUp path = .ok contents) {lineArgs : List String}
    (hlines : Invocation.ofArguments lineArgs = .ok .lines)
    (input : ByteArray) (lookUp' : String → Except ReadError ByteArray) :
    ∃ script lines,
      Command.execute scriptArgs lookUp input = .ok script ∧
      Command.execute lineArgs lookUp' contents = .ok lines ∧
      (printedLines script.output).filter (· ≠ "EOF ") =
        (printedLines lines.output).filter (· ≠ "EOF ") ∧
      (printedLines script.output).count "EOF " = 1 ∧
      (printedLines lines.output).count "EOF " =
        (textLines text.toList).length ∧
      script.reports.map Report.message = lines.reports.map Report.message ∧
      script.exitCode = (if script.reports = [] then 0 else 65) ∧
      lines.exitCode = 0 := by
  -- what both come to: the texts and the messages of the lines
  have hopen := fun line hline => role_ne_of_errors (closed line hline)
  have hlisted := filterMap_pieces_textLines
    (f := Piece.listed?) (fun p h => by simp [Piece.listed?, Piece.token?, h])
    hopen
  have hmessages := filterMap_pieces_textLines
    (f := Piece.message?)
    (fun p h => by simp [Piece.message?, Piece.fault?, h]) hopen
  have hscriptLines := printedLines_tokensOf hlisted
  have hlineLines := printedLines_flatMap_tokensOf text.toList
  refine ⟨_, _, execute_script_eq_ok hscript hlookUp htext input,
    execute_lines_eq_ok hlines htext lookUp', ?_, ?_, ?_, ?_, ?_, rfl⟩
  · rw [hscriptLines, hlineLines]
    simp only [List.filter_append, List.filter_flatMap, filter_listed]
    simp
  · rw [hscriptLines, List.count_append, List.count_append, List.count_flatMap]
    simp [Function.comp_def, count_listed]
  · rw [hlineLines, List.count_append, List.count_flatMap]
    simp [Function.comp_def, count_listed]
  · rw [map_message_flatMap_lineReports, ← hmessages, ← map_message_errorsOf,
      List.map_map]
    rfl
  · simp [Command.dataError]

/-- A script of three lines, with a comment that ends in a carriage return, an
empty line, and a character that begins nothing on the last. -/
theorem execute_three_lines :
    String.fromUTF8? "a // é\r\n\n@ \"s\"".toUTF8 =
        some "a // é\r\n\n@ \"s\"" ∧
      (∀ line ∈ textLines "a // é\r\n\n@ \"s\"".toList,
        ∀ e ∈ (scan (String.ofList line) .empty).2.toList,
          e.fault ≠ .unterminatedString) ∧
      Invocation.ofArguments ["a.lox"] = .ok (.script "a.lox") ∧
      Invocation.ofArguments [] = .ok .lines ∧
      ∃ script lines,
        Command.execute ["a.lox"] (fun _ => .ok "a // é\r\n\n@ \"s\"".toUTF8)
          ByteArray.empty = .ok script ∧
        Command.execute [] (fun _ => .error .missing)
          "a // é\r\n\n@ \"s\"".toUTF8 = .ok lines ∧
        (printedLines script.output).filter (· ≠ "EOF ") =
          (printedLines lines.output).filter (· ≠ "EOF ") ∧
        (printedLines script.output).count "EOF " = 1 ∧
        (printedLines lines.output).count "EOF " =
          (textLines "a // é\r\n\n@ \"s\"".toList).length ∧
        script.reports.map Report.message = lines.reports.map Report.message ∧
        script.exitCode = (if script.reports = [] then 0 else 65) ∧
        lines.exitCode = 0 := by
  have htext : String.fromUTF8? "a // é\r\n\n@ \"s\"".toUTF8 =
      some "a // é\r\n\n@ \"s\"" := fromUTF8?_eq_some_iff.mpr rfl
  have closed : ∀ line ∈ textLines "a // é\r\n\n@ \"s\"".toList,
      ∀ e ∈ (scan (String.ofList line) .empty).2.toList,
        e.fault ≠ .unterminatedString := by
    decide +kernel
  have hscript : Invocation.ofArguments ["a.lox"] = .ok (.script "a.lox") := by
    cbv
  have hlines : Invocation.ofArguments [] = .ok .lines := by
    cbv
  exact ⟨htext, closed, hscript, hlines,
    execute_line_by_line htext closed hscript rfl hlines ByteArray.empty _⟩

end LoxLexer
