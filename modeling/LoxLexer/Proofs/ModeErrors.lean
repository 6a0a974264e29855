import LoxLexer.Proofs.CutOff
import LoxLexer.Proofs.Runs

/-!
# Errors told character by character

A scan goes from piece to piece, and `Mode.errors` from character to character
with nothing but a mode to remember. This module proves that both find the
same errors (`errorsOf_eq_errors`), and hence that the exit code of the
command is settled by the characters of its script.

What keeps the two together is that the reader is in code wherever the scan is
between two pieces. So the step is a whole piece: the reader that goes over
it is in code again and has found what the scan finds in it
(`CutOff.errors_append`). Within most pieces the mode stays one, and that is a
single lemma (`Mode.errors_append`). The piece that does not fit is the stroke,
behind which the reader is not in code; but as no second stroke follows, it
does what it would do in code (`Mode.errors_stroke`).
-/

namespace LoxLexer

namespace Mode

variable {mode : Mode} {place : Position} {text rest : List Char}

/-- A text of which no character changes the mode or is refused is passed
over. -/
theorem errors_append
    (h : ∀ c ∈ text, (∀ place, mode.after place c = mode) ∧
      mode.refuses c = false) :
    mode.errors place (text ++ rest) = mode.errors (place.after text) rest := by
  induction text generalizing place with
  | nil => rfl
  | cons c later ih =>
    obtain ⟨hafter, hrefuses⟩ := h c List.mem_cons_self
    have hlater : mode.errors (place.after [c]) (later ++ rest) =
        mode.errors (place.after (c :: later)) rest := by
      rw [ih fun d hd => h d (List.mem_cons_of_mem c hd),
        ← Position.after_append, List.singleton_append]
    rw [List.cons_append, errors, hafter, hlater, hrefuses]
    rfl

/-- Code without strokes leaves the reader in code and has no errors. -/
theorem errors_code_append
    (h : ∀ c ∈ text, isCode c = true ∧ c ≠ '/') :
    errors .code place (text ++ rest) =
      errors .code (place.after text) rest := by
  refine errors_append fun c hc => ?_
  obtain ⟨hcode, hstroke⟩ := h c hc
  have hquote : c ≠ '"' := ne_of_class hcode rfl
  refine ⟨fun place => ?_, ?_⟩
  · show afterCode place c = code
    rw [afterCode, if_neg hquote, if_neg hstroke]
  · simp [refuses, hcode]

/-- Behind a stroke that no other one follows, the reader does what it does in
code. -/
theorem errors_stroke (h : rest.head? ≠ some '/') :
    errors .stroke place rest = errors .code place rest := by
  cases rest with
  | nil => rfl
  | cons c later =>
    have hc : c ≠ '/' := by simpa using h
    have hafter : after .stroke place c = after .code place c := if_neg hc
    rw [errors, errors, hafter]
    rfl

/-- In a comment nothing happens up to the end of the line. -/
theorem errors_comment_append (all : ∀ c ∈ text, c ≠ '\n') :
    errors .comment place (text ++ rest) =
      errors .comment (place.after text) rest :=
  errors_append fun c hc => ⟨fun _ => if_neg (all c hc), rfl⟩

/-- At the end of its line a comment is as good as code. -/
theorem errors_comment (h : NotNext (· ≠ '\n') rest) :
    errors .comment place rest = errors .code place rest := by
  cases rest with
  | nil => rfl
  | cons c later =>
    obtain rfl : c = '\n' := by simpa using h
    rfl

/-- In a string nothing happens up to a quote. -/
theorem errors_string_append {quote : Position}
    (all : ∀ c ∈ text, c ≠ '"') :
    errors (.string quote) place (text ++ rest) =
      errors (.string quote) (place.after text) rest :=
  errors_append fun c hc => ⟨fun _ => if_neg (all c hc), rfl⟩

end Mode

/-! ## A piece at a time -/

/-- The characters of words are code, and no strokes. -/
theorem isCode_of_isWordChar {c : Char} (h : isWordChar c = true) :
    isCode c = true ∧ c ≠ '/' :=
  ⟨isCode_iff.mpr (.inr (.inr h)), ne_of_class h rfl⟩

/-- **A reader that goes over a piece finds what the scan finds in it**, and is
in code again. -/
theorem CutOff.errors_append {piece : Piece} {rest : List Char}
    (h : CutOff piece rest) (place : Position) :
    Mode.errors .code place (piece.text ++ rest) =
      (piece.error? place).toList ++
        Mode.errors .code (place.after piece.text) rest := by
  cases h with
  | @blank c _ hblank =>
    refine Mode.errors_code_append fun d hd => ?_
    obtain rfl := List.mem_singleton.mp hd
    exact ⟨isCode_iff.mpr (.inr (.inl hblank)), ne_of_class hblank rfl⟩
  | @comment content _ all stop =>
    have hopen : Mode.errors .code place ('/' :: '/' :: content ++ rest) =
        Mode.errors .comment ((place.after ['/']).after ['/'])
          (content ++ rest) := rfl
    rw [hopen, Mode.errors_comment_append all, Mode.errors_comment stop,
      ← Position.after_append, ← Position.after_append]
    rfl
  | @string content _ all =>
    have hopen : Mode.errors .code place ('"' :: content ++ ['"'] ++ rest) =
        Mode.errors (.string place) (place.after ['"'])
          (content ++ ['"'] ++ rest) := rfl
    have hclose : ∀ place', Mode.errors (.string place) place' (['"'] ++ rest) =
        Mode.errors .code (place'.after ['"']) rest := fun _ => rfl
    rw [hopen, List.append_assoc, Mode.errors_string_append all, hclose,
      ← Position.after_append, ← Position.after_append]
    rfl
  | whole _ all =>
    exact Mode.errors_code_append fun c hc =>
      isCode_of_isWordChar (isWordChar_of_isDigit (all c hc))
  | fraction _ whole_all _ all =>
    refine Mode.errors_code_append fun c hc => ?_
    obtain hc | hc := List.mem_append.mp hc
    · exact isCode_of_isWordChar (isWordChar_of_isDigit (whole_all c hc))
    obtain rfl | hc := List.mem_cons.mp hc
    · decide
    · exact isCode_of_isWordChar (isWordChar_of_isDigit (all c hc))
  | word start all =>
    refine Mode.errors_code_append fun c hc => ?_
    obtain rfl | hc := List.mem_cons.mp hc
    · exact isCode_of_isWordChar (isWordChar_of_isWordStart start)
    · exact isCode_of_isWordChar (all c hc)
  | @symbol s _ stop =>
    -- behind a stroke the reader is not in code, but what follows ends the symbol
    by_cases hs : s = .slash
    · subst hs
      exact Mode.errors_stroke (stop.2 rfl)
    · have hall : s.spelling.all (fun c => isCode c && c ≠ '/') = true := by
        revert hs
        cases s <;> decide
      refine Mode.errors_code_append fun c hc => ?_
      simpa using List.all_eq_true.mp hall c hc
  | @unterminated content all =>
    have hopen : Mode.errors .code place ('"' :: content ++ []) =
        Mode.errors (.string place) (place.after ['"']) (content ++ []) := rfl
    rw [hopen, Mode.errors_string_append all, ← Position.after_append]
    rfl
  | @unexpected c _ not_quote not_code =>
    -- a line feed is never refused, so the line is that of the place in front
    have hstroke : '/' ≠ c := ne_of_class rfl not_code
    have hfeed : '\n' ≠ c := ne_of_class rfl not_code
    have hline : lineFeeds [c] = 0 :=
      List.count_eq_zero.mpr (by simpa using hfeed)
    have hrefuses : Mode.refuses .code c = true := by
      simp [Mode.refuses, not_quote, not_code]
    have hafter : Mode.after .code place c = .code := by
      show Mode.afterCode place c = .code
      rw [Mode.afterCode, if_neg not_quote, if_neg hstroke.symm]
    rw [List.singleton_append, Mode.errors, hafter, hrefuses]
    simp [Piece.error?, LexError.atPiece, hline]

/-- **The errors of a source are those that are found character by
character.** -/
theorem collectFrom_eq_errors (source : List Char) (place : Position) :
    collectFrom Piece.error? place (pieces source) =
      Mode.errors .code place source := by
  induction source using cutOff_induction generalizing place with
  | nil =>
    rw [pieces_nil]
    rfl
  | cons piece rest h ih =>
    rw [h.errors_append, h.pieces_append, collectFrom, ih]

/-- Only the last error is that of an unclosed string. -/
theorem Mode.fault_ne_of_mem_dropLast {mode : Mode} {place : Position}
    {text : List Char} {e : LexError}
    (h : e ∈ (mode.errors place text).dropLast) :
    e.fault ≠ .unterminatedString := by
  induction text generalizing mode place with
  | nil => cases mode <;> simp [errors] at h
  | cons c later ih =>
    unfold errors at h
    split at h
    · by_cases hlater :
          (mode.after place c).errors (place.after [c]) later = []
      · simp [hlater] at h
      · rw [List.dropLast_cons_of_ne_nil hlater] at h
        obtain rfl | h := List.mem_cons.mp h
        · exact Fault.noConfusion
        · exact ih h
    · exact ih h

/-- **Errors and exit code can be told character by character.** -/
theorem scan_errors_by_character (source : String) :
    (scan source .empty).2.toList = Mode.errors .code .start source.toList ∧
      (∀ e ∈ (Mode.errors .code .start source.toList).dropLast,
        e.fault ≠ .unterminatedString) ∧
      ∀ args lookUp input path contents,
        Invocation.ofArguments args = .ok (.script path) →
        lookUp path = .ok contents →
        String.fromUTF8? contents = some source →
        ∃ outcome, Command.execute args lookUp input = .ok outcome ∧
          outcome.exitCode =
            if Mode.errors .code .start source.toList = [] then 0 else 65 := by
  have herrors : errorsOf source = Mode.errors .code .start source.toList :=
    collectFrom_eq_errors source.toList .start
  refine ⟨?_, fun e => Mode.fault_ne_of_mem_dropLast, ?_⟩
  · rw [toList_snd_scan, herrors]
    rfl
  · intro args lookUp input path contents hargs hlookUp htext
    rw [← herrors]
    exact ⟨_, execute_script_eq_ok hargs hlookUp htext input, rfl⟩

/-- A script with a character that begins nothing makes the command exit with
65. -/
theorem exitCode_of_faulty_script :
    Invocation.ofArguments ["a.lox"] = .ok (.script "a.lox") ∧
      String.fromUTF8? "a # b".toUTF8 = some "a # b" ∧
      ∃ outcome, Command.execute ["a.lox"] (fun _ => .ok "a # b".toUTF8)
          ByteArray.empty = .ok outcome ∧ outcome.exitCode = 65 := by
  have hargs : Invocation.ofArguments ["a.lox"] = .ok (.script "a.lox") := by
    cbv
  have htext : String.fromUTF8? "a # b".toUTF8 = some "a # b" :=
    dif_pos (String.isValidUTF8 "a # b")
  refine ⟨hargs, htext, ?_⟩
  obtain ⟨outcome, hok, hcode⟩ := (scan_errors_by_character "a # b").2.2
    ["a.lox"] (fun _ => .ok "a # b".toUTF8) ByteArray.empty "a.lox"
    "a # b".toUTF8 hargs rfl htext
  refine ⟨outcome, hok, hcode.trans ?_⟩
  decide

end LoxLexer
