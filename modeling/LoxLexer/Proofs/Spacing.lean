import LoxLexer.Proofs.LookAhead
import LoxLexer.Proofs.MaximalMunch

/-!
# Texts set apart

Two texts are scanned as if each stood alone when blanks and comments keep them
apart. What stands between them becomes pieces that come to nothing, and all it
does is to move the second text on. `SetApart` says so of pieces: between those
of the first text and those of the second there are gaps alone. It does not ask
that these be the gaps of what stands between, because a comment at the end of
the first text may run on into it.

Tokens and errors can be read off at once (`tokensOf_setApart`,
`errorsOf_setApart`), so it is enough to find the gaps, and for that nothing
needs to be known of the first text but its last piece (`setApart_of_last`).
The first case of it is the end of a line: a line feed ends every piece but an
open string, whatever comes behind it, and that is why a source may be scanned
line by line (`scan_append_lineFeed`).
-/

namespace LoxLexer

/-- **A text that sets others apart**: blanks, and comments that are closed by
the end of their line. -/
inductive Spacing : List Char → Prop where
  /-- No text at all. -/
  | nil : Spacing []
  /-- A blank, and more. -/
  | blank {c : Char} {text : List Char} (blank : isBlank c = true)
      (more : Spacing text) : Spacing (c :: text)
  /-- A comment with the end of its line, and more. -/
  | comment {content text : List Char} (all : ∀ c ∈ content, c ≠ '\n')
      (more : Spacing text) :
      Spacing ('/' :: '/' :: content ++ '\n' :: text)

/-- **Two texts are set apart** by one between them: their pieces are those of
each, but for gaps where they meet. -/
def SetApart (front between back : List Char) : Prop :=
  ∃ ps gs gs', pieces front = ps ++ gs ∧
    pieces (front ++ between ++ back) = ps ++ gs' ++ pieces back ∧
    ∀ g ∈ gs ++ gs', g.role = .gap

/-! ## What texts set apart come to -/

section Strings

variable {front between back : String}

/-- What stands in front of the second text is the first one, and what is
between. -/
theorem after_of_pieces_eq {ps : List Piece}
    (h : pieces (front ++ between ++ back).toList = ps ++ pieces back.toList) :
    Position.start.after (ps.flatMap Piece.text) =
      Position.start.shift (front ++ between).utf8ByteSize
        (lineFeeds (front ++ between).toList) := by
  have htext := congrArg (List.flatMap Piece.text) h
  rw [flatMap_text_pieces, List.flatMap_append, flatMap_text_pieces,
    String.toList_append] at htext
  rw [← List.append_cancel_right htext, Position.after_start_toList]

/-- The pieces of texts that are set apart come to what those of the first do,
and those of the second further on. -/
theorem Placed.collectFrom_setApart {α : Type}
    {f : Piece → Position → Option α} {span : α → Span}
    {shift : Nat → Nat → α → α} (hplaced : Placed f span shift)
    (h : SetApart front.toList between.toList back.toList) :
    collectFrom f .start (pieces (front ++ between ++ back).toList) =
      collectFrom f .start (pieces front.toList) ++
        (collectFrom f .start (pieces back.toList)).map
          (shift (front ++ between).utf8ByteSize
            (lineFeeds (front ++ between).toList)) := by
  obtain ⟨ps, gs, gs', hfront, hwhole, hgaps⟩ := h
  rw [List.forall_mem_append] at hgaps
  rw [← String.toList_append, ← String.toList_append] at hwhole
  rw [hwhole, hfront, collectFrom_append _ _ (ps ++ gs'),
    collectFrom_append _ _ ps gs', collectFrom_append _ _ ps gs,
    hplaced.collectFrom_gaps hgaps.1, hplaced.collectFrom_gaps hgaps.2,
    List.append_nil, after_of_pieces_eq hwhole, hplaced.collectFrom_shift]

/-- The tokens of texts that are set apart are those of the first without its
end, and those of the second further on. -/
theorem tokensOf_setApart
    (h : SetApart front.toList between.toList back.toList) :
    tokensOf (front ++ between ++ back) =
      (tokensOf front).dropLast ++ (tokensOf back).map
        (.shift (front ++ between).utf8ByteSize
          (lineFeeds (front ++ between).toList)) :=
  tokensOf_eq_append (Token.placed.collectFrom_setApart h)
    (Position.after_start_append (front ++ between) back)

/-- The errors of texts that are set apart are those of the first, and those of
the second further on. -/
theorem errorsOf_setApart
    (h : SetApart front.toList between.toList back.toList) :
    errorsOf (front ++ between ++ back) =
      errorsOf front ++ (errorsOf back).map
        (.shift (front ++ between).utf8ByteSize
          (lineFeeds (front ++ between).toList)) :=
  LexError.placed.collectFrom_setApart h

end Strings

/-! ## Where texts are set apart -/

/-- Blanks and comments in front of a text are gaps. -/
theorem Spacing.exists_pieces_append {text : List Char} (h : Spacing text)
    (back : List Char) :
    ∃ gs, pieces (text ++ back) = gs ++ pieces back ∧
      ∀ g ∈ gs, g.role = .gap := by
  induction h with
  | nil => exact ⟨[], rfl, by simp⟩
  | @blank c text hblank _ ih =>
    obtain ⟨gs, hpieces, hgaps⟩ := ih
    have hcut : CutOff ⟨[c], .gap⟩ (text ++ back) := .blank hblank
    refine ⟨⟨[c], .gap⟩ :: gs, ?_, by simpa using hgaps⟩
    rw [List.cons_append, List.cons_append, ← hpieces]
    exact hcut.pieces_append
  | @comment content text all _ ih =>
    obtain ⟨gs, hpieces, hgaps⟩ := ih
    have hcut : CutOff ⟨'/' :: '/' :: content, .gap⟩
        ('\n' :: (text ++ back)) := .comment all (by simp)
    have hfeed : CutOff ⟨['\n'], .gap⟩ (text ++ back) := .blank (by decide)
    refine ⟨⟨'/' :: '/' :: content, .gap⟩ :: ⟨['\n'], .gap⟩ :: gs, ?_,
      by simpa using hgaps⟩
    have hline := hfeed.pieces_append
    rw [List.singleton_append, hpieces] at hline
    have hcomment := hcut.pieces_append
    rw [hline] at hcomment
    rw [List.append_assoc]
    exact hcomment

/-- Blanks and comments alone leave what comes behind them as it is. -/
theorem Spacing.setApart_nil {between : List Char} (h : Spacing between)
    (back : List Char) : SetApart [] between back := by
  obtain ⟨gs, hpieces, hgaps⟩ := h.exists_pieces_append back
  exact ⟨[], [], gs, pieces_nil, hpieces, hgaps⟩

/-- A piece may be put in front of texts that are set apart, if it is cut off in
front of the first of them and of all. -/
theorem SetApart.cons {piece : Piece} {rest between back : List Char}
    (h : SetApart rest between back) (hrest : CutOff piece rest)
    (hall : CutOff piece (rest ++ between ++ back)) :
    SetApart (piece.text ++ rest) between back := by
  obtain ⟨ps, gs, gs', hfront, hwhole, hgaps⟩ := h
  refine ⟨piece :: ps, gs, gs', ?_, ?_, hgaps⟩
  · rw [hrest.pieces_append, hfront, List.cons_append]
  · rw [List.append_assoc, List.append_assoc, ← List.append_assoc rest,
      hall.pieces_append, hwhole]
    rfl

/-- **Only the last piece of a text matters** for what may set it apart, as long
as that begins with no digit. -/
theorem setApart_of_last {front between back : List Char}
    (hdigit : NotNext isDigit (between ++ back))
    (hnil : SetApart [] between back)
    (hlast : ∀ piece ∈ (pieces front).getLast?, CutOff piece [] →
      SetApart piece.text between back) :
    SetApart front between back := by
  induction front using cutOff_induction with
  | nil => exact hnil
  | cons piece rest h ih =>
    rw [h.pieces_append] at hlast
    by_cases hrest : rest = []
    · subst hrest
      rw [List.append_nil]
      exact hlast piece (by simp) h
    · have hset := ih fun p hp => hlast p (by
        rw [List.getLast?_cons, Option.mem_def.mp hp]
        rfl)
      refine hset.cons h ?_
      rw [List.append_assoc]
      exact h.append (fun hnil => absurd hnil hrest) fun _ => hdigit

/-! ## The end of a line -/

/-- A line feed ends every piece but an open string. -/
theorem CutOff.append_lineFeed {piece : Piece} (h : CutOff piece [])
    (closed : piece.role ≠ .faulty .unterminatedString) (later : List Char) :
    CutOff piece ('\n' :: later) := by
  by_cases hgap : piece.role = .gap
  · cases h with
    | blank hblank => exact .blank hblank
    | comment all => exact .comment all (by simp)
    | _ => cases hgap
  · exact h.append_stop hgap closed (by decide) (by decide) (by decide)
      (fun _ => by decide) later

/-- A line feed sets a text apart from all that comes behind it, unless a string
is left open at its end. -/
theorem setApart_lineFeed {front : List Char}
    (closed : ∀ piece ∈ pieces front,
      piece.role ≠ .faulty .unterminatedString) (back : List Char) :
    SetApart front ['\n'] back := by
  have hfeed : Spacing ['\n'] := .blank (by decide) .nil
  refine setApart_of_last (notNext_cons.mpr (by decide)) (hfeed.setApart_nil back)
    fun piece hpiece hcut => ?_
  have hset := (hfeed.setApart_nil back).cons hcut
    (hcut.append_lineFeed (closed piece (List.mem_of_getLast? hpiece)) back)
  rwa [List.append_nil] at hset

/-- **A source may be scanned line by line.** If no string is left open at the
end of a text, a line feed behind it lets the scan of what follows begin anew:
the tokens are those of the text without its end, and then those of what
follows, by the bytes of the text and one further on, and as many lines as it
has line feeds and one; and likewise the errors. -/
theorem scan_append_lineFeed {front : String}
    (closed : ∀ e ∈ (scan front .empty).2.toList,
      e.fault ≠ .unterminatedString) (back : String) :
    (scan (front ++ "\n" ++ back) .empty).1 =
        (scan front .empty).1.dropLast ++ (scan back .empty).1.map
          (.shift (front.utf8ByteSize + 1) (1 + lineFeeds front.toList)) ∧
      (scan (front ++ "\n" ++ back) .empty).2.toList =
        (scan front .empty).2.toList ++ (scan back .empty).2.toList.map
          (.shift (front.utf8ByteSize + 1) (1 + lineFeeds front.toList)) := by
  rw [← String.ofList_toList (s := front)] at closed
  have hset : SetApart front.toList "\n".toList back.toList :=
    setApart_lineFeed (role_ne_of_errors closed) back.toList
  have hlines : lineFeeds (front ++ "\n").toList =
      1 + lineFeeds front.toList := by
    rw [String.toList_append, lineFeeds_append, Nat.add_comm]
    rfl
  have hbytes : (front ++ "\n").utf8ByteSize = front.utf8ByteSize + 1 :=
    String.utf8ByteSize_append
  have htokens := tokensOf_setApart hset
  have herrors := errorsOf_setApart hset
  rw [hbytes, hlines] at htokens herrors
  simp only [fst_scan, toList_snd_scan, Diagnostics.toList_empty,
    List.nil_append]
  exact ⟨htokens, herrors⟩

/-- The point at the end of the first line takes no digit of the second, and the
comment behind it does not go on there. -/
theorem scan_append_lineFeed_behind_point :
    (∀ e ∈ (scan "1.//é\"\n2." .empty).2.toList,
        e.fault ≠ .unterminatedString) ∧
      (scan ("1.//é\"\n2." ++ "\n" ++ "5@") .empty).1 =
          (scan "1.//é\"\n2." .empty).1.dropLast ++ (scan "5@" .empty).1.map
            (.shift ("1.//é\"\n2.".utf8ByteSize + 1)
              (1 + lineFeeds "1.//é\"\n2.".toList)) ∧
        (scan ("1.//é\"\n2." ++ "\n" ++ "5@") .empty).2.toList =
          (scan "1.//é\"\n2." .empty).2.toList ++
            (scan "5@" .empty).2.toList.map
              (.shift ("1.//é\"\n2.".utf8ByteSize + 1)
                (1 + lineFeeds "1.//é\"\n2.".toList)) := by
  have closed : ∀ e ∈ (scan "1.//é\"\n2." .empty).2.toList,
      e.fault ≠ .unterminatedString := by
    decide +kernel
  exact ⟨closed, scan_append_lineFeed closed "5@"⟩

end LoxLexer
