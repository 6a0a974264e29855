import LoxLexer.Cursor
import LoxLexer.Proofs.CutOff
import LoxLexer.Proofs.Slice

/-!
# Where a cursor stands

A cursor keeps several numbers that have to go together: the offset of the next
character, the range that has been passed over, the line that has been reached
and the one on which the piece began. Here they are not tied to each other one
by one. A source is cut in three, into what has been read as pieces, what has
been read of the piece at hand, and what lies ahead; all that a cursor keeps
follows from this cut, and `Cursor.standing` is the cursor that keeps it.

A cursor that stands in a source is moved by moving the cut. Each of its moves
has a lemma that says where it stands afterwards, and the lemma has the same
cut of the text ahead that `Piece.next` makes, so that nothing needs to be said
of offsets again.

Line feeds are what needs care. A character is read without being counted, and
whoever reads a line feed counts it afterwards, so between the two the cursor
stands nowhere (`advance?_standing`). No class of characters that is read to
its end has a line feed in it.
-/

namespace LoxLexer

namespace Span.Holds

variable {source text : List Char} {s : Span}

/-- **The text in a span that holds a text is that text.** -/
theorem text?_eq (h : s.Holds source text) :
    s.text? (String.ofList source) = some (String.ofList text) := by
  rw [Span.text?, dif_pos ⟨h.start_le_stop, h.isBoundary⟩]
  refine congrArg some (String.toByteArray_inj.mp ?_)
  rw [String.toByteArray_extract]
  have hbytes := h.slice_eq
  refine ByteArray.ext (Array.toList_inj.mp ?_)
  rw [ByteArray.data_extract, Array.toList_extract,
    List.extract_eq_take_drop, ← List.drop_take]
  exact hbytes

end Span.Holds

/-- **A text can be cut out of a range exactly when the range holds it.** -/
theorem Span.text?_eq_some_iff {source : List Char} {s : Span}
    {text : String} :
    s.text? (String.ofList source) = some text ↔
      s.Holds source text.toList := by
  constructor
  · intro h
    obtain ⟨content, hholds⟩ : ∃ content, s.Holds source content := by
      unfold Span.text? at h
      split at h
      · next hrange => exact exists_holds hrange.1 hrange.2.1 hrange.2.2
      · cases h
    rw [hholds.text?_eq] at h
    rwa [← Option.some.inj h, String.toList_ofList]
  · intro h
    rw [h.text?_eq, String.ofList_toList]

-- a range may hold a character of two bytes, but not end in it
example : Span.text? "aé" ⟨1, 3⟩ = some "é" ∧
    Span.text? "aé" ⟨1, 2⟩ = none := by
  decide +kernel

namespace Cursor

/-- **A cursor stands in a source** in front of which `before` has been read as
pieces, and then `text` of one more, when `ahead` has not been read. -/
def standing (before text ahead : List Char) (tokens : Array Token) :
    Cursor where
  source := .ofList (before ++ text ++ ahead)
  unread := ahead
  offset := byteLength (before ++ text)
  span := .behind before text
  line := (Position.start.after (before ++ text)).line
  startLine := (Position.start.after before).line
  tokens := tokens

variable {before text ahead later : List Char} {tokens : Array Token}
  {first : Char} {p : Char → Bool}

/-- A new cursor stands in front of its source. -/
theorem new_ofList (source : List Char) :
    new (.ofList source) = standing [] [] source #[] := by
  rw [new, String.toList_ofList]
  rfl

/-- To begin a piece is to have done with the one before it. -/
theorem begin_standing :
    (standing before text ahead tokens).begin =
      standing (before ++ text) [] ahead tokens := by
  simp [begin, standing, Span.behind]

/-- Reading a character moves the cursor over it, and leaves the line to be
counted. -/
theorem advance?_standing :
    (standing before text (first :: later) tokens).advance? =
      some (first, { standing before (text ++ [first]) later tokens with
        line := (Position.start.after (before ++ text)).line }) := by
  cases later with
  | nil =>
    simp [advance?, standing, peek?, Span.behind, ← byteLength_toList,
      Nat.add_assoc]
  | cons next later =>
    simp [advance?, standing, peek?, Span.behind, Nat.add_assoc]

/-- Reading a character that is no line feed moves the cursor over it. -/
theorem advance?_standing_of_ne (h : first ≠ '\n') :
    (standing before text (first :: later) tokens).advance? =
      some (first, standing before (text ++ [first]) later tokens) := by
  have hfeeds : lineFeeds [first] = 0 :=
    List.count_eq_zero.mpr (by simpa using h.symm)
  rw [advance?_standing]
  simp [standing, hfeeds]

/-- Counting the line feed that has been read makes up for it. -/
theorem newLine_standing :
    newLine { standing before (text ++ ['\n']) later tokens with
        line := (Position.start.after (before ++ text)).line } =
      standing before (text ++ ['\n']) later tokens := by
  have hfeeds : lineFeeds ['\n'] = 1 := rfl
  simp [newLine, standing, hfeeds, Nat.add_assoc]

/-- A character of a class is read when it comes next. -/
theorem advanceIf?_standing (hp : p first = true) (hfeed : p '\n' = false) :
    (standing before text (first :: later) tokens).advanceIf? p =
      some (standing before (text ++ [first]) later tokens) := by
  rw [advanceIf?]
  show (if p first then _ else _) = _
  rw [if_pos hp, advance?_standing_of_ne (ne_of_class hp hfeed)]
  rfl

/-- Nothing is read when no character of the class comes next. -/
theorem advanceIf?_of_notNext (h : NotNext p ahead) :
    (standing before text ahead tokens).advanceIf? p = none := by
  cases ahead with
  | nil => rfl
  | cons first later =>
    rw [advanceIf?]
    show (if p first then _ else _) = _
    rw [notNext_cons.mp h]
    rfl

/-- A character that is hoped for is read when it comes next. -/
theorem advanceIf?_char (c : Char) (hfeed : c ≠ '\n') :
    (standing before text (c :: later) tokens).advanceIf? (· = c) =
      some (standing before (text ++ [c]) later tokens) :=
  advanceIf?_standing (decide_eq_true rfl) (decide_eq_false hfeed.symm)

/-- Nothing is read when another character comes next, or none. -/
theorem advanceIf?_char_of_ne {c : Char} (h : ahead.head? ≠ some c) :
    (standing before text ahead tokens).advanceIf? (· = c) = none :=
  advanceIf?_of_notNext fun _ hnext =>
    decide_eq_false fun heq => h (heq ▸ hnext)

/-- All characters of a class that come next are read, up to the first that is
none. -/
theorem advanceWhile_standing (hfeed : p '\n' = false) :
    (standing before text ahead tokens).advanceWhile p =
      standing before (text ++ ahead.takeWhile p) (ahead.dropWhile p)
        tokens := by
  induction ahead generalizing text with
  | nil =>
    rw [advanceWhile, advanceIf?_of_notNext (notNext_nil p)]
    simp
  | cons first later ih =>
    rw [advanceWhile]
    by_cases hp : p first = true
    · rw [advanceIf?_standing hp hfeed]
      simp [ih, hp]
    · have hstop : NotNext p (first :: later) :=
        notNext_cons.mpr (by simpa using hp)
      rw [advanceIf?_of_notNext hstop]
      simp [hp]

/-- A quote that comes next is read, and that is all. -/
theorem advanceToQuote_quote :
    (standing before text ('"' :: later) tokens).advanceToQuote =
      (true, standing before (text ++ ['"']) later tokens) := by
  rw [advanceToQuote, advance?_standing_of_ne (by decide)]
  rfl

/-- Up to a quote the cursor is moved over any character alike, since the line
is counted where it has to be. -/
theorem advanceToQuote_of_ne (h : first ≠ '"') :
    (standing before text (first :: later) tokens).advanceToQuote =
      (standing before (text ++ [first]) later tokens).advanceToQuote := by
  rw [advanceToQuote]
  by_cases hfeed : first = '\n'
  · rw [hfeed, advance?_standing]
    show (Cursor.newLine _).advanceToQuote = _
    rw [newLine_standing]
  · rw [advance?_standing_of_ne hfeed]
    simp only [if_neg h, if_neg hfeed]

/-- The cursor is moved over the next quote, or to the end of the source if there
is none. -/
theorem advanceToQuote_standing :
    (standing before text ahead tokens).advanceToQuote =
      match ahead.dropWhile (· ≠ '"') with
      | [] => (false, standing before (text ++ ahead) [] tokens)
      | quote :: rest =>
        (true, standing before
          (text ++ ahead.takeWhile (· ≠ '"') ++ [quote]) rest tokens) := by
  induction ahead generalizing text with
  | nil =>
    rw [advanceToQuote, List.append_nil]
    rfl
  | cons first later ih =>
    by_cases hquote : first = '"'
    · rw [hquote, advanceToQuote_quote]
      simp
    · rw [advanceToQuote_of_ne hquote, ih]
      simp [hquote]

/-- Behind a point that comes next stands the rest of the source. -/
theorem text?_behind_point {c : Cursor}
    (h : c = standing before text ('.' :: later) tokens) :
    Span.text? c.source ⟨c.offset + 1, c.source.utf8ByteSize⟩ =
      some (.ofList later) := by
  subst h
  have hone : '.'.utf8Size = 1 := rfl
  refine Span.Holds.text?_eq ⟨before ++ text ++ ['.'], [], by simp, ?_⟩
  simp [standing, ← byteLength_toList, Span.behind, hone, Nat.add_assoc]

/-- A point belongs to a number if there is a digit behind it. -/
theorem atFraction_standing_iff :
    (standing before text ahead tokens).atFraction = true ↔
      ∃ digit rest, ahead = '.' :: digit :: rest ∧ isDigit digit = true := by
  unfold atFraction
  split
  · next offset hpeek =>
    obtain ⟨later, rfl⟩ : ∃ later, ahead = '.' :: later := by
      cases ahead with
      | nil => cases hpeek
      | cons first later =>
        cases hpeek
        exact ⟨later, rfl⟩
    cases hpeek
    simp only [text?_behind_point rfl]
    cases later <;> simp
  · next hpeek =>
    refine ⟨Bool.noConfusion, ?_⟩
    rintro ⟨digit, rest, rfl, -⟩
    exact absurd rfl (hpeek _)

/-- The fraction that is read is the one that is cut off. -/
theorem fraction_standing :
    (standing before text ahead tokens).fraction =
      standing before (text ++ (Piece.nextFraction ahead).1)
        (Piece.nextFraction ahead).2 tokens := by
  rw [fraction]
  split
  · next h =>
    obtain ⟨digit, rest, rfl, hdigit⟩ := atFraction_standing_iff.mp h
    have hall : (digit :: rest).takeWhile isDigit =
        digit :: rest.takeWhile isDigit :=
      List.takeWhile_cons_of_pos hdigit
    have hrest : (digit :: rest).dropWhile isDigit = rest.dropWhile isDigit :=
      List.dropWhile_cons_of_pos hdigit
    rw [advance?_standing_of_ne (by decide), Piece.nextFraction, if_pos hdigit]
    simp only []
    rw [advanceWhile_standing rfl, hall, hrest, List.append_assoc]
    rfl
  · next h =>
    have hno : NoFraction ahead := fun digit rest heq =>
      Bool.eq_false_iff.mpr fun hdigit =>
        h (atFraction_standing_iff.mpr ⟨digit, rest, heq, hdigit⟩)
    rw [Piece.nextFraction_of_noFraction hno, List.append_nil]

end Cursor

end LoxLexer
