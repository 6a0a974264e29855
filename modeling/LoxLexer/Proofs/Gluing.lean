import LoxLexer.Proofs.MaximalMunch

/-!
# When lexemes that are written down can be read back

Lexemes written one after another, with or without blanks between them, make
a source. Scanning it gives the lexemes back unless two of them stick
together: two words run into one, `!` and `=` become `!=`, two strokes begin a
comment, and – the one case that takes three – a whole number, a point and a
number become a number with a fraction. The main statement is that these are
all the ways there are, and that each of them spoils the result
(`scan_written_iff`).

Both directions rest on one equivalence: a lexeme is cut off where it was
written exactly when it does not stick to what follows (`cutOff_written_iff`).
Where it is not, what is cut off instead is another lexeme, and then the first
token is wrong; or it is a comment, and then nothing needs to be known of what
is behind it: the scan has passed over characters that are not blank, and can
no longer find as many as were written (`ink_written_le`).
-/

namespace LoxLexer

/-- **A lexeme to be written down**, and the blanks to be left behind it. -/
structure Written where
  /-- The characters of the lexeme. -/
  text : List Char
  /-- Its kind. -/
  kind : Kind
  /-- What it stands for. -/
  literal : Literal
  /-- The blanks behind it. There may be none. -/
  gap : List Char
  /-- The text is a lexeme of the kind and stands for the literal. -/
  denotes : Denotes text kind literal
  /-- Nothing but blanks stands behind it. -/
  blank : ∀ c ∈ gap, isBlank c = true

/-- Whether a kind is that of a word: a keyword or an identifier. -/
inductive Kind.IsWord : Kind → Prop where
  /-- A keyword is a word. -/
  | keyword (k : Keyword) : IsWord (.keyword k)
  /-- An identifier is a word. -/
  | identifier : IsWord .identifier

namespace Written

/-- The source that is written. -/
def source (ws : List Written) : List Char :=
  ws.flatMap (fun w => w.text ++ w.gap)

/-- What the token of a lexeme has to hold. -/
def content (w : Written) : Kind × String × Literal :=
  (w.kind, String.ofList w.text, w.literal)

/-- **A lexeme sticks to the next one**, when no blank stands between them
and the lexemes `later` come behind both. -/
inductive SticksTo (w next : Written) (later : List Written) : Prop where
  /-- A word takes up a word or a number. -/
  | word (word : w.kind.IsWord)
      (more : next.kind.IsWord ∨ next.kind = .number)
  /-- A number takes up a number. -/
  | number (number : w.kind = .number) (more : next.kind = .number)
  /-- A symbol takes up an equals sign, be it the first of two. -/
  | equal
      (symbol : w.kind = .symbol .bang ∨ w.kind = .symbol .equal ∨
        w.kind = .symbol .less ∨ w.kind = .symbol .greater)
      (more : next.kind = .symbol .equal ∨ next.kind = .symbol .equalEqual)
  /-- Two strokes begin a comment. -/
  | comment (slash : w.kind = .symbol .slash)
      (more : next.kind = .symbol .slash)
  /-- A whole number takes up a point and a number right behind it. -/
  | fraction (number : w.kind = .number) (whole : '.' ∉ w.text)
      (point : next.kind = .symbol .dot) (gap : next.gap = [])
      {third : Written} {behind : List Written}
      (later_eq : later = third :: behind) (more : third.kind = .number)

/-- **Two lexemes stick together**, somewhere in a list of lexemes. -/
def Glued (ws : List Written) : Prop :=
  ∃ front w next later, ws = front ++ w :: next :: later ∧ w.gap = [] ∧
    w.SticksTo next later

end Written

/-- What a token holds, its place apart. -/
def Token.content (t : Token) : Kind × String × Literal :=
  (t.kind, t.lexeme, t.literal)

/-! ## How a lexeme begins -/

/-- Whether a lexeme of a kind may begin with a character. -/
def Kind.Opens : Kind → Char → Prop
  | .symbol s, c => s.spelling.head? = some c
  | .keyword _, c => isWordStart c = true
  | .identifier, c => isWordStart c = true
  | .string, c => c = '"'
  | .number, c => isDigit c = true
  | .eof, _ => False

/-- A lexeme begins with a character that opens its kind. -/
theorem Denotes.exists_opens {text : List Char} {kind : Kind}
    {literal : Literal} (h : Denotes text kind literal) :
    ∃ c later, text = c :: later ∧ kind.Opens c := by
  cases h with
  | symbol s => cases s <;> exact ⟨_, _, rfl, rfl⟩
  | keyword k =>
    obtain ⟨first, later, htext, start, -⟩ := k.exists_toList_text
    exact ⟨first, later, htext, start⟩
  | identifier start => exact ⟨_, _, rfl, start⟩
  | string => exact ⟨_, _, rfl, rfl⟩
  | whole ne all =>
    obtain ⟨d, later, rfl⟩ := List.exists_cons_of_ne_nil ne
    exact ⟨d, later, rfl, all d List.mem_cons_self⟩
  | fraction whole_ne whole_all =>
    obtain ⟨d, later, rfl⟩ := List.exists_cons_of_ne_nil whole_ne
    exact ⟨d, _, rfl, whole_all d List.mem_cons_self⟩

namespace Kind.Opens

variable {kind : Kind} {c : Char}

/-- No lexeme begins with a blank. -/
theorem isBlank_eq (h : kind.Opens c) : isBlank c = false := by
  cases kind with
  | symbol s => cases s <;> cases h <;> decide
  | keyword => exact isBlank_of_isWordChar (isWordChar_of_isWordStart h)
  | identifier => exact isBlank_of_isWordChar (isWordChar_of_isWordStart h)
  | string => cases h; decide
  | number => exact isBlank_of_isWordChar (isWordChar_of_isDigit h)
  | eof => exact h.elim

/-- Numbers alone begin with digits. -/
theorem isDigit_iff_number (h : kind.Opens c) :
    isDigit c = true ↔ kind = .number := by
  have hword : isWordStart c = true → isDigit c ≠ true := fun hstart =>
    Bool.eq_false_iff.mp (isDigit_of_isWordStart hstart)
  cases kind with
  | symbol s => cases s <;> cases h <;> decide
  | keyword => exact iff_of_false (hword h) Kind.noConfusion
  | identifier => exact iff_of_false (hword h) Kind.noConfusion
  | string => cases h; decide
  | number => exact iff_of_true h rfl
  | eof => exact h.elim

/-- Words and numbers alone begin with a character of words. -/
theorem isWordChar_iff_word (h : kind.Opens c) :
    isWordChar c = true ↔ kind.IsWord ∨ kind = .number := by
  cases kind with
  | symbol s =>
    refine iff_of_false ?_ (by rintro (h | h) <;> cases h)
    cases s <;> cases h <;> decide
  | keyword k =>
    exact iff_of_true (isWordChar_of_isWordStart h) (.inl (.keyword k))
  | identifier =>
    exact iff_of_true (isWordChar_of_isWordStart h) (.inl .identifier)
  | string =>
    refine iff_of_false ?_ (by rintro (h | h) <;> cases h)
    cases h
    decide
  | number => exact iff_of_true (isWordChar_of_isDigit h) (.inr rfl)
  | eof => exact h.elim

/-- A character that is neither part of words nor a quote begins symbols
alone. -/
theorem eq_iff (h : kind.Opens c) {d : Char} (hword : isWordChar d = false)
    (hquote : d ≠ '"') :
    c = d ↔ ∃ s, kind = .symbol s ∧ s.spelling.head? = some d := by
  obtain ⟨hstart, hdigit⟩ :=
    not_or.mp (mt isWordChar_iff.mpr (Bool.eq_false_iff.mp hword))
  constructor
  · rintro rfl
    cases kind with
    | symbol s => exact ⟨s, rfl, h⟩
    | keyword => exact absurd h hstart
    | identifier => exact absurd h hstart
    | string => exact absurd h hquote
    | number => exact absurd h hdigit
    | eof => exact h.elim
  · rintro ⟨s, rfl, hs⟩
    exact Option.some.inj (h.symm.trans hs)

/-- `=` and `==` alone begin with an equals sign. -/
theorem eq_equal_iff (h : kind.Opens c) :
    c = '=' ↔ kind = .symbol .equal ∨ kind = .symbol .equalEqual := by
  have hs : ∀ s : Symbol, s.spelling.head? = some '=' ↔
      s = .equal ∨ s = .equalEqual := by
    intro s
    cases s <;> decide
  rw [h.eq_iff (by decide) (by decide)]
  simp [hs, and_or_left, exists_or]

/-- The stroke alone begins with a stroke. -/
theorem eq_slash_iff (h : kind.Opens c) :
    c = '/' ↔ kind = .symbol .slash := by
  have hs : ∀ s : Symbol, s.spelling.head? = some '/' ↔ s = .slash := by
    intro s
    cases s <;> decide
  rw [h.eq_iff (by decide) (by decide)]
  simp [hs]

/-- The point alone begins with a point, since no number does. -/
theorem eq_dot_iff (h : kind.Opens c) : c = '.' ↔ kind = .symbol .dot := by
  have hs : ∀ s : Symbol, s.spelling.head? = some '.' ↔ s = .dot := by
    intro s
    cases s <;> decide
  rw [h.eq_iff (by decide) (by decide)]
  simp [hs]

end Kind.Opens

/-! ## Where a lexeme is cut off -/

/-- What follows does not go on with a lexeme. -/
def Kind.EndsBefore (kind : Kind) (text rest : List Char) : Prop :=
  match kind with
  | .symbol s => s.EndsAt rest
  | .keyword _ => NotNext isWordChar rest
  | .identifier => NotNext isWordChar rest
  | .number => NotNext isDigit rest ∧ ('.' ∉ text → NoFraction rest)
  | .string => True
  | .eof => True

/-- A word ends before what is no part of words. -/
theorem Kind.IsWord.endsBefore_iff {kind : Kind} (h : kind.IsWord)
    {text rest : List Char} :
    kind.EndsBefore text rest ↔ NotNext isWordChar rest := by
  cases h <;> exact Iff.rfl

/-- The symbols that take up an equals sign. -/
theorem Symbol.withEqual?_ne_none_iff {s : Symbol} :
    s.withEqual? ≠ none ↔ s = .bang ∨ s = .equal ∨ s = .less ∨ s = .greater := by
  cases s <;> decide

/-- What is cut off as a lexeme does not go on. -/
theorem CutOff.endsBefore {text rest : List Char} {kind : Kind}
    (h : CutOff ⟨text, .lexeme kind⟩ rest) : kind.EndsBefore text rest := by
  generalize hpiece : (⟨text, .lexeme kind⟩ : Piece) = piece at h
  cases h with
  | string =>
    cases hpiece
    exact trivial
  | whole ne all stop no_fraction =>
    cases hpiece
    exact ⟨stop, fun _ => no_fraction⟩
  | fraction whole_ne whole_all ne all stop =>
    cases hpiece
    exact ⟨stop, fun hwhole => absurd (by simp) hwhole⟩
  | @word first later _ start all stop =>
    obtain ⟨rfl, hkind⟩ := Piece.mk.inj hpiece
    cases hkind
    obtain ⟨k, hk⟩ | hword := Kind.ofWord_cases (first :: later)
    · rw [hk]
      exact stop
    · rw [hword]
      exact stop
  | symbol stop =>
    cases hpiece
    exact stop
  | _ => cases hpiece

/-- A lexeme that does not go on is cut off. -/
theorem Denotes.cutOff {text rest : List Char} {kind : Kind}
    {literal : Literal} (h : Denotes text kind literal)
    (ends : kind.EndsBefore text rest) :
    CutOff ⟨text, .lexeme kind⟩ rest := by
  cases h with
  | symbol s => exact .symbol ends
  | keyword k =>
    obtain ⟨first, later, htext, start, all⟩ := k.exists_toList_text
    have hword := CutOff.word start all ends
    rwa [← htext, Kind.ofWord_eq_keyword_iff.mpr rfl] at hword
  | identifier start all free =>
    have hword := CutOff.word start all ends
    rwa [Kind.ofWord_eq_identifier_iff.mpr free] at hword
  | string all => exact .string all
  | whole ne all =>
    have hwhole : '.' ∉ text := fun hpoint => absurd (all _ hpoint) (by decide)
    exact .whole ne all ends.1 (ends.2 hwhole)
  | fraction whole_ne whole_all ne all =>
    exact .fraction whole_ne whole_all ne all ends.1

namespace Written

/-- A lexeme is written in front of the others, with its blanks. -/
theorem source_cons (w : Written) (ws : List Written) :
    source (w :: ws) = w.text ++ (w.gap ++ source ws) := by
  rw [source, List.flatMap_cons, List.append_assoc]
  rfl

/-- A symbol is written as it is spelt. -/
theorem text_eq_spelling (w : Written) {s : Symbol}
    (h : w.kind = .symbol s) : w.text = s.spelling := by
  have hdenotes := w.denotes
  rw [h] at hdenotes
  generalize w.text = text, w.literal = literal at hdenotes
  cases hdenotes
  rfl

/-- What comes behind a lexeme is not of a class of characters exactly when no
lexeme comes right behind it that begins with one of the class. The class has
no blanks and settles the kind of a lexeme that begins with one of its
characters. -/
theorem notNext_iff {p : Char → Bool} {q : Kind → Prop}
    (hblank : ∀ c, isBlank c = true → p c = false)
    (hopens : ∀ {kind c}, Kind.Opens kind c → (p c = true ↔ q kind))
    (w : Written) (ws : List Written) :
    NotNext p (w.gap ++ source ws) ↔
      ∀ next later, ws = next :: later → w.gap = [] → ¬ q next.kind := by
  -- what comes first is a blank, or nothing, or what the next lexeme begins with
  cases hgap : w.gap with
  | cons c later =>
    have hc : c ∈ w.gap := hgap ▸ List.mem_cons_self
    simp [hblank c (w.blank c hc)]
  | nil =>
    cases ws with
    | nil => simp [source]
    | cons next later =>
      obtain ⟨c, more, htext, opens⟩ := next.denotes.exists_opens
      rw [List.nil_append, source_cons, htext, List.cons_append, notNext_cons,
        ← Bool.not_eq_true, hopens opens]
      simp

/-- No digit comes behind a lexeme exactly when no number comes right behind
it. -/
theorem notNext_isDigit_iff (w : Written) (ws : List Written) :
    NotNext isDigit (w.gap ++ source ws) ↔
      ∀ next later, ws = next :: later → w.gap = [] → next.kind ≠ .number :=
  notNext_iff (fun _ => isDigit_of_isBlank) Kind.Opens.isDigit_iff_number w ws

/-- No given character comes behind a lexeme exactly when no symbol comes
right behind it that begins with the character. -/
theorem head?_ne_iff {d : Char} {q : Kind → Prop} (hblank : isBlank d = false)
    (hopens : ∀ {kind c}, Kind.Opens kind c → (c = d ↔ q kind))
    (w : Written) (ws : List Written) :
    (w.gap ++ source ws).head? ≠ some d ↔
      ∀ next later, ws = next :: later → w.gap = [] → ¬ q next.kind := by
  have hclass : ∀ c, isBlank c = true → decide (c = d) = false := fun c hc =>
    decide_eq_false (ne_of_class hc hblank)
  rw [← notNext_iff hclass
    (fun opens => decide_eq_true_iff.trans (hopens opens)) w ws]
  cases (w.gap ++ source ws) <;> simp

/-- No fraction comes behind a lexeme exactly when no point with a number
comes right behind it. -/
theorem noFraction_iff (w : Written) (ws : List Written) :
    NoFraction (w.gap ++ source ws) ↔
      ∀ next third behind, ws = next :: third :: behind → w.gap = [] →
        next.kind = .symbol .dot → next.gap = [] → third.kind ≠ .number := by
  constructor
  · rintro h next third behind rfl hgap hdot hgap' hnumber
    have hdigit : ¬ NotNext isDigit (next.gap ++ source (third :: behind)) :=
      fun hstop => (notNext_isDigit_iff next _).mp hstop _ _ rfl hgap' hnumber
    obtain ⟨d, more, htext, opens⟩ := third.denotes.exists_opens
    have hsource : next.gap ++ source (third :: behind) =
        d :: (more ++ (third.gap ++ source behind)) := by
      rw [hgap', List.nil_append, source_cons, htext, List.cons_append]
    rw [hsource, notNext_cons] at hdigit
    refine hdigit (h d (more ++ (third.gap ++ source behind)) ?_)
    rw [hgap, source_cons, hsource, next.text_eq_spelling hdot]
    rfl
  · intro h digit later heq
    -- of all lexemes the point alone begins with a point, and it is that point,
    -- so the digit belongs to what is behind it
    have hpoint : ¬ (w.gap ++ source ws).head? ≠ some '.' := by simp [heq]
    rw [head?_ne_iff (by decide) Kind.Opens.eq_dot_iff] at hpoint
    simp only [not_forall, not_not] at hpoint
    obtain ⟨next, ws, rfl, hgap, hdot⟩ := hpoint
    have hsource : next.gap ++ source ws = digit :: later := by
      simpa [hgap, source_cons, next.text_eq_spelling hdot, Symbol.spelling]
        using heq
    have hstop : NotNext isDigit (next.gap ++ source ws) := by
      refine (notNext_isDigit_iff next ws).mpr fun third behind hws hgap' => ?_
      exact h next third behind (hws ▸ rfl) hgap hdot hgap'
    rwa [hsource, notNext_cons] at hstop

/-- **A lexeme is cut off where it was written** exactly when it does not stick
to what comes behind it. -/
theorem cutOff_written_iff (w : Written) (ws : List Written) :
    CutOff ⟨w.text, .lexeme w.kind⟩ (w.gap ++ source ws) ↔
      ∀ next later, ws = next :: later → w.gap = [] →
        ¬ w.SticksTo next later := by
  have hword := notNext_iff (fun _ => isWordChar_of_isBlank)
    Kind.Opens.isWordChar_iff_word w ws
  have hdigit := notNext_isDigit_iff w ws
  have hequal := head?_ne_iff (by decide) Kind.Opens.eq_equal_iff w ws
  have hslash := head?_ne_iff (by decide) Kind.Opens.eq_slash_iff w ws
  have hfraction := noFraction_iff w ws
  constructor
  · intro hcut next later hws hgap sticks
    have ends := hcut.endsBefore
    cases sticks with
    | word word more =>
      exact hword.mp (word.endsBefore_iff.mp ends) next later hws hgap more
    | number number more =>
      rw [number] at ends
      exact hdigit.mp ends.1 next later hws hgap more
    | equal symbol more =>
      obtain ⟨s, hs, hwith⟩ : ∃ s, w.kind = .symbol s ∧ s.withEqual? ≠ none := by
        simpa [Symbol.withEqual?_ne_none_iff, and_or_left, exists_or]
          using symbol
      rw [hs] at ends
      exact hequal.mp (ends.1 hwith) next later hws hgap more
    | comment slash more =>
      rw [slash] at ends
      exact hslash.mp (ends.2 rfl) next later hws hgap more
    | @fraction number whole point gap third behind later_eq more =>
      rw [number] at ends
      rw [later_eq] at hws
      exact hfraction.mp (ends.2 whole) next third behind hws hgap point gap
        more
  · intro free
    refine w.denotes.cutOff ?_
    cases hkind : w.kind with
    | symbol s =>
      refine ⟨fun hwith => ?_, fun hs => ?_⟩
      · refine hequal.mpr fun next later hws hgap more => ?_
        refine free next later hws hgap (.equal ?_ more)
        simpa [hkind] using Symbol.withEqual?_ne_none_iff.mp hwith
      · refine hslash.mpr fun next later hws hgap more => ?_
        exact free next later hws hgap (.comment (hs ▸ hkind) more)
    | keyword k =>
      refine hword.mpr fun next later hws hgap more => ?_
      exact free next later hws hgap (.word (hkind ▸ .keyword k) more)
    | identifier =>
      refine hword.mpr fun next later hws hgap more => ?_
      exact free next later hws hgap (.word (hkind ▸ .identifier) more)
    | string => exact trivial
    | number =>
      refine ⟨?_, fun whole => ?_⟩
      · refine hdigit.mpr fun next later hws hgap more => ?_
        exact free next later hws hgap (.number hkind more)
      · refine hfraction.mpr fun next third behind hws hgap point gap more => ?_
        exact free next (third :: behind) hws hgap
          (.fraction hkind whole point gap rfl more)
    | eof => exact trivial

end Written

/-! ## What is read back -/

/-- What the token of a piece holds, if the piece becomes one. -/
def Piece.content? (piece : Piece) : Option (Kind × String × Literal) :=
  match piece.role with
  | .lexeme kind =>
    some (kind, String.ofList piece.text, .ofLexeme kind piece.text)
  | _ => none

/-- What the tokens of pieces hold does not depend on where they stand. -/
theorem map_content_collectFrom (place : Position) (ps : List Piece) :
    (collectFrom Piece.token? place ps).map Token.content =
      ps.filterMap Piece.content? := by
  induction ps generalizing place with
  | nil => rfl
  | cons piece later ih =>
    cases hrole : piece.role <;>
      simp [collectFrom, Piece.token?, Piece.content?, hrole, ih,
        Token.ofLexeme, Token.content]

/-- **A source reads back as lexemes**: there is no fault, and the tokens hold
what they have to. -/
def ReadsAs (source : List Char) (ws : List Written) : Prop :=
  (pieces source).filterMap Piece.fault? = [] ∧
    (pieces source).filterMap Piece.content? = ws.map Written.content

/-- Blanks in front of a source are passed over. -/
theorem readsAs_blanks {gap : List Char} (h : ∀ c ∈ gap, isBlank c = true)
    {source : List Char} {ws : List Written} :
    ReadsAs (gap ++ source) ws ↔ ReadsAs source ws := by
  induction gap with
  | nil => rfl
  | cons c later ih =>
    have hcut : CutOff ⟨[c], .gap⟩ (later ++ source) :=
      .blank (h c List.mem_cons_self)
    have hpieces := hcut.pieces_append
    rw [List.singleton_append] at hpieces
    rw [← ih fun d hd => h d (List.mem_cons_of_mem c hd), ReadsAs, ReadsAs,
      List.cons_append, hpieces]
    rfl

/-- Behind a lexeme that is cut off where it was written, the lexemes behind it
are read back. -/
theorem readsAs_cons_of_cutOff {w : Written} {ws : List Written}
    (h : CutOff ⟨w.text, .lexeme w.kind⟩ (w.gap ++ Written.source ws)) :
    ReadsAs (Written.source (w :: ws)) (w :: ws) ↔
      ReadsAs (Written.source ws) ws := by
  refine Iff.trans ?_ (readsAs_blanks w.blank)
  rw [ReadsAs, ReadsAs, Written.source_cons, h.pieces_append]
  simp [Piece.fault?, Piece.content?, Written.content, w.denotes.literal_eq,
    List.filterMap_cons]

/-! ### What a comment takes away -/

/-- How many characters of a text are not blank. -/
def ink (text : List Char) : Nat :=
  text.countP (fun c => !isBlank c)

/-- Ink adds up. -/
theorem ink_append (a b : List Char) : ink (a ++ b) = ink a + ink b :=
  List.countP_append

/-- Blanks have no ink. -/
theorem ink_of_blank {gap : List Char} (h : ∀ c ∈ gap, isBlank c = true) :
    ink gap = 0 := by
  refine List.countP_eq_zero.mpr fun c hc => ?_
  simp [h c hc]

/-- The ink of what is written is that of the lexemes. -/
theorem ink_source (ws : List Written) :
    ink (Written.source ws) = ink (ws.flatMap Written.text) := by
  induction ws with
  | nil => rfl
  | cons w ws ih =>
    rw [Written.source_cons, List.flatMap_cons, ink_append, ink_append,
      ink_append, ink_of_blank w.blank, ih, Nat.zero_add]

/-- What the tokens of pieces hold as lexemes stands in the pieces. -/
theorem sublist_lexemes (ps : List Piece) :
    ((ps.filterMap Piece.content?).flatMap (fun x => x.2.1.toList)).Sublist
      (ps.flatMap Piece.text) := by
  induction ps with
  | nil => exact .refl _
  | cons piece later ih =>
    cases hrole : piece.role with
    | lexeme kind =>
      simpa [Piece.content?, hrole] using ih.append_left piece.text
    | gap =>
      simpa [Piece.content?, hrole] using
        ih.trans (List.sublist_append_right _ _)
    | faulty fault =>
      simpa [Piece.content?, hrole] using
        ih.trans (List.sublist_append_right _ _)

/-- Lexemes that are read back have no more ink than the source. -/
theorem ink_written_le {source : List Char} {ws : List Written}
    (h : ReadsAs source ws) : ink (ws.flatMap Written.text) ≤ ink source := by
  have hsub := sublist_lexemes (pieces source)
  rw [h.2, flatMap_text_pieces, List.flatMap_map] at hsub
  simpa [Written.content, ink] using hsub.countP_le

/-! ### All that is written -/

/-- Where the lexemes are read back, the first is cut off where it was
written. -/
theorem cutOff_of_readsAs {w : Written} {ws : List Written}
    (h : ReadsAs (Written.source (w :: ws)) (w :: ws)) :
    CutOff ⟨w.text, .lexeme w.kind⟩ (w.gap ++ Written.source ws) := by
  obtain ⟨c, more, htext, opens⟩ := w.denotes.exists_opens
  have hsource : Written.source (w :: ws) =
      c :: (more ++ (w.gap ++ Written.source ws)) := by
    rw [Written.source_cons, htext, List.cons_append]
  generalize more ++ (w.gap ++ Written.source ws) = ahead at hsource
  have hcut := Piece.cutOff_next c ahead
  have happ := Piece.text_append_next c ahead
  have hhead := Piece.head?_text_next c ahead
  have hpieces := hcut.pieces_append
  rw [← hsource] at happ
  rw [happ] at hpieces
  generalize (Piece.next c ahead).1 = piece, (Piece.next c ahead).2 = rest at *
  cases hrole : piece.role with
  | lexeme kind =>
    -- it is the first to be read back, so it is what was written
    have hcontents := h.2
    simp only [hpieces, List.filterMap_cons, Piece.content?, hrole,
      List.map_cons, List.cons.injEq, Written.content, Prod.mk.injEq] at hcontents
    obtain ⟨⟨hkind, hlexeme, -⟩, -⟩ := hcontents
    have hpiece : piece = ⟨w.text, .lexeme w.kind⟩ :=
      congrArg₂ Piece.mk (String.ofList_injective hlexeme) (hkind ▸ hrole)
    rw [hpiece, Written.source_cons] at happ
    rw [hpiece] at hcut
    rwa [List.append_cancel_left happ] at hcut
  | gap =>
    -- its ink is lost, and what is behind has too little
    have hrest : ReadsAs rest (w :: ws) := by
      simpa [ReadsAs, hpieces, Piece.fault?, Piece.content?, hrole,
        List.filterMap_cons] using h
    have hle := ink_written_le hrest
    have hpos : 0 < ink piece.text := by
      obtain ⟨later, hlater⟩ := List.head?_eq_some_iff.mp hhead
      rw [hlater]
      simp [ink, opens.isBlank_eq]
    rw [← ink_source, ← happ, ink_append] at hle
    omega
  | faulty fault =>
    have hfaults := h.1
    simp [hpieces, Piece.fault?, hrole] at hfaults

/-- Lexemes stick together at the first of them or further on. -/
theorem Written.glued_cons_iff {w : Written} {ws : List Written} :
    Glued (w :: ws) ↔
      (∃ next later, ws = next :: later ∧ w.gap = [] ∧ w.SticksTo next later) ∨
        Glued ws := by
  constructor
  · rintro ⟨_ | ⟨v, front⟩, u, next, later, heq, hgap, sticks⟩
    · obtain ⟨rfl, rfl⟩ := List.cons.inj heq
      exact .inl ⟨next, later, rfl, hgap, sticks⟩
    · obtain ⟨rfl, rfl⟩ := List.cons.inj heq
      exact .inr ⟨front, u, next, later, rfl, hgap, sticks⟩
  · rintro (⟨next, later, rfl, hgap, sticks⟩ |
      ⟨front, u, next, later, rfl, hgap, sticks⟩)
    · exact ⟨[], w, next, later, rfl, hgap, sticks⟩
    · exact ⟨w :: front, u, next, later, rfl, hgap, sticks⟩

/-- Nothing sticks together where nothing is written. -/
theorem Written.not_glued_nil : ¬ Glued [] := by
  rintro ⟨front, w, next, later, heq, -⟩
  simp at heq

/-- What is written reads back exactly when nothing in it sticks together. -/
theorem readsAs_source_iff (ws : List Written) :
    ReadsAs (Written.source ws) ws ↔ ¬ Written.Glued ws := by
  induction ws with
  | nil =>
    refine iff_of_true ?_ Written.not_glued_nil
    simp [ReadsAs, Written.source]
  | cons w ws ih =>
    rw [Written.glued_cons_iff, not_or, ← ih]
    constructor
    · intro h
      have hcut := cutOff_of_readsAs h
      refine ⟨?_, (readsAs_cons_of_cutOff hcut).mp h⟩
      rintro ⟨next, later, hws, hgap, sticks⟩
      exact (w.cutOff_written_iff ws).mp hcut next later hws hgap sticks
    · rintro ⟨hfree, h⟩
      refine (readsAs_cons_of_cutOff ?_).mpr h
      refine (w.cutOff_written_iff ws).mpr fun next later hws hgap sticks => ?_
      exact hfree ⟨next, later, hws, hgap, sticks⟩

/-- **Lexemes that are written down are read back unless two of them stick
together.** The scan of what is written reports nothing and returns the tokens
of the lexemes, with the end of the source behind them, exactly when no lexeme
sticks to the next one. -/
theorem scan_written_iff (ws : List Written) :
    ((scan (String.ofList (Written.source ws)) .empty).2.toList = [] ∧
      (scan (String.ofList (Written.source ws)) .empty).1.map Token.content =
        ws.map Written.content ++ [(.eof, "", .none)]) ↔
      ¬ Written.Glued ws := by
  have herrors : errorsOf (String.ofList (Written.source ws)) = [] ↔
      (pieces (Written.source ws)).filterMap Piece.fault? = [] := by
    rw [← map_fault_collectFrom .start, List.map_eq_nil_iff, errorsOf,
      String.toList_ofList]
  have htokens : (tokensOf (String.ofList (Written.source ws))).map
        Token.content =
      (pieces (Written.source ws)).filterMap Piece.content? ++
        [(.eof, "", .none)] := by
    rw [tokensOf, List.map_append, String.toList_ofList, map_content_collectFrom]
    rfl
  rw [toList_snd_scan, Diagnostics.toList_empty, List.nil_append, fst_scan,
    herrors, htokens, List.append_left_inj, ← readsAs_source_iff, ReadsAs]

/-! ### A point between two numbers -/

namespace Written

/-- The number `1`, with nothing behind it. -/
def one : Written where
  text := ['1']
  kind := .number
  literal := .number (.nearest (.ofDigits ['1'] []))
  gap := []
  denotes := .whole (List.cons_ne_nil _ _) (List.all_eq_true.mp rfl)
  blank := List.all_eq_true.mp rfl

/-- The number `1.5`, with nothing behind it. -/
def oneAndAHalf : Written where
  text := ['1', '.', '5']
  kind := .number
  literal := .number (.nearest (.ofDigits ['1'] ['5']))
  gap := []
  denotes :=
    @Denotes.fraction ['1'] ['5'] (List.cons_ne_nil _ _)
      (List.all_eq_true.mp rfl) (List.cons_ne_nil _ _)
      (List.all_eq_true.mp rfl)
  blank := List.all_eq_true.mp rfl

/-- A point, with nothing behind it. -/
def point : Written where
  text := ['.']
  kind := .symbol .dot
  literal := .none
  gap := []
  denotes := .symbol .dot
  blank := List.all_eq_true.mp rfl

/-- The number `5`, at the end of a line. -/
def five : Written where
  text := ['5']
  kind := .number
  literal := .number (.nearest (.ofDigits ['5'] []))
  gap := ['\n']
  denotes := .whole (List.cons_ne_nil _ _) (List.all_eq_true.mp rfl)
  blank := List.all_eq_true.mp rfl

/-- A number with a fraction sticks to numbers only. -/
theorem SticksTo.next_eq_number {w next : Written} {later : List Written}
    (h : w.SticksTo next later) (hkind : w.kind = .number)
    (hpoint : '.' ∈ w.text) : next.kind = .number := by
  cases h with
  | word word => rw [hkind] at word; cases word
  | number number more => exact more
  | equal symbol => simp [hkind] at symbol
  | comment slash => simp [hkind] at slash
  | fraction number whole => exact absurd hpoint whole

/-- A point sticks to nothing. -/
theorem not_sticksTo_of_dot {w next : Written} {later : List Written}
    (hkind : w.kind = .symbol .dot) : ¬ w.SticksTo next later := by
  intro h
  cases h with
  | word word => rw [hkind] at word; cases word
  | number number => simp [hkind] at number
  | equal symbol => simp [hkind] at symbol
  | comment slash => simp [hkind] at slash
  | fraction number => simp [hkind] at number

/-- A whole number sticks to a point and a number. -/
theorem glued_one_point_five : Glued [one, point, five] :=
  ⟨[], one, point, [five], rfl, rfl,
    .fraction rfl (by decide) rfl rfl rfl rfl⟩

/-- A number with a fraction does not. -/
theorem not_glued_oneAndAHalf_point_five :
    ¬ Glued [oneAndAHalf, point, five] := by
  intro h
  obtain ⟨_, _, heq, -, sticks⟩ | h := glued_cons_iff.mp h
  · obtain ⟨rfl, -⟩ := List.cons.inj heq
    have hnumber : point.kind = .number :=
      sticks.next_eq_number rfl (by decide)
    cases hnumber
  obtain ⟨_, _, -, -, sticks⟩ | h := glued_cons_iff.mp h
  · exact not_sticksTo_of_dot rfl sticks
  obtain ⟨_, _, heq, -⟩ | h := glued_cons_iff.mp h
  · cases heq
  · exact not_glued_nil h

end Written

/-- **A point between two numbers** is read back behind `1.5`, but not behind
`1`, where it makes a fraction. -/
theorem scan_written_point_between_numbers :
    ¬ ((scan (String.ofList (Written.source [.one, .point, .five]))
          .empty).2.toList = [] ∧
        (scan (String.ofList (Written.source [.one, .point, .five]))
            .empty).1.map Token.content =
          [.one, .point, .five].map Written.content ++ [(.eof, "", .none)]) ∧
      (scan (String.ofList (Written.source [.oneAndAHalf, .point, .five]))
          .empty).2.toList = [] ∧
        (scan (String.ofList (Written.source [.oneAndAHalf, .point, .five]))
            .empty).1.map Token.content =
          [.oneAndAHalf, .point, .five].map Written.content ++
            [(.eof, "", .none)] :=
  ⟨fun h => (scan_written_iff _).mp h Written.glued_one_point_five,
    (scan_written_iff _).mpr Written.not_glued_oneAndAHalf_point_five⟩

end LoxLexer
