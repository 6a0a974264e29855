import LoxLexer.Lexeme
import LoxLexer.Mode
import Mathlib.Data.List.TakeWhile

/-!
# What is cut off in front of which rest

`Piece.next` looks ahead and decides how far the next piece reaches. This
module tells the same from the other end: `CutOff piece rest` says, class by
class, in front of which rest a text is cut off as a piece. A class has one
rule, and the rule holds everything that the rest has to do with the piece –
a word is not followed by a character that would go on with it, a whole
number not by a fraction, a stroke not by another one.

The two agree: what is cut off is cut off by a rule (`Piece.cutOff_next`), and
what a rule allows is cut off (`CutOff.next_eq`). So whatever is true of the
pieces of all sources needs a case for every rule and no look at the way in
which a piece is found (`cutOff_induction`), and to see what becomes of a
piece in front of another rest it is enough to see that its rule still holds.

No rule looks at more than two characters of the rest, and all hold at the
end of the source but the one for an unclosed string, which holds nowhere
else.
-/

namespace LoxLexer

/-- No character of a class comes next. -/
def NotNext (p : Char → Bool) (rest : List Char) : Prop :=
  ∀ c ∈ rest.head?, p c = false

/-- No fraction comes next, that is no point with a digit behind it. -/
def NoFraction (rest : List Char) : Prop :=
  ∀ digit later, rest = '.' :: digit :: later → isDigit digit = false

/-- What does not follow a symbol: an equals sign that would make it another
symbol, or a second stroke that would make it a comment. -/
def Symbol.EndsAt (s : Symbol) (rest : List Char) : Prop :=
  (s.withEqual? ≠ none → rest.head? ≠ some '=') ∧
    (s = .slash → rest.head? ≠ some '/')

/-- **A piece is cut off in front of a rest.** -/
inductive CutOff : Piece → List Char → Prop where
  /-- A blank, in front of anything. -/
  | blank {c : Char} {rest : List Char} (blank : isBlank c = true) :
      CutOff ⟨[c], .gap⟩ rest
  /-- A comment, at the end of its line. -/
  | comment {content rest : List Char} (all : ∀ c ∈ content, c ≠ '\n')
      (stop : NotNext (· ≠ '\n') rest) :
      CutOff ⟨'/' :: '/' :: content, .gap⟩ rest
  /-- A string, in front of anything. -/
  | string {content rest : List Char} (all : ∀ c ∈ content, c ≠ '"') :
      CutOff ⟨'"' :: content ++ ['"'], .lexeme .string⟩ rest
  /-- A number without a fraction, where neither a digit nor a fraction
  follows. -/
  | whole {digits rest : List Char} (ne : digits ≠ [])
      (all : ∀ c ∈ digits, isDigit c = true) (stop : NotNext isDigit rest)
      (no_fraction : NoFraction rest) : CutOff ⟨digits, .lexeme .number⟩ rest
  /-- A number with a fraction, where no digit follows. -/
  | fraction {whole digits rest : List Char} (whole_ne : whole ≠ [])
      (whole_all : ∀ c ∈ whole, isDigit c = true) (ne : digits ≠ [])
      (all : ∀ c ∈ digits, isDigit c = true) (stop : NotNext isDigit rest) :
      CutOff ⟨whole ++ '.' :: digits, .lexeme .number⟩ rest
  /-- A word, where nothing follows that would go on with it. -/
  | word {first : Char} {later rest : List Char}
      (start : isWordStart first = true)
      (all : ∀ c ∈ later, isWordChar c = true) (stop : NotNext isWordChar rest) :
      CutOff ⟨first :: later, .lexeme (.ofWord (first :: later))⟩ rest
  /-- A symbol, where nothing follows that would make it something else. -/
  | symbol {s : Symbol} {rest : List Char} (stop : s.EndsAt rest) :
      CutOff ⟨s.spelling, .lexeme (.symbol s)⟩ rest
  /-- An unclosed string, at the end of the source. -/
  | unterminated {content : List Char} (all : ∀ c ∈ content, c ≠ '"') :
      CutOff ⟨'"' :: content, .faulty .unterminatedString⟩ []
  /-- A character that begins nothing, in front of anything. -/
  | unexpected {c : Char} {rest : List Char} (not_quote : c ≠ '"')
      (not_code : isCode c = false) :
      CutOff ⟨[c], .faulty (.unexpectedCharacter c)⟩ rest

/-! ## Runs of characters of a class -/

/-- At the end of a source nothing comes next. -/
@[simp] theorem notNext_nil (p : Char → Bool) : NotNext p [] := by
  simp [NotNext]

/-- What comes next is the first character. -/
@[simp] theorem notNext_cons {p : Char → Bool} {c : Char} {cs : List Char} :
    NotNext p (c :: cs) ↔ p c = false := by
  simp [NotNext]

/-- Behind all characters of a class no other one comes next. -/
theorem notNext_dropWhile (p : Char → Bool) (text : List Char) :
    NotNext p (text.dropWhile p) := by
  intro c hc
  have h := List.head?_dropWhile_not p text
  rw [Option.mem_def.mp hc] at h
  simpa using h

/-- A run of characters of a class is taken as a whole where no other one
follows. -/
theorem NotNext.takeWhile_append {p : Char → Bool} {text rest : List Char}
    (h : NotNext p rest) (all : ∀ c ∈ text, p c = true) :
    (text ++ rest).takeWhile p = text := by
  rw [List.takeWhile_append_of_pos all]
  cases rest with
  | nil => simp
  | cons c cs => simp [notNext_cons.mp h]

/-- What stands behind a run of characters of a class is left where no other
one follows. -/
theorem NotNext.dropWhile_append {p : Char → Bool} {text rest : List Char}
    (h : NotNext p rest) (all : ∀ c ∈ text, p c = true) :
    (text ++ rest).dropWhile p = rest := by
  rw [List.dropWhile_append_of_pos all]
  cases rest with
  | nil => rfl
  | cons c cs => simp [notNext_cons.mp h]

/-! ## How the first character decides -/

/-- A character that is a symbol is neither blank, nor a quote, nor part of a
word. -/
theorem Symbol.not_of_ofChar? {c : Char} {s : Symbol}
    (h : Symbol.ofChar? c = some s) :
    isBlank c = false ∧ c ≠ '"' ∧ isWordChar c = false := by
  have hs := Symbol.ofChar?_eq_some_iff.mp h
  cases s <;> simp only [Symbol.spelling, List.cons.injEq, and_true,
    reduceCtorEq, and_false] at hs <;> subst hs <;> decide

/-- A symbol that an equals sign has been added to takes no further one. -/
theorem Symbol.endsAt_of_withEqual? {s t : Symbol}
    (h : s.withEqual? = some t) (rest : List Char) : t.EndsAt rest := by
  cases s <;> cases h <;> simp [Symbol.EndsAt, Symbol.withEqual?]

namespace Piece

/-- A blank is a gap. -/
theorem next_of_isBlank {c : Char} (h : isBlank c = true)
    (ahead : List Char) : next c ahead = (⟨[c], .gap⟩, ahead) := by
  rw [next, if_pos h]

/-- A quote begins a string. -/
theorem next_quote (ahead : List Char) : next '"' ahead = nextString ahead := by
  rw [next, if_neg (by decide), if_pos rfl]

/-- A digit begins a number. -/
theorem next_of_isDigit {c : Char} (h : isDigit c = true)
    (ahead : List Char) : next c ahead = nextNumber c ahead := by
  have hquote : c ≠ '"' := ne_of_class h rfl
  have hblank := isBlank_of_isWordChar (isWordChar_of_isDigit h)
  rw [next, if_neg (by simp [hblank]), if_neg hquote, if_pos h]

/-- A letter or an underscore begins a word. -/
theorem next_of_isWordStart {c : Char} (h : isWordStart c = true)
    (ahead : List Char) : next c ahead = nextWord c ahead := by
  have hquote : c ≠ '"' := ne_of_class h rfl
  have hdigit := isDigit_of_isWordStart h
  have hblank := isBlank_of_isWordChar (isWordChar_of_isWordStart h)
  rw [next, if_neg (by simp [hblank]), if_neg hquote, if_neg (by simp [hdigit]),
    if_pos h]

/-- Two strokes begin a comment. -/
theorem next_comment (ahead : List Char) :
    next '/' ('/' :: ahead) = nextComment ('/' :: ahead) := by
  rw [next, if_neg (by decide), if_neg (by decide), if_neg (by decide),
    if_neg (by decide), if_pos ⟨rfl, rfl⟩]

/-- A symbol begins one, unless it is a stroke in front of another one. -/
theorem next_of_ofChar? {c : Char} {s : Symbol}
    (h : Symbol.ofChar? c = some s) {ahead : List Char}
    (hstroke : s = .slash → ahead.head? ≠ some '/') :
    next c ahead = nextSymbol s c ahead := by
  obtain ⟨hblank, hquote, hword⟩ := Symbol.not_of_ofChar? h
  obtain ⟨hstart, hdigit⟩ :=
    not_or.mp (mt isWordChar_iff.mpr (Bool.eq_false_iff.mp hword))
  have hcomment : ¬ (c = '/' ∧ ahead.head? = some '/') := by
    rintro ⟨rfl, hhead⟩
    exact hstroke (Option.some.inj (h.symm.trans rfl)) hhead
  rw [next, if_neg (by simp [hblank]), if_neg hquote, if_neg hdigit,
    if_neg hstart, if_neg hcomment, h]

/-- A character that begins nothing is put down to a fault. -/
theorem next_of_not_isCode {c : Char} (hquote : c ≠ '"')
    (hcode : isCode c = false) (ahead : List Char) :
    next c ahead = (⟨[c], .faulty (.unexpectedCharacter c)⟩, ahead) := by
  rw [← Bool.not_eq_true, isCode_iff, not_or, not_or, not_exists] at hcode
  obtain ⟨hsymbol, hblank, hword⟩ := hcode
  obtain ⟨hstart, hdigit⟩ := not_or.mp (mt isWordChar_iff.mpr hword)
  have hsymbol := Option.eq_none_iff_forall_ne_some.mpr hsymbol
  have hcomment : ¬ (c = '/' ∧ ahead.head? = some '/') := by
    rintro ⟨rfl, -⟩
    exact absurd hsymbol (by decide)
  rw [next, if_neg hblank, if_neg hquote, if_neg hdigit, if_neg hstart,
    if_neg hcomment, hsymbol]

/-! ## What is cut off is cut off by a rule -/

/-- A string is cut off at the next quote, or at the end of the source. -/
theorem cutOff_nextString (ahead : List Char) :
    CutOff (nextString ahead).1 (nextString ahead).2 := by
  unfold nextString
  split
  · next h =>
    exact .unterminated fun c hc => by
      simpa using List.dropWhile_eq_nil_iff.mp h c hc
  · next quote rest h =>
    have hquote : quote = '"' := by
      have hhead := List.head?_dropWhile_not (· ≠ '"') ahead
      rw [h] at hhead
      simpa using hhead
    rw [hquote]
    exact .string fun c hc => by
      simpa using List.all_eq_true.mp List.all_takeWhile c hc

/-- A number is cut off behind its digits and its fraction. -/
theorem cutOff_nextNumber {digit : Char} (h : isDigit digit = true)
    (ahead : List Char) :
    CutOff (nextNumber digit ahead).1 (nextNumber digit ahead).2 := by
  have hwhole : ∀ c ∈ digit :: ahead.takeWhile isDigit, isDigit c = true := by
    simpa [h] using fun c hc => List.all_eq_true.mp List.all_takeWhile c hc
  -- where no fraction follows, it is the end of the whole digits that counts
  have hstop := notNext_dropWhile isDigit ahead
  unfold nextNumber
  generalize ahead.dropWhile isDigit = behind at hstop
  simp only [nextFraction]
  split
  · next d rest =>
    split
    · next hd =>
      have hdigits : ∀ c ∈ d :: rest.takeWhile isDigit, isDigit c = true := by
        simpa [hd] using fun c hc => List.all_eq_true.mp List.all_takeWhile c hc
      exact .fraction (by simp) hwhole (by simp) hdigits
        (notNext_dropWhile isDigit rest)
    · next hd =>
      rw [List.append_nil]
      refine .whole (by simp) hwhole hstop fun d' later heq => ?_
      cases heq
      simpa using hd
  · next hpoint =>
    rw [List.append_nil]
    exact .whole (by simp) hwhole hstop fun d later heq =>
      absurd heq (hpoint d later)

/-- A word is cut off behind all characters that go on with it. -/
theorem cutOff_nextWord {first : Char} (h : isWordStart first = true)
    (ahead : List Char) :
    CutOff (nextWord first ahead).1 (nextWord first ahead).2 :=
  .word h (List.all_eq_true.mp List.all_takeWhile)
    (notNext_dropWhile isWordChar ahead)

/-- A comment is cut off at the end of its line. -/
theorem cutOff_nextComment (later : List Char) :
    CutOff (nextComment ('/' :: later)).1 (nextComment ('/' :: later)).2 := by
  have hstroke : ('/' : Char) ≠ '\n' := by decide
  have hcomment : CutOff ⟨'/' :: '/' :: later.takeWhile (· ≠ '\n'), .gap⟩
      (later.dropWhile (· ≠ '\n')) :=
    .comment (fun c hc => by
      simpa using List.all_eq_true.mp List.all_takeWhile c hc)
      (notNext_dropWhile _ later)
  simpa [nextComment, hstroke] using hcomment

/-- A symbol is cut off behind an equals sign that belongs to it. -/
theorem cutOff_nextSymbol {s : Symbol} {first : Char}
    (h : Symbol.ofChar? first = some s) {ahead : List Char}
    (hstroke : s = .slash → ahead.head? ≠ some '/') :
    CutOff (nextSymbol s first ahead).1 (nextSymbol s first ahead).2 := by
  have hs := Symbol.ofChar?_eq_some_iff.mp h
  unfold nextSymbol
  split
  · next t rest ht =>
    have hcut := CutOff.symbol (Symbol.endsAt_of_withEqual? ht rest)
    rwa [Symbol.withEqual?_eq_some_iff.mp ht, hs] at hcut
  · next ahead _ _ hequal =>
    have hends : s.EndsAt ahead := by
      refine ⟨fun hwith hhead => ?_, hstroke⟩
      obtain ⟨t, ht⟩ := Option.ne_none_iff_exists'.mp hwith
      obtain ⟨rest, rfl⟩ := List.head?_eq_some_iff.mp hhead
      exact hequal t rest ht rfl
    have hcut := CutOff.symbol hends
    rwa [hs] at hcut

/-- **What is cut off is cut off by a rule.** -/
theorem cutOff_next (first : Char) (ahead : List Char) :
    CutOff (next first ahead).1 (next first ahead).2 := by
  by_cases hblank : isBlank first = true
  · rw [next_of_isBlank hblank]
    exact .blank hblank
  by_cases hquote : first = '"'
  · rw [hquote, next_quote]
    exact cutOff_nextString ahead
  by_cases hdigit : isDigit first = true
  · rw [next_of_isDigit hdigit]
    exact cutOff_nextNumber hdigit ahead
  by_cases hstart : isWordStart first = true
  · rw [next_of_isWordStart hstart]
    exact cutOff_nextWord hstart ahead
  by_cases hcomment : first = '/' ∧ ahead.head? = some '/'
  · obtain ⟨rfl, hhead⟩ := hcomment
    obtain ⟨later, rfl⟩ := List.head?_eq_some_iff.mp hhead
    rw [next_comment]
    exact cutOff_nextComment later
  cases hsymbol : Symbol.ofChar? first with
  | some s =>
    have hstroke : s = .slash → ahead.head? ≠ some '/' := by
      rintro rfl hhead
      exact hcomment ⟨by simpa [Symbol.spelling] using
        (Symbol.ofChar?_eq_some_iff.mp hsymbol).symm, hhead⟩
    rw [next_of_ofChar? hsymbol hstroke]
    exact cutOff_nextSymbol hsymbol hstroke
  | none =>
    have hword := mt isWordChar_iff.mp (not_or.mpr ⟨hstart, hdigit⟩)
    have hcode : isCode first = false := by
      rw [← Bool.not_eq_true, isCode_iff, hsymbol]
      simp [hblank, hword]
    rw [next_of_not_isCode hquote hcode]
    exact .unexpected hquote hcode

/-! ## What a rule allows is cut off -/

/-- A string ends at the first quote. -/
theorem nextString_append {content : List Char} (all : ∀ c ∈ content, c ≠ '"')
    (rest : List Char) :
    nextString (content ++ '"' :: rest) =
      (⟨'"' :: content ++ ['"'], .lexeme .string⟩, rest) := by
  have hstop : NotNext (· ≠ '"') ('"' :: rest) := by simp
  have hall : ∀ c ∈ content, decide (c ≠ '"') = true := by simpa using all
  rw [nextString, hstop.dropWhile_append hall, hstop.takeWhile_append hall]

/-- A string without a quote at its end goes on to the end of the source. -/
theorem nextString_of_all {content : List Char} (all : ∀ c ∈ content, c ≠ '"') :
    nextString content = (⟨'"' :: content, .faulty .unterminatedString⟩, []) := by
  have hdrop : content.dropWhile (· ≠ '"') = [] :=
    List.dropWhile_eq_nil_iff.mpr (by simpa using all)
  rw [nextString, hdrop]

/-- A fraction has all digits behind the point. -/
theorem nextFraction_append {digits rest : List Char} (ne : digits ≠ [])
    (all : ∀ c ∈ digits, isDigit c = true) (stop : NotNext isDigit rest) :
    nextFraction ('.' :: (digits ++ rest)) = ('.' :: digits, rest) := by
  obtain ⟨d, later, rfl⟩ := List.exists_cons_of_ne_nil ne
  have hlater : ∀ c ∈ later, isDigit c = true := fun c hc =>
    all c (List.mem_cons_of_mem d hc)
  rw [List.cons_append, nextFraction, if_pos (all d List.mem_cons_self),
    stop.takeWhile_append hlater, stop.dropWhile_append hlater]

/-- Where no fraction comes next, none is taken. -/
theorem nextFraction_of_noFraction {rest : List Char} (h : NoFraction rest) :
    nextFraction rest = ([], rest) := by
  unfold nextFraction
  split
  · next d later => rw [if_neg (by simp [h d later rfl])]
  · rfl

/-- A number has all digits that come next, and the fraction behind them. -/
theorem nextNumber_append {first : Char} {later : List Char}
    (all : ∀ c ∈ later, isDigit c = true) {rest : List Char}
    (stop : NotNext isDigit rest) :
    nextNumber first (later ++ rest) =
      (⟨first :: later ++ (nextFraction rest).1, .lexeme .number⟩,
        (nextFraction rest).2) := by
  rw [nextNumber, stop.takeWhile_append all, stop.dropWhile_append all]

/-- A comment has all that comes in front of the line feed. -/
theorem nextComment_append {content : List Char}
    (all : ∀ c ∈ content, c ≠ '\n') {rest : List Char}
    (stop : NotNext (· ≠ '\n') rest) :
    nextComment ('/' :: content ++ rest) =
      (⟨'/' :: '/' :: content, .gap⟩, rest) := by
  have hall : ∀ c ∈ '/' :: content, decide (c ≠ '\n') = true := by
    simpa using all
  rw [nextComment, stop.takeWhile_append hall, stop.dropWhile_append hall]

/-- A symbol that ends where the rest begins takes nothing of it. -/
theorem nextSymbol_of_endsAt {s : Symbol} {rest : List Char}
    (h : s.EndsAt rest) (first : Char) :
    nextSymbol s first rest = (⟨[first], .lexeme (.symbol s)⟩, rest) := by
  unfold nextSymbol
  split
  · next t later ht => exact absurd rfl (h.1 (by simp [ht]))
  · rfl

end Piece

/-- A symbol is one character, or one that an equals sign has been added
to. -/
theorem Symbol.spelling_cases (s : Symbol) :
    (∃ c, ofChar? c = some s ∧ s.spelling = [c]) ∨
      ∃ c t, ofChar? c = some t ∧ t.withEqual? = some s ∧
        s.spelling = [c, '='] := by
  cases s
  case bangEqual => exact .inr ⟨'!', .bang, rfl, rfl, rfl⟩
  case equalEqual => exact .inr ⟨'=', .equal, rfl, rfl, rfl⟩
  case greaterEqual => exact .inr ⟨'>', .greater, rfl, rfl, rfl⟩
  case lessEqual => exact .inr ⟨'<', .less, rfl, rfl, rfl⟩
  all_goals exact .inl ⟨_, ofChar?_eq_some_iff.mpr rfl, rfl⟩

open Piece in
/-- **What a rule allows is cut off.** -/
theorem CutOff.next_eq {piece : Piece} {rest : List Char}
    (h : CutOff piece rest) {first : Char} {ahead : List Char}
    (hsource : piece.text ++ rest = first :: ahead) :
    next first ahead = (piece, rest) := by
  cases h with
  | @blank c rest hblank =>
    obtain ⟨rfl, rfl⟩ : c = first ∧ rest = ahead := by simpa using hsource
    exact next_of_isBlank hblank rest
  | @comment content rest all stop =>
    obtain ⟨rfl, rfl⟩ : '/' = first ∧ '/' :: content ++ rest = ahead := by
      simpa using hsource
    rw [List.cons_append, next_comment, ← List.cons_append]
    exact nextComment_append all stop
  | @string content rest all =>
    obtain ⟨rfl, rfl⟩ : '"' = first ∧ content ++ '"' :: rest = ahead := by
      simpa using hsource
    rw [next_quote, nextString_append all]
  | @whole digits rest ne all stop no_fraction =>
    obtain ⟨d, later, rfl⟩ := List.exists_cons_of_ne_nil ne
    obtain ⟨rfl, rfl⟩ : d = first ∧ later ++ rest = ahead := by
      simpa using hsource
    rw [next_of_isDigit (all d List.mem_cons_self),
      nextNumber_append (fun c hc => all c (List.mem_cons_of_mem d hc)) stop,
      nextFraction_of_noFraction no_fraction, List.append_nil]
  | @fraction whole digits rest whole_ne whole_all ne all stop =>
    obtain ⟨d, later, rfl⟩ := List.exists_cons_of_ne_nil whole_ne
    obtain ⟨rfl, rfl⟩ : d = first ∧ later ++ '.' :: (digits ++ rest) = ahead := by
      simpa using hsource
    have hpoint : NotNext isDigit ('.' :: (digits ++ rest)) :=
      notNext_cons.mpr (by decide)
    rw [next_of_isDigit (whole_all d List.mem_cons_self),
      nextNumber_append
        (fun c hc => whole_all c (List.mem_cons_of_mem d hc)) hpoint,
      nextFraction_append ne all stop]
  | @word c later rest start all stop =>
    obtain ⟨rfl, rfl⟩ : c = first ∧ later ++ rest = ahead := by
      simpa using hsource
    rw [next_of_isWordStart start, nextWord, stop.takeWhile_append all,
      stop.dropWhile_append all]
  | @symbol s rest stop =>
    obtain ⟨c, hc, hs⟩ | ⟨c, t, hc, ht, hs⟩ := s.spelling_cases
    · obtain ⟨rfl, rfl⟩ : c = first ∧ rest = ahead := by
        simpa [hs] using hsource
      rw [hs, next_of_ofChar? hc stop.2, nextSymbol_of_endsAt stop]
    · obtain ⟨rfl, rfl⟩ : c = first ∧ '=' :: rest = ahead := by
        simpa [hs] using hsource
      have hstroke : t = .slash → ('=' :: rest).head? ≠ some '/' := by simp
      rw [hs, next_of_ofChar? hc hstroke, nextSymbol]
      simp [ht]
  | @unterminated content all =>
    obtain ⟨rfl, rfl⟩ : '"' = first ∧ content = ahead := by
      simpa using hsource
    rw [next_quote, nextString_of_all all]
  | @unexpected c rest not_quote not_code =>
    obtain ⟨rfl, rfl⟩ : c = first ∧ rest = ahead := by simpa using hsource
    exact next_of_not_isCode not_quote not_code rest

namespace CutOff

/-- What is cut off is not empty. -/
theorem text_ne_nil {piece : Piece} {rest : List Char}
    (h : CutOff piece rest) : piece.text ≠ [] := by
  cases h with
  | blank => simp
  | comment => simp
  | string => simp
  | whole ne => exact ne
  | fraction => simp
  | word => simp
  | @symbol s => cases s <;> simp [Symbol.spelling]
  | unterminated => simp
  | unexpected => simp

/-- What is cut off is a lexeme or a gap, unless it is put down to a fault. -/
theorem lexeme {piece : Piece} {rest : List Char}
    (h : CutOff piece rest) (hfault : ∀ fault, piece.role ≠ .faulty fault) :
    Lexeme piece.text piece.role := by
  cases h with
  | blank hblank => exact .blank hblank
  | comment all => exact .comment all
  | string all => exact .string all
  | whole ne all => exact .whole ne all
  | fraction whole_ne whole_all ne all =>
    exact .fraction whole_ne whole_all ne all
  | word start all => exact .word start all
  | symbol => exact .symbol _
  | unterminated => exact absurd rfl (hfault _)
  | unexpected => exact absurd rfl (hfault _)

/-- A source that begins with what is cut off has a first character, and that
decides for it. -/
theorem exists_next_eq {piece : Piece} {rest : List Char}
    (h : CutOff piece rest) :
    ∃ first ahead, piece.text ++ rest = first :: ahead ∧
      Piece.next first ahead = (piece, rest) := by
  have hne : piece.text ++ rest ≠ [] :=
    List.append_ne_nil_of_left_ne_nil h.text_ne_nil rest
  obtain ⟨first, ahead, hsource⟩ := List.exists_cons_of_ne_nil hne
  exact ⟨first, ahead, hsource, h.next_eq hsource⟩

/-- A source that begins with what is cut off has it as its first piece. -/
theorem pieces_append {piece : Piece} {rest : List Char}
    (h : CutOff piece rest) :
    pieces (piece.text ++ rest) = piece :: pieces rest := by
  obtain ⟨first, ahead, hsource, hnext⟩ := h.exists_next_eq
  rw [hsource, pieces_cons, hnext]

end CutOff

/-- To show something of all sources, it is enough to show it of the empty
one, and of one that goes on from what is cut off to a rest for which it
holds. -/
theorem cutOff_induction {motive : List Char → Prop} (nil : motive [])
    (cons : ∀ piece rest, CutOff piece rest → motive rest →
      motive (piece.text ++ rest)) (source : List Char) : motive source := by
  induction source using pieces_induction with
  | nil => exact nil
  | cons first ahead ih =>
    rw [← Piece.text_append_next]
    exact cons _ _ (Piece.cutOff_next first ahead) ih

/-- A piece that becomes a token is a lexeme of the grammar. -/
theorem lexeme_of_mem_pieces {source : List Char} :
    ∀ piece ∈ pieces source, ∀ kind, piece.role = .lexeme kind →
      Lexeme piece.text (.lexeme kind) := by
  induction source using cutOff_induction with
  | nil => simp
  | cons piece rest h ih =>
    rw [h.pieces_append]
    rintro p (_ | ⟨_, hp⟩) kind hkind
    · rw [← hkind]
      exact h.lexeme (by simp [hkind])
    · exact ih p hp kind hkind

end LoxLexer
