import LoxLexer.Piece
import LoxLexer.Token

/-!
# Scanning

A scan goes through the pieces of a source, keeping its place. A lexeme adds a
token, a gap adds nothing, and a fault is handed to a **reporter**; neither of
the last two stops it. At the end of the source the scan adds a token for
that end, so that there always is a last token, whatever was reported.

A reporter is a state and a way for an error to change it. The scan passes
the state along without looking at it: what is reported never bears on the
tokens. Which state that is – a list of errors, a log of messages, a count –
is up to the host.
-/

namespace LoxLexer

universe u

/-- What receives the errors of a scan: for each error, how it changes the
state of the host. -/
abbrev Reporter (σ : Type u) := σ → LexError → σ

/-- How far a scan has come. -/
structure Progress (σ : Type u) where
  /-- The place that has been reached. -/
  place : Position
  /-- The tokens read so far. -/
  tokens : Array Token
  /-- The state of the reporter. -/
  host : σ

/-- The error that a fault at a given place is. The line is that of the end of
the piece, since it takes the whole piece to notice the fault. -/
def LexError.atPiece (fault : Fault) (text : List Char) (place : Position) :
    LexError where
  fault := fault
  line := (place.after text).line
  span := ⟨place.offset, (place.after text).offset⟩

namespace Progress

/-- Passes over one piece. -/
def step {σ : Type u} (report : Reporter σ) (progress : Progress σ)
    (piece : Piece) : Progress σ :=
  let ⟨place, tokens, host⟩ := progress
  let next := place.after piece.text
  match piece.role with
  | .lexeme kind => ⟨next, tokens.push (.ofLexeme kind piece.text place), host⟩
  | .gap => ⟨next, tokens, host⟩
  | .faulty fault => ⟨next, tokens, report host (.atPiece fault piece.text place)⟩

end Progress

/-- Scans a source, handing every error to a reporter in a given state. The
result is the tokens, the last of them the end of the source, and the state
in which the reporter is left. -/
def scanWith {σ : Type u} (report : Reporter σ) (host : σ) (source : String) :
    List Token × σ :=
  let done := (pieces source.toList).foldl (Progress.step report)
    ⟨.start, #[], host⟩
  ((done.tokens.push (.eof done.place)).toList, done.host)

/-! ## What a scan comes to

A scan interleaves two things that have nothing to do with each other. Taken
apart, they are the tokens of a source and its errors, each a function of the
source alone; the reporter is then a fold over the errors (`scanWith_eq`). -/

/-- The token of a piece that begins at a given place, if the piece is a
lexeme. -/
def Piece.token? (piece : Piece) (place : Position) : Option Token :=
  match piece.role with
  | .lexeme kind => some (.ofLexeme kind piece.text place)
  | _ => none

/-- The error of a piece that begins at a given place, if the piece is put
down to a fault. -/
def Piece.error? (piece : Piece) (place : Position) : Option LexError :=
  match piece.role with
  | .faulty fault => some (.atPiece fault piece.text place)
  | _ => none

/-- What pieces come to that stand one after another from a given place, when
`f` says what a piece comes to at its place, if it comes to anything. -/
def collectFrom {α : Type} (f : Piece → Position → Option α)
    (place : Position) : List Piece → List α
  | [] => []
  | piece :: later =>
    (f piece place).toList ++ collectFrom f (place.after piece.text) later

/-- The tokens of a source, the last of them its end. -/
def tokensOf (source : String) : List Token :=
  collectFrom Piece.token? .start (pieces source.toList) ++
    [.eof (Position.start.after source.toList)]

/-- The errors of a source, in the order in which they are reported. -/
def errorsOf (source : String) : List LexError :=
  collectFrom Piece.error? .start (pieces source.toList)

/-- A piece that becomes a token is a lexeme. -/
theorem Piece.exists_of_token?_eq_some {piece : Piece} {place : Position}
    {t : Token} (h : piece.token? place = some t) :
    ∃ kind, piece.role = .lexeme kind ∧
      t = .ofLexeme kind piece.text place := by
  unfold token? at h
  split at h
  · next kind hrole => exact ⟨kind, hrole, (Option.some.inj h).symm⟩
  · cases h

/-- A piece that leads to an error is put down to a fault. -/
theorem Piece.exists_of_error?_eq_some {piece : Piece} {place : Position}
    {e : LexError} (h : piece.error? place = some e) :
    ∃ fault, piece.role = .faulty fault ∧
      e = .atPiece fault piece.text place := by
  unfold error? at h
  split at h
  · next fault hrole => exact ⟨fault, hrole, (Option.some.inj h).symm⟩
  · cases h

/-- What has been collected comes from one of the pieces, at its place. -/
theorem exists_of_mem_collectFrom {α : Type}
    {f : Piece → Position → Option α} {place : Position} {ps : List Piece}
    {a : α} (h : a ∈ collectFrom f place ps) :
    ∃ front piece rest, ps = front ++ piece :: rest ∧
      f piece (place.after (front.flatMap Piece.text)) = some a := by
  induction ps generalizing place with
  | nil => cases h
  | cons piece later ih =>
    rw [collectFrom, List.mem_append, Option.mem_toList] at h
    obtain h | h := h
    · exact ⟨[], piece, later, rfl, h⟩
    · obtain ⟨front, p, rest, rfl, hp⟩ := ih h
      exact ⟨piece :: front, p, rest, rfl, by
        rwa [List.flatMap_cons, Position.after_append]⟩

/-- A token comes from a lexeme among the pieces. -/
theorem exists_lexeme_of_mem_collectFrom {place : Position} {ps : List Piece}
    {t : Token} (h : t ∈ collectFrom Piece.token? place ps) :
    ∃ front piece rest kind, ps = front ++ piece :: rest ∧
      piece.role = .lexeme kind ∧
      t = .ofLexeme kind piece.text
        (place.after (front.flatMap Piece.text)) := by
  obtain ⟨front, piece, rest, hps, htoken⟩ := exists_of_mem_collectFrom h
  obtain ⟨kind, hkind⟩ := Piece.exists_of_token?_eq_some htoken
  exact ⟨front, piece, rest, kind, hps, hkind⟩

/-- An error comes from a piece that is put down to a fault. -/
theorem exists_fault_of_mem_collectFrom {place : Position} {ps : List Piece}
    {e : LexError} (h : e ∈ collectFrom Piece.error? place ps) :
    ∃ front piece rest fault, ps = front ++ piece :: rest ∧
      piece.role = .faulty fault ∧
      e = .atPiece fault piece.text
        (place.after (front.flatMap Piece.text)) := by
  obtain ⟨front, piece, rest, hps, herror⟩ := exists_of_mem_collectFrom h
  obtain ⟨fault, hfault⟩ := Piece.exists_of_error?_eq_some herror
  exact ⟨front, piece, rest, fault, hps, hfault⟩

/-- Passing over pieces moves the place over their texts, adds their tokens,
and reports their errors. -/
theorem Progress.foldl_step {σ : Type u} (report : Reporter σ)
    (progress : Progress σ) (ps : List Piece) :
    ps.foldl (step report) progress =
      ⟨progress.place.after (ps.flatMap Piece.text),
        progress.tokens ++
          (collectFrom Piece.token? progress.place ps).toArray,
        (collectFrom Piece.error? progress.place ps).foldl report
          progress.host⟩ := by
  induction ps generalizing progress with
  | nil => simp [collectFrom]
  | cons piece later ih =>
    obtain ⟨text, role⟩ := piece
    rw [List.foldl_cons, ih]
    cases role <;>
      simp [step, collectFrom, Piece.token?, Piece.error?,
        Position.after_append]

/-- A scan returns the tokens of its source, whatever the reporter, and leaves
the reporter in the state that the errors of the source lead to one after
another. -/
theorem scanWith_eq {σ : Type u} (report : Reporter σ) (host : σ)
    (source : String) :
    scanWith report host source =
      (tokensOf source, (errorsOf source).foldl report host) := by
  simp [scanWith, Progress.foldl_step, tokensOf, errorsOf, flatMap_text_pieces]

end LoxLexer
