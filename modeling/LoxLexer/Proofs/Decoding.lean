import LoxLexer.Proofs.Gluing
import LoxLexer.Proofs.LineByLine
import LoxLexer.Session

/-!
# Listings can be decoded

A listing puts a lexeme and the text of its literal down as they are, without
escapes, and a string may hold blanks, line feeds and whole lines that look
like those of other tokens. Still no two listings are alike: what is printed
tells which tokens there were, and where one source ended and the next began.

A line of the listing is no unit of it, but a token is. Its name ends at the
first blank, as no name holds any. The name tells whether a string follows, and
a string ends at its second quote; any other lexeme ends at the first blank,
since it holds none. What comes behind the lexeme is settled by it. So a token
is told from all others by what it is listed as, whatever is listed behind it
(`Token.Genuine.append_injective`), and an induction over the tokens gives the
rest. Sources come apart because each ends in the one token that no other place
has.
-/

namespace LoxLexer

/-- What an answer prints. -/
def Answer.output : Answer → String
  | .shown s => s.output
  | _ => ""

/-- What the steps of a session print, one after another. -/
def printed (taken : List (Answer × Diagnostics)) : String :=
  String.join (taken.map (·.1.output))

/-- The steps that run sources, each given with its path. -/
def runsOf (sources : List (String × String)) : List Step :=
  sources.map (fun s => .run s.1 s.2)

/-- What the tokens of a source hold, in order, its end included. -/
def contents (source : String) : List (Kind × String × Literal) :=
  (scan source .empty).1.map Token.content

/-- **A token is one that a scan may return**: it holds a lexeme and what that
denotes, or it is the end of a source. -/
def Token.Genuine (t : Token) : Prop :=
  Denotes t.lexeme.toList t.kind t.literal ∨ t.content = (.eof, "", .none)

/-! ## Where the parts of a token end -/

/-- A text that ends at the first occurrence of a mark is told from others that
do, whatever comes behind. -/
theorem append_cons_injective {α : Type} [DecidableEq α] {mark : α}
    {a b x y : List α} (ha : mark ∉ a) (hb : mark ∉ b)
    (h : a ++ mark :: x = b ++ mark :: y) : a = b ∧ x = y := by
  have hsplit := congrArg (List.splitOn mark) h
  rw [List.splitOn_append_cons_self_of_not_mem ha,
    List.splitOn_append_cons_self_of_not_mem hb] at hsplit
  obtain rfl := (List.cons.inj hsplit).1
  exact ⟨rfl, by simpa using h⟩

/-- No name of a kind holds a blank. -/
theorem Kind.space_not_mem_name (kind : Kind) : ' ' ∉ kind.name.toList := by
  have key : ∀ kind ∈ all, ' ' ∉ kind.name.toList := by decide +kernel
  exact key kind (mem_all kind)

/-- **A lexeme of a known kind ends where it has to**: in front of a blank it
is told from other lexemes of its kind. -/
theorem Denotes.eq_of_append_eq {a b x y : List Char} {kind : Kind}
    {l l' : Literal} (ha : Denotes a kind l) (hb : Denotes b kind l')
    (hx : NotNext (fun c => !isBlank c) x)
    (hy : NotNext (fun c => !isBlank c) y) (h : a ++ x = b ++ y) : a = b := by
  by_cases hkind : kind = .string
  · subst hkind
    -- the first quote opens the string, and the next one closes it
    generalize hstring : Kind.string = kind at ha hb
    cases ha with
    | @string content all =>
      cases hb with
      | @string content' all' =>
        have hquotes : content ++ '"' :: x = content' ++ '"' :: y := by
          simpa using h
        have hquote : '"' ∉ content := fun hmem => all _ hmem rfl
        have hquote' : '"' ∉ content' := fun hmem => all' _ hmem rfl
        rw [(append_cons_injective hquote hquote' hquotes).1]
    | _ => cases hstring
  · have htake := congrArg (List.takeWhile (fun c => !isBlank c)) h
    rwa [hx.takeWhile_append (by simpa using ha.isBlank_of_mem hkind),
      hy.takeWhile_append (by simpa using hb.isBlank_of_mem hkind)] at htake

/-! ## Tokens -/

namespace Token

/-- What is listed behind the name of a token that is followed by others. -/
theorem toList_text_append (t : Token) (x : List Char) :
    t.text.toList ++ '\n' :: x =
      t.kind.name.toList ++ ' ' :: (t.lexeme.toList ++
        ((if t.literal.isNone then "" else " " ++ t.literal.text).toList ++
          '\n' :: x)) := by
  simp [text]

/-- Behind a lexeme a blank is listed. -/
theorem notNext_literal (l : Literal) (x : List Char) :
    NotNext (fun c => !isBlank c)
      ((if l.isNone then "" else " " ++ l.text).toList ++ '\n' :: x) := by
  split
  · exact notNext_cons.mpr (by decide)
  · rw [String.toList_append]
    exact notNext_cons.mpr (by decide)

/-- **A token is told from others by what it is listed as**, whatever is listed
behind it. -/
theorem Genuine.append_injective {t u : Token} (ht : t.Genuine)
    (hu : u.Genuine) {x y : List Char}
    (h : t.text.toList ++ '\n' :: x = u.text.toList ++ '\n' :: y) :
    t.content = u.content ∧ x = y := by
  rw [toList_text_append, toList_text_append] at h
  obtain ⟨hname, hbehind⟩ := append_cons_injective t.kind.space_not_mem_name
    u.kind.space_not_mem_name h
  have hkind := Kind.name_injective (String.toList_inj.mp hname)
  -- it is enough that the lexemes are equal and settle the literals
  have hparts : t.lexeme = u.lexeme → t.literal = u.literal →
      t.content = u.content ∧ x = y := by
    intro hlexeme hliteral
    rw [hlexeme, hliteral, List.append_cancel_left_eq,
      List.append_cancel_left_eq] at hbehind
    exact ⟨by rw [content, content, hkind, hlexeme, hliteral],
      (List.cons.inj hbehind).2⟩
  obtain ht | ht := ht
  · obtain hu | hu := hu
    · rw [← hkind] at hu
      have hlexeme := ht.eq_of_append_eq hu (notNext_literal _ _)
        (notNext_literal _ _) hbehind
      refine hparts (String.toList_inj.mp hlexeme) ?_
      rw [ht.literal_eq, hu.literal_eq, hlexeme]
    · exact absurd (hkind.trans (congrArg (·.1) hu)) ht.kind_ne_eof
  · obtain hu | hu := hu
    · exact absurd (hkind.symm.trans (congrArg (·.1) ht)) hu.kind_ne_eof
    · have hcontent := ht.trans hu.symm
      simp only [content, Prod.mk.injEq] at hcontent
      exact hparts hcontent.2.1 hcontent.2.2

end Token

/-- The tokens of a source are genuine. -/
theorem genuine_of_mem_tokensOf {source : String} {t : Token}
    (h : t ∈ tokensOf source) : t.Genuine := by
  obtain rfl | h := eq_eof_or_denotes_of_mem_tokensOf h
  · exact .inr rfl
  · exact .inl h

/-- The first token of a listing stands in front of the others. -/
theorem toList_listing_cons (t : Token) (later : List Token) :
    (listing (t :: later)).toList =
      t.text.toList ++ '\n' :: (listing later).toList := by
  simp [listing]

/-- A listing with a token in it is not the empty one. -/
theorem listing_cons_ne_listing_nil (t : Token) (later : List Token) :
    listing (t :: later) ≠ listing [] := by
  intro h
  have hlist := congrArg String.toList h
  rw [toList_listing_cons] at hlist
  simp [listing] at hlist

/-- **A listing tells its tokens.** -/
theorem map_content_eq_of_listing_eq {ts us : List Token}
    (ht : ∀ t ∈ ts, t.Genuine) (hu : ∀ u ∈ us, u.Genuine)
    (h : listing ts = listing us) :
    ts.map Token.content = us.map Token.content := by
  induction ts generalizing us with
  | nil =>
    cases us with
    | nil => rfl
    | cons u later => exact absurd h.symm (listing_cons_ne_listing_nil u later)
  | cons t later ih =>
    cases us with
    | nil => exact absurd h (listing_cons_ne_listing_nil t later)
    | cons u others =>
      have hlist := congrArg String.toList h
      rw [toList_listing_cons, toList_listing_cons] at hlist
      obtain ⟨hcontent, hrest⟩ := (ht t List.mem_cons_self).append_injective
        (hu u List.mem_cons_self) hlist
      have hlater := ih (fun t h => ht t (List.mem_cons_of_mem _ h))
        (fun u h => hu u (List.mem_cons_of_mem _ h)) (String.toList_inj.mp hrest)
      rw [List.map_cons, List.map_cons, hcontent, hlater]

/-! ## Sources -/

/-- What the tokens of a source hold ends where nothing else does. -/
theorem exists_contents_eq (source : String) :
    ∃ body, contents source = body ++ [(.eof, "", .none)] ∧
      (.eof, "", .none) ∉ body := by
  refine ⟨(collectFrom Piece.token? .start (pieces source.toList)).map
    Token.content, ?_, ?_⟩
  · rw [contents, fst_scan, tokensOf, List.map_append]
    rfl
  · rw [List.mem_map]
    rintro ⟨t, ht, hcontent⟩
    exact kind_ne_eof_of_mem_collectFrom ht (congrArg (·.1) hcontent)

/-- **Sources come apart at their ends**: from what the tokens of all hold, one
source after another, it can be told what those of each do. -/
theorem map_contents_eq_of_flatMap_eq {as bs : List String}
    (h : as.flatMap contents = bs.flatMap contents) :
    as.map contents = bs.map contents := by
  induction as generalizing bs with
  | nil =>
    cases bs with
    | nil => rfl
    | cons b others =>
      obtain ⟨body, hbody, -⟩ := exists_contents_eq b
      simp [hbody] at h
  | cons a later ih =>
    obtain ⟨body, hbody, hend⟩ := exists_contents_eq a
    cases bs with
    | nil => simp [hbody] at h
    | cons b others =>
      obtain ⟨body', hbody', hend'⟩ := exists_contents_eq b
      rw [List.flatMap_cons, List.flatMap_cons, hbody, hbody', List.append_assoc,
        List.append_assoc, List.singleton_append, List.singleton_append] at h
      obtain ⟨rfl, hrest⟩ := append_cons_injective hend hend' h
      rw [List.map_cons, List.map_cons, hbody, hbody', ih hrest]

/-- A session of runs prints the tokens of its sources, one source after
another. -/
theorem exists_session_runsOf_eq (sources : List (String × String))
    (diagnostics : Diagnostics) :
    ∃ taken, session (runsOf sources) diagnostics = .ok taken ∧
      printed taken = listing (sources.flatMap (fun s => tokensOf s.2)) := by
  induction sources generalizing diagnostics with
  | nil => exact ⟨[], rfl, rfl⟩
  | cons s later ih =>
    obtain ⟨taken, hsession, hprinted⟩ := ih (scan s.2 diagnostics).2
    have hrun := run_eq_ok s.1 s.2 diagnostics
    generalize (errorsOf s.2).map _ = reports at hrun
    refine ⟨(.shown ⟨listing (tokensOf s.2), reports⟩,
      (scan s.2 diagnostics).2) :: taken, ?_, ?_⟩
    · rw [runsOf, List.map_cons, session, Step.take, hrun]
      show (do let later ← session (runsOf later) (scan s.2 diagnostics).2
               return _) = _
      rw [hsession]
      rfl
    · rw [List.flatMap_cons, listing_append, ← hprinted]
      simp [printed, Answer.output]

/-- **What is printed tells the sources apart.** Two sequences of sources, run
one after another, are as many and have the same tokens source by source, up
to their places, whenever the same is printed for both. Neither the paths nor
what has been collected before are of any concern. -/
theorem contents_eq_of_printed_eq (sources others : List (String × String))
    (diagnostics diagnostics' : Diagnostics) :
    ∃ taken taken',
      session (runsOf sources) diagnostics = .ok taken ∧
      session (runsOf others) diagnostics' = .ok taken' ∧
      (printed taken = printed taken' →
        sources.length = others.length ∧
          sources.map (fun s => contents s.2) =
            others.map (fun s => contents s.2)) := by
  obtain ⟨taken, hsession, hprinted⟩ :=
    exists_session_runsOf_eq sources diagnostics
  obtain ⟨taken', hsession', hprinted'⟩ :=
    exists_session_runsOf_eq others diagnostics'
  refine ⟨taken, taken', hsession, hsession', fun h => ?_⟩
  have hgenuine : ∀ sources : List (String × String),
      ∀ t ∈ sources.flatMap (fun s => tokensOf s.2), t.Genuine := by
    intro sources t ht
    obtain ⟨s, -, ht⟩ := List.mem_flatMap.mp ht
    exact genuine_of_mem_tokensOf ht
  have hflat : ∀ sources : List (String × String),
      (sources.flatMap (fun s => tokensOf s.2)).map Token.content =
        (sources.map (·.2)).flatMap contents := by
    intro sources
    rw [List.map_flatMap, List.flatMap_map]
    simp only [contents, fst_scan]
  rw [hprinted, hprinted'] at h
  have htokens := map_content_eq_of_listing_eq (hgenuine sources)
    (hgenuine others) h
  rw [hflat, hflat] at htokens
  have hmap := map_contents_eq_of_flatMap_eq htokens
  rw [List.map_map, List.map_map] at hmap
  exact ⟨by simpa using congrArg List.length hmap, hmap⟩

/-- The same is printed for sources with other blanks and comments, though one
of their strings looks like the end of a source and a line behind it. -/
theorem contents_eq_of_strings_like_lines :
    ∃ taken taken',
      session (runsOf [("a", "\"\nEOF \nNUMBER 1 1\" x"), ("b", "")]) .empty =
        .ok taken ∧
      session (runsOf [("c", "\"\nEOF \nNUMBER 1 1\"x//"), ("d", "\n")]) .empty =
        .ok taken' ∧
      printed taken = printed taken' ∧
      contents "\"\nEOF \nNUMBER 1 1\" x" = contents "\"\nEOF \nNUMBER 1 1\"x//" ∧
      contents "" = contents "\n" := by
  obtain ⟨taken, taken', hsession, hsession', h⟩ := contents_eq_of_printed_eq
    [("a", "\"\nEOF \nNUMBER 1 1\" x"), ("b", "")]
    [("c", "\"\nEOF \nNUMBER 1 1\"x//"), ("d", "\n")] .empty .empty
  have hprinted : printed taken = printed taken' := by
    have heq : (session (runsOf [("a", "\"\nEOF \nNUMBER 1 1\" x"), ("b", "")])
          .empty).map printed =
        (session (runsOf [("c", "\"\nEOF \nNUMBER 1 1\"x//"), ("d", "\n")])
          .empty).map printed := by
      decide +kernel
    rw [hsession, hsession'] at heq
    exact Except.ok.inj heq
  have hcontents := (h hprinted).2
  simp only [List.map_cons, List.map_nil, List.cons.injEq] at hcontents
  exact ⟨taken, taken', hsession, hsession', hprinted, hcontents.1,
    hcontents.2.1⟩

end LoxLexer
