import LoxLexer.Proofs.Runs

/-!
# Which script is run

The command is asked for a script by its arguments, and the script is looked
up by its path. Both are decided step by step, by reading arguments from left
to right and by following the parts of a path from folder to folder.

`Invocation.Asks` lists what arguments can ask for, and
`Invocation.ofArguments_eq_ok_iff` states that the reading comes to just that.
`Folder.Sound.read_eq_ok_iff` states that a path which does not go back leads
to the file whose name has the same steps, and to no other, when no file of
the folder stands where another one has a folder. Together with what a run
comes to, they say what the command does with a script that is stored under
some name (`execute_stored_script`).
-/

namespace LoxLexer

/-! ## What the arguments ask for -/

namespace Invocation

/-- Whether an argument is a path wherever it stands: it does not begin with a
dash, or it is a dash alone. -/
def isPlain (arg : String) : Bool :=
  arg.toList.head? ≠ some '-' || arg.toList = ['-']

/-- Whether an argument is the option that asks for help. The letter for it may
have more letters behind it. -/
def isHelp (arg : String) : Bool :=
  arg.toList = ['-', '-', 'h', 'e', 'l', 'p'] || arg.toList.take 2 = ['-', 'h']

/-- **What arguments ask for.** -/
inductive Asks : List String → Invocation → Prop where
  /-- Without arguments, lines are read. -/
  | nothing : Asks [] lines
  /-- Two dashes alone are as good as nothing. -/
  | dashes : Asks ["--"] lines
  /-- A path asks for the script that it leads to. -/
  | path {path : String} (ne : path ≠ "") (plain : isPlain path = true) :
      Asks [path] (script path)
  /-- Two dashes may stand behind the path. -/
  | beforeDashes {path : String} (ne : path ≠ "")
      (plain : isPlain path = true) : Asks [path, "--"] (script path)
  /-- Behind two dashes a path may begin with a dash. -/
  | behindDashes {path : String} (ne : path ≠ "") :
      Asks ["--", path] (script path)
  /-- Help may be asked for first, and then nothing behind it counts. -/
  | help {arg : String} {later : List String} (option : isHelp arg = true) :
      Asks (arg :: later) help
  /-- Help may be asked for behind a path. -/
  | helpBehind {path arg : String} {later : List String} (ne : path ≠ "")
      (plain : isPlain path = true) (option : isHelp arg = true) :
      Asks (path :: arg :: later) help

variable {path? : Option String} {arg path : String} {args : List String}
  {i : Invocation}

/-- A path is asked for unless it is empty. -/
theorem ofPath?_some_eq_ok_iff :
    ofPath? (some path) = .ok i ↔ path ≠ "" ∧ i = script path := by
  by_cases h : path = ""
  · subst h
    simp [ofPath?]
  · simp [ofPath?, h, eq_comm]

/-- Help is given unless the path in front is empty. -/
theorem helpAfter_eq_ok_iff :
    helpAfter path? = .ok i ↔ path? ≠ some "" ∧ i = help := by
  unfold helpAfter
  split <;> simp_all [eq_comm]

/-- There is no place for a second path. -/
theorem ofPaths_some_eq_ok_iff :
    ofPaths (some path) args = .ok i ↔
      args = [] ∧ path ≠ "" ∧ i = script path := by
  cases args with
  | nil => simp [ofPaths, ofPath?_some_eq_ok_iff]
  | cons arg args => simp [ofPaths, addPath, bind, Except.bind]

/-- One path may stand behind two dashes. -/
theorem ofPaths_none_eq_ok_iff :
    ofPaths none args = .ok i ↔
      args = [] ∧ i = lines ∨
        ∃ path, args = [path] ∧ path ≠ "" ∧ i = script path := by
  cases args with
  | nil => simp [ofPaths, ofPath?, eq_comm]
  | cons arg args =>
    have hstep : ofPaths none (arg :: args) = ofPaths (some arg) args := rfl
    rw [hstep, ofPaths_some_eq_ok_iff]
    simp [and_assoc]

/-- Of the options that begin with two dashes, one asks for help. -/
theorem ofLongOption_eq_ok_iff {option : List Char} :
    ofLongOption path? option = .ok i ↔
      option = ['h', 'e', 'l', 'p'] ∧ path? ≠ some "" ∧ i = help := by
  constructor
  · intro h
    unfold ofLongOption at h
    by_cases hname : option.takeWhile (· ≠ '=') = ['h', 'e', 'l', 'p']
    · simp only [hname, if_true] at h
      cases hvalue : option.dropWhile (· ≠ '=') with
      | nil =>
        have happ := List.takeWhile_append_dropWhile (p := (· ≠ '='))
          (l := option)
        rw [hname, hvalue, List.append_nil] at happ
        rw [hvalue] at h
        exact ⟨happ.symm, helpAfter_eq_ok_iff.mp h⟩
      | cons c value =>
        rw [hvalue] at h
        cases h
    · simp only [hname, if_false] at h
      cases h
  · rintro ⟨rfl, h⟩
    exact helpAfter_eq_ok_iff.mpr h

/-- Of the options that begin with one dash, one asks for help. -/
theorem ofShortOption_eq_ok_iff {letter : Char} :
    ofShortOption path? letter = .ok i ↔
      letter = 'h' ∧ path? ≠ some "" ∧ i = help := by
  unfold ofShortOption
  split <;> simp_all [helpAfter_eq_ok_iff]

/-- Behind two dashes all arguments are paths. -/
theorem read_dashes : read path? ("--" :: args) = ofPaths path? args := by
  rw [read]
  rfl

/-- A path is kept if there is place for it. -/
theorem read_path (h : isPlain arg = true) :
    read path? (arg :: args) =
      (do let path ← addPath path? arg; read (some path) args) := by
  rw [read]
  split
  · next heq => simp [isPlain, heq] at h
  · next heq => simp [isPlain, heq] at h
  · next heq => simp [isPlain, heq] at h
  · rfl

/-- An argument behind two dashes is an option of several letters. -/
theorem read_longOption {option : List Char}
    (h : arg.toList = '-' :: '-' :: option) (ne : option ≠ []) :
    read path? (arg :: args) = ofLongOption path? option := by
  rw [read]
  split
  · next heq => simp [h, ne] at heq
  · next heq =>
    rw [h] at heq
    simp only [List.cons.injEq, true_and] at heq
    rw [heq]
  · next hletter heq =>
    simp only [h, List.cons.injEq] at heq
    exact absurd heq.2.1.symm hletter
  · next hlong _ => exact absurd h (hlong option)

/-- An argument behind one dash is an option of one letter. -/
theorem read_shortOption {letter : Char} {option : List Char}
    (h : arg.toList = '-' :: letter :: option) (ne : letter ≠ '-') :
    read path? (arg :: args) = ofShortOption path? letter := by
  rw [read]
  split
  · next heq => simp [h, ne] at heq
  · next heq => simp [h, ne] at heq
  · next heq =>
    rw [h] at heq
    simp only [List.cons.injEq, true_and] at heq
    rw [heq.1]
  · next hshort => exact absurd h (hshort letter option)

/-- An option asks for help or is a mistake. -/
theorem read_option_eq_ok_iff (plain : isPlain arg = false)
    (hdashes : arg ≠ "--") :
    read path? (arg :: args) = .ok i ↔
      isHelp arg = true ∧ path? ≠ some "" ∧ i = help := by
  obtain ⟨letter, option, htext⟩ :
      ∃ letter option, arg.toList = '-' :: letter :: option := by
    match htext : arg.toList with
    | [] => simp [isPlain, htext] at plain
    | [c] => simp [isPlain, htext] at plain
    | c :: letter :: option =>
      have hc : c = '-' := by simpa [isPlain, htext] using plain
      exact ⟨letter, option, hc ▸ rfl⟩
  by_cases hletter : letter = '-'
  · subst hletter
    have ne : option ≠ [] := by
      rintro rfl
      exact hdashes (String.toList_inj.mp htext)
    rw [read_longOption htext ne, ofLongOption_eq_ok_iff]
    simp [isHelp, htext]
  · rw [read_shortOption htext hletter, ofShortOption_eq_ok_iff]
    simp [isHelp, htext, hletter]

/-- No path asks for help. -/
theorem isHelp_of_isPlain (h : isPlain arg = true) :
    isHelp arg = false := by
  match htext : arg.toList with
  | [] => simp [isHelp, htext]
  | [c] => simp [isHelp, htext]
  | c :: d :: later =>
    have hc : c ≠ '-' := by simpa [isPlain, htext] using h
    simp [isHelp, htext, hc]

/-- Behind a path only two dashes or the option for help have a place. -/
theorem read_some_eq_ok_iff :
    read (some path) args = .ok i ↔
      path ≠ "" ∧ ((args = [] ∨ args = ["--"]) ∧ i = script path ∨
        i = help ∧ ∃ arg later, args = arg :: later ∧ isHelp arg = true) := by
  cases args with
  | nil => simp [read, ofPath?_some_eq_ok_iff]
  | cons arg args =>
    have hhead : (∃ first later, arg :: args = first :: later ∧
        isHelp first = true) ↔ isHelp arg = true := by
      simp
    rw [hhead]
    by_cases hdashes : arg = "--"
    · have hhelp : isHelp "--" = false := by decide
      rw [hdashes, read_dashes, ofPaths_some_eq_ok_iff, hhelp]
      simp [and_left_comm]
    cases hplain : isPlain arg with
    | true =>
      rw [read_path hplain, isHelp_of_isPlain hplain]
      simp [addPath, bind, Except.bind, hdashes]
    | false =>
      rw [read_option_eq_ok_iff hplain hdashes]
      simp [hdashes, and_assoc, and_left_comm, and_comm]

/-- The same of arguments that begin with the path. -/
theorem read_path_eq_ok_iff (h : isPlain path = true) :
    read none (path :: args) = .ok i ↔
      path ≠ "" ∧ ((args = [] ∨ args = ["--"]) ∧ i = script path ∨
        i = help ∧ ∃ arg later, args = arg :: later ∧ isHelp arg = true) := by
  rw [read_path h]
  exact read_some_eq_ok_iff

/-- **The arguments are read as what they ask for.** -/
theorem ofArguments_eq_ok_iff : ofArguments args = .ok i ↔ Asks args i := by
  rw [ofArguments]
  constructor
  · intro h
    cases args with
    | nil =>
      cases h
      exact .nothing
    | cons arg args =>
      by_cases hdashes : arg = "--"
      · rw [hdashes, read_dashes, ofPaths_none_eq_ok_iff] at h
        obtain ⟨rfl, rfl⟩ | ⟨path, rfl, ne, rfl⟩ := h
        · exact hdashes ▸ .dashes
        · exact hdashes ▸ .behindDashes ne
      cases hplain : isPlain arg with
      | true =>
        obtain ⟨ne, ⟨rfl | rfl, rfl⟩ | ⟨rfl, opt, later, rfl, hopt⟩⟩ :=
          (read_path_eq_ok_iff hplain).mp h
        · exact .path ne hplain
        · exact .beforeDashes ne hplain
        · exact .helpBehind ne hplain hopt
      | false =>
        obtain ⟨hopt, -, rfl⟩ := (read_option_eq_ok_iff hplain hdashes).mp h
        exact .help hopt
  · intro h
    cases h with
    | nothing => rfl
    | dashes => exact read_dashes
    | path ne plain =>
      exact (read_path_eq_ok_iff plain).mpr ⟨ne, .inl ⟨.inl rfl, rfl⟩⟩
    | beforeDashes ne plain =>
      exact (read_path_eq_ok_iff plain).mpr ⟨ne, .inl ⟨.inr rfl, rfl⟩⟩
    | behindDashes ne =>
      rw [read_dashes, ofPaths_none_eq_ok_iff]
      exact .inr ⟨_, rfl, ne, rfl⟩
    | @help arg later option =>
      have hplain : isPlain arg = false := by
        refine Bool.eq_false_iff.mpr fun hplain => ?_
        rw [isHelp_of_isPlain hplain] at option
        cases option
      have hdashes : arg ≠ "--" := by
        rintro rfl
        revert option
        decide
      exact (read_option_eq_ok_iff hplain hdashes).mpr
        ⟨option, by simp, rfl⟩
    | helpBehind ne plain option =>
      exact (read_path_eq_ok_iff plain).mpr
        ⟨ne, .inr ⟨rfl, _, _, rfl, option⟩⟩

example : ofArguments ["--", "-x"] = .ok (script "-x") := by cbv
example : ofArguments ["a", "-h", "b"] = .ok help := by cbv

end Invocation

/-! ## What a path leads to -/

namespace Folder

/-- **No file of a folder is in the way of another.** Every name has steps,
none of them too long, and no name leads to or through the file of another. -/
structure Sound (folder : Folder) : Prop where
  /-- A name leads somewhere. -/
  ne : ∀ f ∈ folder.files, steps f.1 ≠ []
  /-- No step is too long. -/
  short : ∀ f ∈ folder.files, ∀ part ∈ steps f.1, part.utf8ByteSize ≤ maxName
  /-- A file ends the way. -/
  apart : ∀ f ∈ folder.files, ∀ g ∈ folder.files,
    steps f.1 <+: steps g.1 → f = g

variable {folder : Folder} {place parts : List String}
  {contents : ByteArray}

/-- What stands at a place as a file is a file of the folder. -/
theorem exists_of_entry_eq_file (h : folder.entry place = .file contents) :
    ∃ name, (name, contents) ∈ folder.files ∧ steps name = place := by
  unfold entry at h
  split at h
  · next f hfind =>
    obtain ⟨name, bytes⟩ := f
    obtain rfl := Entry.file.inj h
    have hsteps := List.find?_some hfind
    exact ⟨name, List.mem_of_find?_eq_some hfind, of_decide_eq_true hsteps⟩
  · split at h <;> cases h

/-- Where no file stands, no name ends. -/
theorem steps_ne_of_entry (h : ∀ contents, folder.entry place ≠ .file contents)
    {f : String × ByteArray} (hf : f ∈ folder.files) : steps f.1 ≠ place := by
  intro hsteps
  unfold entry at h
  split at h
  · next g _ => exact h g.2 rfl
  · next hnone =>
    exact of_decide_eq_false (by simpa using List.find?_eq_none.mp hnone f hf)
      hsteps

/-- Where nothing stands, no name leads through. -/
theorem not_prefix_of_entry (h : folder.entry place = .nothing)
    {f : String × ByteArray} (hf : f ∈ folder.files) :
    ¬ place <+: steps f.1 := by
  intro hthrough
  unfold entry at h
  split at h
  · cases h
  · split at h
    · cases h
    · next hany =>
      exact hany (List.any_eq_true.mpr
        ⟨f, hf, List.isPrefixOf_iff_prefix.mpr hthrough⟩)

/-- What parts lead to is a file of the folder. -/
theorem exists_of_follow_eq_ok
    (h : folder.follow place parts = .ok contents) :
    ∃ name, (name, contents) ∈ folder.files := by
  fun_induction folder.follow place parts with
  | case1 | case3 | case5 | case6 | case9 => cases h
  | case2 _ _ _ _ ih => exact ih h
  | case4 _ _ _ _ ih => exact ih h
  | case7 _ _ _ _ _ _ _ ih => exact ih h
  | case8 _ _ _ _ _ bytes hentry =>
    obtain ⟨name, hname, -⟩ := exists_of_entry_eq_file hentry
    exact ⟨name, Except.ok.inj h ▸ hname⟩

/-- The parts of a path arrive at a name: the last of them leads on. -/
def Arrives (parts : List String) : Prop :=
  ∃ part ∈ parts.getLast?, stays part = false

/-- Parts arrive at a name at once or later. -/
theorem arrives_cons_iff {part : String} :
    Arrives (part :: parts) ↔
      parts = [] ∧ stays part = false ∨ Arrives parts := by
  cases parts <;> simp [Arrives, List.getLast?_cons_cons]

/-- Parts that arrive at a name have a step. -/
theorem Arrives.filter_ne_nil (h : Arrives parts) :
    parts.filter (fun part => !stays part) ≠ [] := by
  obtain ⟨part, hlast, hstays⟩ := h
  have hmem : part ∈ parts.filter (fun part => !stays part) :=
    List.mem_filter.mpr ⟨List.mem_of_getLast? hlast, by simp [hstays]⟩
  exact List.ne_nil_of_mem hmem

/-- A name that leads to or through a place where a file stands is that of the
file. -/
theorem Sound.eq_of_entry_eq_file (sound : folder.Sound)
    (h : folder.entry place = .file contents) {f : String × ByteArray}
    (hf : f ∈ folder.files) (hthrough : place <+: steps f.1) :
    f.2 = contents ∧ steps f.1 = place := by
  obtain ⟨name, hname, hsteps⟩ := exists_of_entry_eq_file h
  obtain rfl := sound.apart _ hname _ hf (hsteps ▸ hthrough)
  exact ⟨rfl, hsteps⟩

/-- No name ends on the way to a folder, if none ends on the way to where it
stands. -/
theorem not_prefix_concat {part : String}
    (h : folder.entry (place ++ [part]) = .folder)
    (free : ∀ f ∈ folder.files, ¬ steps f.1 <+: place) :
    ∀ f ∈ folder.files, ¬ steps f.1 <+: place ++ [part] := by
  intro f hf hthrough
  obtain heq | hthrough := List.prefix_concat_iff.mp hthrough
  · exact steps_ne_of_entry (by simp [h]) hf heq
  · exact free f hf hthrough

/-- **Parts that do not go back lead to the file with their steps**, if they
arrive at a name and none of the folders on the way is a file. -/
theorem Sound.follow_eq_ok_iff (sound : folder.Sound) (inside : ".." ∉ parts)
    (free : ∀ f ∈ folder.files, ¬ steps f.1 <+: place) :
    folder.follow place parts = .ok contents ↔
      (∃ name, (name, contents) ∈ folder.files ∧
        steps name = place ++ parts.filter (fun part => !stays part)) ∧
      Arrives parts := by
  induction parts generalizing place with
  | nil => simp [follow, Arrives]
  | cons part parts ih =>
    obtain ⟨hback, inside⟩ := not_or.mp (mt List.mem_cons.mpr inside)
    rw [follow, arrives_cons_iff, if_neg (Ne.symm hback)]
    cases hstays : stays part with
    | true =>
      rw [if_pos rfl, ih inside free,
        List.filter_cons_of_neg (by simp [hstays])]
      simp
    | false =>
      have hfilter : place ++ (part :: parts).filter (fun p => !stays p) =
          (place ++ [part]) ++ parts.filter (fun p => !stays p) := by
        rw [List.filter_cons_of_pos (by simp [hstays]), List.append_assoc]
        rfl
      rw [if_neg Bool.false_ne_true, hfilter]
      by_cases hlong : maxName < part.utf8ByteSize
      · rw [if_pos hlong]
        refine iff_of_false (by simp) ?_
        rintro ⟨⟨name, hname, hsteps⟩, -⟩
        have hle := sound.short _ hname part (by simp [hsteps])
        omega
      rw [if_neg hlong]
      cases hentry : folder.entry (place ++ [part]) with
      | nothing =>
        refine iff_of_false (by simp) ?_
        rintro ⟨⟨name, hname, hsteps⟩, -⟩
        exact not_prefix_of_entry hentry hname
          (hsteps ▸ List.prefix_append _ _)
      | folder =>
        have hfree := not_prefix_concat hentry free
        refine (ih inside hfree).trans (and_congr_right ?_)
        -- no file stands here, so there have to be more parts
        rintro ⟨name, hname, hsteps⟩
        have hparts : parts ≠ [] := by
          rintro rfl
          exact hfree _ hname (by simp [hsteps])
        simp [hparts]
      | file bytes =>
        simp only
        split
        · next hparts =>
          subst hparts
          constructor
          · intro h
            obtain rfl := Except.ok.inj h
            obtain ⟨name, hname, hsteps⟩ := exists_of_entry_eq_file hentry
            exact ⟨⟨name, hname, by simpa using hsteps⟩, .inl ⟨rfl, trivial⟩⟩
          · rintro ⟨⟨name, hname, hsteps⟩, -⟩
            have hsame := sound.eq_of_entry_eq_file hentry hname
              (hsteps ▸ List.prefix_append _ _)
            exact congrArg Except.ok hsame.1.symm
        · next hparts =>
          refine iff_of_false (by simp) ?_
          rintro ⟨⟨name, hname, hsteps⟩, ⟨rfl, -⟩ | harrives⟩
          · exact hparts rfl
          have hsame := sound.eq_of_entry_eq_file hentry hname
            (hsteps ▸ List.prefix_append _ _)
          rw [hsame.2] at hsteps
          exact harrives.filter_ne_nil (List.self_eq_append_right.mp hsteps)

/-- **Whatever is read is a file of the folder**, whichever path leads to it. -/
theorem exists_of_read_eq_ok {path : String}
    (h : folder.read path = .ok contents) :
    ∃ name, (name, contents) ∈ folder.files := by
  unfold read at h
  split at h
  · cases h
  split at h
  · cases h
  split at h
  · cases h
  · exact exists_of_follow_eq_ok h

/-- **A path that does not go back leads to the file with its steps**, and to
no other: nothing is read unless there is one, and unless the path ends in a
name. -/
theorem Sound.read_eq_ok_iff (sound : folder.Sound) {path : String}
    (relative : path.toList.head? ≠ some '/') (inside : ".." ∉ partsOf path)
    (short : path.utf8ByteSize ≤ maxPath) :
    folder.read path = .ok contents ↔
      (∃ name, (name, contents) ∈ folder.files ∧ steps name = steps path) ∧
        Arrives (partsOf path) := by
  by_cases hempty : path = ""
  · subst hempty
    have hparts : partsOf "" = [""] := by cbv
    refine iff_of_false (by simp [read]) ?_
    rintro ⟨-, harrives⟩
    rw [hparts] at harrives
    exact absurd harrives (by simp [Arrives, stays])
  · have hfree : ∀ f ∈ folder.files, ¬ steps f.1 <+: [] := fun f hf hnil =>
      sound.ne f hf (List.prefix_nil.mp hnil)
    rw [read, if_neg hempty, if_neg (Nat.not_lt_of_le short),
      if_neg relative, sound.follow_eq_ok_iff inside hfree]
    rfl

example : Sound ⟨[("a/b.lox", ⟨#[]⟩), ("a/c/d", ⟨#[33]⟩), ("ab", ⟨#[]⟩)]⟩ :=
  ⟨by decide, by decide, by decide⟩
example :
    Folder.read ⟨[("a/b.lox", ⟨#[33]⟩)]⟩ "./a//b.lox" = .ok ⟨#[33]⟩ := by rfl

end Folder

/-- **The command runs the script that is stored under the path it is asked
for**, up to parts of the path that lead nowhere: it prints the tokens, reports
the errors, and tells by its exit code whether there are any. -/
theorem execute_stored_script {folder : Folder} (sound : folder.Sound)
    {args : List String} {path name source : String} {contents : ByteArray}
    (asks : Invocation.Asks args (.script path))
    (relative : path.toList.head? ≠ some '/')
    (inside : ".." ∉ Folder.partsOf path)
    (short : path.utf8ByteSize ≤ Folder.maxPath)
    (arrives : Folder.Arrives (Folder.partsOf path))
    (stored : (name, contents) ∈ folder.files)
    (steps_eq : Folder.steps name = Folder.steps path)
    (text : String.fromUTF8? contents = some source) (input : ByteArray) :
    Command.execute args folder.read input =
      .ok ⟨if errorsOf source = [] then 0 else Command.dataError,
        listing (tokensOf source),
        (errorsOf source).map (.describing path (.ofText source.toList)),
        none⟩ := by
  have hargs := Invocation.ofArguments_eq_ok_iff.mpr asks
  have hread := (sound.read_eq_ok_iff relative inside short).mpr
    ⟨⟨name, stored, steps_eq⟩, arrives⟩
  exact execute_script_eq_ok hargs hread text input

end LoxLexer
