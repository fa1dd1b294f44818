import RegionGossip.CommandLine
import RegionGossip.Proofs.Address.Grammar

/-!
# What arguments give

Arguments that are accepted spell options with their values, one after the other. An option that was
begun is held back until its value is there, and settled when the next one begins, so what is given
in the end is what the options give in the order in which they stand. Neighbours keep that order, an
option that may be given once has at most one value, and the environment stands in only for an
option that is not there.
-/

namespace RegionGossip

/-- Two steps succeed when the first one does, and the second one with its result. -/
theorem bind_eq_ok_iff {ε α β : Type} {first : Except ε α} {next : α → Except ε β} {result : β} :
    (first >>= next) = .ok result ↔ ∃ middle, first = .ok middle ∧ next middle = .ok result := by
  cases first with
  | error fault => exact ⟨fun h => (nomatch h), fun ⟨_, h, _⟩ => (nomatch h)⟩
  | ok middle =>
    exact ⟨fun h => ⟨middle, rfl, h⟩, fun ⟨_, hmiddle, h⟩ => Except.ok.inj hmiddle ▸ h⟩

namespace CommandLine

variable {environment : Environment} {arguments rest : List String} {argument value : String}
  {option : OptionName} {entries later : List (OptionName × String)}
  {given middle next : Given} {reading last finished : Reading} {line : CommandLine}

/-! ## The grammar -/

/-- An argument that may be the value of the option before it. -/
def IsValue (argument : String) : Prop := argument = "-" ∨ argument.toList.head? ≠ some '-'

/-- Arguments give options their values, in this order. -/
inductive Gives : List String → List (OptionName × String) → Prop
  | nothing : Gives [] []
  /-- Nothing may follow two minus signs alone. -/
  | closed : Gives ["--"] []
  | joined {name value : String} {option : OptionName} {rest : List String}
      {entries : List (OptionName × String)} : optionNames.lookup name = some option →
      Gives rest entries →
      Gives (("--" ++ name ++ "=" ++ value) :: rest) ((option, value) :: entries)
  | apart {name value : String} {option : OptionName} {rest : List String}
      {entries : List (OptionName × String)} : optionNames.lookup name = some option →
      IsValue value → Gives rest entries →
      Gives (("--" ++ name) :: value :: rest) ((option, value) :: entries)

/-- The values that are given to an option. -/
def valuesOf (option : OptionName) (entries : List (OptionName × String)) : List String :=
  entries.filterMap fun entry => if entry.1 = option then some entry.2 else none

/-- The values that are given in two parts are those of both. -/
theorem valuesOf_append : valuesOf option (entries ++ later) =
    valuesOf option entries ++ valuesOf option later :=
  List.filterMap_append

/-- Options are settled one after the other. -/
def settleAll (given : Given) (entries : List (OptionName × String)) : Except UsageFault Given :=
  entries.foldlM (fun given entry => settle given entry.1 entry.2) given

/-- Options are settled in two parts as they are in one. -/
theorem settleAll_append :
    settleAll given (entries ++ later) = settleAll given entries >>= (settleAll · later) :=
  List.foldlM_append

/-! ## Reading -/

/-- What an option that was begun gives. It must have its value. -/
inductive Held : Option Pending → List (OptionName × String) → Prop
  | none : Held none []
  | full (option : OptionName) (value : String) : Held (some ⟨option, some value⟩) [(option, value)]

/-- What an option that may have been begun and the arguments after it give. -/
inductive Completes : Option Pending → List String → List (OptionName × String) → Prop
  | held {pending : Option Pending} {before entries : List (OptionName × String)}
      {rest : List String} : Held pending before → Gives rest entries →
      Completes pending rest (before ++ entries)
  | value {value : String} {option : OptionName} {rest : List String}
      {entries : List (OptionName × String)} : IsValue value → Gives rest entries →
      Completes (some ⟨option, none⟩) (value :: rest) ((option, value) :: entries)

/-- Where no option was begun, the arguments alone give what is given. -/
theorem Completes.gives (hcompletes : Completes none rest entries) : Gives rest entries := by
  cases hcompletes with
  | held hheld hgives =>
    cases hheld
    exact hgives

/-- The option that was begun last is finished by being settled. -/
theorem exists_of_finishPending (hfinish : finishPending reading = .ok finished) :
    ∃ held given, Held reading.pending held ∧ settleAll reading.given held = .ok given ∧
      finished = { reading with given, pending := none } := by
  obtain ⟨given, pending, onlyValues⟩ := reading
  match pending with
  | none => exact ⟨[], given, .none, rfl, (Except.ok.inj hfinish).symm⟩
  | some ⟨option, none⟩ => exact nomatch hfinish
  | some ⟨option, some value⟩ =>
    obtain ⟨settled, hsettle, hfinished⟩ := bind_eq_ok_iff.1 hfinish
    refine ⟨[(option, value)], settled, .full option value, ?_, (Except.ok.inj hfinished).symm⟩
    exact bind_eq_ok_iff.2 ⟨settled, hsettle, rfl⟩

/-- A text with two minus signs in front. -/
theorem eq_minus_append {row : List Char} (hargument : argument.toList = '-' :: '-' :: row) :
    argument = "--" ++ String.ofList row := by
  rw [← String.toList_inj, hargument]
  simp

/-- Asking for help is never answered with a command line. -/
theorem bind_displayHelp_ne_ok {first : Except UsageFault Reading} :
    (first.bind fun _ => .error .displayHelp) ≠ (.ok last : Except UsageFault Reading) := by
  cases first <;> exact nofun

/-- A long option is settled at once if its value stands behind it, and begun otherwise. -/
theorem cases_of_readLong {name : String} {value : Option String}
    (hread : readLong reading name value = .ok last) :
    ∃ option finished, optionNames.lookup name = some option ∧
      finishPending reading = .ok finished ∧
      match value with
      | some value => ∃ given, settle finished.given option value = .ok given ∧
        last = { finished with given }
      | none => last = { finished with pending := some ⟨option, none⟩ } := by
  unfold readLong at hread
  cases hname : optionNames.lookup name with
  | some option =>
    cases value with
    | some value =>
      rw [hname] at hread
      obtain ⟨finished, hfinish, hsettled⟩ := bind_eq_ok_iff.1 hread
      obtain ⟨given, hsettle, hlast⟩ := bind_eq_ok_iff.1 hsettled
      exact ⟨option, finished, rfl, hfinish, given, hsettle, (Except.ok.inj hlast).symm⟩
    | none =>
      rw [hname] at hread
      obtain ⟨finished, hfinish, hlast⟩ := bind_eq_ok_iff.1 hread
      exact ⟨option, finished, rfl, hfinish, (Except.ok.inj hlast).symm⟩
  | none =>
    simp only [hname] at hread
    split at hread
    · split at hread
      · contradiction
      · exact absurd hread bind_displayHelp_ne_ok
    · contradiction

/-- An argument may be a value if nothing follows a minus sign that it begins with. -/
theorem isValue_of_ne (hshort : ∀ head tail, argument.toList ≠ '-' :: head :: tail) :
    IsValue argument := by
  rw [IsValue, ← String.toList_inj]
  cases hrow : argument.toList with
  | nil => exact .inr nofun
  | cons head tail =>
    cases tail with
    | nil =>
      by_cases hminus : head = '-'
      · exact .inl (by rw [hminus]; rfl)
      · exact .inr (by simpa using hminus)
    | cons next tail =>
      refine .inr fun hhead => hshort next tail ?_
      rw [hrow, Option.some.inj hhead]

/-- What one argument can be, as long as options may follow: the end of the options, an option with
its value, an option whose value is awaited, or the value that is awaited. -/
theorem cases_of_readArgument (hopen : reading.onlyValues = false)
    (hread : readArgument reading argument = .ok last) :
    (argument = "--" ∧ last = { reading with onlyValues := true }) ∨
    (∃ name value option finished given, argument = "--" ++ name ++ "=" ++ value ∧
      optionNames.lookup name = some option ∧ finishPending reading = .ok finished ∧
      settle finished.given option value = .ok given ∧ last = { finished with given }) ∨
    (∃ name option finished, argument = "--" ++ name ∧ optionNames.lookup name = some option ∧
      finishPending reading = .ok finished ∧
      last = { finished with pending := some ⟨option, none⟩ }) ∨
    ∃ option, IsValue argument ∧ reading.pending = some ⟨option, none⟩ ∧
      last = { reading with pending := some ⟨option, some argument⟩ } := by
  rw [readArgument, if_neg (by simp [hopen])] at hread
  split at hread
  · rename_i hargument
    exact .inl ⟨eq_minus_append hargument, (Except.ok.inj hread).symm⟩
  · rename_i row hargument
    split at hread
    · rename_i name value hsplit
      obtain ⟨option, finished, hname, hfinish, given, hsettle, hlast⟩ := cases_of_readLong hread
      refine .inr (.inl ⟨_, _, option, finished, given, ?_, hname, hfinish, hsettle, hlast⟩)
      rw [eq_minus_append hargument, (splitFirst_eq_some_iff.1 hsplit).1, ← String.toList_inj]
      simp
    · obtain ⟨option, finished, hname, hfinish, hlast⟩ := cases_of_readLong hread
      have hargument := eq_minus_append hargument
      exact .inr (.inr (.inl ⟨_, option, finished, hargument, hname, hfinish, hlast⟩))
  · exact absurd hread bind_displayHelp_ne_ok
  · contradiction
  · rename_i hshort
    unfold readValue at hread
    split at hread
    · rename_i hpending
      exact .inr (.inr (.inr ⟨_, isValue_of_ne hshort, hpending, (Except.ok.inj hread).symm⟩))
    · contradiction

/-- After the end of the options no argument is read any more. -/
theorem eq_nil_of_closed (hclosed : reading.onlyValues = true)
    (hread : arguments.foldlM readArgument reading = .ok last) :
    arguments = [] ∧ last = reading := by
  cases arguments with
  | nil => exact ⟨rfl, (Except.ok.inj hread).symm⟩
  | cons argument rest =>
    rw [List.foldlM_cons] at hread
    obtain ⟨next, hnext, -⟩ := bind_eq_ok_iff.1 hread
    rw [readArgument, if_pos hclosed, readValue, hclosed] at hnext
    contradiction

/-- What is given when the arguments are at an end is what the option that was begun before them and
the arguments give. -/
theorem exists_completes (hread : arguments.foldlM readArgument reading = .ok last)
    (hopen : reading.onlyValues = false) (hfinish : finishPending last = .ok finished) :
    ∃ entries, Completes reading.pending arguments entries ∧
      settleAll reading.given entries = .ok finished.given := by
  -- Along the arguments; the option that was begun is what the step before leaves to this one.
  induction arguments generalizing reading with
  | nil =>
    obtain rfl := Except.ok.inj hread
    obtain ⟨held, given, hheld, hsettle, rfl⟩ := exists_of_finishPending hfinish
    exact ⟨held ++ [], .held hheld .nothing, by simpa using hsettle⟩
  | cons argument rest ih =>
    rw [List.foldlM_cons] at hread
    obtain ⟨next, hnext, hrest⟩ := bind_eq_ok_iff.1 hread
    rcases cases_of_readArgument hopen hnext with ⟨rfl, rfl⟩ |
      ⟨name, value, option, before, given, rfl, hname, hbefore, hsettle, rfl⟩ |
      ⟨name, option, before, rfl, hname, hbefore, rfl⟩ | ⟨option, hvalue, hpending, rfl⟩
    · obtain ⟨rfl, rfl⟩ := eq_nil_of_closed rfl hrest
      obtain ⟨held, given, hheld, hsettle, rfl⟩ := exists_of_finishPending hfinish
      exact ⟨held ++ [], .held hheld .closed, by simpa using hsettle⟩
    · obtain ⟨held, settled, hheld, hsettled, rfl⟩ := exists_of_finishPending hbefore
      obtain ⟨entries, hcompletes, hentries⟩ := ih hrest hopen
      refine ⟨held ++ (option, value) :: entries, .held hheld (.joined hname hcompletes.gives), ?_⟩
      rw [settleAll_append, hsettled]
      show settleAll settled ((option, value) :: entries) = _
      exact bind_eq_ok_iff.2 ⟨given, hsettle, hentries⟩
    · obtain ⟨held, settled, hheld, hsettled, rfl⟩ := exists_of_finishPending hbefore
      obtain ⟨entries, hcompletes, hentries⟩ := ih hrest hopen
      refine ⟨held ++ entries, .held hheld ?_, ?_⟩
      · cases hcompletes with
        | held hnone => exact nomatch hnone
        | value hvalue hgives => exact .apart hname hvalue hgives
      · rw [settleAll_append, hsettled]
        exact hentries
    · obtain ⟨entries, hcompletes, hentries⟩ := ih hrest hopen
      refine ⟨entries, ?_, hentries⟩
      rw [hpending]
      cases hcompletes with
      | held hfull hgives =>
        cases hfull
        exact .value hvalue hgives

/-! ## What is given -/

/-- One state of what was given comes from another by some more options. -/
structure Adds (given : Given) (entries : List (OptionName × String)) (next : Given) : Prop where
  nodeId : next.nodeId.toList = given.nodeId.toList ++ valuesOf .nodeId entries
  listen : next.listen.toList = given.listen.toList ++ valuesOf .listen entries
  neighbors : ∃ added, (valuesOf .neighbor entries).map Address.parseNeighbor = added.map .ok ∧
    next.neighbors = given.neighbors ++ added

/-- Nothing is added by no options. -/
theorem Adds.nil (given : Given) : Adds given [] given where
  nodeId := by simp [valuesOf]
  listen := by simp [valuesOf]
  neighbors := ⟨[], rfl, (List.append_nil _).symm⟩

/-- What is added in two parts is added together. -/
theorem Adds.append (hfirst : Adds given entries middle) (hsecond : Adds middle later next) :
    Adds given (entries ++ later) next := by
  obtain ⟨added, hadded, hmiddle⟩ := hfirst.neighbors
  obtain ⟨more, hmore, hnext⟩ := hsecond.neighbors
  refine ⟨?_, ?_, added ++ more, ?_, ?_⟩
  · rw [hsecond.nodeId, hfirst.nodeId, valuesOf_append, List.append_assoc]
  · rw [hsecond.listen, hfirst.listen, valuesOf_append, List.append_assoc]
  · rw [List.map_append, ← hadded, ← hmore, ← List.map_append, valuesOf_append]
  · rw [hnext, hmiddle, List.append_assoc]

/-- An option that says neither who the node is nor where anyone listens adds nothing to that. -/
theorem Adds.of_other (hother : option ≠ .nodeId ∧ option ≠ .listen ∧ option ≠ .neighbor)
    (hnodeId : next.nodeId = given.nodeId) (hlisten : next.listen = given.listen)
    (hneighbors : next.neighbors = given.neighbors) : Adds given [(option, value)] next := by
  have hnone (wanted : OptionName) (hne : option ≠ wanted) :
      valuesOf wanted [(option, value)] = [] := by simp [valuesOf, hne]
  refine ⟨?_, ?_, [], ?_, ?_⟩
  · rw [hnodeId, hnone _ hother.1, List.append_nil]
  · rw [hlisten, hnone _ hother.2.1, List.append_nil]
  · rw [hnone _ hother.2.2]
    rfl
  · rw [hneighbors, List.append_nil]

/-- An option that is settled adds its value, where none was before if it may be given once. -/
theorem Adds.of_settle (hsettle : settle given option value = .ok next) :
    Adds given [(option, value)] next := by
  rw [settle] at hsettle
  split at hsettle
  · contradiction
  · rename_i hfirst
    cases option with
    | nodeId =>
      obtain rfl := Except.ok.inj hsettle
      have hnone : given.nodeId = none := by simpa [Given.has] using hfirst
      exact ⟨by simp [hnone, valuesOf], by simp [valuesOf], [], rfl, (List.append_nil _).symm⟩
    | listen =>
      obtain rfl := Except.ok.inj hsettle
      have hnone : given.listen = none := by simpa [Given.has] using hfirst
      exact ⟨by simp [valuesOf], by simp [hnone, valuesOf], [], rfl, (List.append_nil _).symm⟩
    | neighbor =>
      rw [Given.store] at hsettle
      split at hsettle
      · rename_i neighbor hneighbor
        obtain rfl := Except.ok.inj hsettle
        refine ⟨by simp [valuesOf], by simp [valuesOf], [neighbor], ?_, rfl⟩
        simp [valuesOf, hneighbor]
      · contradiction
    | config =>
      rw [Given.store] at hsettle
      split at hsettle
      · contradiction
      · obtain rfl := Except.ok.inj hsettle
        exact .of_other (by decide) rfl rfl rfl
    | cycleInterval =>
      rw [Given.store] at hsettle
      split at hsettle
      · obtain rfl := Except.ok.inj hsettle
        exact .of_other (by decide) rfl rfl rfl
      · contradiction
    | seedValue =>
      rw [Given.store] at hsettle
      split at hsettle
      · obtain rfl := Except.ok.inj hsettle
        exact .of_other (by decide) rfl rfl rfl
      · contradiction

/-- Options that are settled one after the other add their values. -/
theorem Adds.of_settleAll (hsettle : settleAll given entries = .ok next) :
    Adds given entries next := by
  induction entries generalizing given with
  | nil =>
    obtain rfl := Except.ok.inj hsettle
    exact .nil given
  | cons entry rest ih =>
    rw [settleAll, List.foldlM_cons] at hsettle
    obtain ⟨middle, hentry, hrest⟩ := bind_eq_ok_iff.1 hsettle
    exact (Adds.of_settle hentry).append (ih hrest)

/-! ## What the environment gives -/

/-- What stands in for an option that was not given. -/
def standIn (given : Given) (option : OptionName) (value : Option String) :
    List (OptionName × String) :=
  if given.has option then [] else value.toList.map (option, ·)

/-- A value that stands in is settled like one that is given. -/
theorem Adds.of_fill {value : Option String} (hfill : given.fill option value = .ok next) :
    Adds given (standIn given option value) next := by
  cases value with
  | none =>
    obtain rfl := Except.ok.inj hfill
    have hnone : standIn given option none = [] := by simp [standIn]
    exact hnone ▸ .nil given
  | some value =>
    rw [Given.fill] at hfill
    by_cases hgiven : given.has option = true
    · rw [if_pos hgiven] at hfill
      obtain rfl := Except.ok.inj hfill
      rw [standIn, if_pos hgiven]
      exact .nil given
    · rw [if_neg hgiven] at hfill
      rw [standIn, if_neg hgiven]
      exact .of_settle (by rw [settle, if_neg hgiven, hfill])

/-- A value stands in for its own option alone, and only if that was not given. -/
theorem valuesOf_standIn (wanted : OptionName) (value : Option String) :
    valuesOf wanted (standIn given option value) =
      if option = wanted then if given.has option then [] else value.toList else [] := by
  rw [standIn]
  by_cases hgiven : given.has option = true
  · simp [hgiven, valuesOf]
  · rw [if_neg hgiven, if_neg hgiven]
    by_cases hsame : option = wanted <;> cases value <;> simp [hsame, valuesOf]

/-- Where nothing was given in the beginning, all comes from the options. -/
theorem Adds.from_nothing {start : Given} (hadds : Adds start entries next)
    (hnodeId : start.nodeId = none) (hlisten : start.listen = none)
    (hneighbors : start.neighbors = []) :
    next.nodeId.toList = valuesOf .nodeId entries ∧ next.listen.toList = valuesOf .listen entries ∧
      (valuesOf .neighbor entries).map Address.parseNeighbor = next.neighbors.map .ok := by
  obtain ⟨added, hadded, hnext⟩ := hadds.neighbors
  refine ⟨?_, ?_, ?_⟩
  · rw [hadds.nodeId, hnodeId, Option.toList_none, List.nil_append]
  · rw [hadds.listen, hlisten, Option.toList_none, List.nil_append]
  · rw [hadded, hnext, hneighbors, List.nil_append]

/-- What is held in the end is the one value that was given, or what stands in where none was. -/
theorem value_or_standIn {held value final : Option String} {values : List String}
    (hheld : held.toList = values)
    (hfinal : final.toList = values ++ if held.isSome then [] else value.toList) :
    (∃ text, final = some text ∧ values = [text]) ∨ values = [] ∧ final = value := by
  subst hheld
  cases held with
  | some text => exact .inl ⟨text, by simpa using congrArg List.head? hfinal, rfl⟩
  | none => exact .inr ⟨rfl, by simpa using congrArg List.head? hfinal⟩

/-- An accepted command line says who the node is and where it listens as its one option for that
does, or else the environment, or else the default; its neighbours are those of its options, in
their order. -/
theorem exists_gives_of_parseIn (hline : parseIn environment arguments = .ok line) :
    ∃ entries, Gives arguments entries ∧
      (valuesOf .nodeId entries = [line.nodeId] ∨
        valuesOf .nodeId entries = [] ∧ environment.nodeId = some line.nodeId) ∧
      (valuesOf .listen entries = [line.listen] ∨
        valuesOf .listen entries = [] ∧ line.listen = environment.listen.getD defaultListen) ∧
      (valuesOf .neighbor entries).map Address.parseNeighbor = line.neighbors.map .ok := by
  obtain ⟨last, hread, hline⟩ := bind_eq_ok_iff.1 hline
  obtain ⟨finished, hfinish, hline⟩ := bind_eq_ok_iff.1 hline
  obtain ⟨named, hnamed, hline⟩ := bind_eq_ok_iff.1 hline
  obtain ⟨placed, hplaced, hline⟩ := bind_eq_ok_iff.1 hline
  obtain ⟨filled, hfilled, hline⟩ := bind_eq_ok_iff.1 hline
  obtain ⟨entries, hcompletes, hsettle⟩ := exists_completes hread rfl hfinish
  have hgiven := Adds.of_settleAll hsettle
  have hwithName := hgiven.append (Adds.of_fill hnamed)
  have hall := (hwithName.append (Adds.of_fill hplaced)).append (Adds.of_fill hfilled)
  obtain ⟨hheldName, -, -⟩ := hgiven.from_nothing rfl rfl rfl
  obtain ⟨-, hheldListen, -⟩ := hwithName.from_nothing rfl rfl rfl
  obtain ⟨hname, hlisten, hneighbors⟩ := hall.from_nothing rfl rfl rfl
  simp only [valuesOf_append, valuesOf_standIn, reduceCtorEq, if_true, if_false, List.append_nil]
    at hname hheldListen hlisten hneighbors
  split at hline
  · contradiction
  · rename_i nodeId hnodeId
    obtain rfl := Except.ok.inj hline
    refine ⟨entries, hcompletes.gives, ?_, ?_, hneighbors⟩
    · rcases value_or_standIn hheldName hname with ⟨text, htext, hvalues⟩ | ⟨hvalues, hstands⟩
      · obtain rfl := Option.some.inj (hnodeId.symm.trans htext)
        exact .inl hvalues
      · exact .inr ⟨hvalues, hstands.symm.trans hnodeId⟩
    · rcases value_or_standIn hheldListen hlisten with ⟨text, htext, hvalues⟩ | ⟨hvalues, hstands⟩
      · exact .inl (by rw [hvalues, htext, Option.getD_some])
      · exact .inr ⟨hvalues, by rw [hstands]⟩

end CommandLine

end RegionGossip
