import RegionGossip.Proofs.Binary64.Value
import RegionGossip.Proofs.Manager.Broadcast
import RegionGossip.Settings.Tuning

/-!
# Only valid settings become current

Settings are looked at before they enter a cell, on every way that leads into one. So whatever a
program does with its handles, the settings that it finds through one of them have a loss fraction
between zero and one, and they are those that were given last through this handle or a copy of it.
A message is never refused for its settings.
-/

namespace RegionGossip

/-! ## Bounds -/

/-- The loss fraction is a number between zero and one. -/
def Settings.WithinBounds (settings : Settings) : Prop :=
  settings.dropFraction.isFinite = true ∧ 0 ≤ settings.dropFraction.value ∧
    settings.dropFraction.value ≤ 1

/-- What is at most one and not below zero is finite. -/
theorem Binary64.isFinite_of_unit {x : Binary64} (hlow : Binary64.zero.atMost x = true)
    (hhigh : x.atMost Binary64.one = true) : x.isFinite = true := by
  have hlowRank : Binary64.zero.rank ≤ x.rank := by simp_all [atMost]
  have hhighRank : x.rank ≤ Binary64.one.rank := by simp_all [atMost]
  rw [show Binary64.zero.rank = 0 from rfl] at hlowRank
  rw [show Binary64.one.rank = 0x3ff0000000000000 from rfl] at hhighRank
  have hbits := x.bits.toNat_lt
  simp only [rank, isNegative, decide_eq_true_eq, sizeBits] at hlowRank hhighRank
  refine decide_eq_true (?_ : x.bits.toNat / 0x10000000000000 % 2048 < 2047)
  split at hhighRank <;> split at hlowRank <;> omega

namespace Settings

variable {settings : Settings}

/-- Settings are valid when their loss fraction is within its bounds. -/
theorem isValid_iff_withinBounds : settings.isValid = true ↔ settings.WithinBounds := by
  rw [isValid, Bool.and_eq_true, WithinBounds, ← Binary64.value_zero, ← Binary64.value_one]
  constructor
  · rintro ⟨hlow, hhigh⟩
    have hfinite := Binary64.isFinite_of_unit hlow hhigh
    exact ⟨hfinite, (Binary64.atMost_iff_value_le rfl hfinite).1 hlow,
      (Binary64.atMost_iff_value_le hfinite rfl).1 hhigh⟩
  · rintro ⟨hfinite, hlow, hhigh⟩
    exact ⟨(Binary64.atMost_iff_value_le rfl hfinite).2 hlow,
      (Binary64.atMost_iff_value_le hfinite rfl).2 hhigh⟩

/-- A check lets valid settings pass unchanged and nothing else. -/
theorem check_eq_ok_iff {checked : Settings} :
    settings.check = .ok checked ↔ settings.isValid = true ∧ checked = settings := by
  rw [check]
  split
  · rename_i hvalid
    exact ⟨fun hchecked => ⟨hvalid, (Except.ok.inj hchecked).symm⟩, fun hboth => hboth.2 ▸ rfl⟩
  · rename_i hinvalid
    refine ⟨fun hchecked => ?_, fun hboth => absurd hboth.1 hinvalid⟩
    cases hchecked

end Settings

/-! ## Refusals -/

/-- What is refused is refused for settings. -/
def BlamesSettings {α : Type} (outcome : Except MeshError α) : Prop :=
  ∀ error, outcome = .error error → ∃ fault, error = .settings fault

namespace BlamesSettings

variable {α β : Type} {outcome : Except MeshError α}

/-- What succeeds blames nothing. -/
theorem ok (result : α) : BlamesSettings (.ok result) := fun _ => (nomatch ·)

/-- What is refused for settings blames them. -/
theorem error (fault : SettingsFault) : BlamesSettings (.error (.settings fault) : Except _ α) :=
  fun _ herror => ⟨fault, (Except.error.inj herror).symm⟩

/-- Two steps blame settings when both do. -/
theorem bind {next : α → Except MeshError β} (houtcome : BlamesSettings outcome)
    (hnext : ∀ result, BlamesSettings (next result)) : BlamesSettings (outcome >>= next) := by
  cases outcome with
  | error fault =>
    intro error herror
    exact houtcome error (congrArg Except.error (Except.error.inj herror))
  | ok result => exact hnext result

/-- What becomes of a result makes no difference. -/
theorem map (houtcome : BlamesSettings outcome) (change : α → β) :
    BlamesSettings (outcome.map change) := by
  cases outcome with
  | error fault =>
    intro error herror
    exact houtcome error (congrArg Except.error (Except.error.inj herror))
  | ok result => exact ok _

/-- A check refuses settings for themselves. -/
theorem check (settings : Settings) : BlamesSettings settings.check := by
  rw [Settings.check]
  split
  · exact ok _
  · exact error _

/-- A file is refused for the settings in it, or because there are none. -/
theorem ofFile (path : String) (content : Option String) :
    BlamesSettings (Settings.ofFile path content) := by
  cases content with
  | none => exact error _
  | some text =>
    rw [Settings.ofFile, Settings.ofToml]
    split
    · exact check _
    · exact error _

end BlamesSettings

/-- No message is refused for valid settings. -/
theorem Link.sendBy_ne_settings {settings : Settings} (hvalid : settings.isValid = true)
    (deflate : List UInt8 → List UInt8) (payload : Payload) (coin writes : Bool) (link : Link)
    (fault : SettingsFault) :
    (link.sendBy deflate settings payload coin writes).1 ≠ .failed (.settings fault) := by
  rw [sendBy, Settings.loses_of_isValid hvalid]
  cases settings.drops coin with
  | true => split <;> simp
  | false =>
    simp only [write, Wire.writeFrame]
    split_ifs <;> simp

/-! ## Single operations -/

namespace SettingsStore

variable {store after : SettingsStore} {handle : SettingsHandle} {settings : Settings}

/-- Valid settings take the place of the current ones, others are refused. -/
theorem replace_eq_ok_iff : store.replace handle settings = .ok after ↔
    settings.isValid = true ∧ after = ⟨store.cells.set handle.cell settings⟩ := by
  rw [replace]
  cases hcheck : settings.check with
  | error fault =>
    refine ⟨(nomatch ·), fun hboth => ?_⟩
    exact nomatch hcheck.symm.trans (Settings.check_eq_ok_iff.2 ⟨hboth.1, rfl⟩)
  | ok checked =>
    obtain ⟨hvalid, rfl⟩ := Settings.check_eq_ok_iff.1 hcheck
    exact ⟨fun hafter => ⟨hvalid, (Except.ok.inj hafter).symm⟩, fun hboth => hboth.2 ▸ rfl⟩

/-- The settings of a file take the place of the current ones if there are any and they are valid. -/
theorem reload_eq_ok_iff {path : String} {content : Option String} :
    store.reload handle path content = .ok after ↔
      ∃ settings, Settings.ofFile path content = .ok settings ∧
        store.replace handle settings = .ok after := by
  rw [reload]
  cases hread : Settings.ofFile path content with
  | error fault => exact ⟨(nomatch ·), fun ⟨_, hsettings, _⟩ => nomatch hsettings⟩
  | ok settings =>
    refine ⟨fun hafter => ⟨settings, rfl, hafter⟩, ?_⟩
    rintro ⟨found, hfound, hafter⟩
    rwa [← Except.ok.inj hfound] at hafter

/-- A cell is opened with valid settings, which are the last of all cells then. -/
theorem openCell_eq_ok_iff {opened : SettingsStore × SettingsHandle} :
    store.openCell settings = .ok opened ↔
      settings.isValid = true ∧ opened = (⟨store.cells ++ [settings]⟩, ⟨store.cells.length⟩) := by
  rw [openCell]
  cases hcheck : settings.check with
  | error fault =>
    refine ⟨(nomatch ·), fun hboth => ?_⟩
    exact nomatch hcheck.symm.trans (Settings.check_eq_ok_iff.2 ⟨hboth.1, rfl⟩)
  | ok checked =>
    obtain ⟨hvalid, rfl⟩ := Settings.check_eq_ok_iff.1 hcheck
    exact ⟨fun hafter => ⟨hvalid, (Except.ok.inj hafter).symm⟩, fun hboth => hboth.2 ▸ rfl⟩

end SettingsStore

namespace Tuning

variable {tuning after : Tuning} {call : Call} {handle : SettingsHandle}

/-! ## What a call gives -/

/-- The settings that a call gave to a handle, if it succeeded. Those of a new cell are given to the
handle that was made. -/
def Call.gift? (before after : Tuning) : Call → Option (SettingsHandle × Settings)
  | .openDefault => after.handles.getLast?.map (·, {})
  | .openCell settings => after.handles.getLast?.map (·, settings)
  | .copy _ => none
  | .replace number settings => before.handles[number]?.map (·, settings)
  | .reload number path content => do
    let handle ← before.handles[number]?
    let settings ← (Settings.ofFile path content).toOption
    return (handle, settings)
  | .take _ => none

/-- All settings that were given to handles by calls that succeeded, in this order. -/
def gifts (tuning : Tuning) : List Call → List (SettingsHandle × Settings)
  | [] => []
  | call :: rest =>
    match tuning.answer call with
    | some (.ok after) => (call.gift? tuning after).toList ++ gifts after rest
    | _ => gifts tuning rest

/-- What a call that succeeds may do: it opens a cell, copies a handle, gives settings to a handle,
or takes settings out. Settings that enter a cell are valid. -/
theorem cases_of_answer (hanswer : tuning.answer call = some (.ok after)) :
    (∃ settings : Settings, settings.isValid = true ∧
      after = tuning.addHandle ⟨tuning.store.cells ++ [settings]⟩ ⟨tuning.store.cells.length⟩ ∧
      call.gift? tuning after = some (⟨tuning.store.cells.length⟩, settings)) ∨
    (∃ handle ∈ tuning.handles, after = tuning.addHandle tuning.store handle ∧
      call.gift? tuning after = none) ∨
    (∃ handle ∈ tuning.handles, ∃ settings : Settings, settings.isValid = true ∧
      after = { tuning with store := ⟨tuning.store.cells.set handle.cell settings⟩ } ∧
      call.gift? tuning after = some (handle, settings)) ∨
    ∃ handle ∈ tuning.handles,
      after = { tuning with taken := tuning.taken ++ [tuning.store.current handle] } ∧
      call.gift? tuning after = none := by
  cases call with
  | openDefault =>
    obtain rfl := Except.ok.inj (Option.some.inj hanswer)
    exact .inl ⟨{}, Settings.isValid_default, rfl, congrArg (Option.map _) List.getLast?_concat⟩
  | openCell settings =>
    have hopened := Option.some.inj hanswer
    cases hopen : tuning.store.openCell settings with
    | error fault => exact nomatch hopen ▸ hopened
    | ok opened =>
      obtain rfl := Except.ok.inj (hopen ▸ hopened)
      obtain ⟨hvalid, rfl⟩ := SettingsStore.openCell_eq_ok_iff.1 hopen
      exact .inl ⟨settings, hvalid, rfl, congrArg (Option.map _) List.getLast?_concat⟩
  | copy number =>
    obtain ⟨handle, hhandle, hafter⟩ := Option.map_eq_some_iff.1 hanswer
    obtain rfl := Except.ok.inj hafter
    exact .inr (.inl ⟨handle, List.mem_of_getElem? hhandle, rfl, rfl⟩)
  | replace number settings =>
    obtain ⟨handle, hhandle, hafter⟩ := Option.map_eq_some_iff.1 hanswer
    cases hreplace : tuning.store.replace handle settings with
    | error fault => exact nomatch hreplace ▸ hafter
    | ok store =>
      obtain rfl := Except.ok.inj (hreplace ▸ hafter)
      obtain ⟨hvalid, rfl⟩ := SettingsStore.replace_eq_ok_iff.1 hreplace
      refine .inr (.inr (.inl ⟨handle, List.mem_of_getElem? hhandle, settings, hvalid, rfl, ?_⟩))
      rw [Call.gift?, hhandle]
      rfl
  | reload number path content =>
    obtain ⟨handle, hhandle, hafter⟩ := Option.map_eq_some_iff.1 hanswer
    cases hreload : tuning.store.reload handle path content with
    | error fault => exact nomatch hreload ▸ hafter
    | ok store =>
      obtain rfl := Except.ok.inj (hreload ▸ hafter)
      obtain ⟨settings, hread, hreplace⟩ := SettingsStore.reload_eq_ok_iff.1 hreload
      obtain ⟨hvalid, rfl⟩ := SettingsStore.replace_eq_ok_iff.1 hreplace
      refine .inr (.inr (.inl ⟨handle, List.mem_of_getElem? hhandle, settings, hvalid, rfl, ?_⟩))
      rw [Call.gift?, hhandle, hread]
      rfl
  | take number =>
    obtain ⟨handle, hhandle, hafter⟩ := Option.map_eq_some_iff.1 hanswer
    obtain rfl := Except.ok.inj hafter
    exact .inr (.inr (.inr ⟨handle, List.mem_of_getElem? hhandle, rfl, rfl⟩))

/-! ## What calls keep -/

/-- Every handle refers to a cell, and the settings in all cells are valid. -/
structure Sound (tuning : Tuning) : Prop where
  within : ∀ handle ∈ tuning.handles, handle.cell < tuning.store.cells.length
  valid : ∀ settings ∈ tuning.store.cells, settings.isValid = true

/-- A call that succeeds keeps a sound state sound. -/
theorem Sound.answer (hsound : tuning.Sound) (hanswer : tuning.answer call = some (.ok after)) :
    after.Sound := by
  rcases cases_of_answer hanswer with ⟨settings, hvalid, rfl, -⟩ | ⟨handle, hhandle, rfl, -⟩ |
    ⟨handle, hhandle, settings, hvalid, rfl, -⟩ | ⟨handle, hhandle, rfl, -⟩
  · constructor
    · intro handle hhandle
      show handle.cell < (tuning.store.cells ++ [settings]).length
      rw [List.length_append, List.length_singleton]
      rcases List.mem_append.1 hhandle with hold | hnew
      · exact Nat.lt_succ_of_lt (hsound.within handle hold)
      · rw [List.mem_singleton.1 hnew]
        exact Nat.lt_succ_self _
    · intro held hheld
      rcases List.mem_append.1 hheld with hold | hnew
      · exact hsound.valid held hold
      · rwa [List.mem_singleton.1 hnew]
  · refine ⟨fun other hother => ?_, hsound.valid⟩
    rcases List.mem_append.1 hother with hold | hnew
    · exact hsound.within other hold
    · rw [List.mem_singleton.1 hnew]
      exact hsound.within handle hhandle
  · constructor
    · intro other hother
      show other.cell < (tuning.store.cells.set handle.cell settings).length
      rw [List.length_set]
      exact hsound.within other hother
    · intro held hheld
      rcases List.mem_or_eq_of_mem_set hheld with hold | rfl
      · exact hsound.valid held hold
      · exact hvalid
  · exact ⟨hsound.within, hsound.valid⟩

/-- What is kept by every call that succeeds is kept by any sequence of calls. -/
theorem drive_keeps {Kept : Tuning → Prop}
    (hstep : ∀ {before after : Tuning} {call : Call}, Kept before →
      before.answer call = some (.ok after) → Kept after)
    (hkept : Kept tuning) (calls : List Call) : Kept (tuning.drive calls) := by
  refine List.foldlRecOn calls perform hkept fun before hbefore call _ => ?_
  rw [perform]
  split
  · rename_i hanswer
    exact hstep hbefore hanswer
  · exact hbefore

/-- A sound state stays sound. -/
theorem Sound.drive (hsound : tuning.Sound) (calls : List Call) : (tuning.drive calls).Sound :=
  drive_keeps Sound.answer hsound calls

/-- Without cells everything is sound. -/
theorem sound_fresh : fresh.Sound :=
  ⟨fun _ => (nomatch ·), fun _ => (nomatch ·)⟩

/-- A handle of a sound state finds the settings in its cell. -/
theorem Sound.getElem?_cell (hsound : tuning.Sound) (hhandle : handle ∈ tuning.handles) :
    tuning.store.cells[handle.cell]? = some (tuning.store.current handle) := by
  rw [SettingsStore.current, List.getElem?_eq_getElem (hsound.within handle hhandle),
    Option.getD_some]

/-- The settings that a handle of a sound state finds are valid. -/
theorem Sound.isValid_current (hsound : tuning.Sound) (hhandle : handle ∈ tuning.handles) :
    (tuning.store.current handle).isValid = true :=
  hsound.valid _ (List.mem_of_getElem? (hsound.getElem?_cell hhandle))

/-! ## What was given last -/

/-- After a call that succeeds, a cell has what the call gave to a handle on it, and what it had
before if the call gave nothing to one. -/
theorem Sound.getElem?_answer (hsound : tuning.Sound)
    (hanswer : tuning.answer call = some (.ok after)) (handle : SettingsHandle) :
    after.store.cells[handle.cell]? =
      ((call.gift? tuning after).toList.lookup handle).or tuning.store.cells[handle.cell]? := by
  rcases cases_of_answer hanswer with ⟨settings, -, rfl, hgift⟩ | ⟨copied, hcopied, rfl, hgift⟩ |
    ⟨target, htarget, settings, -, rfl, hgift⟩ | ⟨read, hread, rfl, hgift⟩
  · rw [hgift, Option.toList_some, List.lookup_cons, List.lookup_nil]
    show (tuning.store.cells ++ [settings])[handle.cell]? = _
    cases hsame : handle == ⟨tuning.store.cells.length⟩ with
    | true =>
      rw [beq_iff_eq.1 hsame, List.getElem?_concat_length]
      rfl
    | false =>
      have hcell : handle.cell ≠ tuning.store.cells.length := fun hcell =>
        beq_eq_false_iff_ne.1 hsame (congrArg SettingsHandle.mk hcell)
      rcases Nat.lt_or_gt_of_ne hcell with hold | hbeyond
      · exact List.getElem?_append_left hold
      · show _ = tuning.store.cells[handle.cell]?
        rw [List.getElem?_eq_none hbeyond.le, List.getElem?_eq_none]
        rwa [List.length_append, List.length_singleton]
  · rw [hgift]
    rfl
  · rw [hgift, Option.toList_some, List.lookup_cons, List.lookup_nil]
    show (tuning.store.cells.set target.cell settings)[handle.cell]? = _
    cases hsame : handle == target with
    | true =>
      rw [beq_iff_eq.1 hsame, List.getElem?_set_self (hsound.within target htarget)]
      rfl
    | false =>
      rw [List.getElem?_set_ne]
      · rfl
      · exact fun hcell => beq_eq_false_iff_ne.1 hsame (congrArg SettingsHandle.mk hcell.symm)
  · rw [hgift]
    rfl

/-- After some calls, a cell has what was given last to a handle on it. -/
theorem Sound.getElem?_drive (hsound : tuning.Sound) (calls : List Call) (handle : SettingsHandle) :
    (tuning.drive calls).store.cells[handle.cell]? =
      ((tuning.gifts calls).reverse.lookup handle).or tuning.store.cells[handle.cell]? := by
  induction calls generalizing tuning with
  | nil => rfl
  | cons call rest ih =>
    show ((tuning.perform call).drive rest).store.cells[handle.cell]? = _
    rw [perform, gifts]
    cases hanswer : tuning.answer call with
    | none => exact ih hsound
    | some outcome =>
      cases outcome with
      | error fault => exact ih hsound
      | ok after =>
        dsimp only
        rw [ih (hsound.answer hanswer), hsound.getElem?_answer hanswer handle, List.reverse_append,
          List.lookup_append, Option.or_assoc]
        cases call.gift? tuning after <;> rfl

/-- A handle finds what was given last through it or through a copy of it. -/
theorem lookup_gifts (calls : List Call) (hhandle : handle ∈ (fresh.drive calls).handles) :
    (fresh.gifts calls).reverse.lookup handle = some ((fresh.drive calls).store.current handle) := by
  rw [← (sound_fresh.drive calls).getElem?_cell hhandle, sound_fresh.getElem?_drive calls handle]
  exact Option.or_none.symm

/-- What was taken out stays as it was. -/
theorem taken_isPrefix_drive (tuning : Tuning) (calls : List Call) :
    tuning.taken <+: (tuning.drive calls).taken := by
  have hstep : ∀ {before after : Tuning} {call : Call}, tuning.taken <+: before.taken →
      before.answer call = some (.ok after) → tuning.taken <+: after.taken := by
    intro before after call hbefore hanswer
    rcases cases_of_answer hanswer with ⟨settings, -, rfl, -⟩ | ⟨copied, -, rfl, -⟩ |
      ⟨target, -, settings, -, rfl, -⟩ | ⟨read, -, rfl, -⟩
    · exact hbefore
    · exact hbefore
    · exact hbefore
    · exact hbefore.trans (List.prefix_append _ _)
  exact drive_keeps hstep (List.prefix_refl _) calls

/-- A new cell has a handle that differs from all others. -/
theorem Sound.exists_opened (hsound : tuning.Sound) {settings : Settings}
    (hvalid : settings.isValid = true) :
    ∃ handle, handle ∉ tuning.handles ∧
      (tuning.perform (.openCell settings)).handles = tuning.handles ++ [handle] := by
  refine ⟨⟨tuning.store.cells.length⟩, fun hhandle => (hsound.within _ hhandle).false, ?_⟩
  have hopen : tuning.store.openCell settings =
      .ok (⟨tuning.store.cells ++ [settings]⟩, ⟨tuning.store.cells.length⟩) :=
    SettingsStore.openCell_eq_ok_iff.2 ⟨hvalid, rfl⟩
  rw [perform, Tuning.answer, hopen]
  rfl

/-- A call is refused only for settings. -/
theorem blamesSettings_of_answer {outcome : Except MeshError Tuning}
    (hanswer : tuning.answer call = some outcome) : BlamesSettings outcome := by
  have hreplace : ∀ (handle : SettingsHandle) (settings : Settings),
      BlamesSettings (tuning.store.replace handle settings) := fun handle settings =>
    (BlamesSettings.check settings).bind fun _ => .ok _
  cases call with
  | openDefault =>
    obtain rfl := Option.some.inj hanswer
    exact .ok _
  | openCell settings =>
    obtain rfl := Option.some.inj hanswer
    exact ((BlamesSettings.check settings).bind fun _ => .ok _).map _
  | copy number =>
    obtain ⟨handle, -, rfl⟩ := Option.map_eq_some_iff.1 hanswer
    exact .ok _
  | replace number settings =>
    obtain ⟨handle, -, rfl⟩ := Option.map_eq_some_iff.1 hanswer
    exact (hreplace handle settings).map _
  | reload number path content =>
    obtain ⟨handle, -, rfl⟩ := Option.map_eq_some_iff.1 hanswer
    exact ((BlamesSettings.ofFile path content).bind fun settings => hreplace handle settings).map _
  | take number =>
    obtain ⟨handle, -, rfl⟩ := Option.map_eq_some_iff.1 hanswer
    exact .ok _

/-- A handle takes settings exactly when they are valid. -/
theorem replaces_iff {number : Nat} {settings : Settings}
    (hhandle : tuning.handles[number]? = some handle) :
    (∃ after, tuning.answer (.replace number settings) = some (.ok after)) ↔
      settings.isValid = true := by
  rw [answer, hhandle, Option.map_some]
  constructor
  · rintro ⟨after, hafter⟩
    cases hreplace : tuning.store.replace handle settings with
    | error fault => exact nomatch hreplace ▸ Option.some.inj hafter
    | ok store => exact (SettingsStore.replace_eq_ok_iff.1 hreplace).1
  · intro hvalid
    rw [SettingsStore.replace_eq_ok_iff.2 ⟨hvalid, rfl⟩]
    exact ⟨_, rfl⟩

/-- After any calls, the settings that a handle finds have a loss fraction between zero and one, are
those that were given last through it or a copy of it, and let every message be sent. A new cell has
a new handle, and a copy of a handle is equal to it. A call that is refused changes
nothing, and a handle refuses settings exactly when their loss fraction is out of bounds. What is
taken out are the current settings, and they stay as they were. -/
theorem only_valid_current (calls : List Call) :
    let tuning := fresh.drive calls
    (∀ handle ∈ tuning.handles,
      (tuning.store.current handle).WithinBounds ∧
      (fresh.gifts calls).reverse.lookup handle = some (tuning.store.current handle) ∧
      ∀ deflate payload coin writes (link : Link) fault,
        (link.sendBy deflate (tuning.store.current handle) payload coin writes).1 ≠
          .failed (.settings fault)) ∧
    tuning.answer .openDefault = tuning.answer (.openCell {}) ∧
    (∀ settings : Settings, settings.WithinBounds → ∃ handle, handle ∉ tuning.handles ∧
      (tuning.perform (.openCell settings)).handles = tuning.handles ++ [handle]) ∧
    (∀ number handle, tuning.handles[number]? = some handle →
      (tuning.perform (.copy number)).handles = tuning.handles ++ [handle] ∧
      (tuning.perform (.take number)).taken = tuning.taken ++ [tuning.store.current handle] ∧
      ∀ settings : Settings,
        (∃ after, tuning.answer (.replace number settings) = some (.ok after)) ↔
          settings.WithinBounds) ∧
    (∀ call error, tuning.answer call = some (.error error) →
      tuning.perform call = tuning ∧ ∃ fault, error = .settings fault) ∧
    ∀ later, tuning.taken <+: (tuning.drive later).taken := by
  intro tuning
  have hsound : tuning.Sound := sound_fresh.drive calls
  refine ⟨?current, rfl, ?opened, ?named, ?refused, tuning.taken_isPrefix_drive⟩
  case current =>
    intro handle hhandle
    have hvalid := hsound.isValid_current hhandle
    exact ⟨Settings.isValid_iff_withinBounds.1 hvalid, lookup_gifts calls hhandle,
      Link.sendBy_ne_settings hvalid⟩
  case opened =>
    exact fun settings hbounds =>
      hsound.exists_opened (Settings.isValid_iff_withinBounds.2 hbounds)
  case named =>
    intro number handle hhandle
    refine ⟨?_, ?_, fun settings => ?_⟩
    · rw [perform, answer, hhandle]
      rfl
    · rw [perform, answer, hhandle]
      rfl
    · rw [replaces_iff hhandle, Settings.isValid_iff_withinBounds]
  case refused =>
    intro call error hanswer
    refine ⟨?_, blamesSettings_of_answer hanswer error rfl⟩
    rw [perform, hanswer]

/-- Settings that were given through a copy stay, when an undefined loss fraction and a file that is
not there are refused after them. -/
example :
    let given : Settings := { dropFraction := .one, compress := true }
    let tuning := fresh.drive
      [.openDefault, .copy 0, .replace 1 given, .replace 0 { dropFraction := .undefined },
        .reload 1 "settings.toml" none]
    tuning.handles.map tuning.store.current = [given, given] := by
  decide +kernel

end Tuning

end RegionGossip
