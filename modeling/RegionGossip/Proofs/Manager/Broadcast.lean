import Mathlib.Data.List.Induction
import Mathlib.Data.List.Nodup
import RegionGossip.Proofs.Manager.Runs
import RegionGossip.Proofs.SortedMap.Update

/-!
# A broadcast accounts for every link

A broadcast works on one link of the table after the other, and takes links out of the table while it
goes on. What becomes of a link depends on nothing but this link and the settings, so each of them
fares as if it was the only one: a frame is written to it, or the message is lost on purpose, or the
link is closed and leaves the table. In which order the links are visited does not matter.
-/

namespace RegionGossip

open Std

/-! ## Losses -/

/-- Equal numbers are defined and stand at the same place. -/
theorem Binary64.rank_of_beq {x y : Binary64} (hequal : (x == y) = true) :
    x.isNaN = false ∧ x.rank = y.rank := by
  have hboth : (!x.isNaN && !y.isNaN && x.rank == y.rank) = true := hequal
  simp only [Bool.and_eq_true, Bool.not_eq_true', beq_iff_eq] at hboth
  exact ⟨hboth.1.1, hboth.2⟩

/-- Whether a message is lost on purpose, where the loss fraction is within its bounds. -/
def Settings.drops (settings : Settings) (coin : Bool) : Bool :=
  Binary64.zero.below settings.dropFraction &&
    (Binary64.one.atMost settings.dropFraction || coin)

namespace Settings

variable {settings : Settings} {coin : Bool}

/-- Valid settings decide about every message. -/
theorem loses_of_isValid (hvalid : settings.isValid = true) (coin : Bool) :
    settings.loses coin = .ok (settings.drops coin) := by
  have hbound : settings.dropFraction.atMost Binary64.one = true := (Bool.and_eq_true_iff.1 hvalid).2
  rw [loses, drops]
  cases hlossy : Binary64.zero.below settings.dropFraction <;> simp [hbound]

/-- Nothing is lost where the loss fraction is zero. -/
theorem drops_of_zero (hzero : (settings.dropFraction == .zero) = true) (coin : Bool) :
    settings.drops coin = false := by
  obtain ⟨hdefined, hrank⟩ := Binary64.rank_of_beq hzero
  have hbelow : Binary64.zero.below settings.dropFraction = false := by
    simp [Binary64.below, Binary64.atMost, hdefined, hrank, show Binary64.zero.isNaN = false from rfl]
  rw [drops, hbelow, Bool.false_and]

/-- Everything is lost where the loss fraction is one. -/
theorem drops_of_one (hone : (settings.dropFraction == .one) = true) (coin : Bool) :
    settings.drops coin = true := by
  obtain ⟨hdefined, hrank⟩ := Binary64.rank_of_beq hone
  have hbelow : Binary64.zero.below settings.dropFraction = true := by
    rw [Binary64.below, Binary64.atMost, Binary64.atMost, hdefined, hrank]
    decide
  have hatMost : Binary64.one.atMost settings.dropFraction = true := by
    rw [Binary64.atMost, hdefined, hrank]
    decide
  rw [drops, hbelow, hatMost, Bool.true_or, Bool.true_and]

end Settings

/-! ## One link -/

/-- What becomes of a broadcast on one link. -/
inductive Fate
  /-- A frame is written. -/
  | delivered
  /-- The message is lost on purpose. -/
  | dropped
  /-- The link is not in use, or the message cannot be written. -/
  | failed
  deriving DecidableEq, Repr

namespace Link

variable (deflate : List UInt8 → List UInt8) (settings : Settings) (payload : Payload)
  (coin writes : Bool)

/-- What becomes of a broadcast on a link. It fails on a link that is not in use; where the message is
not lost, it also fails without a write half, with a body beyond the limit, and on a connection that
takes nothing. -/
def fate (link : Link) : Fate :=
  if link.state ≠ .connected then .failed
  else if settings.drops coin then .dropped
  else if link.writable ∧ (Wire.encodeShareBy deflate settings payload).length ≤ maxFrameLength ∧
      writes then .delivered
  else .failed

/-- A link after a broadcast: a frame with the encoded payload is written to it, or it stays as it is,
or it is closed. -/
def afterBroadcast (link : Link) : Link :=
  match link.fate deflate settings payload coin writes with
  | .delivered =>
    { link with sent := link.sent ++ Wire.frame (Wire.encodeShareBy deflate settings payload) }
  | .dropped => link
  | .failed => link.close settings false

variable {deflate settings payload coin writes} {link : Link}

/-- A broadcast leaves a link what it is. -/
theorem identity_afterBroadcast :
    (link.afterBroadcast deflate settings payload coin writes).identity = link.identity := by
  rw [afterBroadcast]
  split
  · rfl
  · rfl
  · exact identity_close ..

/-- A link is not in use once it is closed. -/
theorem state_close_ne (notify : Bool) : (link.close settings notify).state ≠ .connected := by
  rw [close]
  split
  · rename_i hterminated
    simp [hterminated]
  · simp [shut, cancel]

/-- What was written to a link stays when it is closed without a word. -/
theorem sent_close (settings : Settings) (link : Link) :
    (link.close settings false).sent = link.sent := by
  rw [close]
  split
  · rfl
  · simp [shut, cancel]

/-- Nothing is written where the message is lost. -/
theorem sent_afterBroadcast_of_drops (hdrops : settings.drops coin = true) :
    (link.afterBroadcast deflate settings payload coin writes).sent = link.sent := by
  rw [afterBroadcast, fate]
  by_cases hconnected : link.state = .connected
  · rw [if_neg (by simpa using hconnected), if_pos hdrops]
  · rw [if_pos hconnected]
    exact sent_close settings link

/-- A link that is spoilt and closed is as if it had only been closed. -/
theorem close_spoilt (hstate : link.state = .connected) :
    ({ link with state := .terminating } : Link).close settings false = link.close settings false := by
  rw [close, close, if_neg (by simp), if_neg (by simp [hstate])]
  rfl

/-- What cannot be written spoils the link, or leaves it as it is. -/
theorem write_fails {body : List UInt8} (hstate : link.state = .connected)
    (hrefused : ¬ (link.writable = true ∧ body.length ≤ maxFrameLength ∧ writes = true)) :
    ∃ error spoilt, link.write body writes = (.failed error, spoilt) ∧
      spoilt.close settings false = link.close settings false := by
  rw [write, Wire.writeFrame]
  by_cases hwritable : link.writable = true
  · rw [if_pos hwritable]
    by_cases hsize : maxFrameLength < body.length
    · rw [if_pos hsize]
      exact ⟨_, _, rfl, close_spoilt hstate⟩
    · rw [if_neg hsize]
      have hbroken : writes = false :=
        Bool.eq_false_iff.2 fun hwrites => hrefused ⟨hwritable, Nat.le_of_not_lt hsize, hwrites⟩
      simp only [hbroken, Bool.false_eq_true, if_false]
      exact ⟨_, _, rfl, close_spoilt hstate⟩
  · rw [if_neg hwritable]
    exact ⟨_, link, rfl, rfl⟩

/-- A message that is sent fares as the link, the settings and the connection have it. -/
theorem sendBy_cases (hvalid : settings.isValid = true) (deflate : List UInt8 → List UInt8)
    (payload : Payload) (coin writes : Bool) (link : Link) :
    (link.fate deflate settings payload coin writes = .delivered ∧
      link.sendBy deflate settings payload coin writes = (.delivered,
        link.afterBroadcast deflate settings payload coin writes)) ∨
    (link.fate deflate settings payload coin writes = .dropped ∧
      link.sendBy deflate settings payload coin writes = (.dropped,
        link.afterBroadcast deflate settings payload coin writes)) ∨
    (link.fate deflate settings payload coin writes = .failed ∧ ∃ error spoilt,
      link.sendBy deflate settings payload coin writes = (.failed error, spoilt) ∧
        spoilt.close settings false = link.afterBroadcast deflate settings payload coin writes) := by
  by_cases hstate : link.state = .connected
  case neg =>
    have hfate : link.fate deflate settings payload coin writes = .failed := by
      rw [fate, if_pos hstate]
    refine .inr (.inr ⟨hfate, _, link, by rw [sendBy, if_neg hstate], ?_⟩)
    rw [afterBroadcast, hfate]
  cases hdrops : settings.drops coin with
  | true =>
    have hfate : link.fate deflate settings payload coin writes = .dropped := by
      rw [fate, if_neg (by simpa using hstate), if_pos hdrops]
    refine .inr (.inl ⟨hfate, ?_⟩)
    rw [afterBroadcast, hfate, sendBy, if_pos hstate, Settings.loses_of_isValid hvalid, hdrops]
  | false =>
    have hsend : link.sendBy deflate settings payload coin writes =
        link.write (Wire.encodeShareBy deflate settings payload) writes := by
      rw [sendBy, if_pos hstate, Settings.loses_of_isValid hvalid, hdrops]
    by_cases htaken : link.writable = true ∧
        (Wire.encodeShareBy deflate settings payload).length ≤ maxFrameLength ∧ writes = true
    · have hfate : link.fate deflate settings payload coin writes = .delivered := by
        rw [fate, if_neg (by simpa using hstate), if_neg (by simp [hdrops]), if_pos htaken]
      obtain ⟨hwritable, hsize, hwrites⟩ := htaken
      refine .inl ⟨hfate, ?_⟩
      rw [afterBroadcast, hfate, hsend, write, if_pos hwritable, Wire.writeFrame,
        if_neg (Nat.not_lt.2 hsize)]
      simp only [hwrites, if_true]
    · have hfate : link.fate deflate settings payload coin writes = .failed := by
        rw [fate, if_neg (by simpa using hstate), if_neg (by simp [hdrops]), if_neg htaken]
      refine .inr (.inr ⟨hfate, ?_⟩)
      rw [afterBroadcast, hfate, hsend]
      exact write_fails hstate htaken

end Link

/-! ## One link after the other -/

namespace Manager

variable (deflate : List UInt8 → List UInt8) (payload : Payload) (coin writes : Nat → Bool)

/-- What becomes of a broadcast on the link of a serial, if there is one. -/
def fate? (manager : Manager) (serial : Nat) : Option Fate :=
  (manager.link? serial).map fun link =>
    link.fate deflate manager.settings payload (coin serial) (writes serial)

/-- A manager after a broadcast on the links of some serials: each of them has fared on its own, and
those that failed have left the table. -/
def afterBroadcast (serials : List Nat) (manager : Manager) : Manager :=
  { manager with
    links := manager.links.map fun link =>
      if link.serial ∈ serials then
        link.afterBroadcast deflate manager.settings payload (coin link.serial) (writes link.serial)
      else link
    table := manager.table.filter fun _ serial =>
      decide ¬ (serial ∈ serials ∧ manager.fate? deflate payload coin writes serial = some .failed) }

variable {deflate payload coin writes} {manager : Manager} {pending : List Action}
  {serials done : List Nat} {serial : Nat} {link : Link}

/-- The fate of a link that is there. -/
theorem fate?_of_link (hlink : manager.link? serial = some link) :
    manager.fate? deflate payload coin writes serial =
      some (link.fate deflate manager.settings payload (coin serial) (writes serial)) := by
  rw [fate?, hlink, Option.map_some]

/-- A broadcast on no link leaves everything as it is. -/
theorem afterBroadcast_nil : manager.afterBroadcast deflate payload coin writes [] = manager := by
  have htable : (manager.table.filter fun _ serial => decide ¬ (serial ∈ ([] : List Nat) ∧
      manager.fate? deflate payload coin writes serial = some .failed)) = manager.table :=
    SortedMap.eq_of_entries_eq (List.filter_eq_self.2 fun entry _ => by simp)
  rw [afterBroadcast, htable]
  simp

/-- A link of a broadcast is found as it has fared, and every other link as it was. -/
theorem link?_afterBroadcast (serials : List Nat) (serial : Nat) :
    (manager.afterBroadcast deflate payload coin writes serials).link? serial =
      (manager.link? serial).map fun link =>
        if serial ∈ serials then
          link.afterBroadcast deflate manager.settings payload (coin serial) (writes serial)
        else link := by
  rw [link?_of_links_map (fun link => ?_) rfl serial]
  · cases hlink : manager.link? serial with
    | none => rfl
    | some link => rw [Option.map_some, Option.map_some, serial_of_link? hlink]
  · split
    · exact Link.serial_eq_of_identity Link.identity_afterBroadcast
    · rfl

/-- A broadcast leaves the links what they are. -/
theorem sameLinks_afterBroadcast (deflate : List UInt8 → List UInt8) (payload : Payload)
    (coin writes : Nat → Bool) (serials : List Nat) (manager : Manager) :
    SameLinks manager (manager.afterBroadcast deflate payload coin writes serials) := by
  show (manager.links.map _).map Link.identity = _
  rw [List.map_map]
  refine List.map_congr_left fun link _ => ?_
  rw [Function.comp_apply]
  split
  · exact Link.identity_afterBroadcast
  · rfl

/-- The links fare one after the other as they fare together. -/
theorem modifyLink_afterBroadcast (hfresh : serial ∉ done) {before : Manager}
    (hbefore : before = { manager.afterBroadcast deflate payload coin writes done with
      table := (manager.afterBroadcast deflate payload coin writes (done ++ [serial])).table }) :
    (before.modifyLink serial fun link =>
      link.afterBroadcast deflate manager.settings payload (coin serial) (writes serial)) =
    manager.afterBroadcast deflate payload coin writes (done ++ [serial]) := by
  subst hbefore
  rw [modifyLink, afterBroadcast, afterBroadcast]
  simp only [List.map_map, Manager.mk.injEq, and_true, true_and]
  refine List.map_congr_left fun link _ => ?_
  rw [Function.comp_apply]
  by_cases hlink : link.serial = serial
  · subst hlink
    simp [hfresh]
  · by_cases hdone : link.serial ∈ done
    · have hserial : (link.afterBroadcast deflate manager.settings payload (coin link.serial)
          (writes link.serial)).serial = link.serial :=
        Link.serial_eq_of_identity Link.identity_afterBroadcast
      simp [hdone, hserial, hlink]
    · simp [hdone, hlink]

/-- The table after a broadcast lacks the links that failed. -/
theorem table_afterBroadcast (serials : List Nat) :
    (manager.afterBroadcast deflate payload coin writes serials).table =
      manager.table.filter fun _ serial => decide ¬ (serial ∈ serials ∧
        manager.fate? deflate payload coin writes serial = some .failed) := rfl

/-- A link that has not failed stays in the table. -/
theorem table_afterBroadcast_of_kept
    (hkept : manager.fate? deflate payload coin writes serial ≠ some .failed) :
    (manager.afterBroadcast deflate payload coin writes done).table =
      (manager.afterBroadcast deflate payload coin writes (done ++ [serial])).table := by
  rw [table_afterBroadcast, table_afterBroadcast]
  refine manager.table.filter_congr fun entry _ => ?_
  by_cases hserial : entry.2 = serial
  · simp [hserial, hkept]
  · simp [hserial]

/-- A link of the table is held under its neighbour. -/
theorem get?_peer (hwired : Wired manager pending) (hlink : manager.link? serial = some link)
    (hmem : serial ∈ manager.table.values) : manager.table.get? link.peer = some serial := by
  obtain ⟨key, hget⟩ := manager.table.mem_values_iff.1 hmem
  rw [← manager.table.get?_congr (hwired.compare_peer hget hlink), hget]

/-- The entry of a link is the one that is held under its neighbour. -/
theorem compare_peer_eq_iff (hwired : Wired manager pending) {entry : NodeId × Nat}
    (hlink : manager.link? serial = some link) (hmem : serial ∈ manager.table.values)
    (hentry : entry ∈ manager.table.entries) :
    compare link.peer entry.1 = .eq ↔ entry.2 = serial := by
  have hget := manager.table.get?_of_mem hentry
  constructor
  · intro hpeer
    rw [← manager.table.get?_congr hpeer, get?_peer hwired hlink hmem] at hget
    exact (Option.some.inj hget).symm
  · rintro rfl
    exact OrientedCmp.eq_symm (hwired.compare_peer hget hlink)

/-- A link that has failed leaves the table, which held it until then. -/
theorem table_release_afterBroadcast (hwired : Wired manager pending)
    (hlink : manager.link? serial = some link) (hmem : serial ∈ manager.table.values)
    (hfresh : serial ∉ done)
    (hfailed : manager.fate? deflate payload coin writes serial = some .failed) :
    ((manager.afterBroadcast deflate payload coin writes done).release link).table =
      (manager.afterBroadcast deflate payload coin writes (done ++ [serial])).table := by
  have hholds : (manager.afterBroadcast deflate payload coin writes done).table.get? link.peer =
      some serial := by
    obtain ⟨key, hentry, hkey⟩ := SortedMap.exists_mem_of_get? (get?_peer hwired hlink hmem)
    rw [SortedMap.get?_congr _ hkey]
    exact SortedMap.get?_of_mem _ (List.mem_filter.2 ⟨hentry, by simp [hfresh]⟩)
  rw [release, if_pos (by rw [holds, hholds, serial_of_link? hlink, BEq.rfl])]
  show (manager.afterBroadcast deflate payload coin writes done).table.erase link.peer = _
  rw [table_afterBroadcast, table_afterBroadcast, SortedMap.erase, SortedMap.filter_filter]
  refine manager.table.filter_congr fun entry hentry => ?_
  have hpeer := compare_peer_eq_iff hwired hlink hmem hentry
  by_cases hserial : entry.2 = serial
  · rw [hpeer.2 hserial, hserial]
    simp [hfailed]
  · have hother : compare link.peer entry.1 ≠ .eq := fun hsame => hserial (hpeer.1 hsame)
    simp [hother, hserial]

/-- Letting go of a link has nothing to do with what becomes of it. -/
theorem release_modifyLink (manager : Manager) (serial : Nat) (change : Link → Link) (link : Link) :
    (manager.modifyLink serial change).release link =
      (manager.release link).modifyLink serial change := by
  rw [release, release]
  show (if manager.holds link = true then _ else _) = _
  split <;> rfl

/-- A message that is sent on a link changes this link as it fares, takes it out of the table if that
failed, and is counted if a frame was written. -/
theorem sendToBy_of_link (hvalid : manager.settings.isValid = true) (hnumbered : manager.Numbered)
    (hlink : manager.link? serial = some link) (count : Nat) :
    sendToBy deflate payload coin writes (manager, count) serial =
      ((if link.fate deflate manager.settings payload (coin serial) (writes serial) = .failed then
          manager.release link else manager).modifyLink serial
            (Link.afterBroadcast deflate manager.settings payload (coin serial) (writes serial)),
        if link.fate deflate manager.settings payload (coin serial) (writes serial) = .delivered then
          count + 1 else count) := by
  have hcases := Link.sendBy_cases hvalid deflate payload (coin serial) (writes serial) link
  simp only [sendToBy, hlink]
  rcases hcases with ⟨hfate, hsend⟩ | ⟨hfate, hsend⟩ | ⟨hfate, error, spoilt, hsend, hclosed⟩
  · rw [hsend, hfate, if_neg (by simp), if_pos rfl]
    exact congrArg (·, count + 1) (modifyLink_congr hnumbered hlink rfl)
  · rw [hsend, hfate, if_neg (by simp), if_neg (by simp)]
    exact congrArg (·, count) (modifyLink_congr hnumbered hlink rfl)
  · rw [hfate, if_pos rfl, if_neg (by simp), hsend]
    refine congrArg (·, count) ?_
    have hcontinues := Continues.release manager link
    have hreleased : (manager.release link).link? serial = some link := by
      rw [link?_release, hlink]
    -- a change that knows the serial can be joined with the closing
    have hsent : (manager.modifyLink serial fun _ => spoilt) = manager.modifyLink serial fun found =>
        (found.sendBy deflate manager.settings payload (coin serial) (writes serial)).2 :=
      modifyLink_congr hnumbered hlink (by rw [hsend])
    rw [hsent, release_modifyLink, closeLink, modifyLink_modifyLink _ _ _ fun found =>
      Link.serial_eq_of_identity (found.identity_sendBy ..)]
    refine modifyLink_congr (hcontinues.links.numbered hnumbered) hreleased ?_
    show Link.close (manager.release link).settings false _ = _
    rw [hsend, hcontinues.settings, hclosed]

/-- A message is sent on the next link while other links have fared already: this link fares as it
would alone, and it is counted if a frame was written. -/
theorem sendToBy_afterBroadcast (hvalid : manager.settings.isValid = true)
    (hwired : Wired manager pending) (hmem : serial ∈ manager.table.values) (hfresh : serial ∉ done)
    (count : Nat) :
    sendToBy deflate payload coin writes
        (manager.afterBroadcast deflate payload coin writes done, count) serial =
      (manager.afterBroadcast deflate payload coin writes (done ++ [serial]),
        if manager.fate? deflate payload coin writes serial = some .delivered then count + 1
        else count) := by
  obtain ⟨link, hlink⟩ := hwired.exists_link hmem
  have hfound : (manager.afterBroadcast deflate payload coin writes done).link? serial =
      some link := by
    rw [link?_afterBroadcast, hlink, Option.map_some, if_neg hfresh]
  have hsettings : (manager.afterBroadcast deflate payload coin writes done).settings =
      manager.settings := rfl
  have hnumbered := (manager.sameLinks_afterBroadcast deflate payload coin writes done).numbered
    hwired.numbered
  rw [sendToBy_of_link (hsettings ▸ hvalid) hnumbered hfound, hsettings, fate?_of_link hlink]
  simp only [Option.some.injEq]
  refine congrArg (·, _) (modifyLink_afterBroadcast hfresh ?_)
  split
  · rename_i hfailed
    have hleaves : manager.fate? deflate payload coin writes serial = some .failed := by
      rw [fate?_of_link hlink, hfailed]
    rw [← table_release_afterBroadcast hwired hlink hmem hfresh hleaves, release]
    split <;> rfl
  · rename_i hkept
    have hstays : manager.fate? deflate payload coin writes serial ≠ some .failed := by
      rw [fate?_of_link hlink]
      simpa using hkept
    rw [← table_afterBroadcast_of_kept hstays]

/-! ## All links of a table -/

/-- No link stands in the table twice. -/
theorem nodup_values (hwired : Wired manager pending) : manager.table.values.Nodup := by
  refine List.Nodup.map_on (fun one hone two htwo hserial => ?_) manager.table.nodup_entries
  have hget := manager.table.get?_of_mem hone
  rw [hserial] at hget
  exact manager.table.eq_of_mem_of_compare_eq hone htwo
    (hwired.compare_of_get? hget (manager.table.get?_of_mem htwo))

/-- Links that are visited one after the other fare as each of them would alone, and those are counted
to which a frame was written. -/
theorem sendAllBy_eq (hvalid : manager.settings.isValid = true) (hwired : Wired manager pending)
    (hnodup : serials.Nodup) (hmem : ∀ serial ∈ serials, serial ∈ manager.table.values) :
    manager.sendAllBy deflate payload coin writes serials =
      (manager.afterBroadcast deflate payload coin writes serials,
        serials.countP fun serial =>
          manager.fate? deflate payload coin writes serial = some .delivered) := by
  rw [sendAllBy]
  induction serials using List.reverseRecOn with
  | nil => rw [List.foldl_nil, afterBroadcast_nil, List.countP_nil]
  | append_singleton done serial ih =>
    obtain ⟨hdone, -, hdisjoint⟩ := List.nodup_append.1 hnodup
    have hfresh : serial ∉ done := fun hserial =>
      hdisjoint serial hserial serial (List.mem_singleton.2 rfl) rfl
    rw [List.foldl_concat, ih hdone fun other hother => hmem other (List.mem_append_left _ hother),
      sendToBy_afterBroadcast hvalid hwired (hmem serial (by simp)) hfresh, List.countP_append,
      List.countP_singleton]
    refine congrArg _ ?_
    split <;> simp_all

/-- It does not matter in which order the links are visited. -/
theorem afterBroadcast_perm {order : List Nat} (horder : order.Perm serials) :
    manager.afterBroadcast deflate payload coin writes order =
      manager.afterBroadcast deflate payload coin writes serials := by
  rw [afterBroadcast, afterBroadcast]
  simp only [horder.mem_iff]

/-- A broadcast visits the links of the table in some order. -/
theorem sendAllBy_perm (hvalid : manager.settings.isValid = true) (hwired : Wired manager pending)
    {order : List Nat} (horder : order.Perm manager.table.values) :
    manager.sendAllBy deflate payload coin writes order =
      (manager.afterBroadcast deflate payload coin writes manager.table.values,
        manager.table.entries.countP fun entry =>
          manager.fate? deflate payload coin writes entry.2 = some .delivered) := by
  rw [sendAllBy_eq hvalid hwired (horder.nodup_iff.2 (nodup_values hwired))
    fun serial hserial => horder.mem_iff.1 hserial, afterBroadcast_perm horder, horder.countP_eq,
    SortedMap.values, List.countP_map]
  rfl

/-- An entry of the table is there after a broadcast unless its link failed. -/
theorem entries_afterBroadcast :
    (manager.afterBroadcast deflate payload coin writes manager.table.values).table.entries =
      manager.table.entries.filter fun entry =>
        decide (manager.fate? deflate payload coin writes entry.2 ≠ some .failed) := by
  rw [table_afterBroadcast]
  refine List.filter_congr fun entry hentry => ?_
  have hmem : entry.2 ∈ manager.table.values := List.mem_map_of_mem hentry
  simp [hmem]

/-- How the link of an entry fares in a broadcast: a frame with the encoded payload is appended to what
was written on it and its entry stays, or link and entry stay as they are, or the link is in use no
longer and its entry is gone. -/
def Fares (deflate : List UInt8 → List UInt8) (payload : Payload) (coin writes : Nat → Bool)
    (before after : Manager) (entry : NodeId × Nat) : Prop :=
  ∃ link, before.link? entry.2 = some link ∧ compare entry.1 link.peer = .eq ∧
    match link.fate deflate before.settings payload (coin entry.2) (writes entry.2) with
    | .delivered =>
      after.link? entry.2 = some { link with
        sent := link.sent ++ Wire.frame (Wire.encodeShareBy deflate before.settings payload) } ∧
        entry ∈ after.table.entries
    | .dropped => after.link? entry.2 = some link ∧ entry ∈ after.table.entries
    | .failed =>
      (∃ closed, after.link? entry.2 = some closed ∧ closed.state ≠ .connected) ∧
        after.table.get? entry.1 = none

/-- What a broadcast makes of a manager, with the number of links that a frame was written to. -/
structure Accounts (deflate : List UInt8 → List UInt8) (payload : Payload) (coin writes : Nat → Bool)
    (before after : Manager) (delivered : Nat) : Prop where
  /-- Every link of the table is delivered, dropped or failed. -/
  fares : ∀ entry ∈ before.table.entries, Fares deflate payload coin writes before after entry
  /-- The table keeps the entries of the links that did not fail, and gets no others. -/
  table : after.table.entries = before.table.entries.filter fun entry =>
    before.fate? deflate payload coin writes entry.2 ≠ some .failed
  /-- Those links are counted that a frame was written to. -/
  counted : delivered = before.table.entries.countP fun entry =>
    before.fate? deflate payload coin writes entry.2 = some .delivered
  /-- Links that are not in the table stay as they are. -/
  others : ∀ serial, serial ∉ before.table.values → after.link? serial = before.link? serial
  /-- No link is added, taken away or made another one. -/
  links : SameLinks before after
  /-- Everything else stays as it is. -/
  rest : after = { before with links := after.links, table := after.table }
  /-- Nothing is dropped where the loss fraction is zero. -/
  lossless : (before.settings.dropFraction == .zero) = true →
    ∀ serial, before.fate? deflate payload coin writes serial ≠ some .dropped
  /-- Where the loss fraction is one, every link in use is dropped and nothing is written. -/
  lossy : (before.settings.dropFraction == .one) = true →
    ∀ serial link, before.link? serial = some link →
      (link.state = .connected →
        before.fate? deflate payload coin writes serial = some .dropped) ∧
      ∃ found, after.link? serial = some found ∧ found.sent = link.sent

/-- A link that has failed is closed and its entry is gone, and every other entry stays. -/
theorem fares_afterBroadcast (hwired : Wired manager pending) {entry : NodeId × Nat}
    (hentry : entry ∈ manager.table.entries) {after : Manager}
    (hafter : after = manager.afterBroadcast deflate payload coin writes manager.table.values) :
    Fares deflate payload coin writes manager after entry := by
  have hget := manager.table.get?_of_mem hentry
  have hmem : entry.2 ∈ manager.table.values := manager.table.mem_values_iff.2 ⟨_, hget⟩
  obtain ⟨link, hlink, hpeer⟩ := hwired.held hget
  have hfound : after.link? entry.2 = some
      (link.afterBroadcast deflate manager.settings payload (coin entry.2) (writes entry.2)) := by
    rw [hafter, link?_afterBroadcast, hlink, Option.map_some, if_pos hmem]
  have hstays : entry ∈ after.table.entries ↔
      link.fate deflate manager.settings payload (coin entry.2) (writes entry.2) ≠ .failed := by
    rw [hafter, entries_afterBroadcast, List.mem_filter, decide_eq_true_eq, fate?_of_link hlink]
    simp [hentry]
  refine ⟨link, hlink, hpeer, ?_⟩
  rw [Link.afterBroadcast] at hfound
  cases hfate : link.fate deflate manager.settings payload (coin entry.2) (writes entry.2) with
  | delivered =>
    rw [hfate] at hfound hstays
    exact ⟨hfound, hstays.2 (by simp)⟩
  | dropped =>
    rw [hfate] at hfound hstays
    exact ⟨hfound, hstays.2 (by simp)⟩
  | failed =>
    rw [hfate] at hfound hstays
    refine ⟨⟨_, hfound, Link.state_close_ne false⟩, ?_⟩
    cases hget : after.table.get? entry.1 with
    | none => rfl
    | some other =>
      obtain ⟨key, hkept, hkey⟩ := SortedMap.exists_mem_of_get? hget
      have hold : (key, other) ∈ manager.table.entries := by
        rw [hafter, entries_afterBroadcast] at hkept
        exact List.mem_of_mem_filter hkept
      obtain rfl := manager.table.eq_of_mem_of_compare_eq hentry hold hkey
      exact absurd rfl (hstays.1 hkept)

/-- Without losses no link is dropped. -/
theorem fate?_of_zero (hzero : (manager.settings.dropFraction == .zero) = true) (serial : Nat) :
    manager.fate? deflate payload coin writes serial ≠ some .dropped := by
  rw [fate?]
  cases hlink : manager.link? serial with
  | none => simp
  | some link =>
    have hdrops := Settings.drops_of_zero hzero (coin serial)
    rw [Option.map_some, Link.fate]
    split <;> simp [hdrops]
    split <;> simp

/-- Where everything is lost, a link in use is dropped, and nothing is written on any link. -/
theorem fares_of_one (hone : (manager.settings.dropFraction == .one) = true)
    (hlink : manager.link? serial = some link) :
    (link.state = .connected →
      manager.fate? deflate payload coin writes serial = some .dropped) ∧
    ∃ found, (manager.afterBroadcast deflate payload coin writes serials).link? serial = some found ∧
      found.sent = link.sent := by
  have hdrops := Settings.drops_of_one hone (coin serial)
  refine ⟨fun hconnected => ?_, ?_⟩
  · rw [fate?_of_link hlink, Link.fate, if_neg (by simpa using hconnected), if_pos hdrops]
  · rw [link?_afterBroadcast, hlink]
    refine ⟨_, rfl, ?_⟩
    split
    · exact Link.sent_afterBroadcast_of_drops hdrops
    · rfl

/-- A broadcast on all links of the table accounts for each of them. -/
theorem accounts_afterBroadcast (hwired : Wired manager pending) :
    Accounts deflate payload coin writes manager
      (manager.afterBroadcast deflate payload coin writes manager.table.values)
      (manager.table.entries.countP fun entry =>
        manager.fate? deflate payload coin writes entry.2 = some .delivered) where
  fares entry hentry := fares_afterBroadcast hwired hentry rfl
  table := entries_afterBroadcast
  counted := rfl
  others serial hserial := by
    rw [link?_afterBroadcast]
    simp [hserial]
  links := manager.sameLinks_afterBroadcast ..
  rest := rfl
  lossless hzero serial := fate?_of_zero hzero serial
  lossy hone serial link hlink := fares_of_one hone hlink

end Manager

namespace BusyManager

variable {busy after : BusyManager}

/-- The settings of a manager stay valid, as no others replace them. -/
theorem isValid_step {event : Event} (hvalid : busy.manager.settings.isValid = true)
    (hstep : busy.step event = some after) : after.manager.settings.isValid = true := by
  cases event with
  | start directory binds node =>
    obtain ⟨session, -, -, rfl⟩ := step_start hstep
    exact hvalid
  | greet now session origin peer nonce =>
    obtain ⟨session, -, -, rfl, -⟩ := step_greet hstep
    exact hvalid
  | arrive serial bytes ended =>
    obtain rfl := Option.some.inj hstep
    exact hvalid
  | broadcast payload order =>
    rw [(step_broadcast hstep).1]
    exact hvalid
  | reconfigure settings =>
    obtain ⟨hreplaced, rfl⟩ := step_reconfigure hstep
    exact hreplaced
  | stop =>
    obtain ⟨session, -, rfl, -⟩ := step_stop hstep
    exact hvalid
  | work index chance =>
    obtain ⟨front, action, back, outcome, -, hperform, -, -, hmanager, -⟩ := step_work hstep
    rw [hmanager, (Manager.continues_perform hperform).settings]
    exact hvalid

/-- The settings of a manager are valid after every run. -/
theorem isValid_run {events : List Event} (hvalid : busy.manager.settings.isValid = true)
    (hrun : busy.run events = some after) : after.manager.settings.isValid = true := by
  induction events generalizing busy with
  | nil =>
    obtain rfl := Option.some.inj hrun
    exact hvalid
  | cons event later ih =>
    obtain ⟨next, hstep, hlater⟩ := Option.bind_eq_some_iff.1 hrun
    exact ih (isValid_step hvalid hstep) hlater

/-- After any run a payload is sent on all links of the table, in whatever order, with any losses and
with connections that take what is written or not. Each of the links is delivered, dropped or failed,
and no other link and nothing else is affected. -/
theorem broadcast_accounts {settings : Settings} {timing : Timing} {events : List Event}
    (hvalid : settings.isValid = true) (hrun : (idle settings timing).run events = some busy)
    (deflate : List UInt8 → List UInt8) (payload : Payload) (coin writes : Nat → Bool)
    {order : List Nat} (horder : order.Perm busy.manager.table.values) :
    ∃ after delivered,
      busy.manager.sendAllBy deflate payload coin writes order = (after, delivered) ∧
      Manager.Accounts deflate payload coin writes busy.manager after delivered := by
  have hwired := ((sound_idle settings timing).run hrun).wired
  have hidle : (idle settings timing).manager.settings.isValid = true := hvalid
  have hbusy : busy.manager.settings.isValid = true := isValid_run hidle hrun
  refine ⟨_, _, Manager.sendAllBy_perm hbusy hwired horder, ?_⟩
  exact Manager.accounts_afterBroadcast hwired

/-- A node of whose messages every other one is lost. A message to its first neighbour could not be
written, and before the link leaves the table two more neighbours connect. -/
def threeNeighbors : List Event := [
  .start (Directory.empty.register ⟨"a"⟩ ⟨"127.0.0.1", 4000⟩) (fun _ => none) ⟨"a"⟩,
  .greet 0 0 .accepted ⟨"b"⟩ 5, .work 0 {},
  .broadcast .empty [], .work 1 { writes := false },
  .greet 0 0 .accepted ⟨"c"⟩ 6, .work 2 {},
  .greet 0 0 .accepted ⟨"d"⟩ 7, .work 3 {}]

/-- Of the three links one fails and leaves, one gets the payload, and on one it is lost, also when the
last link is visited first. -/
theorem threeNeighbors_accounted :
    ∃ busy after, (idle { dropFraction := ⟨0x3fe0000000000000⟩ } {}).run threeNeighbors = some busy ∧
      busy.manager.sendAllBy Deflate.deflate .empty (· == 3) (fun _ => true) [3, 1, 2] =
        (after, 1) ∧
      busy.manager.table.values = [1, 2, 3] ∧ after.table.values = [2, 3] := by
  have hsummary : ((idle { dropFraction := ⟨0x3fe0000000000000⟩ } {}).run threeNeighbors).map
      (fun busy => (busy.manager.table.values,
        busy.manager.table.entries.countP (fun entry =>
          busy.manager.fate? Deflate.deflate .empty (· == 3) (fun _ => true) entry.2 =
            some .delivered),
        (busy.manager.table.entries.filter (fun entry =>
          busy.manager.fate? Deflate.deflate .empty (· == 3) (fun _ => true) entry.2 ≠
            some .failed)).map Prod.snd)) = some ([1, 2, 3], 1, [2, 3]) := by
    decide +kernel
  obtain ⟨busy, hrun, hbusy⟩ := Option.map_eq_some_iff.1 hsummary
  simp only [Prod.mk.injEq] at hbusy
  obtain ⟨hvalues, hdelivered, hkept⟩ := hbusy
  obtain ⟨after, delivered, hsent, haccounts⟩ := broadcast_accounts (by decide) hrun
    Deflate.deflate .empty (· == 3) (fun _ => true) (show [3, 1, 2].Perm _ by rw [hvalues]; decide)
  refine ⟨busy, after, hrun, ?_, hvalues, ?_⟩
  · rw [hsent, haccounts.counted, hdelivered]
  · rw [SortedMap.values, haccounts.table, hkept]

end BusyManager

end RegionGossip
