import RegionGossip.Manager.Task

/-!
# Finding links by their serials

The links of a manager are numbered in the order in which they are made. A change to the link of one
serial is seen under that serial only, and what tells a link from others, its serial, its neighbour,
its rank and its session, is never changed.
-/

namespace RegionGossip

/-- What is never changed about a link. -/
structure Link.Identity where
  serial : Nat
  peer : NodeId
  nonce : Int64
  session : Nat

/-- What is never changed about a link. -/
def Link.identity (link : Link) : Link.Identity :=
  ⟨link.serial, link.peer, link.nonce, link.session⟩

namespace Manager

/-- The links carry the serials from one on, in order. -/
def Numbered (manager : Manager) : Prop :=
  manager.links.map Link.serial = List.range' 1 manager.links.length

/-- The links of two managers are the same but for what may change about them. -/
def SameLinks (before after : Manager) : Prop :=
  after.links.map Link.identity = before.links.map Link.identity

/-- A link is found under its own serial. -/
theorem serial_of_link? {manager : Manager} {serial : Nat} {link : Link}
    (hlink : manager.link? serial = some link) : link.serial = serial := by
  simpa using List.find?_some hlink

/-- Links that are changed without a new serial are found where they were. -/
theorem link?_of_links_map {before after : Manager} {change : Link → Link}
    (hserial : ∀ link, (change link).serial = link.serial)
    (hlinks : after.links = before.links.map change) (serial : Nat) :
    after.link? serial = (before.link? serial).map change := by
  have hpredicate : ((fun link : Link => link.serial == serial) ∘ change) =
      fun link => link.serial == serial := by
    funext link
    simp [hserial]
  rw [link?, hlinks, List.find?_map, hpredicate, ← link?]

/-- A changed link is found under its serial, and other links are found as they were. -/
theorem link?_modifyLink (manager : Manager) (serial other : Nat) {change : Link → Link}
    (hserial : ∀ link, (change link).serial = link.serial) :
    (manager.modifyLink serial change).link? other =
      if other = serial then (manager.link? other).map change else manager.link? other := by
  have hall : ∀ link : Link,
      (if link.serial = serial then change link else link).serial = link.serial := by
    intro link
    split
    · exact hserial link
    · rfl
  have hlinks : (manager.modifyLink serial change).links = manager.links.map _ := rfl
  rw [link?_of_links_map hall hlinks]
  cases hfound : manager.link? other with
  | none => simp
  | some link =>
    rw [Option.map_some, serial_of_link? hfound]
    split <;> rfl

/-- What is found under the serial of a changed link is the link that was there, changed. -/
theorem exists_of_link?_modifyLink {manager : Manager} {serial : Nat} {change : Link → Link}
    {link : Link} (hlink : (manager.modifyLink serial change).link? serial = some link)
    (hserial : ∀ link, (change link).serial = link.serial) :
    ∃ old, manager.link? serial = some old ∧ change old = link := by
  rw [link?_modifyLink manager serial serial hserial, if_pos rfl] at hlink
  exact Option.map_eq_some_iff.1 hlink

/-- A new link is found under its serial. -/
theorem link?_addLink {manager : Manager} {link : Link} (hnew : manager.link? link.serial = none)
    (other : Nat) :
    (manager.addLink link).link? other =
      if other = link.serial then some link else manager.link? other := by
  rw [link?, addLink, List.find?_append, ← link?]
  by_cases hother : other = link.serial
  · rw [if_pos hother, hother, hnew]
    simp
  · have hne : link.serial ≠ other := fun h => hother h.symm
    rw [if_neg hother]
    simp [hne]

/-- In a numbered manager exactly the serials up to the number of links are in use. -/
theorem link?_isSome_iff {manager : Manager} (hnumbered : manager.Numbered) (serial : Nat) :
    (manager.link? serial).isSome = true ↔ 1 ≤ serial ∧ serial ≤ manager.links.length := by
  have hmem : (manager.link? serial).isSome = true ↔ serial ∈ manager.links.map Link.serial := by
    simp [link?]
  rw [hmem, hnumbered, List.mem_range'_1]
  omega

/-- The next serial of a numbered manager is not in use. -/
theorem link?_nextSerial {manager : Manager} (hnumbered : manager.Numbered) :
    manager.link? manager.nextSerial = none := by
  have hiff := link?_isSome_iff hnumbered manager.nextSerial
  cases hlink : manager.link? manager.nextSerial with
  | none => rfl
  | some link =>
    rw [hlink, nextSerial] at hiff
    have hused := hiff.1 rfl
    omega

/-- Serials differ from link to link. -/
theorem nodup_serials {manager : Manager} (hnumbered : manager.Numbered) :
    (manager.links.map Link.serial).Nodup := by
  rw [hnumbered]
  exact List.nodup_range'

/-- A link that is one of several with different serials is found under its serial. -/
theorem find?_of_mem {links : List Link} (hnodup : (links.map Link.serial).Nodup) {link : Link}
    (hmem : link ∈ links) : links.find? (fun other => other.serial == link.serial) = some link := by
  induction links with
  | nil => simp at hmem
  | cons head rest ih =>
    obtain ⟨hhead, hrest⟩ := List.nodup_cons.1 (List.map_cons ▸ hnodup)
    rcases List.mem_cons.1 hmem with rfl | hlater
    · exact List.find?_cons_of_pos (by simp)
    · have hne : head.serial ≠ link.serial := by
        intro hserial
        exact hhead (hserial ▸ List.mem_map_of_mem hlater)
      rw [List.find?_cons_of_neg (by simpa using hne)]
      exact ih hrest hlater

/-- Changes that do the same to the link of a serial do the same to the manager. -/
theorem modifyLink_congr {manager : Manager} (hnumbered : manager.Numbered) {serial : Nat}
    {link : Link} (hlink : manager.link? serial = some link) {change other : Link → Link}
    (hchange : change link = other link) :
    manager.modifyLink serial change = manager.modifyLink serial other := by
  have hlinks : manager.links.map (fun link => if link.serial = serial then change link else link) =
      manager.links.map (fun link => if link.serial = serial then other link else link) := by
    refine List.map_congr_left fun found hfound => ?_
    by_cases hserial : found.serial = serial
    · have hsame := find?_of_mem (nodup_serials hnumbered) hfound
      rw [hserial] at hsame
      obtain rfl : link = found := Option.some.inj (hlink.symm.trans hsame)
      rw [if_pos hserial, if_pos hserial, hchange]
    · rw [if_neg hserial, if_neg hserial]
  rw [modifyLink, hlinks, modifyLink]

/-- A change that leaves the link of a serial as it is leaves the manager as it is. -/
theorem modifyLink_eq_self {manager : Manager} (hnumbered : manager.Numbered) {serial : Nat}
    {link : Link} (hlink : manager.link? serial = some link) {change : Link → Link}
    (hchange : change link = link) : manager.modifyLink serial change = manager := by
  have hsame : manager.modifyLink serial change = manager.modifyLink serial id :=
    modifyLink_congr hnumbered hlink hchange
  rw [hsame, modifyLink]
  simp

/-- Two changes of one link are one change. -/
theorem modifyLink_modifyLink (manager : Manager) (serial : Nat) {first : Link → Link}
    (second : Link → Link) (hserial : ∀ link, (first link).serial = link.serial) :
    (manager.modifyLink serial first).modifyLink serial second =
      manager.modifyLink serial fun link => second (first link) := by
  have hlinks : (manager.links.map fun link => if link.serial = serial then first link else link).map
      (fun link => if link.serial = serial then second link else link) =
        manager.links.map fun link =>
          if link.serial = serial then second (first link) else link := by
    rw [List.map_map]
    refine List.map_congr_left fun link _ => ?_
    by_cases hlink : link.serial = serial
    · simp [hlink, hserial]
    · simp [hlink]
  rw [modifyLink, modifyLink, hlinks, modifyLink]

namespace SameLinks

/-- Nothing is changed by doing nothing. -/
theorem refl (manager : Manager) : SameLinks manager manager := rfl

/-- One change after the other. -/
theorem trans {first second third : Manager} (hfirst : SameLinks first second)
    (hsecond : SameLinks second third) : SameLinks first third :=
  Eq.trans hsecond hfirst

/-- Managers with the same list of links. -/
theorem of_links_eq {before after : Manager} (hlinks : after.links = before.links) :
    SameLinks before after := congrArg (List.map Link.identity) hlinks

/-- Links are changed in what may change about them. -/
theorem modifyLink (manager : Manager) (serial : Nat) {change : Link → Link}
    (hidentity : ∀ link, (change link).identity = link.identity) :
    SameLinks manager (manager.modifyLink serial change) := by
  show (manager.links.map _).map Link.identity = _
  rw [List.map_map]
  refine List.map_congr_left fun link _ => ?_
  by_cases hlink : link.serial = serial <;> simp [hlink, hidentity]

variable {before after : Manager}

/-- The number of links stays. -/
theorem length_eq (hsame : SameLinks before after) : after.links.length = before.links.length := by
  simpa using congrArg List.length hsame

/-- The serials stay. -/
theorem numbered (hsame : SameLinks before after) (hnumbered : before.Numbered) :
    after.Numbered := by
  have hserials := congrArg (List.map Link.Identity.serial) hsame
  rw [List.map_map, List.map_map] at hserials
  rw [Numbered, hsame.length_eq]
  exact hserials.trans hnumbered

/-- A link is found again under its serial, as far as it stays what it is. -/
theorem link?_identity (hsame : SameLinks before after) (serial : Nat) :
    (after.link? serial).map Link.identity = (before.link? serial).map Link.identity := by
  have hfind (manager : Manager) : (manager.link? serial).map Link.identity =
      (manager.links.map Link.identity).find? fun identity => identity.serial == serial := by
    rw [List.find?_map]
    rfl
  rw [hfind, hfind, hsame]

/-- A link that was there before is there after, with the same identity. -/
theorem exists_after (hsame : SameLinks before after) {serial : Nat} {link : Link}
    (hlink : before.link? serial = some link) :
    ∃ found, after.link? serial = some found ∧ found.identity = link.identity := by
  have hidentity := hsame.link?_identity serial
  rw [hlink] at hidentity
  exact Option.map_eq_some_iff.1 hidentity

/-- A link that is there after was there before, with the same identity. -/
theorem exists_before (hsame : SameLinks before after) {serial : Nat} {link : Link}
    (hlink : after.link? serial = some link) :
    ∃ found, before.link? serial = some found ∧ found.identity = link.identity := by
  have hidentity := hsame.link?_identity serial
  rw [hlink] at hidentity
  exact Option.map_eq_some_iff.1 hidentity.symm

end SameLinks

end Manager

end RegionGossip
