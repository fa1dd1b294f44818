import RegionGossip.Binary64.Arith
import RegionGossip.Proofs.Resource.Merge

/-!
# Nested maps, path by path

Maps of quantities are nested in each other to any depth, with a type of keys of its own at each
depth. A row of keys is a path that leads from such a map down to a map nested in it, or to a number
at a leaf. A sum is described by what its paths lead to and by how its keys are spelled, and this
leaves no choice: the sum of two maps is the only one that fits the description.

Nothing is assumed about the addition of numbers, so the description holds for doubles: a number
that only one of the maps has is not even added to zero.
-/

namespace RegionGossip

variable {ν : Type}

/-- A type of keys that have an order. -/
structure KeyType where
  /-- The keys themselves. -/
  Key : Type
  [ord : Ord Key]
  [transOrd : Std.TransOrd Key]

attribute [instance] KeyType.ord KeyType.transOrd

/-- Maps nested in each other, with the types of their keys from the outside in and with numbers at
the leaves. -/
def Nested (ν : Type) : List KeyType → Type
  | [] => ν
  | keys :: inner => SortedMap keys.Key (Nested ν inner)

/-- Nested maps are summed depth by depth, and numbers are added. -/
instance Nested.instSumMerge [Add ν] : (shape : List KeyType) → SumMerge (Nested ν shape)
  | [] => inferInstanceAs (SumMerge ν)
  | keys :: inner =>
    have := instSumMerge inner
    inferInstanceAs (SumMerge (SortedMap keys.Key (Nested ν inner)))

/-- A row of keys that leads from maps of one shape down to what is nested in them. -/
inductive Path : List KeyType → List KeyType → Type 1
  | here {shape : List KeyType} : Path shape shape
  | into {keys : KeyType} {inner target : List KeyType} (key : keys.Key) (path : Path inner target) :
    Path (keys :: inner) target

namespace Nested

/-- What a map holds at a key, with the key as it is spelled there. -/
def held? {keys : KeyType} {inner : List KeyType} (map : Nested ν (keys :: inner))
    (key : keys.Key) : Option (keys.Key × Nested ν inner) :=
  SortedMap.entry? map key

/-- What a path leads to, a map or a number. -/
def reach {shape target : List KeyType} (map : Nested ν shape) :
    Path shape target → Option (Nested ν target)
  | .here => some map
  | .into key path => (map.held? key).bind fun entry => entry.2.reach path

/-- A path goes on in what is held at its first key. -/
theorem reach_into {keys : KeyType} {inner target : List KeyType} (map : Nested ν (keys :: inner))
    (key : keys.Key) (path : Path inner target) :
    map.reach (.into key path) =
      ((map.held? key).map Prod.snd).bind fun submap => submap.reach path := by
  rw [reach, Option.bind_map]
  rfl

/-- How a key is spelled in the map that a path leads to. -/
def spelling? {shape inner : List KeyType} {keys : KeyType} (map : Nested ν shape)
    (path : Path shape (keys :: inner)) (key : keys.Key) : Option keys.Key :=
  (map.reach path).bind fun submap => (submap.held? key).map Prod.fst

/-- What it is for a map to be the sum of two. -/
structure IsSum [Add ν] (shape : List KeyType) (left right sum : Nested ν shape) : Prop where
  /-- A path leads somewhere in the sum when it does in one of the two. -/
  reached : ∀ {target} (path : Path shape target),
    (sum.reach path).isSome = ((left.reach path).isSome || (right.reach path).isSome)
  /-- Numbers of both are added, the left one first. -/
  both : ∀ (path : Path shape []) {one two : ν}, left.reach path = some one →
    right.reach path = some two → sum.reach path = some (one + two)
  /-- What only the left one has is kept as it is. -/
  leftOnly : ∀ {target} (path : Path shape target) {submap : Nested ν target},
    left.reach path = some submap → right.reach path = none → sum.reach path = some submap
  /-- What only the right one has is kept as it is. -/
  rightOnly : ∀ {target} (path : Path shape target) {submap : Nested ν target},
    left.reach path = none → right.reach path = some submap → sum.reach path = some submap
  /-- Keys are spelled as in the left one if it has them. -/
  spelling : ∀ {keys inner} (path : Path shape (keys :: inner)) (key : keys.Key),
    sum.spelling? path key = (left.spelling? path key).or (right.spelling? path key)

section Sum

variable [Add ν]

/-- A sum holds at a key the sum of what the two maps hold there. -/
theorem held?_sumMerge {keys : KeyType} {inner : List KeyType}
    (left right : Nested ν (keys :: inner)) (key : keys.Key) :
    ((sumMerge left right).held? key).map Prod.snd =
      ((left.held? key).map Prod.snd).merge sumMerge ((right.held? key).map Prod.snd) :=
  SortedMap.get?_sumMerge (α := Nested ν inner) left right key

/-- A sum has at the end of a path the sum of what the two maps have there. -/
theorem reach_sumMerge {shape target : List KeyType} (left right : Nested ν shape)
    (path : Path shape target) :
    (sumMerge left right).reach path =
      (left.reach path).merge sumMerge (right.reach path) := by
  induction path with
  | here => rfl
  | into key path ih =>
    rw [reach_into, reach_into, reach_into, held?_sumMerge]
    cases left.held? key with
    | none => simp
    | some one =>
      cases right.held? key with
      | none => simp
      | some two => exact ih one.2 two.2

/-- A sum spells the keys of the map at the end of a path as the left map does, if it has them, and
otherwise as the right one does. -/
theorem spelling?_sumMerge {shape inner : List KeyType} {keys : KeyType}
    (left right : Nested ν shape) (path : Path shape (keys :: inner)) (key : keys.Key) :
    (sumMerge left right).spelling? path key =
      (left.spelling? path key).or (right.spelling? path key) := by
  rw [spelling?, spelling?, spelling?, reach_sumMerge]
  cases left.reach path with
  | none => cases right.reach path <;> rfl
  | some one =>
    cases right.reach path with
    | none => exact Option.or_none.symm
    | some two => exact SortedMap.spelling?_sumMerge (α := Nested ν inner) one two key

/-- Summing up gives a sum. -/
theorem isSum_sumMerge {shape : List KeyType} (left right : Nested ν shape) :
    IsSum shape left right (sumMerge left right) where
  reached path := by
    rw [reach_sumMerge]
    cases left.reach path <;> cases right.reach path <;> rfl
  both path _ _ hleft hright := by
    rw [reach_sumMerge, hleft, hright]
    rfl
  leftOnly path _ hleft hright := by
    rw [reach_sumMerge, hleft, hright]
    rfl
  rightOnly path _ hleft hright := by
    rw [reach_sumMerge, hleft, hright]
    rfl
  spelling := spelling?_sumMerge left right

end Sum

/-- Maps are the same when their paths lead to the same numbers, their keys are spelled alike, and
the same paths lead somewhere. -/
theorem eq_of_reach_eq {shape : List KeyType} {one two : Nested ν shape}
    (hreached : ∀ {target} (path : Path shape target),
      (one.reach path).isSome = (two.reach path).isSome)
    (hnumbers : ∀ path : Path shape [], one.reach path = two.reach path)
    (hspelling : ∀ {keys inner} (path : Path shape (keys :: inner)) (key : keys.Key),
      one.spelling? path key = two.spelling? path key) : one = two := by
  induction shape with
  | nil => exact Option.some.inj (hnumbers .here)
  | cons keys inner ih =>
    apply SortedMap.eq_of_entry?_eq
    intro key
    have hheld : (one.held? key).map Prod.fst = (two.held? key).map Prod.fst :=
      hspelling .here key
    show one.held? key = two.held? key
    cases hone : one.held? key with
    | none =>
      rw [hone] at hheld
      exact (Option.map_eq_none_iff.1 hheld.symm).symm
    | some first =>
      cases htwo : two.held? key with
      | none =>
        rw [hone, htwo] at hheld
        contradiction
      | some second =>
        rw [hone, htwo] at hheld
        -- what follows the key in one map is what follows it in the other one
        have hfirst {target} (path : Path inner target) :
            one.reach (.into key path) = first.2.reach path := by
          rw [reach_into, hone]
          rfl
        have hsecond {target} (path : Path inner target) :
            two.reach (.into key path) = second.2.reach path := by
          rw [reach_into, htwo]
          rfl
        have hvalues : first.2 = second.2 := by
          apply ih
          · intro target path
            rw [← hfirst, ← hsecond]
            exact hreached _
          · intro path
            rw [← hfirst, ← hsecond]
            exact hnumbers _
          · intro subkeys subinner path subkey
            have hsub := hspelling (.into key path) subkey
            rwa [spelling?, spelling?, hfirst, hsecond] at hsub
        rw [Prod.ext (Option.some.inj hheld) hvalues]

/-- Two maps have one sum only. -/
theorem IsSum.unique [Add ν] {shape : List KeyType} {left right one two : Nested ν shape}
    (hone : IsSum shape left right one) (htwo : IsSum shape left right two) : one = two := by
  apply eq_of_reach_eq
  · intro target path
    rw [hone.reached, htwo.reached]
  · intro path
    cases hleft : left.reach path with
    | none =>
      cases hright : right.reach path with
      | none =>
        have hnone {sum : Nested ν shape} (hsum : IsSum shape left right sum) :
            sum.reach path = none := by
          rw [← Option.not_isSome_iff_eq_none, hsum.reached, hleft, hright]
          exact Bool.false_ne_true
        rw [hnone hone, hnone htwo]
      | some number => rw [hone.rightOnly path hleft hright, htwo.rightOnly path hleft hright]
    | some number =>
      cases hright : right.reach path with
      | none => rw [hone.leftOnly path hleft hright, htwo.leftOnly path hleft hright]
      | some other => rw [hone.both path hleft hright, htwo.both path hleft hright]
  · intro keys inner path key
    rw [hone.spelling, htwo.spelling]

end Nested

/-! ## Summaries -/

/-- Services as keys. -/
abbrev KeyType.service : KeyType := ⟨ServiceId⟩

/-- Regions as keys. -/
abbrev KeyType.region : KeyType := ⟨RegionId⟩

/-- What is measured at a node, as keys. -/
abbrev KeyType.nodeAttribute : KeyType := ⟨NodeAttribute⟩

/-- What is measured at a link, as keys. -/
abbrev KeyType.linkAttribute : KeyType := ⟨LinkAttribute⟩

namespace Summary

open Nested KeyType

/-- What it is for a summary to be the sum of two, apart from its times. -/
structure SumsPointwise [Add ν] (one two sum : Summary ν) : Prop where
  region : sum.region = one.region
  window : sum.window = one.window
  serverCapacity : IsSum [nodeAttribute] one.serverCapacity two.serverCapacity sum.serverCapacity
  serverLoad : IsSum [service, KeyType.region, nodeAttribute]
    one.serverLoad two.serverLoad sum.serverLoad
  serverDemand : IsSum [service, KeyType.region, nodeAttribute]
    one.serverDemand two.serverDemand sum.serverDemand
  networkCapacity : IsSum [KeyType.region, linkAttribute]
    one.networkCapacity two.networkCapacity sum.networkCapacity
  networkLoad : IsSum [KeyType.region, linkAttribute]
    one.networkLoad two.networkLoad sum.networkLoad
  networkDemand : IsSum [KeyType.region, linkAttribute]
    one.networkDemand two.networkDemand sum.networkDemand
  processingNumerator : IsSum [service]
    one.processingNumerator two.processingNumerator sum.processingNumerator
  processingDenominator : IsSum [service]
    one.processingDenominator two.processingDenominator sum.processingDenominator

variable [Add ν]

/-- A merged summary is the sum of the two. -/
theorem sumsPointwise_of_merge {one two sum : Summary ν} (hmerge : one.merge two = .ok sum) :
    SumsPointwise one two sum := by
  rw [eq_plus_of_merge hmerge]
  exact
    { region := rfl
      window := rfl
      serverCapacity := isSum_sumMerge _ _
      serverLoad := isSum_sumMerge _ _
      serverDemand := isSum_sumMerge _ _
      networkCapacity := isSum_sumMerge _ _
      networkLoad := isSum_sumMerge _ _
      networkDemand := isSum_sumMerge _ _
      processingNumerator := isSum_sumMerge _ _
      processingDenominator := isSum_sumMerge _ _ }

/-- Nested maps of every shape are summed path by path, whatever the addition of numbers is, and this
is how all maps of two summaries are merged. Summaries of different regions or windows are
refused. -/
theorem merge_sums_pointwise :
    (∀ (shape : List KeyType) (left right sum : Nested ν shape),
      IsSum shape left right sum ↔ sum = sumMerge left right) ∧
    ∀ one two : Summary ν,
      (∀ error, one.merge two = .error error ↔
        (one.region == two.region) = false ∧ error = .differentRegions one.region two.region ∨
        (one.region == two.region) = true ∧ one.window ≠ two.window ∧
          error = .differentWindows one.window two.window) ∧
      ((one.region == two.region) = true → one.window = two.window →
        ∃ sum, one.merge two = .ok sum ∧ SumsPointwise one two sum) := by
  constructor
  · intro shape left right sum
    constructor
    · intro hsum
      exact hsum.unique (isSum_sumMerge left right)
    · rintro rfl
      exact isSum_sumMerge left right
  · intro one two
    refine ⟨fun error => merge_eq_error_iff, fun hregion hwindow => ?_⟩
    obtain ⟨sum, hmerge⟩ := exists_merge_iff.2 ⟨hregion, hwindow⟩
    exact ⟨sum, hmerge, sumsPointwise_of_merge hmerge⟩

/-- The way to what the clients in a region use of a service. -/
def videoInEast (measured : NodeAttribute) : Path [service, KeyType.region, nodeAttribute] [] :=
  .into ⟨"VIDEO"⟩ (.into ⟨"East"⟩ (.into measured .here))

/-- A summary that holds a negative zero. -/
def matinee : Summary Binary64 :=
  { null ⟨"east"⟩ .short with
    serverLoad := .ofList
      [(⟨"video"⟩, .ofList
        [(⟨"east"⟩, .ofList [(.cpu, .one), (.memory, ⟨0x8000000000000000⟩)])])] }

/-- A summary of the same region in another spelling. -/
def evening : Summary Binary64 :=
  { null ⟨"EAST"⟩ .short with
    serverLoad := .ofList
      [(⟨"Video"⟩, .ofList [(⟨"East"⟩, .ofList [(.cpu, .ofInt 2)])]), (⟨"audio"⟩, ∅)] }

/-- The processors of both are added, and the negative zero of one of them stays negative. -/
theorem matinee_evening_sum :
    ∃ (sum : Summary Binary64) (load : Nested Binary64 [service, KeyType.region, nodeAttribute]),
      matinee.merge evening = .ok sum ∧ sum.region = ⟨"east"⟩ ∧ load = sum.serverLoad ∧
      load.reach (videoInEast .cpu) = some (Binary64.ofInt 3) ∧
      load.reach (videoInEast .memory) = some (Binary64.mk 0x8000000000000000) ∧
      load.spelling? .here (Ident.mk "VIDEO") = some (Ident.mk "video") := by
  obtain ⟨sum, hmerge, hsum⟩ := (merge_sums_pointwise.2 matinee evening).2 rfl rfl
  have hcpu : Binary64.one + .ofInt 2 = .ofInt 3 := by decide +kernel
  exact ⟨sum, _, hmerge, hsum.region, rfl,
    hcpu ▸ hsum.serverLoad.both (videoInEast .cpu) rfl rfl,
    hsum.serverLoad.leftOnly (videoInEast .memory) rfl rfl, hsum.serverLoad.spelling .here _⟩

end Summary

end RegionGossip
