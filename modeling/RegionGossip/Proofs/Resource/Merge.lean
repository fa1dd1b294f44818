import Mathlib.Algebra.Group.Prod
import RegionGossip.Proofs.Resource.SumMerge
import RegionGossip.Proofs.Timestamp.Extremes
import RegionGossip.Resource.Summary

/-!
# What a merge of summaries adds

Apart from its region and window a summary stands for an element of a commutative monoid, of which
the null summary is the zero, and merging adds these elements. Whether a merge succeeds, and why it
fails, is seen from the regions and windows alone.
-/

namespace RegionGossip

variable {ν : Type}

/-- What a summary says about its region and window. -/
abbrev Content (ν : Type) : Type :=
  Tropical (WithTop (Int ×ₗ Nat)) ×
  Tropical (WithTop (Int ×ₗ Nat)ᵒᵈ) ×
  (NodeAttribute → WithZero ν) ×
  (ServiceId → WithZero (RegionId → WithZero (NodeAttribute → WithZero ν))) ×
  (ServiceId → WithZero (RegionId → WithZero (NodeAttribute → WithZero ν))) ×
  (RegionId → WithZero (LinkAttribute → WithZero ν)) ×
  (RegionId → WithZero (LinkAttribute → WithZero ν)) ×
  (RegionId → WithZero (LinkAttribute → WithZero ν)) ×
  (ServiceId → WithZero ν) ×
  (ServiceId → WithZero ν)

-- the instance for ten nested factors is larger than the default limit on its size
set_option synthInstance.maxSize 512 in
instance [AddCommSemigroup ν] : AddCommMonoid (Content ν) := inferInstance

namespace Summary

/-- Summaries of the same region, in whatever spelling, and of the same window. -/
def Compatible (one two : Summary ν) : Prop :=
  (one.region == two.region) = true ∧ one.window = two.window

/-- Every summary is compatible with itself. -/
theorem Compatible.refl (one : Summary ν) : one.Compatible one := ⟨BEq.rfl, rfl⟩

/-- Being compatible does not depend on the order of the two. -/
theorem Compatible.symm {one two : Summary ν} (hfits : one.Compatible two) :
    two.Compatible one := ⟨BEq.symm hfits.1, hfits.2.symm⟩

/-- Summaries that are compatible with the same one are compatible with each other. -/
theorem Compatible.trans {one two three : Summary ν} (hfirst : one.Compatible two)
    (hsecond : two.Compatible three) : one.Compatible three :=
  ⟨BEq.trans hfirst.1 hsecond.1, hfirst.2.trans hsecond.2⟩

section Merge

variable [Add ν]

/-- What a merge of compatible summaries gives. -/
def plus (one two : Summary ν) : Summary ν where
  region := one.region
  window := one.window
  minTimestamp := Timestamp.earliest one.minTimestamp two.minTimestamp
  maxTimestamp := Timestamp.latest one.maxTimestamp two.maxTimestamp
  serverCapacity := sumMerge one.serverCapacity two.serverCapacity
  serverLoad := sumMerge one.serverLoad two.serverLoad
  serverDemand := sumMerge one.serverDemand two.serverDemand
  networkCapacity := sumMerge one.networkCapacity two.networkCapacity
  networkLoad := sumMerge one.networkLoad two.networkLoad
  networkDemand := sumMerge one.networkDemand two.networkDemand
  processingNumerator := sumMerge one.processingNumerator two.processingNumerator
  processingDenominator := sumMerge one.processingDenominator two.processingDenominator

/-- A merge is refused for the regions or else for the windows, or it gives the sum. -/
theorem merge_eq (one two : Summary ν) :
    one.merge two =
      if one.region != two.region then .error (.differentRegions one.region two.region)
      else if one.window ≠ two.window then .error (.differentWindows one.window two.window)
      else .ok (one.plus two) := rfl

/-- A merge that succeeds gives the sum. -/
theorem eq_plus_of_merge {one two sum : Summary ν} (hmerge : one.merge two = .ok sum) :
    sum = one.plus two := by
  rw [merge_eq] at hmerge
  split at hmerge
  · contradiction
  · split at hmerge
    · contradiction
    · exact (Except.ok.inj hmerge).symm

/-- Two summaries can be merged when they are compatible. -/
theorem exists_merge_iff {one two : Summary ν} :
    (∃ sum, one.merge two = .ok sum) ↔ one.Compatible two := by
  rw [merge_eq, Compatible]
  by_cases hregion : (one.region == two.region) = true
  · by_cases hwindow : one.window = two.window
    · simp [bne, hregion, hwindow]
    · simp [bne, hregion, hwindow]
  · simp [bne, hregion]

/-- Two summaries are refused exactly when their regions differ, or else their windows. -/
theorem merge_eq_error_iff {one two : Summary ν} {error : SummaryError} :
    one.merge two = .error error ↔
      (one.region == two.region) = false ∧ error = .differentRegions one.region two.region ∨
      (one.region == two.region) = true ∧ one.window ≠ two.window ∧
        error = .differentWindows one.window two.window := by
  rw [merge_eq]
  by_cases hregion : (one.region == two.region) = true
  · by_cases hwindow : one.window = two.window
    · simp [bne, hregion, hwindow]
    · simp [bne, hregion, hwindow, eq_comm]
  · simp [bne, hregion, eq_comm]

/-- Why a merge fails is seen from the region and window of the first summary. -/
theorem merge_eq_error_congr {one other two : Summary ν} {error : SummaryError}
    (hregion : one.region = other.region) (hwindow : one.window = other.window) :
    one.merge two = .error error ↔ other.merge two = .error error := by
  rw [merge_eq_error_iff, merge_eq_error_iff, hregion, hwindow]

/-- A merged summary keeps the region and window of the first one, spelling included. -/
theorem merge_keeps {one two sum : Summary ν} (hmerge : one.merge two = .ok sum) :
    sum.region = one.region ∧ sum.window = one.window := by
  rw [eq_plus_of_merge hmerge]
  exact ⟨rfl, rfl⟩

/-- A row of merges keeps the region and window it starts from. -/
theorem foldlM_merge_keeps {summaries : List (Summary ν)} {one sum : Summary ν}
    (hmerge : summaries.foldlM merge one = .ok sum) :
    sum.region = one.region ∧ sum.window = one.window := by
  induction summaries generalizing one with
  | nil =>
    obtain rfl := Except.ok.inj hmerge
    exact ⟨rfl, rfl⟩
  | cons head rest ih =>
    rw [List.foldlM_cons] at hmerge
    cases hhead : one.merge head with
    | error => rw [hhead] at hmerge; contradiction
    | ok first =>
      rw [hhead] at hmerge
      obtain ⟨hregion, hwindow⟩ := ih hmerge
      obtain ⟨hfirst, hfirstWindow⟩ := merge_keeps hhead
      exact ⟨hregion.trans hfirst, hwindow.trans hfirstWindow⟩

/-- A row of merges fails for the same reason from every start of the same region and window. -/
theorem foldlM_merge_eq_error_congr {summaries : List (Summary ν)} {one other : Summary ν}
    {error : SummaryError} (hregion : one.region = other.region)
    (hwindow : one.window = other.window) :
    summaries.foldlM merge one = .error error ↔ summaries.foldlM merge other = .error error := by
  induction summaries generalizing one other with
  | nil => exact iff_of_false nofun nofun
  | cons head rest ih =>
    rw [List.foldlM_cons, List.foldlM_cons]
    cases hone : one.merge head with
    | error reason =>
      rw [(merge_eq_error_congr hregion hwindow).1 hone]
    | ok first =>
      cases hother : other.merge head with
      | error reason =>
        rw [(merge_eq_error_congr hregion hwindow).2 hother] at hone
        contradiction
      | ok second =>
        obtain ⟨hfirst, hfirstWindow⟩ := merge_keeps hone
        obtain ⟨hsecond, hsecondWindow⟩ := merge_keeps hother
        exact ih (by rw [hfirst, hsecond, hregion]) (by rw [hfirstWindow, hsecondWindow, hwindow])

/-- Readings of summaries for which merging is addition and null summaries are zero. -/
structure Additive {M : Type} [AddCommMonoid M] (reading : Summary ν → M) : Prop where
  null : ∀ region window, reading (null region window) = 0
  merge : ∀ {one two sum}, one.merge two = .ok sum → reading sum = reading one + reading two

end Merge

variable [AddCommSemigroup ν] [BEq ν] [LawfulBEq ν]

/-- The content of a summary. -/
def content (summary : Summary ν) : Content ν :=
  (Timestamp.asEarliest summary.minTimestamp, Timestamp.asLatest summary.maxTimestamp,
    amount summary.serverCapacity, amount summary.serverLoad, amount summary.serverDemand,
    amount summary.networkCapacity, amount summary.networkLoad, amount summary.networkDemand,
    amount summary.processingNumerator, amount summary.processingDenominator)

/-- Summaries are equal when their region, window and content are. -/
theorem beq_iff_content {one two : Summary ν} :
    (one == two) = true ↔ one.Compatible two ∧ one.content = two.content := by
  show one.same two = true ↔ _
  simp only [same, content, Compatible, Bool.and_eq_true, beq_iff_eq, beq_iff_amount,
    Prod.mk.injEq, Timestamp.asEarliest_injective.eq_iff, Timestamp.asLatest_injective.eq_iff,
    and_assoc]

/-- Merging adds contents. -/
theorem additive_content : Additive (content : Summary ν → Content ν) where
  null _ _ := rfl
  merge := by
    intro one two sum hmerge
    rw [eq_plus_of_merge hmerge]
    simp only [content, plus, Prod.mk_add_mk, amount_sumMerge, Timestamp.asEarliest_earliest,
      Timestamp.asLatest_latest]

end Summary

end RegionGossip
