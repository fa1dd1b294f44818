import Mathlib.Algebra.BigOperators.Group.List.Basic
import RegionGossip.Proofs.Resource.Merge

/-!
# Order and grouping of merged summaries

Summaries may be merged two by two in any order, in any grouping, and with null summaries among
them. A tree of merges has the sum of its leaves as its content, and it fails exactly when two of
its leaves have different regions or windows. Merging a row from the null summary is one such tree.

Addition at the leaves of the maps is assumed to be exact. Nothing is said here about doubles, whose
sums depend on the order.
-/

namespace RegionGossip

variable {ν : Type}

/-- A grouping of summaries that are merged two by two. -/
inductive MergeTree (ν : Type)
  | leaf (summary : Summary ν)
  | node (left right : MergeTree ν)

namespace MergeTree

/-- The summaries that a tree merges, from left to right. -/
def leaves : MergeTree ν → List (Summary ν)
  | leaf summary => [summary]
  | node left right => left.leaves ++ right.leaves

/-- What the merges of a tree give. -/
def total [Add ν] : MergeTree ν → Except SummaryError (Summary ν)
  | leaf summary => .ok summary
  | node left right => do (← left.total).merge (← right.total)

/-- The tree that merges further summaries into the total of another tree, one after the other. -/
def extend (tree : MergeTree ν) (summaries : List (Summary ν)) : MergeTree ν :=
  summaries.foldl (fun grown summary => node grown (leaf summary)) tree

/-- A tree has a leaf. -/
theorem exists_mem_leaves (tree : MergeTree ν) : ∃ summary, summary ∈ tree.leaves := by
  induction tree with
  | leaf summary => exact ⟨summary, List.mem_singleton_self _⟩
  | node left right ihLeft =>
    obtain ⟨summary, hsummary⟩ := ihLeft
    exact ⟨summary, List.mem_append_left _ hsummary⟩

/-- An extended tree has the further summaries as its last leaves. -/
theorem leaves_extend (tree : MergeTree ν) (summaries : List (Summary ν)) :
    (tree.extend summaries).leaves = tree.leaves ++ summaries := by
  induction summaries generalizing tree with
  | nil => exact (List.append_nil _).symm
  | cons head rest ih =>
    calc
      ((node tree (leaf head)).extend rest).leaves
      _ = (tree.leaves ++ [head]) ++ rest := ih _
      _ = tree.leaves ++ head :: rest := List.append_cons .. |>.symm

section Total

variable [Add ν]

/-- The total of an extended tree is a row of merges from the total of the tree. -/
theorem total_extend (tree : MergeTree ν) (summaries : List (Summary ν)) :
    (tree.extend summaries).total = tree.total >>= summaries.foldlM Summary.merge := by
  induction summaries generalizing tree with
  | nil => cases htotal : tree.total <;> exact htotal
  | cons head rest ih =>
    rw [extend, List.foldl_cons, ← extend, ih, total]
    cases tree.total <;> rfl

/-- Merging a row into the null summary is a tree. -/
theorem total_extend_null (region : RegionId) (window : Window) (summaries : List (Summary ν)) :
    ((leaf (Summary.null region window)).extend summaries).total =
      Summary.mergeAll region window summaries := total_extend _ _

/-- A tree that succeeds is made of trees that succeed, whose totals are merged. -/
theorem total_node {left right : MergeTree ν} {sum : Summary ν}
    (htotal : (node left right).total = .ok sum) :
    ∃ one two, left.total = .ok one ∧ right.total = .ok two ∧ one.merge two = .ok sum := by
  rw [total] at htotal
  cases hleft : left.total with
  | error => rw [hleft] at htotal; contradiction
  | ok one =>
    cases hright : right.total with
    | error => rw [hleft, hright] at htotal; contradiction
    | ok two =>
      rw [hleft, hright] at htotal
      exact ⟨one, two, rfl, rfl, htotal⟩

/-- The total is compatible with every leaf. -/
theorem compatible_total {tree : MergeTree ν} {sum leaf : Summary ν}
    (htotal : tree.total = .ok sum) (hleaf : leaf ∈ tree.leaves) : sum.Compatible leaf := by
  induction tree generalizing sum with
  | leaf summary =>
    obtain rfl := Except.ok.inj htotal
    obtain rfl := List.mem_singleton.1 hleaf
    exact Summary.Compatible.refl _
  | node left right ihLeft ihRight =>
    obtain ⟨one, two, hleft, hright, hmerge⟩ := total_node htotal
    obtain ⟨hregion, hwindow⟩ := Summary.merge_keeps hmerge
    have hone : sum.Compatible one := by
      rw [Summary.Compatible, hregion, hwindow]
      exact Summary.Compatible.refl one
    have hfits : one.Compatible two := Summary.exists_merge_iff.1 ⟨sum, hmerge⟩
    rcases List.mem_append.1 hleaf with hin | hin
    · exact hone.trans (ihLeft hleft hin)
    · exact (hone.trans hfits).trans (ihRight hright hin)

/-- A tree succeeds exactly when its leaves are compatible with each other. -/
theorem exists_total_iff (tree : MergeTree ν) :
    (∃ sum, tree.total = .ok sum) ↔
      ∀ one ∈ tree.leaves, ∀ two ∈ tree.leaves, one.Compatible two := by
  constructor
  · rintro ⟨sum, htotal⟩ one hone two htwo
    exact (compatible_total htotal hone).symm.trans (compatible_total htotal htwo)
  · intro hfits
    induction tree with
    | leaf summary => exact ⟨summary, rfl⟩
    | node left right ihLeft ihRight =>
      obtain ⟨one, hleft⟩ := ihLeft fun first hfirst second hsecond =>
        hfits first (List.mem_append_left _ hfirst) second (List.mem_append_left _ hsecond)
      obtain ⟨two, hright⟩ := ihRight fun first hfirst second hsecond =>
        hfits first (List.mem_append_right _ hfirst) second (List.mem_append_right _ hsecond)
      obtain ⟨first, hfirst⟩ := left.exists_mem_leaves
      obtain ⟨second, hsecond⟩ := right.exists_mem_leaves
      have hbetween : first.Compatible second :=
        hfits first (List.mem_append_left _ hfirst) second (List.mem_append_right _ hsecond)
      have htotals : one.Compatible two :=
        ((compatible_total hleft hfirst).trans hbetween).trans
          (compatible_total hright hsecond).symm
      obtain ⟨sum, hmerge⟩ := Summary.exists_merge_iff.2 htotals
      refine ⟨sum, ?_⟩
      rw [total, hleft, hright]
      exact hmerge

section Reading

variable {M : Type} [AddCommMonoid M] {reading : Summary ν → M}

/-- A total reads as the sum over the leaves. -/
theorem reading_total (hadditive : Summary.Additive reading) {tree : MergeTree ν} {sum : Summary ν}
    (htotal : tree.total = .ok sum) : reading sum = (tree.leaves.map reading).sum := by
  induction tree generalizing sum with
  | leaf summary =>
    obtain rfl := Except.ok.inj htotal
    exact List.sum_singleton.symm
  | node left right ihLeft ihRight =>
    obtain ⟨one, two, hleft, hright, hmerge⟩ := total_node htotal
    rw [hadditive.merge hmerge, ihLeft hleft, ihRight hright, leaves, List.map_append,
      List.sum_append]

end Reading

end Total

end MergeTree

/-- A row that holds some summaries in any order, with any number of null summaries of a region and
window among them. -/
def Arranged (region : RegionId) (window : Window) (summaries row : List (Summary ν)) : Prop :=
  ∃ spellings : List RegionId, (∀ spelling ∈ spellings, (spelling == region) = true) ∧
    row.Perm (summaries ++ spellings.map (Summary.null · window))

namespace Arranged

variable {region : RegionId} {window : Window} {summaries row other : List (Summary ν)}

/-- The summaries of an arranged row are the given ones and null summaries. -/
theorem mem_iff (harranged : Arranged region window summaries row) :
    ∃ spellings : List RegionId, (∀ spelling ∈ spellings, (spelling == region) = true) ∧
      ∀ summary, summary ∈ row ↔
        summary ∈ summaries ∨ ∃ spelling ∈ spellings, Summary.null spelling window = summary := by
  obtain ⟨spellings, hspellings, hperm⟩ := harranged
  refine ⟨spellings, hspellings, fun summary => ?_⟩
  rw [hperm.mem_iff, List.mem_append, List.mem_map]

/-- Summaries are arranged as they are. -/
theorem refl (summaries : List (Summary ν)) : Arranged region window summaries summaries :=
  ⟨[], nofun, by rw [List.map_nil, List.append_nil]⟩

/-- An arranged row may be put in any order. -/
theorem perm (harranged : Arranged region window summaries row) (hperm : other.Perm row) :
    Arranged region window summaries other := by
  obtain ⟨spellings, hspellings, hrow⟩ := harranged
  exact ⟨spellings, hspellings, hperm.trans hrow⟩

/-- One more null summary may stand in front. -/
theorem null_cons (harranged : Arranged region window summaries row) :
    Arranged region window summaries (Summary.null region window :: row) := by
  obtain ⟨spellings, hspellings, hperm⟩ := harranged
  refine ⟨region :: spellings, ?_, (hperm.cons _).trans List.perm_middle.symm⟩
  intro spelling hmem
  rcases List.mem_cons.1 hmem with rfl | hmem
  · exact BEq.rfl
  · exact hspellings spelling hmem

/-- Two rows of the same summaries meet: they share a summary, or they both hold null summaries
only. -/
theorem exists_compatible (hrow : Arranged region window summaries row)
    (hother : Arranged region window summaries other) {one two : Summary ν} (hone : one ∈ row)
    (htwo : two ∈ other) : ∃ one ∈ row, ∃ two ∈ other, one.Compatible two := by
  obtain ⟨spellings, hspellings, hmem⟩ := hrow.mem_iff
  obtain ⟨others, hothers, hmemOther⟩ := hother.mem_iff
  rcases (hmem one).1 hone with hgiven | ⟨spelling, hspelling, rfl⟩
  · exact ⟨one, hone, one, (hmemOther one).2 (.inl hgiven), Summary.Compatible.refl one⟩
  · rcases (hmemOther two).1 htwo with hgiven | ⟨variant, hvariant, rfl⟩
    · exact ⟨two, (hmem two).2 (.inl hgiven), two, htwo, Summary.Compatible.refl two⟩
    · refine ⟨_, hone, _, htwo, ?_, rfl⟩
      exact BEq.trans (hspellings spelling hspelling) (BEq.symm (hothers variant hvariant))

/-- Null summaries fit wherever the given summaries do. -/
theorem forall_compatible_iff (harranged : Arranged region window summaries row) :
    (∀ summary ∈ row, (Summary.null region window).Compatible summary) ↔
      ∀ summary ∈ summaries, (Summary.null region window).Compatible summary := by
  obtain ⟨spellings, hspellings, hmem⟩ := harranged.mem_iff
  constructor
  · intro hfits summary hsummary
    exact hfits summary ((hmem summary).2 (.inl hsummary))
  · intro hfits summary hsummary
    rcases (hmem summary).1 hsummary with hgiven | ⟨spelling, hspelling, rfl⟩
    · exact hfits summary hgiven
    · exact ⟨BEq.symm (hspellings spelling hspelling), rfl⟩

/-- An arranged row reads as the sum of the given summaries. -/
theorem sum_map [Add ν] {M : Type} [AddCommMonoid M] {reading : Summary ν → M}
    (hadditive : Summary.Additive reading) (harranged : Arranged region window summaries row) :
    (row.map reading).sum = (summaries.map reading).sum := by
  obtain ⟨spellings, -, hperm⟩ := harranged
  have hnulls : ((spellings.map (Summary.null · window)).map reading).sum = 0 := by
    apply List.sum_eq_zero
    intro amount hamount
    rw [List.map_map, List.mem_map] at hamount
    obtain ⟨spelling, -, rfl⟩ := hamount
    exact hadditive.null spelling window
  rw [(hperm.map reading).sum_eq, List.map_append, List.sum_append, hnulls, add_zero]

end Arranged

/-- What comes of some summaries: the total of a tree over them, or of a row that is merged into the
null summary. Further null summaries may stand anywhere. -/
def Summary.Outcome [Add ν] (region : RegionId) (window : Window) (summaries : List (Summary ν))
    (result : Except SummaryError (Summary ν)) : Prop :=
  (∃ tree : MergeTree ν, Arranged region window summaries tree.leaves ∧ tree.total = result) ∨
    ∃ row, Arranged region window summaries row ∧ Summary.mergeAll region window row = result

/-- Every outcome is that of a tree. -/
theorem Summary.Outcome.exists_tree [Add ν] {region : RegionId} {window : Window}
    {summaries : List (Summary ν)} {result : Except SummaryError (Summary ν)}
    (houtcome : Summary.Outcome region window summaries result) :
    ∃ tree : MergeTree ν, Arranged region window summaries tree.leaves ∧ tree.total = result := by
  rcases houtcome with htree | ⟨row, hrow, rfl⟩
  · exact htree
  · refine ⟨(MergeTree.leaf (Summary.null region window)).extend row, ?_,
      MergeTree.total_extend_null region window row⟩
    rw [MergeTree.leaves_extend]
    exact hrow.null_cons

namespace Summary

/-- Results that are equal summaries or the same error. -/
def Alike [BEq ν] : Except SummaryError (Summary ν) → Except SummaryError (Summary ν) → Prop
  | .ok one, .ok two => (one == two) = true
  | .error one, .error two => one = two
  | _, _ => False

section Rows

variable [Add ν] {region : RegionId} {window : Window}

/-- Merging a row succeeds when its summaries have the given region and window. -/
theorem exists_mergeAll_iff {row : List (Summary ν)} :
    (∃ sum, mergeAll region window row = .ok sum) ↔
      ∀ summary ∈ row, (null region window).Compatible summary := by
  rw [← MergeTree.total_extend_null, MergeTree.exists_total_iff, MergeTree.leaves_extend]
  constructor
  · intro hfits summary hsummary
    exact hfits _ (List.mem_append_left _ (List.mem_singleton_self _)) summary
      (List.mem_append_right _ hsummary)
  · intro hfits
    have hnull : ∀ summary ∈ (MergeTree.leaf (null region window)).leaves ++ row,
        (null region window).Compatible summary := by
      intro summary hsummary
      rcases List.mem_append.1 hsummary with hleaf | hrow
      · obtain rfl := List.mem_singleton.1 hleaf
        exact Compatible.refl _
      · exact hfits summary hrow
    intro one hone two htwo
    exact (hnull one hone).symm.trans (hnull two htwo)

/-- The total of a row is an outcome of it. -/
theorem outcome_mergeAll (row : List (Summary ν)) {result : Except SummaryError (Summary ν)}
    (hresult : mergeAll region window row = result) : Outcome region window row result :=
  .inr ⟨row, Arranged.refl row, hresult⟩

/-- The merged totals of two rows are an outcome of the joined row. -/
theorem outcome_merge_mergeAll {front back : List (Summary ν)} {one two : Summary ν}
    {result : Except SummaryError (Summary ν)} (hfront : mergeAll region window front = .ok one)
    (hback : mergeAll region window back = .ok two) (hresult : one.merge two = result) :
    Outcome region window (front ++ back) result := by
  let start : MergeTree ν := .leaf (null region window)
  refine .inl ⟨.node (start.extend front) (start.extend back), ?_, ?_⟩
  · rw [MergeTree.leaves, MergeTree.leaves_extend, MergeTree.leaves_extend]
    -- the second null summary moves to the front, next to the first
    have hmoved : (null region window :: (front ++ null region window :: back)).Perm
        (null region window :: null region window :: (front ++ back)) :=
      List.perm_middle.cons _
    exact (Arranged.refl (front ++ back)).null_cons.null_cons.perm hmoved
  · rw [MergeTree.total, MergeTree.total_extend_null, MergeTree.total_extend_null, hfront, hback]
    exact hresult

end Rows

section Outcomes

variable [AddCommSemigroup ν] [BEq ν] [LawfulBEq ν] {region : RegionId} {window : Window}

/-- All outcomes for the same summaries are equal. -/
theorem beq_of_outcomes {summaries : List (Summary ν)} {one two : Summary ν}
    (hone : Outcome region window summaries (.ok one))
    (htwo : Outcome region window summaries (.ok two)) : (one == two) = true := by
  obtain ⟨tree, harranged, htotal⟩ := hone.exists_tree
  obtain ⟨other, harrangedOther, htotalOther⟩ := htwo.exists_tree
  have hfits : one.Compatible two := by
    obtain ⟨leaf, hleaf⟩ := tree.exists_mem_leaves
    obtain ⟨last, hlast⟩ := other.exists_mem_leaves
    obtain ⟨first, hfirst, second, hsecond, hbetween⟩ :=
      harranged.exists_compatible harrangedOther hleaf hlast
    have hleft := MergeTree.compatible_total htotal hfirst
    have hright := MergeTree.compatible_total htotalOther hsecond
    exact (hleft.trans hbetween).trans hright.symm
  have hcontent : one.content = two.content := by
    rw [MergeTree.reading_total additive_content htotal,
      MergeTree.reading_total additive_content htotalOther, harranged.sum_map additive_content,
      harrangedOther.sum_map additive_content]
  exact beq_iff_content.2 ⟨hfits, hcontent⟩

/-- Merging two rows separately and then their totals is merging the joined row. -/
theorem alike_mergeAll_append (front back : List (Summary ν)) :
    Alike (mergeAll region window (front ++ back))
      (do (← mergeAll region window front).merge (← mergeAll region window back)) := by
  have hjoined : mergeAll region window (front ++ back) =
      mergeAll region window front >>= back.foldlM merge := List.foldlM_append
  cases hfront : mergeAll region window front with
  | error reason =>
    rw [hjoined, hfront]
    rfl
  | ok one =>
    obtain ⟨hregion, hwindow⟩ := foldlM_merge_keeps hfront
    rw [hfront] at hjoined
    cases hback : mergeAll region window back with
    | error reason =>
      have hsame : back.foldlM merge one = .error reason :=
        (foldlM_merge_eq_error_congr hregion hwindow).2 hback
      rw [hjoined]
      show Alike (back.foldlM merge one) (.error reason)
      rw [hsame]
      rfl
    | ok two =>
      obtain ⟨hregionBack, hwindowBack⟩ := foldlM_merge_keeps hback
      have hfits : one.Compatible two := by
        rw [Compatible, hregion, hwindow, hregionBack, hwindowBack]
        exact ⟨BEq.rfl, rfl⟩
      obtain ⟨sum, hsum⟩ := exists_merge_iff.2 hfits
      show Alike (mergeAll region window (front ++ back)) (one.merge two)
      rw [hsum]
      cases htotal : mergeAll region window (front ++ back) with
      | error reason =>
        have hsame : mergeAll region window back = .error reason :=
          (foldlM_merge_eq_error_congr hregion hwindow).1 (hjoined.symm.trans htotal)
        rw [hsame] at hback
        contradiction
      | ok total =>
        exact beq_of_outcomes (outcome_mergeAll (front ++ back) htotal)
          (outcome_merge_mergeAll hfront hback hsum)

/-- Order and grouping do not matter. A tree of merges succeeds exactly when its leaves have one
region and one window, and merging a row into a null summary succeeds exactly when the given
summaries have its region and window. All outcomes for the same summaries are equal, however many
null summaries stand among them, and a row may be cut in two and its parts merged on their own. -/
theorem independent_of_grouping (region : RegionId) (window : Window)
    (summaries : List (Summary ν)) :
    (∀ tree : MergeTree ν, (∃ sum, tree.total = .ok sum) ↔
      ∀ one ∈ tree.leaves, ∀ two ∈ tree.leaves, one.Compatible two) ∧
    (∀ row, Arranged region window summaries row →
      ((∃ sum, mergeAll region window row = .ok sum) ↔
        ∀ summary ∈ summaries, (null region window).Compatible summary)) ∧
    (∀ one two, Outcome region window summaries (.ok one) →
      Outcome region window summaries (.ok two) → (one == two) = true) ∧
    ∀ front back : List (Summary ν), Alike (mergeAll region window (front ++ back))
      (do (← mergeAll region window front).merge (← mergeAll region window back)) := by
  refine ⟨MergeTree.exists_total_iff, ?_, ?_, alike_mergeAll_append⟩
  · intro row harranged
    rw [exists_mergeAll_iff, harranged.forall_compatible_iff]
  · intro one two hone htwo
    exact beq_of_outcomes hone htwo

/-- A summary of the region `east`, with one service. -/
def dawn : Summary Int :=
  { null ⟨"east"⟩ .short with
    minTimestamp := some ⟨5, 0⟩
    maxTimestamp := some ⟨9, 0⟩
    serverCapacity := SortedMap.ofList [(.cpu, 4)]
    serverLoad := SortedMap.ofList
      [(⟨"video"⟩, SortedMap.ofList [(⟨"west"⟩, SortedMap.ofList [(.cpu, 1)])])] }

/-- A summary of the same region and service in other spellings. -/
def dusk : Summary Int :=
  { null ⟨"EAST"⟩ .short with
    minTimestamp := some ⟨3, 0⟩
    maxTimestamp := some ⟨7, 0⟩
    serverCapacity := SortedMap.ofList [(.cpu, 2), (.memory, 8)]
    serverLoad := SortedMap.ofList
      [(⟨"Video"⟩, SortedMap.ofList [(⟨"WEST"⟩, SortedMap.ofList [(.cpu, 2)])])] }

/-- The tree over two summaries and the row that holds them the other way round, with a null summary
between them, both succeed, and the totals are equal. -/
theorem dawn_dusk_totals_equal : ∃ left right,
    (MergeTree.node (.leaf dawn) (.leaf dusk)).total = .ok left ∧
      mergeAll ⟨"East"⟩ .short [dusk, null ⟨"eAST"⟩ .short, dawn] = .ok right ∧
      (left == right) = true := by
  obtain ⟨-, -, hequal, -⟩ := independent_of_grouping ⟨"East"⟩ .short [dawn, dusk]
  refine ⟨_, _, rfl, rfl, hequal _ _ ?_ ?_⟩
  · exact .inl ⟨.node (.leaf dawn) (.leaf dusk), Arranged.refl _, rfl⟩
  · refine .inr ⟨[dusk, null ⟨"eAST"⟩ .short, dawn], ⟨[⟨"eAST"⟩], ?_, ?_⟩, rfl⟩
    · decide
    · exact (List.reverse_perm [dawn, null ⟨"eAST"⟩ .short, dusk]).trans
        ((List.Perm.swap dusk _ []).cons dawn)

end Outcomes

end Summary

end RegionGossip
