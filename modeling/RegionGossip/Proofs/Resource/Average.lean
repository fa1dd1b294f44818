import Mathlib.Algebra.Order.Field.Rat
import Mathlib.Tactic.NormNum
import RegionGossip.Proofs.Resource.Absorbed
import RegionGossip.Proofs.Resource.Grouping

/-!
# Mean processing times of a region

Every node reports its own mean processing time of a service, and the mean over a region is the mean
of what its nodes reported. It is read off two maps that are merged apart from each other, the sums
and the counts, and comes out the same however the reports were merged: a node that does not mention
a service counts for nothing, and a service that no node mentions has no mean.

Numbers are exact here. Nothing is said about doubles, whose sums are rounded.
-/

namespace RegionGossip

variable {ν : Type}

/-- The processing times of a service that some reports give, one for each report that mentions
it. -/
def Report.timesOf (reports : List (Report ν)) (service : ServiceId) : List ν :=
  reports.filterMap fun report => report.averageProcessingTime.get? service

/-- The sum of some numbers; nothing has no sum. -/
def totalOf [Add ν] [Zero ν] : List ν → Option ν
  | [] => none
  | value :: rest => some (value :: rest).sum

/-- The mean of some numbers; nothing has no mean. -/
def meanOf [Add ν] [Zero ν] [Div ν] [NatCast ν] (values : List ν) : Option ν :=
  (totalOf values).map (· / values.length)

section Total

variable [AddCommMonoid ν]

/-- One more number is added to a sum, if there is one. -/
theorem totalOf_cons (value : ν) (rest : List ν) :
    totalOf (value :: rest) = (some value).merge sumMerge (totalOf rest) := by
  cases rest with
  | nil => exact congrArg some List.sum_singleton
  | cons other others => rfl

variable [BEq ν] [LawfulBEq ν]

/-- What some answers stand for adds up to what the sum of the answers stands for. -/
theorem sum_map_heldAmount {α : Type} (items : List α) (answer : α → Option ν) :
    (items.map fun item => SortedMap.heldAmount (answer item)).sum =
      SortedMap.heldAmount (totalOf (items.filterMap answer)) := by
  induction items with
  | nil => rfl
  | cons item rest ih =>
    rw [List.map_cons, List.sum_cons, ih, ← SortedMap.heldAmount_merge, List.filterMap_cons]
    cases answer item with
    | none => cases totalOf (rest.filterMap answer) <;> rfl
    | some value => rw [totalOf_cons]

/-- Answers that stand for the same are the same. -/
theorem heldAmount_inj {left right : Option ν} :
    SortedMap.heldAmount left = SortedMap.heldAmount right ↔ left = right := by
  rw [← SortedMap.beq_iff_heldAmount, beq_iff_eq]

end Total

namespace Summary

/-- What a summary of a report keeps of the region and the window. -/
theorem keeps_of_ofReport [Add ν] [One ν] {regionOf : RegionOf} {report : Report ν}
    {summary : Summary ν} (hsummary : ofReport regionOf report = .ok summary) :
    regionOf report.node = some summary.region ∧ summary.window = report.window := by
  rw [ofReport] at hsummary
  split at hsummary
  · contradiction
  · rename_i region hregion
    obtain rfl := Except.ok.inj hsummary
    exact ⟨hregion, rfl⟩

/-- Reports of nodes that all have a region become summaries. -/
theorem exists_conversions [Add ν] [One ν] {regionOf : RegionOf} {reports : List (Report ν)}
    (hknown : ∀ report ∈ reports, ∃ region, regionOf report.node = some region) :
    ∃ parts, reports.mapM (ofReport regionOf) = .ok parts ∧
      List.Forall₂ (fun report part => ofReport regionOf report = .ok part) reports parts := by
  induction reports with
  | nil => exact ⟨[], rfl, .nil⟩
  | cons report rest ih =>
    obtain ⟨parts, hparts, hrest⟩ := ih fun other hother =>
      hknown other (List.mem_cons_of_mem _ hother)
    obtain ⟨region, hregion⟩ := hknown report List.mem_cons_self
    obtain ⟨part, hpart⟩ : ∃ part, ofReport regionOf report = .ok part := by
      rw [ofReport, hregion]
      exact ⟨_, rfl⟩
    refine ⟨part :: parts, ?_, .cons hpart hrest⟩
    rw [List.mapM_cons, hpart, hparts]
    rfl

/-- Every summary of some reports is that of one of them. -/
theorem exists_report_of_mem [Add ν] [One ν] {regionOf : RegionOf} {reports : List (Report ν)}
    {parts : List (Summary ν)} {part : Summary ν}
    (hparts : List.Forall₂ (fun report part => ofReport regionOf report = .ok part) reports parts)
    (hpart : part ∈ parts) : ∃ report ∈ reports, ofReport regionOf report = .ok part := by
  induction hparts with
  | nil => exact absurd hpart List.not_mem_nil
  | cons hhead _ ih =>
    rcases List.mem_cons.1 hpart with rfl | hlater
    · exact ⟨_, List.mem_cons_self, hhead⟩
    · obtain ⟨report, hreport, hconverted⟩ := ih hlater
      exact ⟨report, List.mem_cons_of_mem _ hreport, hconverted⟩

section Readings

variable [AddCommMonoid ν] [BEq ν] [LawfulBEq ν]

/-- Merging adds the sums of the processing times of a service. -/
theorem additive_processingNumerator (service : ServiceId) :
    Additive fun summary : Summary ν =>
      SortedMap.heldAmount (summary.processingNumerator.get? service) where
  null _ _ := rfl
  merge hmerge := by
    rw [(parts_of_merge hmerge).2.2.1, SortedMap.get?_sumMerge, SortedMap.heldAmount_merge]

/-- Merging adds the counts of a service. -/
theorem additive_processingDenominator (service : ServiceId) :
    Additive fun summary : Summary ν =>
      SortedMap.heldAmount (summary.processingDenominator.get? service) where
  null _ _ := rfl
  merge hmerge := by
    rw [(parts_of_merge hmerge).2.2.2, SortedMap.get?_sumMerge, SortedMap.heldAmount_merge]

/-- What an outcome holds is the sum of what its summaries hold. -/
theorem Outcome.held_eq_totalOf {region : RegionId} {window : Window} {parts : List (Summary ν)}
    {sum : Summary ν} (houtcome : Outcome region window parts (.ok sum))
    {held : Summary ν → Option ν}
    (hadditive : Additive fun summary : Summary ν => SortedMap.heldAmount (held summary)) :
    held sum = totalOf (parts.filterMap held) := by
  obtain ⟨tree, harranged, htotal⟩ := houtcome.exists_tree
  rw [← heldAmount_inj, ← sum_map_heldAmount]
  exact (tree.reading_total hadditive htotal).trans (harranged.sum_map hadditive)

end Readings

/-- What the summaries of some reports hold is what the reports give. -/
theorem filterMap_conversions [Add ν] [One ν] {α : Type} {regionOf : RegionOf}
    {reports : List (Report ν)} {parts : List (Summary ν)} {given : Report ν → Option α}
    {held : Summary ν → Option α}
    (hparts : List.Forall₂ (fun report part => ofReport regionOf report = .ok part) reports parts)
    (hheld : ∀ {report part}, ofReport regionOf report = .ok part → held part = given report) :
    parts.filterMap held = reports.filterMap given := by
  induction hparts with
  | nil => rfl
  | cons hpart _ ih => rw [List.filterMap_cons, List.filterMap_cons, hheld hpart, ih]

section Mean

variable [Field ν] [BEq ν] [LawfulBEq ν] {region : RegionId} {window : Window}
  {regionOf : RegionOf} {reports : List (Report ν)} {parts : List (Summary ν)} {sum : Summary ν}

/-- The sum of a service is that of the processing times which the reports give. -/
theorem get?_processingNumerator_eq_totalOf
    (hparts : List.Forall₂ (fun report part => ofReport regionOf report = .ok part) reports parts)
    (houtcome : Outcome region window parts (.ok sum)) (service : ServiceId) :
    sum.processingNumerator.get? service = totalOf (Report.timesOf reports service) := by
  rw [houtcome.held_eq_totalOf (additive_processingNumerator service)]
  refine congrArg totalOf (filterMap_conversions hparts fun hpart => ?_)
  rw [(parts_of_ofReport hpart).2.2.1]

/-- The count of a service is the number of processing times which the reports give. -/
theorem get?_processingDenominator_eq_totalOf
    (hparts : List.Forall₂ (fun report part => ofReport regionOf report = .ok part) reports parts)
    (houtcome : Outcome region window parts (.ok sum)) (service : ServiceId) :
    sum.processingDenominator.get? service =
      totalOf ((Report.timesOf reports service).map fun _ => 1) := by
  rw [houtcome.held_eq_totalOf (additive_processingDenominator service), Report.timesOf,
    List.map_filterMap]
  refine congrArg totalOf (filterMap_conversions hparts fun hpart => ?_)
  rw [(parts_of_ofReport hpart).2.2.2, SortedMap.get?_mapValues]

variable [CharZero ν]

/-- The mean of a service is that of the processing times which the reports give. -/
theorem averageProcessingTime_eq_meanOf
    (hparts : List.Forall₂ (fun report part => ofReport regionOf report = .ok part) reports parts)
    (houtcome : Outcome region window parts (.ok sum)) (service : ServiceId) :
    sum.averageProcessingTime service = meanOf (Report.timesOf reports service) := by
  rw [averageProcessingTime, get?_processingNumerator_eq_totalOf hparts houtcome,
    get?_processingDenominator_eq_totalOf hparts houtcome, meanOf]
  cases Report.timesOf reports service with
  | nil => rfl
  | cons value rest =>
    have hones : totalOf ((value :: rest).map fun _ => (1 : ν)) =
        some ((value :: rest).length : ν) := by
      show some ((value :: rest).map fun _ => (1 : ν)).sum = _
      rw [List.map_const', List.sum_replicate, nsmul_one]
    have hzero : (((value :: rest).length : ν) == 0) = false := by
      rw [beq_eq_false_iff_ne, Nat.cast_ne_zero]
      exact Nat.succ_ne_zero _
    rw [hones]
    show (if ((value :: rest).length : ν) == 0 then none else _) = _
    rw [hzero]
    rfl

end Mean

/-- The row of means holds the mean of every service that has one. -/
theorem get?_averageProcessingTimes [Div ν] [Zero ν] [BEq ν] (summary : Summary ν)
    (service : ServiceId) :
    summary.averageProcessingTimes.get? service = summary.averageProcessingTime service := by
  rw [averageProcessingTimes, SortedMap.get?_filterMap_of_congr]
  · cases hheld : summary.processingNumerator.get? service with
    | none => rw [averageProcessingTime, hheld]; rfl
    | some value => rfl
  · intro left right hsame
    funext _
    rw [averageProcessingTime, averageProcessingTime, SortedMap.get?_congr _ hsame,
      SortedMap.get?_congr _ hsame]

/-- The mean processing time of a service over a region is the mean of what its nodes reported. The
summaries of reports of one region and window can be merged in a row and in every tree, also with
null summaries among them, and whatever comes out gives as the mean of a service the sum of the
processing times that the reports give for it over the number of the reports that mention it, and
none where no report does; the row of all means holds just these. -/
theorem average_is_mean [Field ν] [CharZero ν] [BEq ν] [LawfulBEq ν] {regionOf : RegionOf}
    {region : RegionId} {window : Window} {reports : List (Report ν)}
    (hregion : ∀ report ∈ reports, ∃ own, regionOf report.node = some own ∧ (own == region) = true)
    (hwindow : ∀ report ∈ reports, report.window = window) :
    ∃ parts, reports.mapM (ofReport regionOf) = .ok parts ∧
      (∃ sum, mergeAll region window parts = .ok sum) ∧
      (∀ tree : MergeTree ν, Arranged region window parts tree.leaves →
        ∃ sum, tree.total = .ok sum) ∧
      ∀ sum, Outcome region window parts (.ok sum) → ∀ service,
        sum.averageProcessingTime service = meanOf (Report.timesOf reports service) ∧
        sum.averageProcessingTimes.get? service = meanOf (Report.timesOf reports service) := by
  have hknown : ∀ report ∈ reports, ∃ own, regionOf report.node = some own :=
    fun report hreport => (hregion report hreport).imp fun _ hown => hown.1
  obtain ⟨parts, hconverted, hparts⟩ := exists_conversions hknown
  have hfits : ∀ part ∈ parts, (null region window).Compatible part := by
    intro part hpart
    obtain ⟨report, hreport, hconverted⟩ := exists_report_of_mem hparts hpart
    obtain ⟨hown, hsame⟩ := keeps_of_ofReport hconverted
    obtain ⟨own, hfound, hequal⟩ := hregion report hreport
    obtain rfl := Option.some.inj (hown.symm.trans hfound)
    exact ⟨BEq.symm hequal, (hsame.trans (hwindow report hreport)).symm⟩
  refine ⟨parts, hconverted, exists_mergeAll_iff.2 hfits, ?_, ?_⟩
  · intro tree harranged
    have hleaves := harranged.forall_compatible_iff.2 hfits
    exact tree.exists_total_iff.2 fun one hone two htwo =>
      (hleaves one hone).symm.trans (hleaves two htwo)
  · intro sum houtcome service
    rw [get?_averageProcessingTimes, and_self_iff]
    exact averageProcessingTime_eq_meanOf hparts houtcome service

/-- The region of every node is `east`, in two spellings. -/
def eastern : RegionOf := fun node => some (if node == ⟨"n1"⟩ then ⟨"east"⟩ else ⟨"EAST"⟩)

/-- Two nodes of a region report a service in two spellings, and one of them a second service: the
mean of the first is taken over two reports, that of the second over one, and a service that is not
mentioned has none. -/
theorem noon_morning_means : ∃ parts sum,
    [noonReport, morningReport].mapM (ofReport eastern) = .ok parts ∧
    mergeAll ⟨"East"⟩ .short parts = .ok sum ∧
    sum.averageProcessingTime ⟨"VIDEO"⟩ = some (7 / 2) ∧
    sum.averageProcessingTime ⟨"audio"⟩ = some 5 ∧
    sum.averageProcessingTimes.get? ⟨"text"⟩ = none := by
  obtain ⟨parts, hparts, ⟨sum, hsum⟩, -, hmeans⟩ := average_is_mean
    (show ∀ report ∈ [noonReport, morningReport],
      ∃ own, eastern report.node = some own ∧ (own == ⟨"East"⟩) = true by decide)
    (show ∀ report ∈ [noonReport, morningReport], report.window = .short by decide)
  have hmean := hmeans sum (outcome_mergeAll parts hsum)
  have hvideo : Report.timesOf [noonReport, morningReport] ⟨"VIDEO"⟩ = [3, 4] := rfl
  have haudio : Report.timesOf [noonReport, morningReport] ⟨"audio"⟩ = [5] := rfl
  refine ⟨parts, sum, hparts, hsum, ?_, ?_, (hmean ⟨"text"⟩).2⟩
  · rw [(hmean _).1, hvideo]
    norm_num [meanOf, totalOf]
  · rw [(hmean _).1, haudio]
    norm_num [meanOf, totalOf]

end Summary

end RegionGossip
