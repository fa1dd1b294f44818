import Mathlib.Algebra.Field.Rat
import Mathlib.Algebra.Order.Ring.Rat
import Mathlib.Order.Bounds.Basic
import RegionGossip.Proofs.Resource.Merge

/-!
# What goes into a summary

A summary is built from null summaries and the summaries of single reports by merging. Whatever is
built knows the first and the last moment of the reports that went into it, and for each service how
many of them mention it. A summary that no report went into is a null summary.

Nothing is assumed about the numbers, but for the counts: they are right for numbers that count
exactly, as the doubles do not.
-/

namespace RegionGossip

variable {ν : Type}

/-- Whether a report has a processing time of a service. -/
def Report.mentions (report : Report ν) (service : ServiceId) : Bool :=
  report.averageProcessingTime.contains service

/-- The moments at which some reports were made. -/
def Report.moments (reports : List (Report ν)) : Set (Int ×ₗ Nat) :=
  {moment | ∃ report ∈ reports, report.timestamp.instant = moment}

/-- Where there are no reports there are no moments. -/
theorem Report.moments_eq_empty_iff {reports : List (Report ν)} :
    moments reports = ∅ ↔ reports = [] := by
  constructor
  · intro hmoments
    refine List.eq_nil_iff_forall_not_mem.2 fun report hreport => ?_
    exact (Set.eq_empty_iff_forall_notMem.1 hmoments _) ⟨report, hreport, rfl⟩
  · rintro rfl
    exact Set.eq_empty_of_forall_notMem fun moment ⟨report, hreport, _⟩ => List.not_mem_nil hreport

/-- The moments of two rows of reports are those of the joined row. -/
theorem Report.moments_append (reports others : List (Report ν)) :
    moments (reports ++ others) = moments reports ∪ moments others := by
  ext moment
  simp [moments, or_and_right, exists_or]

/-- The moments of one report are the one at which it was made. -/
theorem Report.moments_singleton (report : Report ν) :
    moments [report] = {report.timestamp.instant} := by
  ext moment
  simp [moments, eq_comm]

/-- A time that may be missing is the best of some moments, or there are none. -/
def Timestamp.IsBestOf (isBest : Set (Int ×ₗ Nat) → Int ×ₗ Nat → Prop)
    (moments : Set (Int ×ₗ Nat)) : Option Timestamp → Prop
  | some time => isBest moments time.instant
  | none => moments = ∅

/-- The better of two times that may be missing is the best of all moments. -/
theorem Timestamp.isBestOf_merge {isBest : Set (Int ×ₗ Nat) → Int ×ₗ Nat → Prop}
    {choose : Timestamp → Timestamp → Timestamp} {moments others : Set (Int ×ₗ Nat)}
    {one two : Option Timestamp}
    (hunion : ∀ {left right : Timestamp}, isBest moments left.instant →
      isBest others right.instant → isBest (moments ∪ others) (choose left right).instant)
    (hone : IsBestOf isBest moments one) (htwo : IsBestOf isBest others two) :
    IsBestOf isBest (moments ∪ others) (one.merge choose two) := by
  cases one with
  | none =>
    rw [show moments = ∅ from hone, Set.empty_union]
    cases two <;> exact htwo
  | some left =>
    cases two with
    | none =>
      rw [show others = ∅ from htwo, Set.union_empty]
      exact hone
    | some right => exact hunion hone htwo

/-- A best time is missing only where there are no moments. -/
theorem Timestamp.IsBestOf.isNone_iff {isBest : Set (Int ×ₗ Nat) → Int ×ₗ Nat → Prop}
    {moments : Set (Int ×ₗ Nat)} {time : Option Timestamp} (hbest : IsBestOf isBest moments time)
    (hnonempty : ∀ {moment}, isBest moments moment → moments.Nonempty) :
    time.isNone = true ↔ moments = ∅ := by
  cases time with
  | none => exact iff_of_true rfl hbest
  | some best => exact iff_of_false nofun (hnonempty hbest).ne_empty

/-- Numbers that count exactly: a sum of counts is the count of both, and only the count of nothing
is zero. -/
structure CountsExactly [Add ν] [One ν] [Zero ν] [BEq ν] (number : Nat → ν) : Prop where
  one : number 1 = 1
  add : ∀ one two, number (one + two) = number one + number two
  ne_zero : ∀ count, (number (count + 1) == 0) = false

/-- A count of something; nothing is not counted. -/
def counted (number : Nat → ν) : Nat → Option ν
  | 0 => none
  | count + 1 => some (number (count + 1))

namespace CountsExactly

/-- Exact numbers count exactly. -/
theorem natCast [AddMonoidWithOne ν] [CharZero ν] [BEq ν] [LawfulBEq ν] :
    CountsExactly (Nat.cast : Nat → ν) where
  one := Nat.cast_one
  add := Nat.cast_add
  ne_zero count := beq_eq_false_iff_ne.2 (Nat.cast_ne_zero.2 count.succ_ne_zero)

variable [Add ν] [One ν] [Zero ν] [BEq ν] {number : Nat → ν} (hnumber : CountsExactly number)
include hnumber

/-- What two rows hold of something is counted by adding, where both hold it. -/
theorem counted_add (one two : Nat) :
    counted number (one + two) = (counted number one).merge (· + ·) (counted number two) := by
  cases one with
  | zero => rw [Nat.zero_add]; cases two <;> rfl
  | succ one =>
    cases two with
    | zero => rfl
    | succ two => exact congrArg some (hnumber.add (one + 1) (two + 1))

/-- What is counted is not zero. -/
theorem ne_zero_of_counted {count : Nat} {value : ν}
    (hcounted : counted number count = some value) : (value == 0) = false := by
  cases count with
  | zero => contradiction
  | succ count =>
    obtain rfl := Option.some.inj hcounted
    exact hnumber.ne_zero count

end CountsExactly

namespace Summary

/-- What goes over from two summaries to their sum goes over to the sum of a row. -/
theorem foldlM_merge_preserves [Add ν] {motive : List (Report ν) → Summary ν → Prop}
    (hmerge : ∀ {reports others : List (Report ν)} {one two sum : Summary ν},
      motive reports one → motive others two → one.merge two = .ok sum →
        motive (reports ++ others) sum)
    {parts : List (List (Report ν) × Summary ν)} (hparts : ∀ part ∈ parts, motive part.1 part.2)
    {reports : List (Report ν)} {one sum : Summary ν} (hone : motive reports one)
    (hsum : (parts.map Prod.snd).foldlM merge one = .ok sum) :
    motive (reports ++ parts.flatMap Prod.fst) sum := by
  induction parts generalizing reports one with
  | nil =>
    obtain rfl := Except.ok.inj hsum
    rwa [List.flatMap_nil, List.append_nil]
  | cons part rest ih =>
    rw [List.map_cons, List.foldlM_cons] at hsum
    cases hfirst : one.merge part.2 with
    | error reason => rw [hfirst] at hsum; contradiction
    | ok first =>
      rw [hfirst] at hsum
      rw [List.flatMap_cons, ← List.append_assoc]
      exact ih (fun other hother => hparts other (List.mem_cons_of_mem _ hother))
        (hmerge hone (hparts part List.mem_cons_self) hfirst) hsum

section Absorbs

variable [Add ν] [One ν]

/-- The summaries that can be built, each with the reports that went into it. -/
inductive Absorbs : List (Report ν) → Summary ν → Prop
  | null (region : RegionId) (window : Window) : Absorbs [] (null region window)
  | ofReport {regionOf : RegionOf} {report : Report ν} {summary : Summary ν}
      (hsummary : ofReport regionOf report = .ok summary) : Absorbs [report] summary
  | merge {reports others : List (Report ν)} {one two sum : Summary ν}
      (hone : Absorbs reports one) (htwo : Absorbs others two) (hsum : one.merge two = .ok sum) :
      Absorbs (reports ++ others) sum
  | mergeAll {region : RegionId} {window : Window} {parts : List (List (Report ν) × Summary ν)}
      {sum : Summary ν} (hparts : ∀ part ∈ parts, Absorbs part.1 part.2)
      (hsum : mergeAll region window (parts.map Prod.snd) = .ok sum) :
      Absorbs (parts.flatMap Prod.fst) sum

/-- What holds of null summaries and of the summary of one report, and goes over from two summaries
to their sum, holds of every summary that can be built. -/
theorem Absorbs.building
    {motive : (reports : List (Report ν)) → (summary : Summary ν) → Absorbs reports summary → Prop}
    {reports : List (Report ν)} {summary : Summary ν} (habsorbs : Absorbs reports summary)
    (null : ∀ region window, motive [] (Summary.null region window) (.null region window))
    (ofReport : ∀ {regionOf : RegionOf} {report : Report ν} {summary : Summary ν}
      (hsummary : Summary.ofReport regionOf report = .ok summary),
      motive [report] summary (.ofReport hsummary))
    (merge : ∀ {reports others : List (Report ν)} {one two sum : Summary ν}
      {hone : Absorbs reports one} {htwo : Absorbs others two} (hsum : one.merge two = .ok sum),
      motive reports one hone → motive others two htwo →
        motive (reports ++ others) sum (.merge hone htwo hsum)) :
    motive reports summary habsorbs := by
  induction habsorbs with
  | null region window => exact null region window
  | ofReport hsummary => exact ofReport hsummary
  | merge _ _ hsum ihOne ihTwo => exact merge hsum ihOne ihTwo
  | @mergeAll region window parts sum hparts hsum ih =>
    let built (reports : List (Report ν)) (summary : Summary ν) : Prop :=
      ∃ habsorbs : Absorbs reports summary, motive reports summary habsorbs
    have hmerge : ∀ {reports others : List (Report ν)} {one two sum : Summary ν},
        built reports one → built others two → one.merge two = .ok sum →
          built (reports ++ others) sum := by
      rintro _ _ _ _ _ ⟨hone, ihOne⟩ ⟨htwo, ihTwo⟩ hsum
      exact ⟨.merge hone htwo hsum, merge hsum ihOne ihTwo⟩
    have hstart : built [] (Summary.null region window) := ⟨.null region window, null region window⟩
    have hbuilt : ∀ part ∈ parts, built part.1 part.2 := fun part hpart =>
      ⟨hparts part hpart, ih part hpart⟩
    obtain ⟨_, hmotive⟩ := foldlM_merge_preserves hmerge hbuilt hstart hsum
    exact hmotive

end Absorbs

/-- What a merged summary holds of the times and the processing times of both. -/
theorem parts_of_merge [Add ν] {one two sum : Summary ν} (hmerge : one.merge two = .ok sum) :
    sum.minTimestamp = Timestamp.earliest one.minTimestamp two.minTimestamp ∧
      sum.maxTimestamp = Timestamp.latest one.maxTimestamp two.maxTimestamp ∧
      sum.processingNumerator = sumMerge one.processingNumerator two.processingNumerator ∧
      sum.processingDenominator =
        sumMerge one.processingDenominator two.processingDenominator := by
  rw [eq_plus_of_merge hmerge]
  exact ⟨rfl, rfl, rfl, rfl⟩

/-- Merged null summaries are a null summary. -/
theorem eq_null_of_merge [Add ν] {region other : RegionId} {window last : Window} {sum : Summary ν}
    (hmerge : (null region window).merge (null other last) = .ok sum) :
    sum = null region window := eq_plus_of_merge hmerge

/-- What the summary of a report holds of its time and its processing times. -/
theorem parts_of_ofReport [Add ν] [One ν] {regionOf : RegionOf} {report : Report ν}
    {summary : Summary ν} (hsummary : ofReport regionOf report = .ok summary) :
    summary.minTimestamp = some report.timestamp ∧ summary.maxTimestamp = some report.timestamp ∧
      summary.processingNumerator = report.averageProcessingTime ∧
      summary.processingDenominator = report.averageProcessingTime.mapValues fun _ _ => 1 := by
  rw [ofReport] at hsummary
  split at hsummary
  · contradiction
  · obtain rfl := Except.ok.inj hsummary
    exact ⟨rfl, rfl, rfl, rfl⟩

namespace Absorbs

variable [Add ν] [One ν] {reports : List (Report ν)} {summary : Summary ν}

/-- The first time is that of the first report. -/
theorem isBestOf_minTimestamp (habsorbs : Absorbs reports summary) :
    Timestamp.IsBestOf IsLeast (Report.moments reports) summary.minTimestamp := by
  induction habsorbs using building with
  | null region window => exact Report.moments_eq_empty_iff.2 rfl
  | ofReport hsummary =>
    rw [(parts_of_ofReport hsummary).1, Report.moments_singleton]
    exact isLeast_singleton
  | merge hsum hone htwo =>
    rw [(parts_of_merge hsum).1, Report.moments_append, Timestamp.earliest_eq_merge]
    refine Timestamp.isBestOf_merge (fun {left right} hleft hright => ?_) hone htwo
    rw [Timestamp.instant_earlier]
    exact hleft.union hright

/-- The last time is that of the last report. -/
theorem isBestOf_maxTimestamp (habsorbs : Absorbs reports summary) :
    Timestamp.IsBestOf IsGreatest (Report.moments reports) summary.maxTimestamp := by
  induction habsorbs using building with
  | null region window => exact Report.moments_eq_empty_iff.2 rfl
  | ofReport hsummary =>
    rw [(parts_of_ofReport hsummary).2.1, Report.moments_singleton]
    exact isGreatest_singleton
  | merge hsum hone htwo =>
    rw [(parts_of_merge hsum).2.1, Report.moments_append, Timestamp.latest_eq_merge]
    refine Timestamp.isBestOf_merge (fun {left right} hleft hright => ?_) hone htwo
    rw [Timestamp.instant_later]
    exact hleft.union hright

/-- A summary that no report went into is a null summary. -/
theorem eq_null (habsorbs : Absorbs reports summary) (hreports : reports = []) :
    summary = Summary.null summary.region summary.window := by
  induction habsorbs using building with
  | null region window => rfl
  | ofReport hsummary => contradiction
  | merge hsum hone htwo =>
    obtain ⟨hfirst, hsecond⟩ := List.append_eq_nil_iff.1 hreports
    obtain ⟨hregion, hwindow⟩ := merge_keeps hsum
    rw [hone hfirst, htwo hsecond] at hsum
    rw [hregion, hwindow]
    exact eq_null_of_merge hsum

/-- The sums of processing times are kept for the services that some report mentions. -/
theorem contains_processingNumerator (habsorbs : Absorbs reports summary) (service : ServiceId) :
    summary.processingNumerator.contains service = reports.any (·.mentions service) := by
  induction habsorbs using building with
  | null region window => rfl
  | ofReport hsummary =>
    rw [(parts_of_ofReport hsummary).2.2.1]
    exact (Bool.or_false _).symm
  | merge hsum hone htwo =>
    rw [(parts_of_merge hsum).2.2.1, SortedMap.contains_sumMerge, hone, htwo, List.any_append]

/-- The counts of reports are kept for the services that some report mentions. -/
theorem contains_processingDenominator (habsorbs : Absorbs reports summary) (service : ServiceId) :
    summary.processingDenominator.contains service = reports.any (·.mentions service) := by
  induction habsorbs using building with
  | null region window => rfl
  | @ofReport regionOf report summary hsummary =>
    rw [(parts_of_ofReport hsummary).2.2.2, SortedMap.contains_eq_isSome, SortedMap.get?_mapValues,
      Option.isSome_map, ← SortedMap.contains_eq_isSome]
    exact (Bool.or_false _).symm
  | merge hsum hone htwo =>
    rw [(parts_of_merge hsum).2.2.2, SortedMap.contains_sumMerge, hone, htwo, List.any_append]

/-- The count of a service is the number of the reports that mention it. -/
theorem get?_processingDenominator (habsorbs : Absorbs reports summary) [Zero ν] [BEq ν]
    {number : Nat → ν} (hnumber : CountsExactly number) (service : ServiceId) :
    summary.processingDenominator.get? service =
      counted number (reports.countP (·.mentions service)) := by
  induction habsorbs using building with
  | null region window => rfl
  | @ofReport regionOf report summary hsummary =>
    rw [(parts_of_ofReport hsummary).2.2.2, SortedMap.get?_mapValues, List.countP_singleton,
      Report.mentions, SortedMap.contains_eq_isSome]
    cases report.averageProcessingTime.get? service with
    | none => rfl
    | some value => exact congrArg some hnumber.one.symm
  | merge hsum hone htwo =>
    rw [(parts_of_merge hsum).2.2.2, SortedMap.get?_sumMerge, hone, htwo, List.countP_append,
      hnumber.counted_add]
    rfl

/-- Every service that has a sum of processing times has a mean. -/
theorem keys_averageProcessingTimes (habsorbs : Absorbs reports summary) [Zero ν] [BEq ν] [Div ν]
    {number : Nat → ν} (hnumber : CountsExactly number) :
    summary.averageProcessingTimes.keys = summary.processingNumerator.keys := by
  refine SortedMap.keys_filterMap _ fun ⟨service, total⟩ hentry => ?_
  have htotal := summary.processingNumerator.get?_of_mem hentry
  have hcount : (summary.processingDenominator.get? service).isSome = true := by
    rw [← SortedMap.contains_eq_isSome, habsorbs.contains_processingDenominator,
      ← habsorbs.contains_processingNumerator, SortedMap.contains_eq_isSome, htotal]
    rfl
  rw [habsorbs.get?_processingDenominator hnumber] at hcount
  obtain ⟨count, hsome⟩ := Option.isSome_iff_exists.1 hcount
  have hzero : (count == 0) = false := hnumber.ne_zero_of_counted hsome
  simp [averageProcessingTime, htotal, habsorbs.get?_processingDenominator hnumber, hsome, hzero]

end Absorbs

/-- The shape of every summary that can be built. Both times are there or none is; they are those of
the first and the last report that went in, and missing only where none did, and then the summary is
a null summary, without any quantity. The sums and the counts of processing times are kept for the
same services. With numbers that count exactly, the count of a service is the number of reports that
mention it, no service has the count zero, and every one has a mean. -/
theorem shape_of_absorbs [Add ν] [One ν] [Zero ν] [BEq ν] [Div ν] {reports : List (Report ν)}
    {summary : Summary ν} (habsorbs : Absorbs reports summary) :
    summary.minTimestamp.isSome = summary.maxTimestamp.isSome ∧
    (∀ first, summary.minTimestamp = some first →
      IsLeast (Report.moments reports) first.instant) ∧
    (∀ last, summary.maxTimestamp = some last →
      IsGreatest (Report.moments reports) last.instant) ∧
    (∀ first last, summary.minTimestamp = some first → summary.maxTimestamp = some last →
      first.instant ≤ last.instant) ∧
    (summary.isNull = true ↔ reports = []) ∧
    (reports = [] → summary = null summary.region summary.window) ∧
    (∀ service, summary.processingNumerator.contains service =
      summary.processingDenominator.contains service) ∧
    ∀ number : Nat → ν, CountsExactly number →
      (∀ service, summary.processingDenominator.get? service =
        counted number (reports.countP (·.mentions service))) ∧
      summary.averageProcessingTimes.keys = summary.processingNumerator.keys := by
  have hfirst := habsorbs.isBestOf_minTimestamp
  have hlast := habsorbs.isBestOf_maxTimestamp
  have hmin : summary.minTimestamp.isNone = true ↔ reports = [] := by
    rw [← Report.moments_eq_empty_iff]
    exact hfirst.isNone_iff fun hleast => hleast.nonempty
  have hmax : summary.maxTimestamp.isNone = true ↔ reports = [] := by
    rw [← Report.moments_eq_empty_iff]
    exact hlast.isNone_iff fun hgreatest => hgreatest.nonempty
  refine ⟨?_, ?_, ?_, ?_, ?_, habsorbs.eq_null, fun service => ?_, fun number hnumber =>
    ⟨habsorbs.get?_processingDenominator hnumber, habsorbs.keys_averageProcessingTimes hnumber⟩⟩
  · have hboth : summary.minTimestamp.isNone = summary.maxTimestamp.isNone :=
      Bool.eq_iff_iff.2 (hmin.trans hmax.symm)
    rw [← Option.not_isNone, ← Option.not_isNone, hboth]
  · intro first hsome
    rwa [hsome] at hfirst
  · intro last hsome
    rwa [hsome] at hlast
  · intro first last hsomeFirst hsomeLast
    rw [hsomeFirst] at hfirst
    rw [hsomeLast] at hlast
    exact hfirst.2 hlast.1
  · rw [isNull, Bool.and_eq_true, hmin, hmax, and_self_iff]
  · rw [habsorbs.contains_processingNumerator, habsorbs.contains_processingDenominator]

/-- A report of a node with the processing times of some services. -/
def timesReport (node : NodeId) (seconds : Int) (times : List (ServiceId × ℚ)) : Report ℚ :=
  { node
    timestamp := ⟨seconds, 0⟩
    window := .short
    computeCapacity := ∅
    computeLoad := ∅
    computeDemand := ∅
    networkCapacity := ∅
    networkLoad := ∅
    networkDemand := ∅
    averageProcessingTime := SortedMap.ofList times }

/-- A report of noon, on one service. -/
def noonReport : Report ℚ := timesReport ⟨"n1"⟩ 12 [(⟨"video"⟩, 3)]

/-- An earlier report, on the same service in another spelling and on a second one. -/
def morningReport : Report ℚ := timesReport ⟨"n2"⟩ 8 [(⟨"audio"⟩, 5), (⟨"Video"⟩, 4)]

/-- Two reports of a day are merged with a null summary between them. Both services have a count and
a mean, and the earlier report gives the first time although it is merged last. -/
theorem noon_morning_shape : ∃ noon morning sum : Summary ℚ,
    ofReport (fun _ => some ⟨"east"⟩) noonReport = .ok noon ∧
    ofReport (fun _ => some ⟨"EAST"⟩) morningReport = .ok morning ∧
    mergeAll ⟨"East"⟩ .short [noon, null ⟨"east"⟩ .short, morning] = .ok sum ∧
    Absorbs [noonReport, morningReport] sum ∧
    IsLeast (Report.moments [noonReport, morningReport]) (Timestamp.mk 8 0).instant ∧
    sum.isNull = false ∧ sum.processingDenominator.get? ⟨"VIDEO"⟩ = some 2 ∧
    sum.averageProcessingTimes.keys = [⟨"audio"⟩, ⟨"video"⟩] := by
  have hbuilt : ∀ {noon morning sum : Summary ℚ},
      ofReport (fun _ => some ⟨"east"⟩) noonReport = .ok noon →
      ofReport (fun _ => some ⟨"EAST"⟩) morningReport = .ok morning →
      mergeAll ⟨"East"⟩ .short [noon, null ⟨"east"⟩ .short, morning] = .ok sum →
      Absorbs [noonReport, morningReport] sum := by
    intro noon morning sum hnoon hmorning hsum
    let parts : List (List (Report ℚ) × Summary ℚ) :=
      [([noonReport], noon), ([], null ⟨"east"⟩ .short), ([morningReport], morning)]
    have hparts : ∀ part ∈ parts, Absorbs part.1 part.2 := by
      simp [parts, Absorbs.ofReport hnoon, Absorbs.ofReport hmorning, Absorbs.null]
    exact Absorbs.mergeAll hparts hsum
  refine ⟨_, _, _, rfl, rfl, rfl, hbuilt rfl rfl rfl, ?_⟩
  obtain ⟨-, hfirst, -, -, hnull, -, -, hexact⟩ := shape_of_absorbs (hbuilt rfl rfl rfl)
  obtain ⟨hcount, hkeys⟩ := hexact Nat.cast .natCast
  exact ⟨hfirst _ rfl, Bool.eq_false_iff.2 (mt hnull.1 (List.cons_ne_nil _ _)),
    (hcount ⟨"VIDEO"⟩).trans rfl, hkeys⟩

end Summary

end RegionGossip
