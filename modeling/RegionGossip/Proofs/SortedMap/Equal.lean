import Mathlib.Data.List.Perm.Basic
import RegionGossip.Proofs.SortedMap.Lookup

/-!
# Equal maps give equal answers

Equality of maps compares two rows of entries side by side. As the keys of both rows strictly
increase, this asks no more than whether the maps answer every key alike, so equality does not
depend on the spelling of the keys and on the order in which they were put in. Maps that also spell
their keys alike are the same map.
-/

namespace RegionGossip.SortedMap

open Std

variable {κ : Type} {α : Type} [Ord κ] [TransOrd κ]

/-- Maps that find the same entry for every key are the same, down to the spelling of the keys. -/
theorem eq_of_entry?_eq {left right : SortedMap κ α}
    (hentries : ∀ key, left.entry? key = right.entry? key) : left = right := by
  have hmem {one two : SortedMap κ α} (hsame : ∀ key, one.entry? key = two.entry? key)
      {entry : κ × α} (hentry : entry ∈ one.entries) : entry ∈ two.entries := by
    apply List.mem_of_find?_eq_some
    exact (hsame entry.1).symm.trans (one.entry?_of_mem hentry)
  have hperm : left.entries.Perm right.entries :=
    (List.perm_ext_iff_of_nodup left.nodup_entries right.nodup_entries).2 fun _ =>
      ⟨hmem hentries, hmem fun key => (hentries key).symm⟩
  have hrows : left.entries = right.entries := by
    apply hperm.eq_of_pairwise _ left.increasing right.increasing
    intro one two _ _ hless hgreater
    rw [OrientedCmp.gt_of_lt hless] at hgreater
    contradiction
  exact eq_of_entries_eq hrows

variable [BEq α]

/-- Rows that are equal entry by entry answer alike. -/
theorem lookupEntry_beq_of_sameEntries {left right : List (κ × α)}
    (hsame : sameEntries left right = true) (key : κ) :
    (lookupEntry left key == lookupEntry right key) = true := by
  induction left generalizing right with
  | nil =>
    cases right with
    | nil => rfl
    | cons => simp [sameEntries] at hsame
  | cons head rest ih =>
    cases right with
    | nil => simp [sameEntries] at hsame
    | cons other others =>
      simp only [sameEntries, Bool.and_eq_true, beq_iff_eq] at hsame
      obtain ⟨⟨hkeys, hvalues⟩, hrests⟩ := hsame
      rw [lookupEntry_cons, lookupEntry_cons, TransCmp.congr_right hkeys]
      split
      · exact hvalues
      · exact ih hrests

/-- Increasing rows that answer alike have equal first keys: the smaller one of two different keys
would be held by its own row alone. -/
theorem compare_head_of_lookupEntry_beq {left right : κ × α} {leftRest rightRest : List (κ × α)}
    (hleft : Increasing (left :: leftRest)) (hright : Increasing (right :: rightRest))
    (hanswers : ∀ key, (lookupEntry (left :: leftRest) key ==
      lookupEntry (right :: rightRest) key) = true) : compare left.1 right.1 = .eq := by
  cases horder : compare left.1 right.1 with
  | eq => rfl
  | lt =>
    have hhead := hanswers left.1
    rw [lookupEntry_of_lt_head hright horder, lookupEntry_cons, if_pos ReflCmp.compare_self] at hhead
    exact absurd hhead (by simp)
  | gt =>
    have hhead := hanswers right.1
    rw [lookupEntry_of_lt_head hleft (OrientedCmp.lt_of_gt horder), lookupEntry_cons,
      if_pos ReflCmp.compare_self] at hhead
    exact absurd hhead (by simp)

/-- Increasing rows that answer alike are equal entry by entry. -/
theorem sameEntries_of_lookupEntry_beq {left right : List (κ × α)} (hleft : Increasing left)
    (hright : Increasing right)
    (hanswers : ∀ key, (lookupEntry left key == lookupEntry right key) = true) :
    sameEntries left right = true := by
  induction left generalizing right with
  | nil =>
    cases right with
    | nil => rfl
    | cons other others =>
      have hother := hanswers other.1
      rw [lookupEntry_cons, if_pos ReflCmp.compare_self] at hother
      exact absurd hother (by simp [lookupEntry])
  | cons head rest ih =>
    cases right with
    | nil =>
      have hhead := hanswers head.1
      rw [lookupEntry_cons, if_pos ReflCmp.compare_self] at hhead
      exact absurd hhead (by simp [lookupEntry])
    | cons other others =>
      have hkeys : compare head.1 other.1 = .eq :=
        compare_head_of_lookupEntry_beq hleft hright hanswers
      have hvalues : (head.2 == other.2) = true := by
        have hhead := hanswers head.1
        rwa [lookupEntry_cons, lookupEntry_cons, if_pos ReflCmp.compare_self, if_pos hkeys] at hhead
      have hrests : sameEntries rest others = true := by
        refine ih (List.pairwise_cons.1 hleft).2 (List.pairwise_cons.1 hright).2 fun key => ?_
        by_cases hkey : compare key head.1 = .eq
        · have hother : compare key other.1 = .eq := TransCmp.eq_trans hkey hkeys
          rw [lookupEntry_tail_of_eq hleft hkey, lookupEntry_tail_of_eq hright hother]
          rfl
        · have hrow := hanswers key
          rwa [lookupEntry_cons, lookupEntry_cons, ← TransCmp.congr_right hkeys, if_neg hkey,
            if_neg hkey] at hrow
      simp [sameEntries, hkeys, hvalues, hrests]

/-- Maps are equal when they answer every key alike. -/
theorem beq_iff_get? {left right : SortedMap κ α} :
    (left == right) = true ↔ ∀ key, (left.get? key == right.get? key) = true := by
  constructor
  · intro hsame key
    exact lookupEntry_beq_of_sameEntries hsame key
  · intro hanswers
    exact sameEntries_of_lookupEntry_beq left.increasing right.increasing hanswers

end RegionGossip.SortedMap
