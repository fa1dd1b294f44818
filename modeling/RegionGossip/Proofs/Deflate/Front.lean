import RegionGossip.Proofs.Deflate.Stored

/-!
# The front of the content

A reader that wants no more than the first bytes does what a reader without a limit does until it has
them, and content only grows at its end. So where all of the content can be read, a reader with a limit
gets the front of it; the converse fails, for it does not see what stands behind.
-/

namespace RegionGossip.Deflate

variable {limit fuel kind bitCount : Nat} {codes : BlockCodes} {stream rest : BitStream}
  {bytes content : List UInt8} {done next all : Array UInt8} {whole : Array UInt8 × BitStream}

/-! ## Content grows -/

/-- A copy is put behind what is there. -/
theorem prefix_copyBack (distance count : Nat) (done : Array UInt8) :
    done.toList <+: (copyBack distance count done).toList := by
  induction count generalizing done with
  | zero => exact List.prefix_rfl
  | succ count ih =>
    refine List.IsPrefix.trans ?_ (ih _)
    rw [Array.toList_push]
    exact List.prefix_append ..

/-- What a symbol stands for is put behind what is there. -/
theorem prefix_readSymbol {ends : Bool}
    (hread : readSymbol codes stream done = some (ends, next, rest)) :
    done.toList <+: next.toList := by
  obtain ⟨⟨symbol, behind⟩, -, hsymbol⟩ := Option.bind_eq_some_iff.1 hread
  dsimp only at hsymbol
  split at hsymbol
  · obtain ⟨-, rfl, -⟩ : _ ∧ done.push (UInt8.ofNat symbol) = next ∧ _ := by simpa using hsymbol
    rw [Array.toList_push]
    exact List.prefix_append ..
  · split at hsymbol
    · obtain ⟨-, rfl, -⟩ : _ ∧ done = next ∧ _ := by simpa using hsymbol
      exact List.prefix_rfl
    · obtain ⟨⟨length, behind⟩, -, hlength⟩ := Option.bind_eq_some_iff.1 hsymbol
      obtain ⟨⟨place, behind⟩, -, hplace⟩ := Option.bind_eq_some_iff.1 hlength
      obtain ⟨⟨distance, behind⟩, -, hdistance⟩ := Option.bind_eq_some_iff.1 hplace
      obtain ⟨-, rfl, -⟩ : _ ∧ copyBack distance length done = next ∧ _ := by simpa using hdistance
      exact prefix_copyBack ..

/-- The symbols of a block are put behind what is there. -/
theorem prefix_inflateCoded
    (hwhole : inflateCoded none codes fuel stream done = some whole) :
    done.toList <+: whole.1.toList := by
  induction fuel generalizing stream done with
  | zero => contradiction
  | succ fuel ih =>
    rw [inflateCoded, if_neg (by simp [isEnough])] at hwhole
    split at hwhole
    · contradiction
    · rename_i next rest hread
      obtain rfl := Option.some.inj hwhole
      exact prefix_readSymbol hread
    · rename_i next rest hread
      exact (prefix_readSymbol hread).trans (ih hwhole)

/-- A stored block that is there as a whole is taken as it is, whatever the limit. -/
theorem inflateStored_of_none (hwhole : inflateStored none stream done = some whole)
    (bound : Option Nat) :
    inflateStored bound stream done = some whole ∧ done.toList <+: whole.1.toList := by
  obtain ⟨⟨length, behind⟩, hlength, hcomplement⟩ := Option.bind_eq_some_iff.1 hwhole
  obtain ⟨⟨complement, behind⟩, hword, hcontent⟩ := Option.bind_eq_some_iff.1 hcomplement
  dsimp only at hword hcontent
  simp only [inflateStored, hlength, hword, Option.bind_eq_bind, Option.bind_some]
  split at hcontent
  · contradiction
  · rename_i hsum
    rw [if_neg hsum]
    split at hcontent
    · obtain rfl := Option.some.inj hcontent
      exact ⟨rfl, by simp⟩
    · simp [isEnough] at hcontent

/-- The content of a block is put behind what is there. -/
theorem prefix_inflateBlock (hwhole : inflateBlock none kind fuel stream done = some whole) :
    done.toList <+: whole.1.toList := by
  rw [inflateBlock] at hwhole
  split at hwhole
  · exact (inflateStored_of_none hwhole none).2
  · split at hwhole
    · obtain ⟨codes, -, hcoded⟩ := Option.bind_eq_some_iff.1 hwhole
      exact prefix_inflateCoded hcoded
    · split at hwhole
      · obtain ⟨⟨codes, behind⟩, -, hcoded⟩ := Option.bind_eq_some_iff.1 hwhole
        exact prefix_inflateCoded hcoded
      · contradiction

/-- The content of a row of blocks is put behind what is there. -/
theorem prefix_inflateBlocks (hall : inflateBlocks none bitCount fuel stream done = some all) :
    done.toList <+: all.toList := by
  induction fuel generalizing stream done with
  | zero => contradiction
  | succ fuel ih =>
    obtain ⟨⟨last, behind⟩, -, hkind⟩ := Option.bind_eq_some_iff.1 hall
    obtain ⟨⟨kind, behind⟩, -, hcontent⟩ := Option.bind_eq_some_iff.1 hkind
    obtain ⟨⟨next, behind⟩, hblock, hmore⟩ := Option.bind_eq_some_iff.1 hcontent
    have hgrows := prefix_inflateBlock hblock
    dsimp only at hmore
    split at hmore
    · obtain rfl := Option.some.inj hmore
      exact hgrows
    · exact hgrows.trans (ih hmore)

/-! ## A reader with a limit -/

/-- A reader has stopped with as much as it wants of what there is. -/
def Stopped (limit : Nat) (front all : Array UInt8) : Prop :=
  limit ≤ front.size ∧ front.toList <+: all.toList

/-- With a limit a coded block is read to its end, or as far as is wanted. -/
theorem exists_inflateCoded (hwhole : inflateCoded none codes fuel stream done = some whole)
    (limit : Nat) :
    ∃ reached, inflateCoded (some limit) codes fuel stream done = some reached ∧
      (reached = whole ∨ Stopped limit reached.1 whole.1) := by
  induction fuel generalizing stream done with
  | zero => contradiction
  | succ fuel ih =>
    by_cases henough : limit ≤ done.size
    · have hgrows := prefix_inflateCoded hwhole
      exact ⟨(done, stream), by rw [inflateCoded, if_pos (by simpa [isEnough])],
        .inr ⟨henough, hgrows⟩⟩
    · rw [inflateCoded, if_neg (by simp [isEnough])] at hwhole
      rw [inflateCoded, if_neg (by simpa [isEnough] using henough)]
      split at hwhole
      · contradiction
      · exact ⟨_, rfl, .inl (Option.some.inj hwhole)⟩
      · exact ih hwhole

/-- With a limit a block is read to its end, or as far as is wanted. -/
theorem exists_inflateBlock (hwhole : inflateBlock none kind fuel stream done = some whole)
    (limit : Nat) :
    ∃ reached, inflateBlock (some limit) kind fuel stream done = some reached ∧
      (reached = whole ∨ Stopped limit reached.1 whole.1) := by
  rw [inflateBlock] at hwhole ⊢
  split at hwhole
  · rename_i hstored
    rw [if_pos hstored]
    exact ⟨whole, (inflateStored_of_none hwhole (some limit)).1, .inl rfl⟩
  · rename_i hstored
    rw [if_neg hstored]
    split at hwhole
    · rename_i hfixed
      obtain ⟨codes, hcodes, hcoded⟩ := Option.bind_eq_some_iff.1 hwhole
      rw [if_pos hfixed, hcodes]
      exact exists_inflateCoded hcoded limit
    · rename_i hfixed
      split at hwhole
      · rename_i hdescribed
        obtain ⟨⟨codes, behind⟩, hcodes, hcoded⟩ := Option.bind_eq_some_iff.1 hwhole
        rw [if_neg hfixed, if_pos hdescribed, hcodes]
        exact exists_inflateCoded hcoded limit
      · contradiction

/-- With a limit a row of blocks is read to its end, or as far as is wanted. -/
theorem exists_inflateBlocks (hall : inflateBlocks none bitCount fuel stream done = some all)
    (limit : Nat) :
    ∃ front, inflateBlocks (some limit) bitCount fuel stream done = some front ∧
      (front = all ∨ Stopped limit front all) := by
  induction fuel generalizing stream done with
  | zero => contradiction
  | succ fuel ih =>
    obtain ⟨⟨last, behind⟩, hlast, hkind⟩ := Option.bind_eq_some_iff.1 hall
    obtain ⟨⟨kind, behind⟩, hheader, hcontent⟩ := Option.bind_eq_some_iff.1 hkind
    obtain ⟨⟨next, behind⟩, hblock, hmore⟩ := Option.bind_eq_some_iff.1 hcontent
    obtain ⟨⟨front, place⟩, hfront, hreached⟩ := exists_inflateBlock hblock limit
    simp only [inflateBlocks, hlast, hheader, hfront, Option.bind_eq_bind, Option.bind_some]
    have hgrows : next.toList <+: all.toList := by
      dsimp only at hmore
      split at hmore
      · obtain rfl := Option.some.inj hmore
        exact List.prefix_rfl
      · exact prefix_inflateBlocks hmore
    by_cases henough : limit ≤ front.size
    · -- nothing more is read
      refine ⟨front, if_pos (.inr (by simpa [isEnough])), .inr ⟨henough, ?_⟩⟩
      rcases hreached with hsame | ⟨-, hstopped⟩
      · obtain ⟨rfl, -⟩ := Prod.mk.inj hsame
        exact hgrows
      · exact hstopped.trans hgrows
    · obtain ⟨rfl, rfl⟩ := Prod.mk.inj (hreached.resolve_right fun hstopped => henough hstopped.1)
      by_cases hends : last = 1
      · have hlater : some front = some all := (if_pos (.inl hends)).symm.trans hmore
        exact ⟨front, if_pos (.inl hends), .inl (Option.some.inj hlater)⟩
      · have hlater : inflateBlocks none bitCount fuel place front = some all :=
          (if_neg (by simp [hends, isEnough])).symm.trans hmore
        rw [if_neg (by simpa [hends, isEnough] using henough)]
        exact ih hlater

/-- Where all of the content can be read, so can the front of it. -/
theorem inflateFront?_of_inflate? (hcontent : inflate? bytes = some content) (limit : Nat) :
    inflateFront? limit bytes = some (content.take limit) := by
  obtain ⟨all, hall, rfl⟩ := Option.map_eq_some_iff.1 hcontent
  obtain ⟨front, hfront, hreached⟩ := exists_inflateBlocks hall limit
  rw [inflateFront?, inflateTo, hfront, Option.map_some]
  rcases hreached with rfl | ⟨henough, hprefix⟩
  · simp
  · obtain ⟨behind, hbehind⟩ := hprefix
    rw [← hbehind, List.take_append_of_le_length henough]
    simp

/-- Behind a stored block stands one of a kind that there is not. -/
example : inflateFront? 2 (storedBlock false [1, 2, 3] ++ [6]) = some [1, 2] ∧
    inflate? (storedBlock false [1, 2, 3] ++ [6]) = none := by
  decide

end RegionGossip.Deflate
