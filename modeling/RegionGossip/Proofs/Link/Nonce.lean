import Mathlib.Data.Int.Order.Basic
import Mathlib.Data.Sym.Sym2
import RegionGossip.Link.Basic
import RegionGossip.Link.Nonce

/-!
# How ranks order connections

The rank of a connection is two words side by side: the larger nonce with its sign, and the smaller
one without. Read as one signed number it orders connections by the larger nonce first, whatever the
signs, because the low half only counts up from the number that the high half alone stands for. So
both ends rank a connection alike, and different pairs of nonces never have the same rank. Among any
candidates the first one of greatest rank is kept, and its rank does not depend on their order.
-/

namespace RegionGossip

/-! ## Two words side by side -/

/-- Two words in one: the first with its sign in the high half, the second without it in the low
half. -/
def joinWords (high low : Int32) : Int64 :=
  high.toInt64 <<< 32 ||| low.toUInt32.toUInt64.toInt64

/-- No bit of the one word meets a bit of the other. -/
theorem toBitVec_joinWords (high low : Int32) :
    (joinWords high low).toBitVec = high.toBitVec ++ low.toBitVec := by
  have hshift : (Int64.toBitVec 32).smod 64 = 32#64 := by decide
  rw [joinWords, Int64.toBitVec_or, Int64.toBitVec_shiftLeft, Int32.toBitVec_toInt64, hshift,
    UInt64.toBitVec_toInt64, UInt32.toBitVec_toUInt64, Int32.toBitVec_toUInt32]
  refine BitVec.eq_of_getLsbD_eq fun place hplace => ?_
  simp only [BitVec.shiftLeft_eq', BitVec.getLsbD_or, BitVec.getLsbD_shiftLeft,
    BitVec.getLsbD_setWidth, BitVec.getLsbD_append]
  by_cases hlow : place < 32
  · simp [hlow, hplace]
  · have hhigh : place - 32 < 32 := by omega
    have hwithin : place - 32 < 64 := by omega
    have habove : low.toBitVec.getLsbD place = false := BitVec.getLsbD_of_ge _ _ (by omega)
    simp [hlow, hplace, hhigh, hwithin, habove, BitVec.getElem_signExtend]

/-- The low half counts up from the number that the high half alone stands for. -/
theorem toInt_joinWords (high low : Int32) :
    (joinWords high low).toInt = 2 ^ 32 * high.toInt + low.toUInt32.toNat := by
  rw [← Int64.toInt_toBitVec, toBitVec_joinWords, BitVec.toInt_append]
  rfl

variable {high low otherHigh otherLow : Int32}

/-- The high words decide, and where they are equal the low ones, read without their signs. -/
theorem joinWords_lt_iff :
    joinWords high low < joinWords otherHigh otherLow ↔
      high < otherHigh ∨ high = otherHigh ∧ low.toUInt32 < otherLow.toUInt32 := by
  rw [Int64.lt_iff_toInt_lt, toInt_joinWords, toInt_joinWords, Int32.lt_iff_toInt_lt,
    ← Int32.toInt_inj, UInt32.lt_iff_toNat_lt]
  have hlow := low.toUInt32.toNat_lt
  have hother := otherLow.toUInt32.toNat_lt
  omega

/-- Both words can be told from the joined one. -/
theorem joinWords_inj :
    joinWords high low = joinWords otherHigh otherLow ↔ high = otherHigh ∧ low = otherLow := by
  rw [← Int64.toInt_inj, toInt_joinWords, toInt_joinWords, ← Int32.toInt_inj,
    ← Int32.toBitVec_inj, ← BitVec.toNat_inj]
  have hlow := low.toUInt32.toNat_lt
  have hother := otherLow.toUInt32.toNat_lt
  show _ ↔ _ ∧ low.toUInt32.toNat = otherLow.toUInt32.toNat
  omega

/-! ## Ranks -/

/-- The larger of two nonces is the larger number. -/
theorem toInt_max (one two : Int32) : (max one two).toInt = max one.toInt two.toInt := by
  show (if one ≤ two then two else one).toInt = _
  split
  · rename_i hle
    exact (max_eq_right (Int32.le_iff_toInt_le.1 hle)).symm
  · rename_i hgt
    exact (max_eq_left (Int.le_of_lt (Int.not_le.1 (mt Int32.le_iff_toInt_le.2 hgt)))).symm

/-- The smaller of two nonces is the smaller number. -/
theorem toInt_min (one two : Int32) : (min one two).toInt = min one.toInt two.toInt := by
  show (if one ≤ two then one else two).toInt = _
  split
  · rename_i hle
    exact (min_eq_left (Int32.le_iff_toInt_le.1 hle)).symm
  · rename_i hgt
    exact (min_eq_right (Int.le_of_lt (Int.not_le.1 (mt Int32.le_iff_toInt_le.2 hgt)))).symm

/-- A nonce without its sign is what is left of it modulo the size of a word. -/
theorem toNat_toUInt32 (nonce : Int32) : (nonce.toUInt32.toNat : Int) = nonce.toInt % 2 ^ 32 := by
  show (nonce.toBitVec.toNat : Int) = nonce.toBitVec.toInt % 2 ^ 32
  have hbelow := nonce.toBitVec.isLt
  rw [BitVec.toInt_eq_toNat_cond]
  split <;> omega

/-- The rank of a connection holds its larger nonce and its smaller one. -/
theorem linkNonce_eq_joinWords (own remote : Int32) :
    linkNonce own remote = joinWords (max own remote) (min own remote) := by
  rw [← Int64.toInt_inj, toInt_joinWords, toNat_toUInt32, toInt_max, toInt_min, linkNonce]
  have hown := own.le_toInt
  have hownBelow := own.toInt_lt
  have hremote := remote.le_toInt
  have hremoteBelow := remote.toInt_lt
  rw [Int64.toInt_ofInt_of_le] <;> omega

/-- A connection is below another one if its larger nonce is less, or else if that is the same and
its smaller one, read without its sign, is less. -/
theorem linkNonce_lt_iff {one two three four : Int32} :
    linkNonce one two < linkNonce three four ↔
      max one two < max three four ∨
        max one two = max three four ∧ (min one two).toUInt32 < (min three four).toUInt32 := by
  rw [linkNonce_eq_joinWords, linkNonce_eq_joinWords, joinWords_lt_iff]

/-- Two connections are of the same rank exactly when they have the same two nonces. -/
theorem linkNonce_inj {one two three four : Int32} :
    linkNonce one two = linkNonce three four ↔ s(one, two) = s(three, four) := by
  rw [linkNonce_eq_joinWords, linkNonce_eq_joinWords, joinWords_inj, Sym2.eq_iff]
  simp only [← Int32.toInt_inj, toInt_max, toInt_min]
  omega

/-! ## The candidate that is kept -/

namespace Link

/-- The link that is kept of an existing one and a candidate. -/
def keep (existing candidate : Link) : Link :=
  if prefersCandidate existing.nonce candidate.nonce then candidate else existing

/-- The link that is left when candidates come one after the other. -/
def survivor (first : Link) (later : List Link) : Link := later.foldl keep first

/-- A link stands first among those of greatest rank in a row: what is before it is below it, and
what is after it is not above it. -/
def FirstGreatest (row : List Link) (link : Link) : Prop :=
  ∃ before after, row = before ++ link :: after ∧
    (∀ other ∈ before, other.nonce < link.nonce) ∧ ∀ other ∈ after, other.nonce ≤ link.nonce

namespace FirstGreatest

variable {row : List Link} {link other : Link}

/-- The first link of greatest rank is one of the row. -/
theorem mem (hfirst : FirstGreatest row link) : link ∈ row := by
  obtain ⟨before, after, rfl, -, -⟩ := hfirst
  exact List.mem_append_right before List.mem_cons_self

/-- No link of the row is above it. -/
theorem nonce_le (hfirst : FirstGreatest row link) (hmem : other ∈ row) :
    other.nonce ≤ link.nonce := by
  obtain ⟨before, after, rfl, hbefore, hafter⟩ := hfirst
  rcases List.mem_append.1 hmem with hmem | hmem
  · exact Int64.le_of_lt (hbefore other hmem)
  · rcases List.mem_cons.1 hmem with rfl | hmem
    · exact Int64.le_refl _
    · exact hafter other hmem

/-- It yields to a candidate above it, and stays before any other one. -/
theorem keep (hfirst : FirstGreatest row link) (candidate : Link) :
    FirstGreatest (row ++ [candidate]) (link.keep candidate) := by
  rw [Link.keep, prefersCandidate]
  by_cases hpreferred : link.nonce < candidate.nonce
  · rw [if_pos (decide_eq_true hpreferred)]
    refine ⟨row, [], rfl, fun other hmem => ?_, fun other hmem => absurd hmem List.not_mem_nil⟩
    exact Int64.lt_of_le_of_lt (hfirst.nonce_le hmem) hpreferred
  · rw [if_neg (by simpa using hpreferred)]
    obtain ⟨before, after, rfl, hbefore, hafter⟩ := hfirst
    refine ⟨before, after ++ [candidate], by simp, hbefore, fun other hmem => ?_⟩
    rcases List.mem_append.1 hmem with hmem | hmem
    · exact hafter other hmem
    · rw [List.mem_singleton.1 hmem]
      exact Int64.not_lt.1 hpreferred

end FirstGreatest

/-- Of any candidates the first one of greatest rank is left. -/
theorem firstGreatest_survivor (first : Link) (later : List Link) :
    FirstGreatest (first :: later) (survivor first later) := by
  induction later using List.reverseRecOn with
  | nil =>
    exact ⟨[], [], rfl, fun _ hmem => absurd hmem List.not_mem_nil,
      fun _ hmem => absurd hmem List.not_mem_nil⟩
  | append_singleton earlier candidate ih =>
    rw [survivor, List.foldl_append, ← List.cons_append]
    exact ih.keep candidate

/-- The rank of the link that is left does not depend on the order of the candidates. -/
theorem nonce_survivor_of_perm {first other : Link} {later rest : List Link}
    (hperm : (first :: later).Perm (other :: rest)) :
    (survivor first later).nonce = (survivor other rest).nonce := by
  have hleft := firstGreatest_survivor first later
  have hright := firstGreatest_survivor other rest
  exact Int64.le_antisymm (hright.nonce_le (hperm.mem_iff.1 hleft.mem))
    (hleft.nonce_le (hperm.mem_iff.2 hright.mem))

end Link

/-- The rank of a connection joins the larger nonce, with its sign, and the smaller one, without it.
Both ends work out the same rank, only the same two nonces have the same rank, and ranks are ordered
by the larger nonce and then by the smaller one. So of any candidates that come one after the other
the first one of greatest rank is left, and its rank is the same for every order of them. -/
theorem ranks_order_connections :
    (∀ own remote : Int32, linkNonce own remote =
      (max own remote).toInt64 <<< 32 ||| (min own remote).toUInt32.toUInt64.toInt64) ∧
    (∀ one two : Int32, linkNonce one two = linkNonce two one) ∧
    (∀ one two three four : Int32,
      linkNonce one two = linkNonce three four ↔ s(one, two) = s(three, four)) ∧
    (∀ one two three four : Int32, linkNonce one two < linkNonce three four ↔
      max one two < max three four ∨
        max one two = max three four ∧ (min one two).toUInt32 < (min three four).toUInt32) ∧
    ∀ (first : Link) (later : List Link),
      Link.FirstGreatest (first :: later) (Link.survivor first later) ∧
      ∀ (other : Link) (rest : List Link), (first :: later).Perm (other :: rest) →
        (Link.survivor first later).nonce = (Link.survivor other rest).nonce :=
  ⟨linkNonce_eq_joinWords, linkNonce_comm, fun _ _ _ _ => linkNonce_inj,
    fun _ _ _ _ => linkNonce_lt_iff, fun first later =>
      ⟨Link.firstGreatest_survivor first later, fun _ _ => Link.nonce_survivor_of_perm⟩⟩

/-- Two ends dial each other, and both connections have the nonces -1 and 7: they outrank one with 3
and 7, and the one that comes first is left. -/
theorem crossedDials_first_left :
    let early := Link.opened 1 ⟨"b"⟩ (linkNonce 7 3) 0 0
    let dialed := Link.opened 2 ⟨"b"⟩ (linkNonce (-1) 7) 0 0
    let accepted := Link.opened 3 ⟨"b"⟩ (linkNonce 7 (-1)) 0 0
    [early, dialed, accepted].Perm [accepted, early, dialed] ∧
    Link.FirstGreatest [early, dialed, accepted] (Link.survivor early [dialed, accepted]) ∧
    (Link.survivor early [dialed, accepted]).serial = 2 ∧
    (Link.survivor accepted [early, dialed]).serial = 3 ∧
    (Link.survivor early [dialed, accepted]).nonce =
      (Link.survivor accepted [early, dialed]).nonce := by
  intro early dialed accepted
  have hperm : [early, dialed, accepted].Perm [accepted, early, dialed] :=
    List.perm_append_singleton accepted [early, dialed]
  obtain ⟨hfirst, horders⟩ := ranks_order_connections.2.2.2.2 early [dialed, accepted]
  exact ⟨hperm, hfirst, by decide +kernel, by decide +kernel,
    horders accepted [early, dialed] hperm⟩

end RegionGossip
