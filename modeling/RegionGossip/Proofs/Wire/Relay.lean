import RegionGossip.Proofs.Json.Floats
import RegionGossip.Proofs.Wire.Truncated

/-!
# What becomes of floats on their way through the mesh

A payload that is passed on from node to node is decoded and encoded again on each hop, under the
settings of the node that sends it. Compact hops leave it as it is. A verbose hop writes the shortest
digits of each float, and the receiver reads them in two roundings: a float with a short numeral stays
as it is, while one with many digits may become one of its neighbours. So the payload that arrives
depends on the chain only through the number of its verbose hops.
-/

namespace RegionGossip.Wire

variable {deflate : List UInt8 → List UInt8} {settings : Settings} {payload : Payload}

/-- A message as it arrives after one hop. -/
def passOnBy (deflate : List UInt8 → List UInt8) (message : Message) (settings : Settings) :
    Except MeshError Message :=
  match message with
  | .share payload => decodeMessage (encodeShareBy deflate settings payload)
  | .close => decodeMessage (encodeCloseBy deflate settings)

/-- A message as it arrives after a chain of hops. -/
def relayBy (deflate : List UInt8 → List UInt8) (message : Message) (hops : List Settings) :
    Except MeshError Message :=
  hops.foldlM (passOnBy deflate) message

/-- How many hops of a chain use the verbose form. -/
def verboseHops (hops : List Settings) : Nat := hops.countP fun settings => !settings.compact

/-- A payload within the bounds of both forms: its floats are finite, its document nests no deeper
than documents may, and its parts can be counted. -/
structure Presentable (payload : Payload) : Prop where
  finite : ∀ x ∈ payload.floats, x.isFinite = true
  nesting : (WireObject.share payload).document.nesting ≤ Json.nestingLimit
  counts : payload.counts = true

/-- What a hop makes of a payload. -/
def afterHop (payload : Payload) (settings : Settings) : Payload :=
  if settings.compact then payload else payload.mapFloats Binary64.reread

/-- Whether a receiver that inflates a payload looks at all of it. -/
def Fits (settings : Settings) (payload : Payload) : Prop :=
  settings.compress = true → (serialize settings (.share payload)).length ≤ inflatedLimit

instance (settings : Settings) (payload : Payload) : Decidable (Fits settings payload) :=
  inferInstanceAs (Decidable (_ → _))

/-- Whether a payload fits on each hop of a chain, as it is by then. -/
def FitsAlong : Payload → List Settings → Prop
  | _, [] => True
  | payload, settings :: hops => Fits settings payload ∧ FitsAlong (afterHop payload settings) hops

instance decidableFitsAlong : ∀ (payload : Payload) (hops : List Settings),
    Decidable (FitsAlong payload hops)
  | _, [] => inferInstanceAs (Decidable True)
  | payload, settings :: hops =>
    have := decidableFitsAlong (afterHop payload settings) hops
    inferInstanceAs (Decidable (_ ∧ _))

/-! ## One hop -/

/-- A hop leaves a payload within the bounds. -/
theorem Presentable.afterHop (hpayload : Presentable payload) (settings : Settings) :
    Presentable (afterHop payload settings) := by
  rw [Wire.afterHop]
  split
  · exact hpayload
  · refine ⟨fun x hx => ?_, ?_, ?_⟩
    · rw [Payload.floats_mapFloats] at hx
      obtain ⟨y, hy, rfl⟩ := List.mem_map.1 hx
      exact (Binary64.reread_spec (hpayload.finite y hy)).1
    · rw [WireObject.nesting_share, Payload.nesting_mapFloats, ← WireObject.nesting_share]
      exact hpayload.nesting
    · rw [Payload.counts_mapFloats]
      exact hpayload.counts

/-- A payload that fits arrives. -/
theorem passOnBy_of_fits (hundone : Deflate.Undone deflate) (hpayload : Presentable payload)
    (hfits : Fits settings payload) :
    passOnBy deflate (.share payload) settings = .ok (.share (afterHop payload settings)) := by
  rw [passOnBy, afterHop]
  cases hcompact : settings.compact with
  | true => exact decodeMessage_compact hundone hcompact hpayload.counts hfits
  | false =>
    have hfloats : Verbose.ReadAs Binary64.reread payload.floats :=
      fun x _ hfinite => Binary64.readFloat_eq_reread hfinite
    rw [decodeMessage_verbose_changed hundone hcompact hfits hfloats,
      if_pos ⟨hpayload.finite, hpayload.nesting⟩]
    rfl

/-- A payload that does not fit is cut short, which the receiver notices. -/
theorem passOnBy_of_not_fits (hundone : Deflate.Undone deflate) (hpayload : Presentable payload)
    (hover : ¬ Fits settings payload) :
    ∃ fault, passOnBy deflate (.share payload) settings = .error (.outOfSync fault) := by
  obtain ⟨hcompress, hlong⟩ := Classical.not_imp.1 hover
  have hrest : (serialize settings (.share payload)).drop inflatedLimit ≠ [] := by
    rw [Ne, List.drop_eq_nil_iff]
    exact hlong
  have hcounts : settings.compact = true → (WireObject.share payload).counts = true :=
    fun _ => hpayload.counts
  obtain ⟨fault, hread⟩ := readObject_front hcounts
    (List.take_append_drop inflatedLimit (serialize settings (.share payload))).symm hrest
  exact ⟨fault, decodeMessage_of_fault ((decodeObject_compressed hundone hcompress).trans hread)⟩

/-! ## Chains of hops -/

/-- A payload that fits on each hop arrives at the end of the chain. -/
theorem relayBy_of_fits (hundone : Deflate.Undone deflate) (hpayload : Presentable payload)
    {hops : List Settings} (hfits : FitsAlong payload hops) :
    relayBy deflate (.share payload) hops = .ok (.share (hops.foldl afterHop payload)) := by
  induction hops generalizing payload with
  | nil => rfl
  | cons settings hops ih =>
    obtain ⟨hfirst, hothers⟩ := hfits
    rw [relayBy, List.foldlM_cons, passOnBy_of_fits hundone hpayload hfirst]
    exact ih (hpayload.afterHop settings) hothers

/-- A payload that does not fit on some hop is noticed there. -/
theorem relayBy_of_not_fits (hundone : Deflate.Undone deflate) (hpayload : Presentable payload)
    {hops : List Settings} (hover : ¬ FitsAlong payload hops) :
    ∃ fault, relayBy deflate (.share payload) hops = .error (.outOfSync fault) := by
  induction hops generalizing payload with
  | nil => exact absurd trivial hover
  | cons settings hops ih =>
    rw [relayBy, List.foldlM_cons]
    by_cases hfirst : Fits settings payload
    · rw [passOnBy_of_fits hundone hpayload hfirst]
      exact ih (hpayload.afterHop settings) fun hothers => hover ⟨hfirst, hothers⟩
    · obtain ⟨fault, hfault⟩ := passOnBy_of_not_fits hundone hpayload hfirst
      exact ⟨fault, by rw [hfault]; rfl⟩

/-- Every hop in the verbose form counts. -/
theorem verboseHops_cons (settings : Settings) (hops : List Settings) :
    verboseHops (settings :: hops) =
      if settings.compact then verboseHops hops else verboseHops hops + 1 := by
  rw [verboseHops, verboseHops, List.countP_cons]
  cases settings.compact <;> rfl

/-- A chain changes the floats of a payload once for each of its verbose hops. -/
theorem foldl_afterHop (payload : Payload) (hops : List Settings) :
    hops.foldl afterHop payload = payload.mapFloats (Binary64.reread^[verboseHops hops]) := by
  induction hops generalizing payload with
  | nil => exact (Payload.mapFloats_id payload).symm
  | cons settings hops ih =>
    rw [List.foldl_cons, ih, verboseHops_cons, afterHop]
    split
    · rfl
    · rw [Payload.mapFloats_mapFloats, Function.iterate_succ]

/-- A payload of finite floats arrives at the end of every chain on which it fits, and where it does
not fit this is noticed. Each float is then what its numeral is read as, once for every verbose hop:
it is finite and has its sign, it is at most five places away for each of these hops, and it is the
same where its numeral is short. The payload that arrives is the one that was sent exactly when this
leaves all its floats; so it is after compact hops. -/
theorem relayed_floats (hundone : Deflate.Undone deflate) {payload : Payload}
    (hfinite : ∀ x ∈ payload.floats, x.isFinite = true)
    (hnesting : (WireObject.share payload).document.nesting ≤ 127)
    (hcounts : payload.counts = true) (hops : List Settings) :
    let rounds := verboseHops hops
    let arrived := payload.mapFloats (Binary64.reread^[rounds])
    (FitsAlong payload hops → relayBy deflate (.share payload) hops = .ok (.share arrived)) ∧
    (¬ FitsAlong payload hops →
      ∃ fault, relayBy deflate (.share payload) hops = .error (.outOfSync fault)) ∧
    (arrived = payload ↔ ∀ x ∈ payload.floats, Binary64.reread^[rounds] x = x) ∧
    ∀ x ∈ payload.floats,
      (Binary64.reread^[rounds] x).isFinite = true ∧
      (Binary64.reread^[rounds] x).isNegative = x.isNegative ∧
      (Binary64.reread^[rounds] x).sizeBits ≤ x.sizeBits + 5 * rounds ∧
      x.sizeBits ≤ (Binary64.reread^[rounds] x).sizeBits + 5 * rounds ∧
      (Json.HasShortNumeral x → Binary64.reread^[rounds] x = x) := by
  have hpayload : Presentable payload := ⟨hfinite, hnesting, hcounts⟩
  refine ⟨fun hfits => ?_, relayBy_of_not_fits hundone hpayload, Payload.mapFloats_eq_self_iff,
    fun x hx => ?_⟩
  · rw [relayBy_of_fits hundone hpayload hfits, foldl_afterHop]
  · obtain ⟨hlast, hsign, habove, hbelow⟩ :=
      Binary64.iterate_reread_spec (hfinite x hx) (verboseHops hops)
    exact ⟨hlast, hsign, habove, hbelow, fun hshort =>
      Function.iterate_fixed (Binary64.reread_of_short (hfinite x hx) hshort) _⟩

/-- A payload with a fraction, the largest odd whole number of fifty-three binary digits, and a
negative zero. -/
def longPayload : Payload := .ofEntries [
  ("a", .list [.float ⟨0x3ff8000000000000⟩, .float ⟨0x433fffffffffffff⟩]),
  ("b", .float ⟨0x8000000000000000⟩)]

/-- On a chain with two verbose hops the long number becomes its neighbour. -/
theorem longPayload_relayed :
    let hops : List Settings := [{ compact := false, compress := true }, { compact := true },
      { compact := false }]
    ∃ arrived, relayBy Deflate.deflate (.share longPayload) hops = .ok (.share arrived) ∧
      arrived.floats = [⟨0x3ff8000000000000⟩, ⟨0x433ffffffffffffe⟩, ⟨0x8000000000000000⟩] := by
  intro hops
  have hfinite : ∀ x ∈ longPayload.floats, x.isFinite = true := by decide +kernel
  have hrelayed := relayed_floats Deflate.undone_deflate hfinite (by decide +kernel)
    (by decide +kernel) hops
  exact ⟨_, hrelayed.1 (by decide +kernel), by decide +kernel⟩

/-- The payload of a single long number. -/
def oddPayload : Payload := .ofEntries [("a", .float ⟨0x433fffffffffffff⟩)]

/-- One compact hop leaves the payload of a long number as it is, and one verbose hop does not. -/
theorem oddPayload_changed :
    (∀ x ∈ oddPayload.floats, x.isFinite = true) ∧
    (WireObject.share oddPayload).document.nesting ≤ 127 ∧
    relayBy Deflate.deflate (.share oddPayload) [{ compact := true }] = .ok (.share oddPayload) ∧
    relayBy Deflate.deflate (.share oddPayload) [{ compact := false }] ≠
      .ok (.share oddPayload) := by
  have hpayload : Presentable oddPayload :=
    ⟨by decide +kernel, by decide +kernel, by decide +kernel⟩
  have hfits : ∀ compact, FitsAlong oddPayload [{ compact }] := by decide +kernel
  refine ⟨hpayload.finite, hpayload.nesting,
    relayBy_of_fits Deflate.undone_deflate hpayload (hfits true), fun hsame => ?_⟩
  rw [relayBy_of_fits Deflate.undone_deflate hpayload (hfits false)] at hsame
  have hfloats := congrArg Payload.floats (Message.share.inj (Except.ok.inj hsame))
  exact absurd hfloats (by decide +kernel)

end RegionGossip.Wire
