import RegionGossip.Text.Utf8

/-!
# Identifiers

Names of nodes, regions, services and containers. A name keeps the spelling it was given, for
display, but equality, order and hash look only at its bytes with the letters `A` to `Z` folded to
small ones. The three are written separately, because they answer different questions: equality
compares byte by byte, the order is that of the folded byte strings, and the hash receives the
folded bytes and a terminator that no UTF-8 text contains.
-/

namespace RegionGossip

/-- What an identifier names. Identifiers of different kinds are never compared. -/
inductive IdentKind
  | node
  | region
  | service
  | container
  deriving DecidableEq, Repr

/-- A name of one kind. -/
structure Ident (kind : IdentKind) where
  name : String
  deriving Repr, Inhabited

/-- A node in the network. -/
abbrev NodeId := Ident .node

/-- A group of nodes for which resources are summed up. -/
abbrev RegionId := Ident .region

/-- A service that can be deployed. -/
abbrev ServiceId := Ident .service

/-- An instance of a service on a node. -/
abbrev ContainerId := Ident .container

/-- The byte of a capital ASCII letter becomes that of the small one; other bytes stay. -/
def foldByte (byte : UInt8) : UInt8 := if 65 ≤ byte ∧ byte ≤ 90 then byte + 32 else byte

/-- Byte strings that differ at most in the case of ASCII letters. -/
def sameIgnoringCase : List UInt8 → List UInt8 → Bool
  | [], [] => true
  | left :: leftRest, right :: rightRest =>
    foldByte left == foldByte right && sameIgnoringCase leftRest rightRest
  | _, _ => false

/-- Equality without regard to the case of ASCII letters is equality of the folded bytes. -/
theorem sameIgnoringCase_iff (left right : List UInt8) :
    sameIgnoringCase left right = true ↔ left.map foldByte = right.map foldByte := by
  induction left generalizing right with
  | nil => cases right <;> simp [sameIgnoringCase]
  | cons head rest ih => cases right <;> simp [sameIgnoringCase, ih]

namespace Ident

variable {kind : IdentKind}

/-- The bytes of a name with the case of ASCII letters folded. -/
def folded (ident : Ident kind) : List UInt8 := (utf8 ident.name).map foldByte

instance : BEq (Ident kind) := ⟨fun left right => sameIgnoringCase (utf8 left.name) (utf8 right.name)⟩

instance : Ord (Ident kind) := ⟨compareOn folded⟩

instance : Std.TransOrd (Ident kind) :=
  inferInstanceAs (Std.TransCmp (compareOn (folded : Ident kind → List UInt8)))

/-- The bytes that an identifier contributes to a hash. -/
def hashBytes (ident : Ident kind) : List UInt8 := ident.folded ++ [0xff]

instance : ToString (Ident kind) := ⟨Ident.name⟩

/-- Equality of identifiers is equality of their folded bytes. -/
theorem beq_iff {left right : Ident kind} : (left == right) = true ↔ left.folded = right.folded :=
  sameIgnoringCase_iff _ _

/-- Identifiers compare as equal exactly when their folded bytes are equal. -/
theorem compare_eq_iff {left right : Ident kind} :
    compare left right = .eq ↔ left.folded = right.folded := by
  show compare left.folded right.folded = .eq ↔ _
  exact Std.LawfulEqOrd.compare_eq_iff_eq

/-- Identifiers compare as equal exactly when they are equal. -/
theorem compare_eq_iff_beq {left right : Ident kind} :
    compare left right = .eq ↔ (left == right) = true :=
  compare_eq_iff.trans beq_iff.symm

instance : EquivBEq (Ident kind) where
  rfl := beq_iff.2 rfl
  symm h := beq_iff.2 (beq_iff.1 h).symm
  trans hfirst hsecond := beq_iff.2 ((beq_iff.1 hfirst).trans (beq_iff.1 hsecond))

end Ident

end RegionGossip
