import RegionGossip.Deflate.Bits

/-!
# Canonical prefix codes

A code is given by the length of each symbol's codeword alone: codewords of one length are
consecutive numbers in the order of the symbols, and begin where those of the length before ended.
A code is held as a binary tree whose leaves are the symbols. Lengths that leave some bit string
without meaning, or give one two meanings, are refused; but a code may have no symbol at all, or a
single one whose codeword is one bit.
-/

namespace RegionGossip.Deflate

/-- A prefix code as a tree; the bits of a codeword lead from the root to its symbol. -/
inductive CodeTree
  | empty
  | leaf (symbol : Nat)
  | node (zero one : CodeTree)

namespace CodeTree

/-- Puts a symbol at the end of a path. -/
def insert (symbol : Nat) : List Bool → CodeTree → CodeTree
  | [], _ => .leaf symbol
  | bit :: path, tree =>
    let (zero, one) := match tree with
      | .node zero one => (zero, one)
      | _ => (.empty, .empty)
    if bit then .node zero (insert symbol path one) else .node (insert symbol path zero) one

/-- Follows the bits from a tree down to a symbol. -/
def decode : CodeTree → BitStream → Option (Nat × BitStream)
  | .empty, _ => none
  | .leaf symbol, stream => some (symbol, stream)
  | .node zero one, stream =>
    match stream.next? with
    | some (true, stream) => one.decode stream
    | some (false, stream) => zero.decode stream
    | none => none

end CodeTree

/-- The longest codeword. -/
def maxCodeLength : Nat := 15

/-- The bits of a codeword, most significant first. -/
def codeBits (length code : Nat) : List Bool :=
  (List.range length).reverse.map fun place => code.testBit place

/-- The first codeword of each length, from the shortest length up; `code` is the first one of the
length at hand. -/
def firstCodes (lengths : List Nat) : (count length code : Nat) → List Nat
  | 0, _, _ => []
  | count + 1, length, code =>
    code :: firstCodes lengths count (length + 1) (2 * (code + lengths.count length))

/-- Places the symbols one after the other, each at the next codeword of its length. -/
def placeSymbols : (symbol : Nat) → List Nat → (next : List Nat) → CodeTree → CodeTree
  | _, [], _, tree => tree
  | symbol, 0 :: rest, next, tree => placeSymbols (symbol + 1) rest next tree
  | symbol, (length + 1) :: rest, next, tree =>
    let code := next.getD length 0
    placeSymbols (symbol + 1) rest (next.set length (code + 1))
      (tree.insert symbol (codeBits (length + 1) code))

/-- How many of the bit strings of the longest length begin with some codeword. -/
def coverage (lengths : List Nat) : Nat :=
  lengths.foldl (fun sum length =>
    if length = 0 then sum else sum + Nat.pow 2 (maxCodeLength - length)) 0

/-- The code of these codeword lengths. -/
def CodeTree.ofLengths? (lengths : List Nat) : Option CodeTree :=
  if coverage lengths = Nat.pow 2 maxCodeLength ∨ lengths.foldl (· + ·) 0 ≤ 1 then
    some (placeSymbols 0 lengths (firstCodes lengths maxCodeLength 1 0) .empty)
  else none

end RegionGossip.Deflate
