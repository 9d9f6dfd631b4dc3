import CabalManifest.Decimal.Binary64

/-!
# The order of numbers in a set

A set keeps its members in a hash table, and shows them in the order of the table. The hash of a
number is its residue modulo a prime, whatever the form of the number, so that the order of numbers
can be told. Members of other kinds have hashes that are another in each run.

A table has at least eight slots and more than twice as many as members, if these are five or more.
A member goes to the slot that its hash names; if that one is taken, to one of the nine behind it, if
there are nine; and if these are taken, its hash names the next slot to try.
-/

namespace CabalManifest.Yaml.MemberOrder

/-! ### Hashes -/

/-- The modulus of hashes. The powers of two repeat after 61 of them. -/
def modulus : Nat := Decimal.pow2 61 - 1

/-- A hash with a sign; the one that would be minus one is minus two. -/
def signed (negative : Bool) (hash : Nat) : Int :=
  if negative then (if hash = 1 then -2 else -(hash : Int)) else hash

/-- The hash of an integer. -/
def ofInt (n : Int) : Int := signed (n < 0) (n.natAbs % modulus)

/-- The hash of a float; what is no number has none. -/
def ofFloat? (x : Float) : Option Int :=
  match Decimal.magnitude? x with
  | some ⟨m, e⟩ => some (signed (Decimal.isNegative x) (m * Decimal.pow2 (e % 61).toNat % modulus))
  | none => if x == x then some (signed (Decimal.isNegative x) 314159) else none

/-! ### Slots -/

/-- The slots behind a slot that are tried together with it. -/
def reach : Nat := 9

/-- The number of slots for a number of members: a power of two. The bound is that number. -/
def sizeFrom : Nat → Nat → Nat → Nat
  | 0, size, _ => size
  | bound + 1, size, members =>
    if size ≤ 2 * members then sizeFrom bound (2 * size) members else size

/-- The number of slots for a number of members. -/
def size (members : Nat) : Nat := if members < 5 then 8 else sizeFrom members 8 members

/-- The first free slot among those tried together. -/
def free? (size : Nat) (taken : List Nat) (slot : Nat) : Option Nat :=
  let tried := if slot + reach < size then List.range' slot (reach + 1) else [slot]
  tried.find? fun slot ↦ !taken.contains slot

/-- The slot of a member, from the slot that is tried first on, given what is left of its hash. The
bound is on the number of slots that are tried first. -/
def slotFrom (size : Nat) (taken : List Nat) : Nat → Nat → Nat → Nat
  | 0, slot, _ => slot
  | bound + 1, slot, left =>
    match free? size taken slot with
    | some slot => slot
    | none => slotFrom size taken bound ((5 * slot + 1 + left / 32) % size) (left / 32)

/-- The slot of a member with a hash. Once nothing is left of the hash, every slot gets its turn. -/
def slotOf (size : Nat) (taken : List Nat) (hash : Int) : Nat :=
  let left := (hash % (Decimal.pow2 64 : Nat)).toNat
  slotFrom size taken (size + 13) (left % size) left

/-- The slots of members with certain hashes, in the order of the members, given those that are taken
already. -/
def slots (size : Nat) : List Nat → List Int → List Nat
  | _, [] => []
  | taken, hash :: hashes =>
    let slot := slotOf size taken hash
    slot :: slots size (slot :: taken) hashes

/-- Members with their hashes in the order of their slots. -/
def sort {α : Type} (members : List (α × Int)) : List α :=
  let slots := slots (size members.length) [] (members.map (·.2))
  (((members.map (·.1)).zip slots).mergeSort fun a b ↦ a.2 ≤ b.2).map (·.1)

end CabalManifest.Yaml.MemberOrder
