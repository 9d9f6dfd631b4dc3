import CabalManifest.Decimal.Binary64

/-!
# Long integers

An integer can have any size, but one with very many digits is neither read nor written in decimal,
for either would take time that grows with the square of the digits.
-/

namespace CabalManifest.Decimal

/-- The most digits that an integer may have where it is read or written in decimal. -/
def digitLimit : Nat := 4300

/-- Whether an integer can be written in decimal. -/
def isWritable (n : Int) : Bool := n.natAbs < pow10 digitLimit

end CabalManifest.Decimal
