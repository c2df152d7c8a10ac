import ShaderChain.Number.Decimal

/-! The decimal with the fewest digits that reads back as a given double. -/

namespace ShaderChain.Binary64

/-- Whether the decimal is nearer to `x` than to any other double, signs aside. -/
def readsBack (x : Binary64) (d : Decimal) : Bool :=
  d.magnitude == x.magnitude

/-- The multiple of `10 ^ exponent` that reads back as `x` and is nearest to it, the larger one
of two at the same distance. Only the two neighbours of `x` can be. -/
def onGrid? (x : Binary64) (exponent : Int) : Option Decimal :=
  let n := x.units * Nat.pow 10 (-exponent).toNat
  let d := Nat.pow 2 1074 * Nat.pow 10 exponent.toNat
  let below := Decimal.mk (n / d) exponent
  let above := Decimal.mk (n / d + 1) exponent
  if x.readsBack below && (!x.readsBack above || 2 * (n % d) < d) then some below
  else if x.readsBack above then some above
  else none

/-- The exact value of a finite number. -/
def exactDecimal (x : Binary64) : Decimal :=
  ⟨x.units * Nat.pow 5 1074, -1074⟩

/-- An exponent whose power of ten is above `x`, and not far above it. -/
def coarsestExponent (x : Binary64) : Int :=
  ((x.units.log2 : Int) - 1073) * 30103 / 100000 + 2

/-- Tries `tries` grids, each ten times as fine as the one before. -/
def refine (x : Binary64) (exponent : Int) : Nat → Decimal
  | 0 => x.exactDecimal
  | tries + 1 => (x.onGrid? exponent).getD (x.refine (exponent - 1) tries)

/-- The decimal that reads back as the absolute value of a finite number and lies on the coarsest
grid possible, which is the one with the fewest digits. Seventeen digits suffice. -/
def shortest (x : Binary64) : Decimal :=
  x.refine x.coarsestExponent 24

end ShaderChain.Binary64
