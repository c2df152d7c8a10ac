import ShaderChain.Number.Binary64

/-! Decimal numbers and the double nearest to one. -/

namespace ShaderChain

/-- The number `coefficient * 10 ^ exponent`. -/
structure Decimal where
  coefficient : Nat
  exponent : Int
deriving DecidableEq

namespace Decimal

/-- The magnitude of the double nearest to the number. -/
def magnitude (d : Decimal) : Nat :=
  match d.exponent with
  | .ofNat e => Binary64.nearestMagnitude (d.coefficient * Nat.pow 10 e * Nat.pow 2 1074) 1
  | .negSucc e =>
      Binary64.nearestMagnitude (d.coefficient * Nat.pow 2 1074) (Nat.pow 10 (e + 1))

def digits (n : Nat) : List Char :=
  Nat.toDigits 10 n

/-! A number of at least `10 ^ 310` is past all doubles and one below `10 ^ -330` rounds to
zero, so no power of ten is computed outside of these bounds. -/

/-- The double nearest to the number, unless that is infinite. -/
def toBinary64? (negative : Bool) (d : Decimal) : Option Binary64 :=
  let order := (digits d.coefficient).length + d.exponent
  if d.coefficient = 0 ∨ order < -330 then some (.ofMagnitude negative 0)
  else if 310 < order then none
  else if d.magnitude < Binary64.infinity then some (.ofMagnitude negative d.magnitude)
  else none

end Decimal

instance : OfScientific Binary64 where
  ofScientific coefficient negative exponent :=
    let exponent := if negative then -(exponent : Int) else exponent
    ((Decimal.mk coefficient exponent).toBinary64? false).getD
      (.ofMagnitude false Binary64.infinity)

end ShaderChain
