/-! Double-precision numbers by their bits, and exact rounding to them. -/

namespace ShaderChain

/-- An IEEE 754 binary64 number. -/
structure Binary64 where
  bits : UInt64
deriving DecidableEq

namespace Binary64

/-! The bits below the sign are the magnitude. Magnitudes of finite numbers are consecutive, and
the first one past them is infinity. -/

def isNegative (x : Binary64) : Bool :=
  Nat.pow 2 63 ≤ x.bits.toNat

def magnitude (x : Binary64) : Nat :=
  x.bits.toNat % Nat.pow 2 63

def infinity : Nat :=
  0x7FF * Nat.pow 2 52

def isFinite (x : Binary64) : Bool :=
  x.magnitude < infinity

def isNaN (x : Binary64) : Bool :=
  infinity < x.magnitude

def ofMagnitude (negative : Bool) (magnitude : Nat) : Binary64 :=
  ⟨UInt64.ofNat (if negative then Nat.pow 2 63 + magnitude else magnitude)⟩

/-- How many times the least positive number, `2 ^ -1074`, a finite number's absolute value is. -/
def units (x : Binary64) : Nat :=
  let exponent := x.magnitude / Nat.pow 2 52
  let fraction := x.magnitude % Nat.pow 2 52
  if exponent = 0 then fraction else (Nat.pow 2 52 + fraction) * Nat.pow 2 (exponent - 1)

/-! Rounding goes to the nearest number, and from the middle between two to the even one. -/

/-- The natural number nearest to `n / d`, the even one of two. -/
def roundHalfEven (n d : Nat) : Nat :=
  let q := n / d
  let twice := 2 * (n % d)
  if twice < d ∨ (twice = d ∧ q % 2 = 0) then q else q + 1

/-- The magnitude nearest to `n / d` units. It reaches `infinity` if the number is too large. -/
def nearestMagnitude (n d : Nat) : Nat :=
  let shift := (n / d).log2 - 52
  shift * Nat.pow 2 52 + roundHalfEven n (d * Nat.pow 2 shift)

def ofNat (n : Nat) : Binary64 :=
  ofMagnitude false (Nat.min infinity (nearestMagnitude (n * Nat.pow 2 1074) 1))

def ofInt (n : Int) : Binary64 :=
  ofMagnitude (n < 0) (Nat.min infinity (nearestMagnitude (n.natAbs * Nat.pow 2 1074) 1))

/-- The single-precision number nearest to `x`. Single-precision numbers have 24 bits, are
multiples of `2 ^ -149` and stay below `2 ^ 128`. -/
def toSingle (x : Binary64) : Binary64 :=
  if x.isFinite then
    let step := Nat.pow 2 925
    let unit := step * Nat.pow 2 ((x.units / step).log2 - 23)
    let rounded := roundHalfEven x.units unit * unit
    ofMagnitude x.isNegative
      (if rounded < Nat.pow 2 1202 then nearestMagnitude rounded 1 else infinity)
  else x

end Binary64

end ShaderChain
