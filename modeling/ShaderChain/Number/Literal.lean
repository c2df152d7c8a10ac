import ShaderChain.Number.Shortest

/-! The text of a number: positional notation, GLSL literals and diagnostics. -/

namespace ShaderChain

namespace Decimal

def dropFinalZeros (cs : List Char) : List Char :=
  (cs.reverse.dropWhile (· == '0')).reverse

def wholeDigits (d : Decimal) : List Char :=
  digits (d.coefficient * Nat.pow 10 d.exponent.toNat / Nat.pow 10 (-d.exponent).toNat)

/-- The digits behind the point, without zeros at the end. -/
def fractionDigits (d : Decimal) : List Char :=
  let places := (-d.exponent).toNat
  let ds := digits (d.coefficient % Nat.pow 10 places)
  if places = 0 then [] else dropFinalZeros (List.replicate (places - ds.length) '0' ++ ds)

/-- Positional notation with at least one digit behind the point. -/
def positional (d : Decimal) : List Char :=
  let fraction := d.fractionDigits
  d.wholeDigits ++ '.' :: (if fraction.isEmpty then ['0'] else fraction)

/-- The exponent of the first digit. -/
def order (d : Decimal) : Int :=
  (digits d.coefficient).length - 1 + d.exponent

/-- One digit before the point, no point if there is none behind it, and the exponent. -/
def scientific (d : Decimal) : List Char :=
  let ds := match dropFinalZeros (digits d.coefficient) with
    | [] => ['0']
    | [c] => [c]
    | c :: rest => c :: '.' :: rest
  ds ++ 'e' :: (toString d.order).toList

end Decimal

namespace Binary64

def signed (x : Binary64) (text : List Char) : List Char :=
  if x.isNegative then '-' :: text else text

/-- The float literal of a number. GLSL has none for infinities and for what is not a number:
these become zero. -/
def literal (x : Binary64) : String :=
  String.ofList (if x.isFinite then x.signed x.shortest.positional else ['0', '.', '0'])

/-- The text of a number in diagnostics, positional from `10 ^ -4` to below `10 ^ 16`. -/
def describe (x : Binary64) : String :=
  let d := x.shortest
  if x.isNaN then "NaN"
  else if !x.isFinite then String.ofList (x.signed ['i', 'n', 'f'])
  else if x.magnitude = 0 ∨ (-4 ≤ d.order ∧ d.order < 16) then
    String.ofList (x.signed d.positional)
  else String.ofList (x.signed d.scientific)

end Binary64

end ShaderChain
