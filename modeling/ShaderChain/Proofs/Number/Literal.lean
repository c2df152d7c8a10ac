import Mathlib.Data.List.DropRight
import ShaderChain.Number.Literal
import ShaderChain.Proofs.Number.Numeral
import ShaderChain.Proofs.Number.Rounding

/-! Float literals are faithful: the number that a literal writes is rounded to the double that it
was made for. -/

namespace ShaderChain

/-! The number that a numeral writes. -/

namespace Numeral

def isNegative (text : List Char) : Bool :=
  text.head? == some '-'

/-- How many digits stand behind the point. -/
def places (text : List Char) : Nat :=
  (text.dropWhile (· != '.')).tail.length

/-- The number without its sign. -/
def size (text : List Char) : ℚ :=
  Nat.ofDigitChars 10 (text.filter Char.isDigit) 0 / 10 ^ places text

def value (text : List Char) : ℚ :=
  if isNegative text then -size text else size text

theorem size_minus (text : List Char) : size ('-' :: text) = size text := rfl

theorem abs_value (text : List Char) : |value text| = size text := by
  have hnonneg : 0 ≤ size text := by
    unfold size
    positivity
  unfold value
  split
  · rw [abs_neg, abs_of_nonneg hnonneg]
  · exact abs_of_nonneg hnonneg

theorem ne_point_of_isDigit {c : Char} (hc : c.isDigit) : (c != '.') = true := by
  rw [bne_iff_ne]
  rintro rfl
  cases hc

/-- The value of digits behind the point. -/
def fraction (ds : List Char) : ℚ :=
  Nat.ofDigitChars 10 ds 0 / 10 ^ ds.length

theorem size_digits {whole ds : List Char} (hwhole : ∀ c ∈ whole, c.isDigit)
    (hds : ∀ c ∈ ds, c.isDigit) :
    size (whole ++ '.' :: ds) = Nat.ofDigitChars 10 (whole ++ ds) 0 / 10 ^ ds.length := by
  have hdigits : (whole ++ '.' :: ds).filter Char.isDigit = whole ++ ds := by
    rw [List.filter_append, List.filter_cons_of_neg (by decide), List.filter_eq_self.mpr hwhole,
      List.filter_eq_self.mpr hds]
  have hplaces : places (whole ++ '.' :: ds) = ds.length := by
    rw [places, List.dropWhile_append_of_pos fun c hc => ne_point_of_isDigit (hwhole c hc)]
    rfl
  rw [size, hdigits, hplaces]

theorem size_parts {whole ds : List Char} (hwhole : ∀ c ∈ whole, c.isDigit)
    (hds : ∀ c ∈ ds, c.isDigit) :
    size (whole ++ '.' :: ds) = Nat.ofDigitChars 10 whole 0 + fraction ds := by
  rw [size_digits hwhole hds, Nat.ofDigitChars_append, Nat.ofDigitChars_eq_ofDigitChars_zero,
    fraction]
  push_cast
  rw [add_div, mul_div_cancel_left₀ _ (by positivity)]

theorem fraction_nil : fraction [] = 0 := by
  simp [fraction]

theorem fraction_zeros (ds : List Char) (count : Nat) :
    fraction (ds ++ List.replicate count '0') = fraction ds := by
  rw [fraction, Nat.ofDigitChars_append, Nat.ofDigitChars_replicate_zero, List.length_append,
    List.length_replicate, fraction, pow_add]
  push_cast
  rw [mul_comm, mul_div_mul_right _ _ (by positivity)]

theorem fraction_lead {n places : Nat} (hn : n < 10 ^ places) (hplaces : 0 < places) :
    fraction (List.replicate (places - (Decimal.digits n).length) '0' ++ Decimal.digits n) =
      n / 10 ^ places := by
  have hlength : (Decimal.digits n).length ≤ places :=
    (Nat.length_toDigits_le_iff (by decide) hplaces).mpr hn
  rw [fraction, Nat.ofDigitChars_append, Nat.ofDigitChars_replicate_zero, Nat.mul_zero,
    Decimal.digits, Nat.ofDigitChars_ten_toDigits, List.length_append, List.length_replicate,
    ← Decimal.digits, Nat.sub_add_cancel hlength]

end Numeral

namespace Decimal

def value (d : Decimal) : ℚ :=
  d.coefficient * 10 ^ d.exponent

theorem fraction_dropFinalZeros (cs : List Char) :
    Numeral.fraction (dropFinalZeros cs) = Numeral.fraction cs := by
  have hzeros : cs.rtakeWhile (· == '0') =
      List.replicate (cs.rtakeWhile (· == '0')).length '0' :=
    List.eq_replicate_of_mem fun c hc => by simpa using List.mem_rtakeWhile_imp hc
  have hsplit : cs = dropFinalZeros cs ++ List.replicate (cs.rtakeWhile (· == '0')).length '0' := by
    rw [← hzeros]
    exact List.rdropWhile_append_rtakeWhile.symm
  rw [hsplit, Numeral.fraction_zeros, ← hsplit]

theorem fraction_fractionDigits (d : Decimal) :
    Numeral.fraction d.fractionDigits =
      (d.coefficient % 10 ^ (-d.exponent).toNat : Nat) / 10 ^ (-d.exponent).toNat := by
  simp only [fractionDigits, Nat.pow_eq]
  rcases Nat.eq_zero_or_pos (-d.exponent).toNat with hplaces | hplaces
  · rw [if_pos hplaces, hplaces, Numeral.fraction_nil]
    simp [Nat.mod_one]
  · rw [if_neg hplaces.ne', fraction_dropFinalZeros,
      Numeral.fraction_lead (Nat.mod_lt _ (by positivity)) hplaces]

theorem value_ofNat (coefficient exponent : Nat) :
    value ⟨coefficient, .ofNat exponent⟩ = coefficient * 10 ^ exponent := by
  rw [value, Int.ofNat_eq_natCast, zpow_natCast]

theorem value_negSucc (coefficient exponent : Nat) :
    value ⟨coefficient, .negSucc exponent⟩ = coefficient / 10 ^ (exponent + 1) := by
  rw [value, zpow_negSucc, div_eq_mul_inv]

/-- A number is the whole in front of the point and the rest behind it. -/
theorem value_eq (d : Decimal) :
    d.value = (d.coefficient * 10 ^ d.exponent.toNat / 10 ^ (-d.exponent).toNat : Nat) +
      (d.coefficient % 10 ^ (-d.exponent).toNat : Nat) / 10 ^ (-d.exponent).toNat := by
  obtain ⟨coefficient, exponent⟩ := d
  cases exponent with
  | ofNat e =>
      rw [value_ofNat]
      simp [Nat.mod_one]
  | negSucc e =>
      have hpos : (0 : ℚ) < 10 ^ (e + 1) := by positivity
      have hplaces : (-Int.negSucc e).toNat = e + 1 := rfl
      have hdivision : ((coefficient / 10 ^ (e + 1) * 10 ^ (e + 1) + coefficient % 10 ^ (e + 1) :
          Nat) : ℚ) = coefficient := congrArg _ (Nat.div_add_mod' ..)
      rw [value_negSucc, div_eq_iff hpos.ne']
      simp only [hplaces, Int.toNat_negSucc, Nat.pow_zero, Nat.mul_one]
      rw [add_mul, div_mul_cancel₀ _ hpos.ne', ← hdivision]
      simp

/-- Positional notation writes the number. -/
theorem size_positional (d : Decimal) : Numeral.size d.positional = d.value := by
  have hwhole : ∀ c ∈ d.wholeDigits, c.isDigit := fun c => isDigit_of_mem_digits
  have hdigits : ∀ c ∈ (if d.fractionDigits.isEmpty then ['0'] else d.fractionDigits),
      c.isDigit := by
    intro c hc
    split at hc
    · rw [List.mem_singleton.mp hc]
      rfl
    · exact isDigit_of_mem_fractionDigits hc
  have hfraction : Numeral.fraction (if d.fractionDigits.isEmpty then ['0'] else d.fractionDigits) =
      Numeral.fraction d.fractionDigits := by
    split
    · rename_i hempty
      rw [List.isEmpty_iff.mp hempty]
      exact Numeral.fraction_zeros [] 1
    · rfl
  rw [positional, Numeral.size_parts hwhole hdigits, hfraction,
    fraction_fractionDigits, wholeDigits, digits, Nat.ofDigitChars_ten_toDigits, value_eq]
  rfl

theorem nearest_magnitude (d : Decimal) : Binary64.Nearest (d.value * 2 ^ 1074) d.magnitude := by
  obtain ⟨coefficient, exponent⟩ := d
  cases exponent with
  | ofNat e =>
      have hvalue : value ⟨coefficient, .ofNat e⟩ * 2 ^ 1074 =
          (coefficient * Nat.pow 10 e * Nat.pow 2 1074 : Nat) / (1 : Nat) := by
        simp only [value_ofNat, Nat.pow_eq, Nat.cast_mul, Nat.cast_pow, Nat.cast_ofNat,
          Nat.cast_one, div_one]
      rw [hvalue]
      exact Binary64.nearest_nearestMagnitude _ Nat.one_pos
  | negSucc e =>
      have hvalue : value ⟨coefficient, .negSucc e⟩ * 2 ^ 1074 =
          (coefficient * Nat.pow 2 1074 : Nat) / (Nat.pow 10 (e + 1) : Nat) := by
        simp only [value_negSucc, Nat.pow_eq, Nat.cast_mul, Nat.cast_pow, Nat.cast_ofNat,
          div_mul_eq_mul_div]
      rw [hvalue]
      exact Binary64.nearest_nearestMagnitude _ (Nat.pow_pos (by decide))

end Decimal

namespace Binary64

theorem five_ten_two (u : ℚ) (n : Nat) : u * 5 ^ n * 10 ^ (-(n : ℤ)) * 2 ^ n = u := by
  have hten : (10 : ℚ) ^ n = 5 ^ n * 2 ^ n := by
    rw [← mul_pow]
    norm_num
  have hpos : (0 : ℚ) < 5 ^ n * 2 ^ n := by positivity
  rw [zpow_neg, zpow_natCast, hten, mul_right_comm, mul_assoc u, mul_inv_cancel_right₀ hpos.ne']

theorem magnitude_exactDecimal (x : Binary64) : x.exactDecimal.magnitude = x.magnitude := by
  have hvalue : x.exactDecimal.value * 2 ^ 1074 = unitsOf x.magnitude := by
    have hscaled := five_ten_two x.units 1074
    simpa only [exactDecimal, Decimal.value, Nat.pow_eq, Nat.cast_mul, Nat.cast_pow,
      Nat.cast_ofNat, units_eq] using hscaled
  apply (Decimal.nearest_magnitude _).unique
  rw [hvalue]
  exact nearest_unitsOf x.magnitude

theorem readsBack_choice {x : Binary64} {below above d : Decimal} {nearer : Bool}
    (hd : (if x.readsBack below && nearer then some below
      else if x.readsBack above then some above else none) = some d) : x.readsBack d = true := by
  split at hd
  · rename_i hbelow
    cases hd
    exact (Bool.and_eq_true_iff.mp hbelow).1
  · split at hd
    · rename_i habove
      cases hd
      exact habove
    · cases hd

theorem magnitude_of_onGrid? {x : Binary64} {exponent : Int} {d : Decimal}
    (hd : x.onGrid? exponent = some d) : d.magnitude = x.magnitude :=
  beq_iff_eq.mp (readsBack_choice hd)

theorem magnitude_refine (x : Binary64) (exponent : Int) (tries : Nat) :
    (x.refine exponent tries).magnitude = x.magnitude := by
  induction tries generalizing exponent with
  | zero => exact x.magnitude_exactDecimal
  | succ tries ih =>
      rw [refine]
      cases hgrid : x.onGrid? exponent with
      | none => exact ih (exponent - 1)
      | some d => exact magnitude_of_onGrid? hgrid

theorem magnitude_shortest (x : Binary64) : x.shortest.magnitude = x.magnitude :=
  x.magnitude_refine x.coarsestExponent 24

/-! The text of a finite double. -/

theorem toList_literal {x : Binary64} (hfinite : x.isFinite) :
    x.literal.toList = x.signed x.shortest.positional := by
  rw [literal, String.toList_ofList, if_pos hfinite]

theorem size_literal {x : Binary64} (hfinite : x.isFinite) :
    Numeral.size x.literal.toList = x.shortest.value := by
  rw [toList_literal hfinite, ← Decimal.size_positional, signed]
  split
  · exact Numeral.size_minus _
  · rfl

theorem isNegative_literal {x : Binary64} (hfinite : x.isFinite) :
    Numeral.isNegative x.literal.toList = x.isNegative := by
  have hwhole : x.shortest.wholeDigits ≠ [] := Nat.toDigits_ne_nil
  rw [toList_literal hfinite, signed]
  split
  · rename_i hnegative
    rw [hnegative]
    rfl
  · rename_i hnegative
    rw [Bool.not_eq_true] at hnegative
    obtain ⟨c, rest, hdigits⟩ := List.exists_cons_of_ne_nil hwhole
    have hc : c.isDigit := by
      apply Decimal.isDigit_of_mem_digits
      rw [← Decimal.wholeDigits, hdigits]
      exact List.mem_cons_self
    rw [hnegative, Decimal.positional, hdigits, Numeral.isNegative]
    simp only [List.cons_append, List.head?_cons, beq_eq_false_iff_ne, ne_eq, Option.some.injEq]
    rintro rfl
    cases hc

theorem nearest_literal {x : Binary64} (hfinite : x.isFinite) :
    Nearest (Numeral.size x.literal.toList * 2 ^ 1074) x.magnitude := by
  rw [size_literal hfinite, ← x.magnitude_shortest]
  exact x.shortest.nearest_magnitude

theorem signAgrees_value {text : List Char} {x : Binary64}
    (hsign : Numeral.isNegative text = x.isNegative) : SignAgrees (Numeral.value text) x := by
  have hnonneg := abs_nonneg (Numeral.value text)
  rw [Numeral.abs_value] at hnonneg
  unfold SignAgrees Numeral.value
  rw [hsign]
  split
  · linarith
  · exact hnonneg

theorem eq_of_magnitude {x y : Binary64} (hsign : x.isNegative = y.isNegative)
    (hmagnitude : x.magnitude = y.magnitude) : x = y := by
  obtain ⟨a⟩ := x
  obtain ⟨b⟩ := y
  have ha := a.toNat_lt
  have hb := b.toNat_lt
  simp only [isNegative, magnitude, Nat.pow_eq, decide_eq_decide] at hsign hmagnitude
  rw [mk.injEq, ← UInt64.toNat_inj]
  omega

/-- What holds of the literal of a double. -/
structure Faithful (x : Binary64) : Prop where
  numeral : Numeral x.literal.toList
  rounds : x.isFinite → RoundsTo (Numeral.value x.literal.toList) x
  sign : x.isFinite → Numeral.isNegative x.literal.toList = x.isNegative
  distinct : x.isFinite → ∀ y : Binary64, y.isFinite → x.literal = y.literal → x = y
  zero : ¬x.isFinite → x.literal = "0.0"

theorem literal_faithful (x : Binary64) : Faithful x where
  numeral := x.numeral_literal
  rounds := by
    intro hfinite
    apply roundsTo_of_nearest hfinite (signAgrees_value (isNegative_literal hfinite))
    rw [Numeral.abs_value]
    exact nearest_literal hfinite
  sign := isNegative_literal
  distinct := by
    intro hx y hy hliteral
    apply eq_of_magnitude
    · rw [← isNegative_literal hx, hliteral, isNegative_literal hy]
    · have hnearest := nearest_literal hx
      rw [hliteral] at hnearest
      exact hnearest.unique (nearest_literal hy)
  zero := by
    intro hfinite
    rw [literal, if_neg hfinite]

-- Neither the sign of zero nor a large exponent is lost.
example : (⟨0x8000000000000000⟩ : Binary64).literal = "-0.0" ∧
    (1e22 : Binary64).literal = "10000000000000000000000.0" := by decide +kernel

end Binary64

end ShaderChain
