import ShaderChain.Proofs.Number.Literal

/-! Decimal numbers are read as the doubles nearest to them. -/

namespace ShaderChain

namespace Binary64

theorem Nearest.eq_zero_of_lt_half {u : ℚ} {magnitude : Nat} (hnearest : Nearest u magnitude)
    (hu : 0 ≤ u) (hhalf : u < 1 / 2) : magnitude = 0 := by
  have hdist := hnearest.nearest 0
  rw [unitsOf_zero, Nat.cast_zero, sub_zero, abs_of_nonneg hu] at hdist
  have hunits : (unitsOf magnitude : ℚ) < 1 := by
    have hbelow := neg_le_abs (u - unitsOf magnitude)
    linarith
  apply strictMono_unitsOf.injective
  rw [unitsOf_zero]
  exact Nat.lt_one_iff.mp (by exact_mod_cast hunits)

theorem Nearest.lt_of_finite {q : ℚ} {magnitude : Nat} (hnearest : Nearest (q * 2 ^ 1074) magnitude)
    (hfinite : magnitude < infinity) : q < 2 ^ 1024 := by
  have hmiddle := hnearest.lt_middle hfinite
  have hscale : (0 : ℚ) < 2 ^ 1074 := by positivity
  have hstep : (0 : ℚ) < 2 ^ 970 := by positivity
  rw [middle_eq, mul_lt_mul_iff_right₀ two_pos, mul_lt_mul_iff_left₀ hscale] at hmiddle
  generalize (2 : ℚ) ^ 1024 = top at hmiddle ⊢
  exact hmiddle.trans (sub_lt_self top hstep)

theorem Nearest.lt_infinity {u : ℚ} {magnitude : Nat} (hnearest : Nearest u magnitude)
    (hu : u ≤ unitsOf (infinity - 1)) : magnitude < infinity := by
  by_contra hmagnitude
  have hdist := hnearest.nearest (infinity - 1)
  have hpast : (unitsOf (infinity - 1) : ℚ) < unitsOf magnitude := by
    have hpos : 0 < infinity := by decide
    exact_mod_cast strictMono_unitsOf (by omega : infinity - 1 < magnitude)
  rw [abs_of_nonpos (by linarith), abs_of_nonpos (by linarith)] at hdist
  linarith

theorem ofMagnitude_magnitude (x : Binary64) : ofMagnitude x.isNegative x.magnitude = x := by
  obtain ⟨bits⟩ := x
  have hbits := bits.toNat_lt
  simp only [ofMagnitude, isNegative, magnitude, Nat.pow_eq, decide_eq_true_eq]
  rw [mk.injEq, ← UInt64.toNat_inj, UInt64.toNat_ofNat']
  split <;> omega

theorem magnitude_ofMagnitude (negative : Bool) {m : Nat} (hm : m < 2 ^ 63) :
    (ofMagnitude negative m).magnitude = m := by
  simp only [ofMagnitude, magnitude, Nat.pow_eq, UInt64.toNat_ofNat']
  split <;> omega

theorem isNegative_ofMagnitude (negative : Bool) {m : Nat} (hm : m < 2 ^ 63) :
    (ofMagnitude negative m).isNegative = negative := by
  simp only [ofMagnitude, isNegative, Nat.pow_eq, UInt64.toNat_ofNat']
  cases negative <;> simp <;> omega

theorem isFinite_ofMagnitude (negative : Bool) {m : Nat} (hm : m < infinity) :
    (ofMagnitude negative m).isFinite := by
  have hbound : infinity < 2 ^ 63 := by decide
  rw [isFinite, magnitude_ofMagnitude negative (hm.trans hbound)]
  exact decide_eq_true hm

theorem isFinite_ofNat {n : Nat} (hn : n < 2 ^ 64) : (ofNat n).isFinite := by
  have hnearest := nearest_nearestMagnitude (n * Nat.pow 2 1074) Nat.one_pos
  have hunits : n * Nat.pow 2 1074 ≤ unitsOf (infinity - 1) := by
    refine (Nat.mul_le_mul_right _ hn.le).trans ?_
    decide +kernel
  have hfinite : nearestMagnitude (n * Nat.pow 2 1074) 1 < infinity := by
    apply hnearest.lt_infinity
    rw [Nat.cast_one, div_one]
    exact_mod_cast hunits
  apply isFinite_ofMagnitude
  exact (Nat.min_le_right ..).trans_lt hfinite

end Binary64

namespace Decimal

theorem coefficient_lt (d : Decimal) : d.coefficient < 10 ^ (digits d.coefficient).length :=
  (Nat.length_toDigits_le_iff (by decide) (List.length_pos_of_ne_nil Nat.toDigits_ne_nil)).mp le_rfl

theorem le_coefficient {d : Decimal} (hd : d.coefficient ≠ 0) :
    10 ^ ((digits d.coefficient).length - 1) ≤ d.coefficient := by
  rcases Nat.eq_zero_or_pos ((digits d.coefficient).length - 1) with hlength | hlength
  · rw [hlength]
    exact Nat.one_le_iff_ne_zero.mpr hd
  · have hlonger : ¬(digits d.coefficient).length ≤ (digits d.coefficient).length - 1 := by omega
    exact Nat.le_of_not_lt fun hlt =>
      hlonger ((Nat.length_toDigits_le_iff (by decide) hlength).mpr hlt)

theorem ten_zpow_pos (e : ℤ) : (0 : ℚ) < 10 ^ e :=
  zpow_pos (by norm_num) e

theorem value_lt (d : Decimal) :
    d.value < 10 ^ ((digits d.coefficient).length + d.exponent : ℤ) := by
  rw [value, zpow_add₀ (by decide), zpow_natCast]
  apply mul_lt_mul_of_pos_right
  · exact_mod_cast d.coefficient_lt
  · exact ten_zpow_pos d.exponent

theorem le_value {d : Decimal} (hd : d.coefficient ≠ 0) :
    10 ^ ((digits d.coefficient).length + d.exponent - 1 : ℤ) ≤ d.value := by
  have hlength : 0 < (digits d.coefficient).length := List.length_pos_of_ne_nil Nat.toDigits_ne_nil
  have hsplit : ((digits d.coefficient).length + d.exponent - 1 : ℤ) =
      ((digits d.coefficient).length - 1 : Nat) + d.exponent := by omega
  rw [value, hsplit, zpow_add₀ (by decide), zpow_natCast]
  apply mul_le_mul_of_nonneg_right
  · exact_mod_cast le_coefficient hd
  · exact (ten_zpow_pos d.exponent).le

theorem value_nonneg (d : Decimal) : 0 ≤ d.value :=
  mul_nonneg (Nat.cast_nonneg _) (ten_zpow_pos d.exponent).le

theorem magnitude_eq_zero_of_tiny {d : Decimal}
    (horder : (digits d.coefficient).length + d.exponent < -330) : d.magnitude = 0 := by
  apply d.nearest_magnitude.eq_zero_of_lt_half
  · exact mul_nonneg d.value_nonneg (by positivity)
  · have hvalue : d.value < 10 ^ (-330 : ℤ) :=
      d.value_lt.trans (zpow_lt_zpow_right₀ (by norm_num) horder)
    have hcast : ((2 : ℚ) ^ 1074 * 2) < 10 ^ 330 := by
      exact_mod_cast (by decide +kernel : (2 ^ 1074 * 2 : Nat) < 10 ^ 330)
    have hscale : (0 : ℚ) < 2 ^ 1074 := by positivity
    have hten : (10 : ℚ) ^ (-330 : ℤ) * 10 ^ 330 = 1 := by
      rw [← zpow_ofNat 10 330]
      exact zpow_neg_mul_zpow_self 330 (by decide)
    have hpos := ten_zpow_pos (-330)
    generalize (10 : ℚ) ^ (-330 : ℤ) = tiny at hvalue hten hpos
    generalize (10 : ℚ) ^ 330 = huge at hcast hten
    generalize (2 : ℚ) ^ 1074 = scale at hcast hscale ⊢
    have hbelow := mul_lt_mul_of_pos_left hcast hpos
    rw [hten, ← mul_assoc] at hbelow
    calc
      d.value * scale < tiny * scale := mul_lt_mul_of_pos_right hvalue hscale
      _ < 1 / 2 := by linarith

theorem infinity_le_of_huge {d : Decimal} (hd : d.coefficient ≠ 0)
    (horder : 310 < (digits d.coefficient).length + d.exponent) :
    ¬d.magnitude < Binary64.infinity := by
  intro hfinite
  have hbelow := d.nearest_magnitude.lt_of_finite hfinite
  have habove : (10 : ℚ) ^ (310 : ℤ) ≤ d.value :=
    (zpow_le_zpow_right₀ (by norm_num) (by omega)).trans (le_value hd)
  have hcast : ((2 : ℚ) ^ 1024) < 10 ^ 310 := by
    exact_mod_cast (by decide +kernel : (2 ^ 1024 : Nat) < 10 ^ 310)
  have hpow : (10 : ℚ) ^ (310 : ℤ) = 10 ^ 310 := zpow_ofNat 10 310
  rw [hpow] at habove
  exact absurd (habove.trans_lt (hbelow.trans hcast)) (lt_irrefl _)

/-- No answer is changed by the bounds outside of which no power of ten is computed. -/
theorem toBinary64?_eq (negative : Bool) (d : Decimal) :
    d.toBinary64? negative =
      if d.magnitude < Binary64.infinity then some (.ofMagnitude negative d.magnitude)
      else none := by
  have hzero : 0 < Binary64.infinity := by decide
  simp only [toBinary64?]
  split
  · rename_i hsmall
    have hmagnitude : d.magnitude = 0 := by
      rcases hsmall with hcoefficient | horder
      · apply Binary64.Nearest.eq_zero
        have hnearest := d.nearest_magnitude
        rwa [value, hcoefficient, Nat.cast_zero, zero_mul, zero_mul] at hnearest
      · exact magnitude_eq_zero_of_tiny horder
    rw [hmagnitude, if_pos hzero]
  · rename_i hlarge
    obtain ⟨hcoefficient, -⟩ := not_or.mp hlarge
    split
    · rename_i horder
      rw [if_neg (infinity_le_of_huge hcoefficient horder)]
    · rfl

theorem isFinite_of_toBinary64? {negative : Bool} {d : Decimal} {x : Binary64}
    (hx : d.toBinary64? negative = some x) : x.isFinite := by
  rw [toBinary64?_eq] at hx
  split at hx
  · rename_i hfinite
    cases hx
    exact Binary64.isFinite_ofMagnitude negative hfinite
  · cases hx

/-- Any way to write the number of a literal gives back the double that it was made for. -/
theorem toBinary64?_of_value_eq {d : Decimal} {x : Binary64} (hfinite : x.isFinite)
    (hvalue : d.value = x.shortest.value) : d.toBinary64? x.isNegative = some x := by
  have hmagnitude : d.magnitude = x.magnitude := by
    apply d.nearest_magnitude.unique
    rw [hvalue, ← x.magnitude_shortest]
    exact x.shortest.nearest_magnitude
  rw [toBinary64?_eq, hmagnitude, if_pos (of_decide_eq_true hfinite), x.ofMagnitude_magnitude]

end Decimal

/-! Texts as doubles. -/

/-- The number that a numeral writes, without its sign. -/
def Numeral.decimal (text : List Char) : Decimal :=
  ⟨Nat.ofDigitChars 10 (text.filter Char.isDigit) 0, -(places text : ℤ)⟩

theorem Numeral.value_decimal (text : List Char) : (decimal text).value = size text := by
  rw [Decimal.value, decimal, zpow_neg, zpow_natCast, size, div_eq_mul_inv]

namespace Binary64

/-- The double nearest to the number that a text writes, unless that is infinite. -/
def read? (text : String) : Option Binary64 :=
  (Numeral.decimal text.toList).toBinary64? (Numeral.isNegative text.toList)

theorem roundsTo_of_read? {text : String} {x : Binary64} (hx : read? text = some x) :
    RoundsTo (Numeral.value text.toList) x := by
  rw [read?, Decimal.toBinary64?_eq] at hx
  split at hx
  · rename_i hfinite
    have hbound := hfinite.trans (by decide : infinity < 2 ^ 63)
    cases hx
    apply roundsTo_of_nearest (isFinite_ofMagnitude _ hfinite)
    · exact signAgrees_value (isNegative_ofMagnitude _ hbound).symm
    · rw [Numeral.abs_value, magnitude_ofMagnitude _ hbound, ← Numeral.value_decimal]
      exact Decimal.nearest_magnitude _
  · cases hx

theorem read?_literal {x : Binary64} (hfinite : x.isFinite) : read? x.literal = some x := by
  rw [read?, isNegative_literal hfinite]
  apply Decimal.toBinary64?_of_value_eq hfinite
  rw [Numeral.value_decimal, size_literal hfinite]

end Binary64

end ShaderChain
