import Mathlib.Algebra.Order.Field.Rat
import Mathlib.Algebra.Order.Ring.Abs
import Mathlib.Tactic.FieldSimp
import Mathlib.Tactic.Linarith
import Mathlib.Tactic.Positivity
import Mathlib.Tactic.Ring
import ShaderChain.Number.Decimal

/-! Rounding gives the nearest double, and of two the even one. Magnitudes are compared by what they
stand for, in units of the least positive number. -/

namespace ShaderChain.Binary64

def unitsOf (magnitude : Nat) : Nat :=
  if magnitude / 2 ^ 52 = 0 then magnitude % 2 ^ 52
  else (2 ^ 52 + magnitude % 2 ^ 52) * 2 ^ (magnitude / 2 ^ 52 - 1)

theorem units_eq (x : Binary64) : x.units = unitsOf x.magnitude := rfl

theorem unitsOf_of_lt {m : Nat} (hm : m < 2 ^ 52) : unitsOf m = m := by
  rw [unitsOf, if_pos (Nat.div_eq_of_lt hm), Nat.mod_eq_of_lt hm]

theorem unitsOf_normal (scale : Nat) {fraction : Nat} (hfraction : fraction < 2 ^ 52) :
    unitsOf ((scale + 1) * 2 ^ 52 + fraction) = (2 ^ 52 + fraction) * 2 ^ scale := by
  have hdiv : ((scale + 1) * 2 ^ 52 + fraction) / 2 ^ 52 = scale + 1 := by omega
  have hmod : ((scale + 1) * 2 ^ 52 + fraction) % 2 ^ 52 = fraction := by omega
  rw [unitsOf, hdiv, hmod, if_neg (Nat.succ_ne_zero scale), Nat.add_sub_cancel]

theorem magnitude_cases (m : Nat) :
    m < 2 ^ 52 ∨ ∃ scale fraction, fraction < 2 ^ 52 ∧ m = (scale + 1) * 2 ^ 52 + fraction := by
  rcases Nat.lt_or_ge m (2 ^ 52) with hm | hm
  · exact .inl hm
  · exact .inr ⟨m / 2 ^ 52 - 1, m % 2 ^ 52, by omega, by omega⟩

/-- On a scale the magnitudes count the multiples of a power of two, the first of the next scale
included. -/
theorem unitsOf_scaled {scale r : Nat} (hlow : scale = 0 ∨ 2 ^ 52 ≤ r) (hhigh : r ≤ 2 ^ 53) :
    unitsOf (scale * 2 ^ 52 + r) = r * 2 ^ scale := by
  rcases Nat.lt_or_ge r (2 ^ 52) with hr | hr
  · obtain rfl : scale = 0 := by omega
    rw [Nat.zero_mul, Nat.zero_add, unitsOf_of_lt hr, Nat.pow_zero, Nat.mul_one]
  · rcases Nat.lt_or_ge r (2 ^ 53) with hr' | hr'
    · have hm : scale * 2 ^ 52 + r = (scale + 1) * 2 ^ 52 + (r - 2 ^ 52) := by omega
      rw [hm, unitsOf_normal scale (by omega), Nat.add_sub_of_le hr]
    · obtain rfl : r = 2 ^ 53 := by omega
      have hm : scale * 2 ^ 52 + 2 ^ 53 = (scale + 1 + 1) * 2 ^ 52 + 0 := by omega
      rw [hm, unitsOf_normal (scale + 1) (by omega), pow_succ]
      ring

theorem unitsOf_lt_succ (m : Nat) : unitsOf m < unitsOf (m + 1) := by
  rcases magnitude_cases m with hm | ⟨scale, fraction, hfraction, rfl⟩
  · have hnext : unitsOf (0 * 2 ^ 52 + (m + 1)) = (m + 1) * 2 ^ 0 :=
      unitsOf_scaled (.inl rfl) (by omega)
    rw [Nat.zero_mul, Nat.zero_add, Nat.pow_zero, Nat.mul_one] at hnext
    rw [unitsOf_of_lt hm, hnext]
    exact Nat.lt_succ_self m
  · have hm : (scale + 1) * 2 ^ 52 + fraction + 1 = scale * 2 ^ 52 + (2 ^ 52 + fraction + 1) := by
      omega
    rw [unitsOf_normal scale hfraction, hm, unitsOf_scaled (.inr (by omega)) (by omega)]
    exact Nat.mul_lt_mul_of_pos_right (by omega) (by positivity)

theorem strictMono_unitsOf : StrictMono unitsOf :=
  strictMono_nat_of_lt_succ unitsOf_lt_succ

theorem unitsOf_zero : unitsOf 0 = 0 := rfl

theorem unitsOf_multiple {scale m : Nat} (hm : scale = 0 ∨ (scale + 1) * 2 ^ 52 ≤ m) :
    ∃ k, unitsOf m = k * 2 ^ scale := by
  rcases hm with rfl | hm
  · exact ⟨unitsOf m, by simp⟩
  · rcases magnitude_cases m with hsmall | ⟨other, fraction, hfraction, rfl⟩
    · omega
    · obtain ⟨more, rfl⟩ : ∃ more, other = more + scale := ⟨other - scale, by omega⟩
      refine ⟨(2 ^ 52 + fraction) * 2 ^ more, ?_⟩
      rw [unitsOf_normal _ hfraction, pow_add, Nat.mul_assoc]

/-! Rounding to a whole number. -/

theorem roundHalfEven_near (n : Nat) {d : Nat} (hd : 0 < d) :
    2 * |(n : ℤ) - roundHalfEven n d * d| ≤ d ∧
      (2 * |(n : ℤ) - roundHalfEven n d * d| = d → roundHalfEven n d % 2 = 0) := by
  have hmod := Nat.mod_lt n hd
  have hrest : (n : ℤ) - (n / d : Nat) * d = (n % d : Nat) := by
    have hdivision : (n / d * d + n % d : Nat) = (n : ℤ) := congrArg _ (Nat.div_add_mod' n d)
    push_cast at hdivision ⊢
    linarith
  simp only [roundHalfEven]
  split
  · rw [hrest, abs_of_nonneg (Int.natCast_nonneg _)]
    omega
  · have hnext : (n : ℤ) - (n / d + 1 : Nat) * d = (n % d : Nat) - d := by
      rw [← hrest]
      push_cast
      ring
    rw [hnext, abs_of_nonpos (by omega)]
    omega

theorem roundHalfEven_bounds (n d : Nat) :
    n / d ≤ roundHalfEven n d ∧ roundHalfEven n d ≤ n / d + 1 := by
  simp only [roundHalfEven]
  split <;> omega

/-- A multiple of `d` at most half of `d` away is a nearest one. -/
theorem dist_of_near {n d r : ℤ} (hnear : 2 * |n - r * d| ≤ d) (k : ℤ) :
    |n - r * d| ≤ |n - k * d| ∧ (k ≠ r → |n - k * d| = |n - r * d| → 2 * |n - r * d| = d) := by
  have hd : 0 ≤ d := by
    have := abs_nonneg (n - r * d)
    linarith
  rcases eq_or_ne k r with rfl | hne
  · exact ⟨le_rfl, fun hk => absurd rfl hk⟩
  · have hapart : d ≤ |(k - r) * d| := by
      rw [abs_mul, abs_of_nonneg hd]
      exact le_mul_of_one_le_left hd (Int.one_le_abs (sub_ne_zero.mpr hne))
    have htriangle : |(k - r) * d| ≤ |n - r * d| + |n - k * d| := by
      have hsplit : (k - r) * d = (n - r * d) - (n - k * d) := by ring
      rw [hsplit]
      exact abs_sub _ _
    exact ⟨by linarith, fun _ htie => by linarith⟩

/-! Rounding to a magnitude. -/

/-- No magnitude is nearer to `u` units, and if another is as near then this one is even. -/
structure Nearest (u : ℚ) (magnitude : Nat) : Prop where
  nearest : ∀ m, |u - unitsOf magnitude| ≤ |u - unitsOf m|
  even : ∀ m, m ≠ magnitude → |u - unitsOf m| = |u - unitsOf magnitude| → magnitude % 2 = 0

theorem abs_div_sub (n k : Nat) {d : Nat} (hd : 0 < d) :
    |(n : ℚ) / d - k| = (|(n : ℤ) - k * d| : ℤ) / d := by
  have hpos : (0 : ℚ) < d := Nat.cast_pos.mpr hd
  rw [div_sub' hpos.ne', abs_div, abs_of_pos hpos]
  push_cast
  rw [mul_comm (d : ℚ)]

/-- The scale on which a quotient is rounded holds it. -/
theorem scaled_bounds (n d : Nat) :
    let scale := (n / d).log2 - 52
    (scale = 0 ∨ 2 ^ 52 ≤ n / (d * 2 ^ scale)) ∧ n / (d * 2 ^ scale) < 2 ^ 53 := by
  intro scale
  rw [← Nat.div_div_eq_div_mul]
  constructor
  · by_cases hscale : scale = 0
    · exact .inl hscale
    · have hne : n / d ≠ 0 := by
        intro hzero
        simp [scale, hzero] at hscale
      have hlog : 52 + scale = (n / d).log2 := by omega
      rw [Nat.le_div_iff_mul_le (by positivity), ← Nat.pow_add, hlog]
      exact .inr (Nat.log2_self_le hne)
  · rw [Nat.div_lt_iff_lt_mul (by positivity), ← Nat.pow_add]
    exact Nat.lt_of_lt_of_le Nat.lt_log2_self (Nat.pow_le_pow_right (by decide) (by omega))

section Scaled

variable {n d scale r : Nat} (hd : 0 < d) (hlow : scale = 0 ∨ 2 ^ 52 ≤ n / (d * 2 ^ scale))

include hd hlow

/-- A magnitude below the scale is farther away than the first one on it. -/
theorem dist_below {m : Nat} (hm : ¬(scale = 0 ∨ (scale + 1) * 2 ^ 52 ≤ m)) :
    |(n : ℤ) - (2 ^ 52 : Nat) * (d * 2 ^ scale : Nat)| < |(n : ℤ) - unitsOf m * d| := by
  obtain ⟨hscale, hm⟩ := not_or.mp hm
  have hfirst : unitsOf (scale * 2 ^ 52 + 2 ^ 52) = 2 ^ 52 * 2 ^ scale :=
    unitsOf_scaled (.inr le_rfl) (by decide)
  have hunits : unitsOf m < 2 ^ 52 * 2 ^ scale := by
    rw [← hfirst]
    exact strictMono_unitsOf (by omega)
  have hbelow : unitsOf m * d < 2 ^ 52 * (d * 2 ^ scale) := by
    rw [Nat.mul_comm d, ← Nat.mul_assoc]
    exact Nat.mul_lt_mul_of_pos_right hunits hd
  have habove : 2 ^ 52 * (d * 2 ^ scale) ≤ n :=
    (Nat.le_div_iff_mul_le (by positivity)).mp (hlow.resolve_left hscale)
  zify at hbelow habove
  push_cast
  rw [abs_of_nonneg (by linarith), abs_of_nonneg (by linarith)]
  linarith

/-- A magnitude on the scale or above it stands for a multiple of the step. -/
theorem dist_scaled (hhigh : r ≤ 2 ^ 53) (hr : scale = 0 ∨ 2 ^ 52 ≤ r)
    (hnear : 2 * |(n : ℤ) - r * (d * 2 ^ scale : Nat)| ≤ (d * 2 ^ scale : Nat)) (m : Nat) :
    |(n : ℤ) - unitsOf (scale * 2 ^ 52 + r) * d| ≤ |(n : ℤ) - unitsOf m * d| ∧
      (m ≠ scale * 2 ^ 52 + r →
        |(n : ℤ) - unitsOf m * d| = |(n : ℤ) - unitsOf (scale * 2 ^ 52 + r) * d| →
        2 * |(n : ℤ) - r * (d * 2 ^ scale : Nat)| = (d * 2 ^ scale : Nat)) := by
  have hmultiple (k : Nat) : ((k * 2 ^ scale : Nat) : ℤ) * d = k * (d * 2 ^ scale : Nat) := by
    push_cast
    ring
  have hunits := unitsOf_scaled hr hhigh
  rw [hunits, hmultiple]
  by_cases hm : scale = 0 ∨ (scale + 1) * 2 ^ 52 ≤ m
  · obtain ⟨k, hk⟩ := unitsOf_multiple hm
    obtain ⟨hle, htie⟩ := dist_of_near hnear k
    rw [hk, hmultiple]
    refine ⟨hle, fun hne => htie fun hkr => hne ?_⟩
    obtain rfl : k = r := Int.ofNat_inj.mp hkr
    exact strictMono_unitsOf.injective (hk.trans hunits.symm)
  · have hfar := dist_below hd hlow hm
    have hle := (dist_of_near hnear (2 ^ 52 : Nat)).1
    exact ⟨(hle.trans_lt hfar).le, fun _ htie => absurd htie (hle.trans_lt hfar).ne'⟩

end Scaled

theorem nearest_nearestMagnitude (n : Nat) {d : Nat} (hd : 0 < d) :
    Nearest ((n : ℚ) / d) (nearestMagnitude n d) := by
  obtain ⟨hlow, hhigh⟩ := scaled_bounds n d
  simp only [nearestMagnitude, Nat.pow_eq]
  generalize (n / d).log2 - 52 = scale at hlow hhigh
  obtain ⟨hnear, heven⟩ := roundHalfEven_near n (by positivity : 0 < d * 2 ^ scale)
  obtain ⟨hfloor, hceil⟩ := roundHalfEven_bounds n (d * 2 ^ scale)
  generalize roundHalfEven n (d * 2 ^ scale) = r at hnear heven hfloor hceil
  have hdist := dist_scaled hd hlow (by omega) (by omega) hnear
  have hpos : (0 : ℚ) < d := Nat.cast_pos.mpr hd
  constructor
  · intro m
    rw [abs_div_sub n _ hd, abs_div_sub n _ hd, div_le_div_iff_of_pos_right hpos]
    exact_mod_cast (hdist m).1
  · intro m hne htie
    rw [abs_div_sub n _ hd, abs_div_sub n _ hd, div_left_inj' hpos.ne'] at htie
    have hr := heven ((hdist m).2 hne (by exact_mod_cast htie))
    omega

/-- Between two even magnitudes that are equally near there would be a nearer one. -/
theorem Nearest.unique {u : ℚ} {first second : Nat} (hfirst : Nearest u first)
    (hsecond : Nearest u second) : first = second := by
  by_contra hne
  wlog hlt : first < second generalizing first second
  · exact this hsecond hfirst (Ne.symm hne) (by omega)
  have hdist := le_antisymm (hfirst.nearest second) (hsecond.nearest first)
  have hevenFirst := hfirst.even second (Ne.symm hne) hdist.symm
  have hevenSecond := hsecond.even first hne hdist
  have hnear := hfirst.nearest (first + 1)
  have hleft : (unitsOf first : ℚ) < unitsOf (first + 1) := by
    exact_mod_cast strictMono_unitsOf (Nat.lt_succ_self first)
  have hright : (unitsOf (first + 1) : ℚ) < unitsOf second := by
    exact_mod_cast strictMono_unitsOf (by omega : first + 1 < second)
  rcases abs_eq_abs.mp hdist with hsame | hopposite
  · linarith
  · have hnearer : |u - unitsOf (first + 1)| < u - unitsOf first :=
      abs_lt.mpr ⟨by linarith, by linarith⟩
    rw [abs_of_nonneg (by linarith : 0 ≤ u - unitsOf first)] at hnear
    linarith

theorem nearest_unitsOf (magnitude : Nat) : Nearest (unitsOf magnitude) magnitude := by
  constructor
  · intro m
    rw [sub_self, abs_zero]
    exact abs_nonneg _
  · intro m hne htie
    rw [sub_self, abs_zero, abs_eq_zero, sub_eq_zero] at htie
    exact absurd (strictMono_unitsOf.injective (Nat.cast_injective htie.symm)) hne

theorem Nearest.eq_zero {magnitude : Nat} (hnearest : Nearest 0 magnitude) : magnitude = 0 := by
  apply hnearest.unique
  exact_mod_cast nearest_unitsOf 0

/-! Doubles as rational numbers. -/

def value (x : Binary64) : ℚ :=
  (if x.isNegative then -1 else 1) * (x.units / 2 ^ 1074)

/-- The finite double that `q` is rounded to. From half a step above the largest one on there is
none. -/
structure RoundsTo (q : ℚ) (x : Binary64) : Prop where
  finite : x.isFinite
  inRange : |q| < 2 ^ 1024 - 2 ^ 970
  nearest : ∀ y : Binary64, y.isFinite → |q - x.value| ≤ |q - y.value|
  even : ∀ y : Binary64, y.isFinite → y.value ≠ x.value → |q - y.value| = |q - x.value| →
    x.magnitude % 2 = 0

/-- What is nearest to a finite magnitude stays below the middle between the largest one and
infinity, since the largest one is odd. -/
theorem Nearest.lt_middle {u : ℚ} {magnitude : Nat} (hnearest : Nearest u magnitude)
    (hfinite : magnitude < infinity) : 2 * u < unitsOf (infinity - 1) + unitsOf infinity := by
  have hdist := hnearest.nearest infinity
  have heven := hnearest.even infinity hfinite.ne'
  have hlast : (unitsOf magnitude : ℚ) ≤ unitsOf (infinity - 1) := by
    exact_mod_cast strictMono_unitsOf.monotone (by omega : magnitude ≤ infinity - 1)
  have hgap : (unitsOf (infinity - 1) : ℚ) < unitsOf infinity := by
    exact_mod_cast strictMono_unitsOf (by decide : infinity - 1 < infinity)
  by_contra hge
  rw [abs_of_nonneg (by linarith : 0 ≤ u - unitsOf magnitude)] at hdist heven
  rcases le_total (unitsOf infinity : ℚ) u with habove | hbelow
  · rw [abs_of_nonneg (by linarith)] at hdist
    linarith
  · rw [abs_of_nonpos (by linarith)] at hdist heven
    have hunits : (unitsOf magnitude : ℚ) = unitsOf (infinity - 1) := by linarith
    have hmagnitude := strictMono_unitsOf.injective (Nat.cast_injective hunits)
    have hlastEven := heven (by linarith)
    rw [hmagnitude] at hlastEven
    exact absurd hlastEven (by decide)

theorem unitsOf_middle :
    unitsOf (infinity - 1) + unitsOf infinity + 2 * 2 ^ 2044 = 2 * (2 ^ 54 * 2 ^ 2044) := by
  have hlast : infinity - 1 = (2045 + 1) * 2 ^ 52 + (2 ^ 52 - 1) := by decide
  have hinfinity : infinity = (2046 + 1) * 2 ^ 52 + 0 := by decide
  rw [hlast, unitsOf_normal 2045 (by decide), hinfinity, unitsOf_normal 2046 (by decide),
    pow_succ 2 2045, pow_succ 2 2044]
  omega

theorem middle_eq :
    ((unitsOf (infinity - 1) : ℚ) + unitsOf infinity) = 2 * ((2 ^ 1024 - 2 ^ 970) * 2 ^ 1074) := by
  have hmiddle := congrArg (Nat.cast : Nat → ℚ) unitsOf_middle
  have hstep : (2 : ℚ) ^ 2044 = 2 ^ 970 * 2 ^ 1074 := pow_add 2 970 1074
  have htop : (2 : ℚ) ^ 1024 = 2 ^ 54 * 2 ^ 970 := pow_add 2 54 970
  simp only [Nat.cast_add, Nat.cast_mul, Nat.cast_pow, Nat.cast_ofNat] at hmiddle
  rw [htop]
  rw [hstep] at hmiddle
  generalize (2 : ℚ) ^ 970 = step, (2 : ℚ) ^ 1074 = scale at hmiddle
  linarith

theorem abs_value (x : Binary64) : |x.value| = unitsOf x.magnitude / 2 ^ 1074 := by
  rw [value, abs_mul, units_eq, abs_of_nonneg (by positivity : (0 : ℚ) ≤ _ / _)]
  split <;> simp

theorem dist_abs (q : ℚ) (x : Binary64) :
    |(|q| - |x.value|)| = |(|q| * 2 ^ 1074 - unitsOf x.magnitude)| / 2 ^ 1074 := by
  have hscale : (0 : ℚ) < 2 ^ 1074 := by positivity
  rw [abs_value, sub_div' hscale.ne', abs_div, abs_of_pos hscale]

/-- Whether a number may have the sign of a double, as zero may have either. -/
def SignAgrees (q : ℚ) (x : Binary64) : Prop :=
  if x.isNegative then q ≤ 0 else 0 ≤ q

theorem SignAgrees.dist {q : ℚ} {x : Binary64} (hsign : SignAgrees q x) :
    |q - x.value| = |(|q| - |x.value|)| := by
  have hnonneg : (0 : ℚ) ≤ x.units / 2 ^ 1074 := by positivity
  rw [abs_value, ← units_eq]
  unfold SignAgrees at hsign
  unfold value
  split at hsign
  · rename_i hnegative
    rw [if_pos hnegative, abs_of_nonpos hsign, neg_one_mul, sub_neg_eq_add, ← abs_neg, neg_add']
  · rename_i hnegative
    rw [if_neg hnegative, abs_of_nonneg hsign, one_mul]

theorem roundsTo_of_nearest {q : ℚ} {x : Binary64} (hfinite : x.isFinite)
    (hsign : SignAgrees q x) (hnearest : Nearest (|q| * 2 ^ 1074) x.magnitude) : RoundsTo q x := by
  have hscale : (0 : ℚ) < 2 ^ 1074 := by positivity
  have hdist (y : Binary64) : |q - x.value| ≤ |(|q| - |y.value|)| := by
    rw [hsign.dist, dist_abs, dist_abs, div_le_div_iff_of_pos_right hscale]
    exact hnearest.nearest y.magnitude
  refine ⟨hfinite, ?_, fun y _ => (hdist y).trans (abs_abs_sub_abs_le _ _), fun y _ hne htie => ?_⟩
  · have hmiddle := hnearest.lt_middle (by simpa [isFinite] using hfinite)
    rw [middle_eq, mul_lt_mul_iff_right₀ two_pos, mul_lt_mul_iff_left₀ hscale] at hmiddle
    exact hmiddle
  · have hequal : |(|q| - |y.value|)| = |q - x.value| :=
      le_antisymm (htie ▸ abs_abs_sub_abs_le q y.value) (hdist y)
    rcases eq_or_ne y.magnitude x.magnitude with hmagnitude | hmagnitude
    · have hopposite : y.value = -x.value := by
        apply (abs_eq_abs.mp _).resolve_left hne
        rw [abs_value, abs_value, hmagnitude]
      -- A number as near to a double as to its opposite is zero.
      rw [hopposite, sub_neg_eq_add] at htie
      rcases abs_eq_abs.mp htie with hsame | hzero
      · rw [hopposite] at hne
        exact absurd (by linarith) hne
      · obtain rfl : q = 0 := by linarith
        rw [abs_zero, zero_mul] at hnearest
        rw [hnearest.eq_zero]
    · apply hnearest.even y.magnitude hmagnitude
      rw [hsign.dist, dist_abs, dist_abs, div_left_inj' hscale.ne'] at hequal
      exact hequal

end ShaderChain.Binary64
