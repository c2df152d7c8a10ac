import ShaderChain.Number.Literal

/-! The form of float literals. -/

namespace ShaderChain

/-- Digits around one point, and possibly a sign. -/
inductive Numeral : List Char → Prop
  | mk (sign whole fraction : List Char) (hsign : sign = [] ∨ sign = ['-']) (hwhole : whole ≠ [])
      (hwholeDigits : ∀ c ∈ whole, c.isDigit) (hfraction : fraction ≠ [])
      (hfractionDigits : ∀ c ∈ fraction, c.isDigit) :
      Numeral (sign ++ (whole ++ '.' :: fraction))

namespace Decimal

theorem isDigit_of_mem_digits {n : Nat} {c : Char} (hc : c ∈ digits n) : c.isDigit :=
  Nat.isDigit_of_mem_toDigits (by decide) (by decide) hc

theorem mem_of_mem_dropFinalZeros {cs : List Char} {c : Char} (hc : c ∈ dropFinalZeros cs) :
    c ∈ cs := by
  unfold dropFinalZeros at hc
  rw [List.mem_reverse] at hc
  exact List.mem_reverse.mp ((List.dropWhile_sublist _).subset hc)

theorem isDigit_of_mem_fractionDigits {d : Decimal} {c : Char} (hc : c ∈ d.fractionDigits) :
    c.isDigit := by
  simp only [fractionDigits] at hc
  split at hc
  · simp at hc
  · have hmem := mem_of_mem_dropFinalZeros hc
    rw [List.mem_append] at hmem
    rcases hmem with hzero | hdigit
    · rw [List.eq_of_mem_replicate hzero]
      rfl
    · exact isDigit_of_mem_digits hdigit

theorem positional_parts (d : Decimal) :
    ∃ fraction, d.positional = d.wholeDigits ++ '.' :: fraction ∧ fraction ≠ [] ∧
      ∀ c ∈ fraction, c.isDigit := by
  by_cases hempty : d.fractionDigits.isEmpty
  · refine ⟨['0'], ?_, by simp, by simp⟩
    simp [positional, hempty]
  · refine ⟨d.fractionDigits, ?_, ?_, fun c => isDigit_of_mem_fractionDigits⟩
    · simp [positional, hempty]
    · simpa using hempty

end Decimal

namespace Binary64

theorem numeral_literal (x : Binary64) : Numeral x.literal.toList := by
  unfold literal
  rw [String.toList_ofList]
  by_cases hfinite : x.isFinite
  · obtain ⟨fraction, hparts, hne, hdigits⟩ := x.shortest.positional_parts
    have hwhole : x.shortest.wholeDigits ≠ [] := Nat.toDigits_ne_nil
    have hwholeDigits : ∀ c ∈ x.shortest.wholeDigits, c.isDigit :=
      fun c => Decimal.isDigit_of_mem_digits
    simp only [hfinite, if_true, signed, hparts]
    split
    · exact .mk ['-'] _ fraction (.inr rfl) hwhole hwholeDigits hne hdigits
    · exact .mk [] _ fraction (.inl rfl) hwhole hwholeDigits hne hdigits
  · simp only [hfinite]
    exact .mk [] ['0'] ['0'] (.inl rfl) (by simp) (by simp) (by simp) (by simp)

end Binary64

end ShaderChain
