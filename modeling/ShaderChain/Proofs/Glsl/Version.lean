import Mathlib.Data.List.Induction
import ShaderChain.Glsl.Options
import ShaderChain.Proofs.Json.Token
import ShaderChain.Proofs.Text.Trim

/-! The texts that are read as versions. White space around them, any number of `es` in front of
them, a plus sign and leading zeros are all that may stand beside the number itself. -/

namespace ShaderChain.Version

/-! What a text says, without regard to how it is read. -/

/-- The letters `es`, so many times. -/
def es (count : Nat) : List Char :=
  (List.replicate count ['e', 's']).flatten

/-- `rest` is what is left of a text when every `es` in front is taken away. -/
structure AfterEs (cs rest : List Char) : Prop where
  repeated : ∃ count, cs = es count ++ rest
  stops : ¬['e', 's'] <+: rest

/-- Digits behind a plus sign or none, and the number that they write. -/
inductive Unsigned : List Char → Nat → Prop
  | mk (sign digits : List Char) (hsign : sign = [] ∨ sign = ['+']) (hne : digits ≠ [])
      (hdigits : ∀ c ∈ digits, c.isDigit) :
      Unsigned (sign ++ digits) (Nat.ofDigitChars 10 digits 0)

/-- A spelling of a version: its number behind any number of `es`, a plus sign or none and any
number of zeros. -/
inductive Spells (version : Version) : List Char → Prop
  | mk (count : Nat) (sign : List Char) (zeros : Nat) (hsign : sign = [] ∨ sign = ['+']) :
      Spells version (es count ++
        (sign ++ (List.replicate zeros '0' ++ Decimal.digits version.number)))

/-! Leading `es`. -/

theorem es_succ (count : Nat) (rest : List Char) :
    es (count + 1) ++ rest = 'e' :: 's' :: (es count ++ rest) := by
  simp [es, List.replicate_succ]

theorem dropEs_es (count : Nat) (rest : List Char) : dropEs (es count ++ rest) = dropEs rest := by
  induction count with
  | zero => rfl
  | succ count ih => rw [es_succ, dropEs, ih]

theorem dropEs_of_not_isPrefix {rest : List Char} (hstops : ¬['e', 's'] <+: rest) :
    dropEs rest = rest := by
  unfold dropEs
  split
  · rename_i more
    exact absurd ⟨more, rfl⟩ hstops
  · rfl

theorem afterEs_dropEs (cs : List Char) : AfterEs cs (dropEs cs) := by
  fun_induction dropEs cs with
  | case1 rest ih =>
      obtain ⟨⟨count, hcount⟩, hstops⟩ := ih
      refine ⟨⟨count + 1, ?_⟩, hstops⟩
      rw [es_succ, ← hcount]
  | case2 cs hother =>
      refine ⟨⟨0, rfl⟩, ?_⟩
      rintro ⟨rest, rfl⟩
      exact hother rest rfl

theorem afterEs_iff {cs rest : List Char} : AfterEs cs rest ↔ rest = dropEs cs := by
  constructor
  · rintro ⟨⟨count, rfl⟩, hstops⟩
    rw [dropEs_es, dropEs_of_not_isPrefix hstops]
  · rintro rfl
    exact afterEs_dropEs cs

/-! Numbers. A text without a plus sign in front counts as one with an empty sign. -/

theorem exists_sign (cs : List Char) :
    ∃ sign ds, (sign = [] ∧ ds.head? ≠ some '+' ∨ sign = ['+']) ∧ cs = sign ++ ds := by
  by_cases hplus : cs.head? = some '+'
  · obtain ⟨rest, rfl⟩ := List.head?_eq_some_iff.mp hplus
    exact ⟨['+'], rest, .inr rfl, rfl⟩
  · exact ⟨[], cs, .inl ⟨rfl, hplus⟩, rfl⟩

theorem word?_of_sign {sign ds : List Char}
    (hsign : sign = [] ∧ ds.head? ≠ some '+' ∨ sign = ['+']) {n : Nat} :
    word? (sign ++ ds) = some n ↔
      ds ≠ [] ∧ (∀ c ∈ ds, c.isDigit) ∧ Nat.ofDigitChars 10 ds 0 = n ∧ n < 2 ^ 32 := by
  have hvalue : ds.foldl (fun n c => n * 10 + (c.toNat - '0'.toNat)) 0 =
      Nat.ofDigitChars 10 ds 0 := Json.Token.natOf_eq ds
  have hbare : word? (sign ++ ds) =
      let n := ds.foldl (fun n c => n * 10 + (c.toNat - '0'.toNat)) 0
      if !ds.isEmpty && ds.all Char.isDigit && n < Nat.pow 2 32 then some n else none := by
    rcases hsign with ⟨rfl, hfirst⟩ | rfl
    · unfold word?
      split
      · rename_i rest hds
        rw [List.nil_append] at hds
        exact absurd (congrArg List.head? hds) hfirst
      · rfl
    · rfl
  rw [hbare, hvalue]
  simp only [Option.ite_none_right_eq_some, Bool.and_eq_true, Bool.not_eq_true',
    List.isEmpty_eq_false_iff, List.all_eq_true, decide_eq_true_eq, Option.some.injEq, Nat.pow_eq]
  constructor
  · rintro ⟨⟨⟨hne, hdigits⟩, hbound⟩, rfl⟩
    exact ⟨hne, hdigits, rfl, hbound⟩
  · rintro ⟨hne, hdigits, rfl, hbound⟩
    exact ⟨⟨⟨hne, hdigits⟩, hbound⟩, rfl⟩

theorem word?_eq_some_iff {cs : List Char} {n : Nat} :
    word? cs = some n ↔ Unsigned cs n ∧ n < 2 ^ 32 := by
  constructor
  · intro hword
    obtain ⟨sign, ds, hsign, rfl⟩ := exists_sign cs
    obtain ⟨hne, hdigits, rfl, hbound⟩ := (word?_of_sign hsign).mp hword
    exact ⟨.mk sign ds (hsign.imp_left And.left) hne hdigits, hbound⟩
  · rintro ⟨⟨sign, ds, hsign, hne, hdigits⟩, hbound⟩
    have hfirst : ds.head? ≠ some '+' := fun hplus =>
      absurd (hdigits '+' (List.mem_of_head? hplus)) (by decide)
    exact (word?_of_sign (hsign.imp_left fun hempty => ⟨hempty, hfirst⟩)).mpr
      ⟨hne, hdigits, rfl, hbound⟩

theorem exists_digitChar {c : Char} (hc : c.isDigit) : ∃ v < 10, c = v.digitChar := by
  have hall : ∀ v : Fin 10, Char.ofNat (48 + v.val) = v.val.digitChar := by decide
  obtain ⟨hlow, hhigh⟩ : 48 ≤ c.toNat ∧ c.toNat ≤ 57 := Char.isDigit_iff_toNat.mp hc
  refine ⟨c.toNat - 48, by omega, ?_⟩
  rw [← hall ⟨c.toNat - 48, by omega⟩, Nat.add_sub_cancel' hlow, Char.ofNat_toNat]

/-- Digits are zeros and then those of their number. -/
theorem exists_leading_zeros {ds : List Char} (hne : ds ≠ []) (hds : ∀ c ∈ ds, c.isDigit) :
    ∃ zeros, ds = List.replicate zeros '0' ++ Decimal.digits (Nat.ofDigitChars 10 ds 0) := by
  induction ds using List.reverseRecOn with
  | nil => exact absurd rfl hne
  | append_singleton ds d ih =>
      obtain ⟨v, hv, rfl⟩ := exists_digitChar (hds d (by simp))
      have hlast : Decimal.digits v = [v.digitChar] := Nat.toDigits_of_lt_base hv
      rw [Nat.ofDigitChars_append, Nat.ofDigitChars_cons_digitChar_of_lt_ten hv,
        Nat.ofDigitChars_nil]
      by_cases hempty : ds = []
      · subst hempty
        exact ⟨0, by simp [hlast]⟩
      · obtain ⟨zeros, hzeros⟩ := ih hempty fun c hc => hds c (by simp [hc])
        generalize Nat.ofDigitChars 10 ds 0 = n at hzeros
        subst hzeros
        rcases Nat.eq_zero_or_pos n with rfl | hpos
        · -- What is in front of the last digit is zero, and so one more zero.
          refine ⟨zeros + 1, ?_⟩
          rw [Nat.mul_zero, Nat.zero_add, hlast, List.replicate_succ']
          rfl
        · refine ⟨zeros, ?_⟩
          rw [List.append_assoc, ← hlast, Decimal.digits, Decimal.digits, Decimal.digits,
            Nat.toDigits_append_toDigits (by decide) hpos hv]

theorem unsigned_iff {cs : List Char} {n : Nat} :
    Unsigned cs n ↔ ∃ sign zeros, (sign = [] ∨ sign = ['+']) ∧
      cs = sign ++ (List.replicate zeros '0' ++ Decimal.digits n) := by
  constructor
  · rintro ⟨sign, ds, hsign, hne, hdigits⟩
    obtain ⟨zeros, hzeros⟩ := exists_leading_zeros hne hdigits
    exact ⟨sign, zeros, hsign, congrArg (sign ++ ·) hzeros⟩
  · rintro ⟨sign, zeros, hsign, rfl⟩
    have hvalue : Nat.ofDigitChars 10 (List.replicate zeros '0' ++ Decimal.digits n) 0 = n := by
      rw [Nat.ofDigitChars_append, Nat.ofDigitChars_replicate_zero, Nat.mul_zero, Decimal.digits,
        Nat.ofDigitChars_ten_toDigits]
    have hunsigned := Unsigned.mk sign (List.replicate zeros '0' ++ Decimal.digits n) hsign
      (by simp [Decimal.digits]) ?_
    · rwa [hvalue] at hunsigned
    · intro c hc
      rcases List.mem_append.mp hc with hzero | hdigit
      · rw [List.eq_of_mem_replicate hzero]
        rfl
      · exact Decimal.isDigit_of_mem_digits hdigit

theorem Unsigned.not_isPrefix {cs : List Char} {n : Nat} (hcs : Unsigned cs n) :
    ¬['e', 's'] <+: cs := by
  obtain ⟨sign, ds, hsign, hne, hdigits⟩ := hcs
  rintro ⟨rest, hrest⟩
  rcases hsign with rfl | rfl
  · have hmem : 'e' ∈ [] ++ ds := by simp [← hrest]
    exact absurd (hdigits 'e' hmem) (by decide)
  · exact absurd (List.cons.inj hrest).1 (by decide)

/-! Versions. -/

theorem spells_iff {version : Version} {core rest : List Char} (hrest : AfterEs core rest) :
    Spells version core ↔ Unsigned rest version.number := by
  constructor
  · rintro ⟨count, sign, zeros, hsign⟩
    have hnumber : Unsigned _ version.number := unsigned_iff.mpr ⟨sign, zeros, hsign, rfl⟩
    have hafter : AfterEs (es count ++ _) _ := ⟨⟨count, rfl⟩, hnumber.not_isPrefix⟩
    rwa [afterEs_iff.mp hrest, ← afterEs_iff.mp hafter]
  · intro hnumber
    obtain ⟨sign, zeros, hsign, rfl⟩ := unsigned_iff.mp hnumber
    obtain ⟨count, rfl⟩ := hrest.repeated
    exact .mk count sign zeros hsign

theorem ofNumber_eq_ok {n : Nat} {version : Version} :
    ofNumber n = .ok version ↔ n = version.number := by
  constructor
  · unfold ofNumber
    split <;> intro h <;> cases h <;> rfl
  · rintro rfl
    exact ofNumber_number version

theorem ofNumber_of_ne {n : Nat} (hn : ∀ version : Version, n ≠ version.number) :
    ofNumber n = .error (.unsupportedVersion n) := by
  unfold ofNumber
  split
  · exact absurd rfl (hn .es100)
  · exact absurd rfl (hn .es300)
  · rfl

theorem number_lt (version : Version) : version.number < 2 ^ 32 := by
  cases version <;> decide

theorem parse_eq_ok {text : String} {version : Version} :
    parse text = .ok version ↔ Unsigned (dropEs (Text.trim text.toList)) version.number := by
  have hword : parse text = .ok version ↔
      word? (dropEs (Text.trim text.toList)) = some version.number := by
    unfold parse
    cases word? (dropEs (Text.trim text.toList)) with
    | none => simp
    | some n => simp [ofNumber_eq_ok]
  rw [hword, word?_eq_some_iff, and_iff_left version.number_lt]

/-- The number that is reported when no version has it: that of the text, if there is one below
`2 ^ 32`, and zero otherwise. -/
inductive Reported (rest : List Char) : Nat → Prop
  | number (n : Nat) (hn : Unsigned rest n) (hbound : n < 2 ^ 32) : Reported rest n
  | zero (hother : ∀ n, Unsigned rest n → 2 ^ 32 ≤ n) : Reported rest 0

theorem reported_iff {rest : List Char} {n : Nat} :
    Reported rest n ↔ n = (word? rest).getD 0 := by
  constructor
  · intro hn
    cases hn with
    | number n hn hbound => rw [word?_eq_some_iff.mpr ⟨hn, hbound⟩, Option.getD_some]
    | zero hother =>
        have hnone : word? rest = none := by
          rw [Option.eq_none_iff_forall_ne_some]
          intro n hn
          obtain ⟨hnumber, hbound⟩ := word?_eq_some_iff.mp hn
          exact absurd hbound (Nat.not_lt_of_le (hother n hnumber))
        rw [hnone, Option.getD_none]
  · rintro rfl
    cases hword : word? rest with
    | some n =>
        obtain ⟨hn, hbound⟩ := word?_eq_some_iff.mp hword
        exact .number n hn hbound
    | none =>
        refine .zero fun n hn => Nat.le_of_not_lt fun hbound => ?_
        rw [word?_eq_some_iff.mpr ⟨hn, hbound⟩] at hword
        cases hword

theorem parse_of_no_version {text : String}
    (hnone : ∀ version : Version, ¬Unsigned (dropEs (Text.trim text.toList)) version.number) :
    parse text =
      .error (.unsupportedVersion ((word? (dropEs (Text.trim text.toList))).getD 0)) := by
  unfold parse
  cases hword : word? (dropEs (Text.trim text.toList)) with
  | none => rfl
  | some n =>
      apply ofNumber_of_ne
      rintro version rfl
      exact hnone version (word?_eq_some_iff.mp hword).1

theorem parse_eq_error {text : String} {e : OptionsError} :
    parse text = .error e ↔
      (∀ version : Version, ¬Unsigned (dropEs (Text.trim text.toList)) version.number) ∧
        ∃ n, Reported (dropEs (Text.trim text.toList)) n ∧ e = .unsupportedVersion n := by
  constructor
  · intro herror
    have hnone : ∀ version : Version,
        ¬Unsigned (dropEs (Text.trim text.toList)) version.number := by
      intro version hversion
      rw [parse_eq_ok.mpr hversion] at herror
      cases herror
    rw [parse_of_no_version hnone] at herror
    cases herror
    exact ⟨hnone, _, reported_iff.mpr rfl, rfl⟩
  · rintro ⟨hnone, n, hn, rfl⟩
    rw [parse_of_no_version hnone, reported_iff.mp hn]

/-- A text without the white space at its ends is read as a version exactly if it spells that
version. Any other text is refused with the number that it has behind every `es`, however many
digits write it, as long as that number is below `2 ^ 32`. -/
theorem parse_accepts_spellings (text : String) :
    ∃ core rest,
      (∀ other, Text.Trims text.toList other ↔ other = core) ∧
      (∀ other, AfterEs core other ↔ other = rest) ∧
      (∀ version, parse text = .ok version ↔ Spells version core) ∧
      ∀ e, parse text = .error e ↔
        (∀ version, ¬Spells version core) ∧ ∃ n, Reported rest n ∧ e = .unsupportedVersion n := by
  have hspells : ∀ version, Spells version (Text.trim text.toList) ↔
      Unsigned (dropEs (Text.trim text.toList)) version.number :=
    fun version => spells_iff (afterEs_dropEs _)
  refine ⟨Text.trim text.toList, dropEs (Text.trim text.toList), fun other => Text.trims_iff,
    fun other => afterEs_iff, fun version => ?_, fun e => ?_⟩
  · rw [parse_eq_ok, hspells]
  · simp only [parse_eq_error, hspells]

example : parse " eses+000300\u2028" = .ok .es300 := by decide

example : parse "es4294967596" = .error (.unsupportedVersion 0) := by decide

end ShaderChain.Version
