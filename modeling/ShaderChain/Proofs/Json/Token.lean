import Mathlib.Data.List.TakeDrop
import ShaderChain.Proofs.Json.Sound

/-! A text for each token of JSON, and that it is scanned as this token. -/

namespace ShaderChain.Json.Token

/-! Writing. -/

def escaped (c : Char) : List Char :=
  if c = '"' then ['\\', '"']
  else if c = '\\' then ['\\', '\\']
  else if c.toNat < 0x20 then
    ['\\', 'u', '0', '0', Nat.digitChar (c.toNat / 16), Nat.digitChar (c.toNat % 16)]
  else [c]

/-- A number or string without a value has a text too: `1e999` and half of a surrogate pair. -/
def text : Token → List Char
  | .openArray => ['[']
  | .closeArray => [']']
  | .openObject => ['\x7b']
  | .closeObject => ['\x7d']
  | .comma => [',']
  | .colon => [':']
  | .null => ['n', 'u', 'l', 'l']
  | .bool true => ['t', 'r', 'u', 'e']
  | .bool false => ['f', 'a', 'l', 's', 'e']
  | .number none => ['1', 'e', '9', '9', '9']
  | .number (some (.natural n)) => Decimal.digits n
  | .number (some (.real x)) => x.literal.toList
  | .string none => ['"', '\\', 'u', 'D', '8', '0', '0', '"']
  | .string (some s) => '"' :: (s.toList.flatMap escaped ++ ['"'])

/-! Strings. -/

theorem hexDigit?_digitChar {n : Nat} (hn : n < 16) : hexDigit? n.digitChar = some n := by
  have hall : ∀ n : Fin 16, hexDigit? n.val.digitChar = some n.val := by decide
  exact hall ⟨n, hn⟩

theorem stringUnits_escaped (seen : List Nat) (c : Char) (rest : List Char) :
    stringUnits seen (escaped c ++ rest) = stringUnits (c.toNat :: seen) rest := by
  unfold escaped
  split
  · rename_i hc
    subst hc
    rfl
  · split
    · rename_i hc
      subst hc
      rfl
    · split
      · rename_i hcontrol
        have hhigh : hexDigit? (c.toNat / 16).digitChar = some (c.toNat / 16) :=
          hexDigit?_digitChar (by omega)
        have hlow : hexDigit? (c.toNat % 16).digitChar = some (c.toNat % 16) :=
          hexDigit?_digitChar (by omega)
        have hzero : hexDigit? '0' = some 0 := by decide
        have hunit : ((0 * 16 + 0) * 16 + c.toNat / 16) * 16 + c.toNat % 16 = c.toNat := by omega
        simp only [List.cons_append, List.nil_append]
        rw [stringUnits, hzero, hhigh, hlow]
        simp only [hunit]
      · rename_i hquote hbackslash hcontrol
        rw [List.singleton_append, stringUnits, if_neg hcontrol]
        · exact hquote
        · exact fun _ _ _ _ _ hc _ => hbackslash hc
        · exact fun _ _ hc _ => hbackslash hc

theorem stringUnits_flatMap (seen : List Nat) (cs rest : List Char) :
    stringUnits seen (cs.flatMap escaped ++ '"' :: rest) =
      some (seen.reverse ++ cs.map Char.toNat, rest) := by
  induction cs generalizing seen with
  | nil => simp [stringUnits]
  | cons c cs ih =>
      rw [List.flatMap_cons, List.append_assoc, stringUnits_escaped, ih, List.reverse_cons,
        List.append_assoc, List.map_cons, List.singleton_append]

theorem not_surrogate (c : Char) :
    isHighSurrogate c.toNat = false ∧ isLowSurrogate c.toNat = false := by
  have hvalid := c.valid
  simp only [UInt32.isValidChar, Nat.isValidChar] at hvalid
  simp only [isHighSurrogate, isLowSurrogate, Char.toNat, Bool.and_eq_false_iff,
    decide_eq_false_iff_not]
  omega

theorem joinUnits_toNat (seen cs : List Char) :
    joinUnits seen (cs.map Char.toNat) = some (seen.reverse ++ cs) := by
  induction cs generalizing seen with
  | nil => rw [List.map_nil, joinUnits, List.append_nil]
  | cons c cs ih =>
      obtain ⟨hhigh, hlow⟩ := not_surrogate c
      cases cs with
      | nil =>
          rw [List.map_cons, List.map_nil, joinUnits, hhigh, hlow, Char.ofNat_toNat]
          simp
      | cons d cs =>
          have hrest := ih (c :: seen)
          rw [List.map_cons] at hrest
          rw [List.map_cons, List.map_cons, joinUnits, hhigh, hlow, Char.ofNat_toNat]
          simpa using hrest

theorem scan?_quoted (s : String) (rest : List Char) :
    scan? ('"' :: (s.toList.flatMap escaped ++ '"' :: rest)) = some (.string (some s), rest) := by
  have hscan : scan? ('"' :: (s.toList.flatMap escaped ++ '"' :: rest)) =
      (stringUnits [] (s.toList.flatMap escaped ++ '"' :: rest)).bind fun found =>
        some (.string ((joinUnits [] found.1).map String.ofList), found.2) := rfl
  rw [hscan, stringUnits_flatMap, Option.bind_some, List.reverse_nil, List.nil_append,
    joinUnits_toNat, List.reverse_nil, List.nil_append, Option.map_some, String.ofList_toList]

/-! Numbers. A blank behind them is no part of them. -/

theorem natOf_eq (ds : List Char) : natOf ds = Nat.ofDigitChars 10 ds 0 := by
  rw [natOf, Nat.ofDigitChars]
  congr
  funext n c
  rw [Nat.mul_comm]

theorem digits?_append {ds : List Char} (hne : ds ≠ []) (hds : ∀ c ∈ ds, c.isDigit) {c : Char}
    (hc : c.isDigit = false) (rest : List Char) :
    digits? (ds ++ c :: rest) = some (ds, c :: rest) := by
  have hspan : (ds ++ c :: rest).span Char.isDigit = (ds, c :: rest) := by
    rw [List.span_eq_takeWhile_dropWhile, List.takeWhile_append_of_pos hds,
      List.dropWhile_append_of_pos hds, List.takeWhile_cons_of_neg (by simp [hc]),
      List.dropWhile_cons_of_neg (by simp [hc]), List.append_nil]
  obtain ⟨first, more, rfl⟩ := List.exists_cons_of_ne_nil hne
  rw [digits?, hspan]

theorem head_digits {n : Nat} (hn : n ≠ 0) : ∃ c rest, Decimal.digits n = c :: rest ∧ c ≠ '0' := by
  induction n using Nat.strongRecOn with
  | ind n ih =>
      rcases Nat.lt_or_ge n 10 with hsmall | hlarge
      · have hall : ∀ n : Fin 10, n.val ≠ 0 → n.val.digitChar ≠ '0' := by decide
        exact ⟨n.digitChar, [], Nat.toDigits_of_lt_base hsmall, hall ⟨n, hsmall⟩ hn⟩
      · obtain ⟨c, rest, hdigits, hc⟩ := ih (n / 10) (by omega) (by omega)
        refine ⟨c, rest ++ [(n % 10).digitChar], ?_, hc⟩
        rw [Decimal.digits, Nat.toDigits_of_base_le (by decide) hlarge, ← Decimal.digits, hdigits,
          List.cons_append]

theorem wholeDigits?_digits (n : Nat) {c : Char} (hc : c.isDigit = false) (rest : List Char) :
    wholeDigits? (Decimal.digits n ++ c :: rest) = some (Decimal.digits n, c :: rest) := by
  rcases Nat.eq_zero_or_pos n with rfl | hn
  · rfl
  · obtain ⟨first, more, hdigits, hfirst⟩ := head_digits hn.ne'
    have hread : digits? (Decimal.digits n ++ c :: rest) = some (Decimal.digits n, c :: rest) :=
      digits?_append Nat.toDigits_ne_nil (fun c => Decimal.isDigit_of_mem_digits) hc rest
    rw [hdigits, List.cons_append] at hread
    rw [hdigits, List.cons_append, wholeDigits?, hread]
    exact fun _ h => hfirst (List.cons.inj h).1

theorem unsignedNumber?_of_parts {negative : Bool} {cs afterWhole afterFraction rest : List Char}
    {whole fraction : List Char} {exponent : Option Int}
    (hwhole : wholeDigits? cs = some (whole, afterWhole))
    (hfraction : fraction? afterWhole = some (fraction, afterFraction))
    (hexponent : exponent? afterFraction = some (exponent, rest)) :
    unsignedNumber? negative cs =
      some (.number (numberOf negative whole fraction exponent), rest) := by
  simp only [unsignedNumber?, hwhole, hfraction, hexponent, Option.bind_eq_bind, Option.bind_some]
  rfl

theorem unsignedNumber?_natural {n : Nat} (hn : n < 2 ^ 64) (rest : List Char) :
    unsignedNumber? false (Decimal.digits n ++ ' ' :: rest) =
      some (.number (some (.natural n)), ' ' :: rest) := by
  have hnumber : numberOf false (Decimal.digits n) [] none = some (.natural n) := by
    simp only [numberOf, List.append_nil, natOf_eq, Decimal.digits, Nat.ofDigitChars_ten_toDigits]
    exact if_pos (by simpa using hn)
  rw [unsignedNumber?_of_parts (wholeDigits?_digits n rfl rest) rfl rfl, hnumber]

theorem unsignedNumber?_positional {x : Binary64} (hfinite : x.isFinite) (rest : List Char) :
    unsignedNumber? x.isNegative (x.shortest.positional ++ ' ' :: rest) =
      some (.number (some (.real x)), ' ' :: rest) := by
  obtain ⟨fraction, hparts, hne, hdigits⟩ := x.shortest.positional_parts
  have hwhole : ∀ c ∈ x.shortest.wholeDigits, c.isDigit := fun c => Decimal.isDigit_of_mem_digits
  have hvalue : Decimal.value ⟨natOf (x.shortest.wholeDigits ++ fraction), 0 - fraction.length⟩ =
      x.shortest.value := by
    rw [← x.shortest.size_positional, hparts, Numeral.size_digits hwhole hdigits, natOf_eq,
      Decimal.value, zero_sub, zpow_neg, zpow_natCast, div_eq_mul_inv]
  have hnumber : numberOf x.isNegative x.shortest.wholeDigits fraction none = some (.real x) := by
    have hempty : fraction.isEmpty = false := by simpa using hne
    simp only [numberOf, hempty, Bool.and_false, Bool.false_and, Option.getD_none]
    exact congrArg (Option.map Number.real) (Decimal.toBinary64?_of_value_eq hfinite hvalue)
  have hwholeRead : wholeDigits? (x.shortest.positional ++ ' ' :: rest) =
      some (x.shortest.wholeDigits, '.' :: (fraction ++ ' ' :: rest)) := by
    rw [hparts, List.append_assoc, List.cons_append]
    exact wholeDigits?_digits _ rfl _
  have hfractionRead : fraction? ('.' :: (fraction ++ ' ' :: rest)) =
      some (fraction, ' ' :: rest) := digits?_append hne hdigits rfl rest
  rw [unsignedNumber?_of_parts hwholeRead hfractionRead rfl, hnumber]

theorem scan?_of_isDigit {c : Char} (hc : c.isDigit) (cs : List Char) :
    scan? (c :: cs) = unsignedNumber? false (c :: cs) := by
  unfold scan?
  split
  case h_12 => rfl
  all_goals
    rename_i heq
    obtain ⟨rfl, -⟩ := List.cons.inj heq
    cases hc

/-! Every token is scanned as itself. -/

theorem exists_head_digits (n : Nat) : ∃ c cs, Decimal.digits n = c :: cs ∧ c.isDigit := by
  obtain ⟨c, cs, hdigits⟩ := List.exists_cons_of_ne_nil (@Nat.toDigits_ne_nil n 10)
  refine ⟨c, cs, hdigits, ?_⟩
  apply @Decimal.isDigit_of_mem_digits n
  rw [Decimal.digits, hdigits]
  exact List.mem_cons_self

theorem exists_head_positional (d : Decimal) : ∃ c cs, d.positional = c :: cs ∧ c.isDigit := by
  obtain ⟨fraction, hparts, -⟩ := d.positional_parts
  obtain ⟨c, cs, hdigits, hc⟩ := exists_head_digits
    (d.coefficient * Nat.pow 10 d.exponent.toNat / Nat.pow 10 (-d.exponent).toNat)
  refine ⟨c, cs ++ '.' :: fraction, ?_, hc⟩
  rw [hparts, Decimal.wholeDigits, hdigits, List.cons_append]

theorem scan?_number {n : Number} (hn : n.Proper) (rest : List Char) :
    scan? (text (.number (some n)) ++ ' ' :: rest) = some (.number (some n), ' ' :: rest) := by
  cases n with
  | natural n =>
      obtain ⟨c, cs, hdigits, hc⟩ := exists_head_digits n
      have hread := unsignedNumber?_natural hn rest
      rw [hdigits] at hread
      rw [text, hdigits, List.cons_append, scan?_of_isDigit hc]
      exact hread
  | real x =>
      have hread := unsignedNumber?_positional hn rest
      rw [text, Binary64.toList_literal hn, Binary64.signed]
      cases hnegative : x.isNegative with
      | true =>
          rw [hnegative] at hread
          exact hread
      | false =>
          obtain ⟨c, cs, hdigits, hc⟩ := exists_head_positional x.shortest
          rw [hnegative, hdigits] at hread
          rw [hdigits, if_neg Bool.false_ne_true, List.cons_append, scan?_of_isDigit hc]
          exact hread

theorem scan?_text {token : Token} (htoken : token.Sound) (rest : List Char) :
    scan? (token.text ++ ' ' :: rest) = some (token, ' ' :: rest) := by
  cases token with
  | number n =>
      cases n with
      | none =>
          have hnumber : numberOf false ['1'] [] (some 999) = none := by decide +kernel
          rw [text, ← hnumber]
          rfl
      | some n => exact scan?_number (htoken n rfl) rest
  | string s =>
      cases s with
      | none => rfl
      | some s =>
          rw [text, List.cons_append, List.append_assoc]
          exact scan?_quoted s _
  | bool b => cases b <;> rfl
  | openArray | closeArray | openObject | closeObject | comma | colon | null => rfl

/-! Texts with a blank behind each token. -/

theorem not_isSpace_of_isDigit {c : Char} (hc : c.isDigit) : isSpace c = false := by
  have hspace (space : Char) (hspace : space.isDigit = false) : (c == space) = false := by
    rw [beq_eq_false_iff_ne]
    rintro rfl
    cases hc.symm.trans hspace
  rw [isSpace, hspace ' ' rfl, hspace '\t' rfl, hspace '\n' rfl, hspace '\r' rfl]
  rfl

theorem exists_head_text {token : Token} (htoken : token.Sound) :
    ∃ c cs, token.text = c :: cs ∧ isSpace c = false := by
  cases token with
  | number n =>
      cases n with
      | none => exact ⟨_, _, rfl, rfl⟩
      | some n =>
          cases n with
          | natural n =>
              obtain ⟨c, cs, hdigits, hc⟩ := exists_head_digits n
              exact ⟨c, cs, hdigits, not_isSpace_of_isDigit hc⟩
          | real x =>
              obtain ⟨c, cs, hdigits, hc⟩ := exists_head_positional x.shortest
              rw [text, Binary64.toList_literal (htoken _ rfl), Binary64.signed]
              split
              · exact ⟨_, _, rfl, rfl⟩
              · exact ⟨c, cs, hdigits, not_isSpace_of_isDigit hc⟩
  | string s => cases s <;> exact ⟨_, _, rfl, rfl⟩
  | bool b => cases b <;> exact ⟨_, _, rfl, rfl⟩
  | openArray | closeArray | openObject | closeObject | comma | colon | null =>
      exact ⟨_, _, rfl, rfl⟩

def spaced (tokens : List Token) : List Char :=
  tokens.flatMap fun token => token.text ++ [' ']

theorem length_le_spaced (tokens : List Token) : tokens.length ≤ (spaced tokens).length := by
  induction tokens with
  | nil => exact Nat.zero_le _
  | cons token rest ih =>
      rw [spaced, List.flatMap_cons, ← spaced]
      simp only [List.length_cons, List.length_append, List.length_nil]
      omega

theorem tokensWithin_blank (seen : List Token) (fuel : Nat) (cs : List Char) :
    tokensWithin seen fuel (' ' :: cs) = tokensWithin seen fuel cs := by
  cases fuel with
  | zero => rfl
  | succ fuel =>
      rw [tokensWithin, tokensWithin, List.dropWhile_cons_of_pos rfl]

theorem tokensWithin_spaced {tokens : List Token} (htokens : ∀ token ∈ tokens, token.Sound)
    (seen : List Token) {fuel : Nat} (hfuel : tokens.length < fuel) :
    tokensWithin seen fuel (spaced tokens) = some (seen.reverse ++ tokens) := by
  induction tokens generalizing seen fuel with
  | nil =>
      obtain ⟨fuel, rfl⟩ := Nat.exists_eq_add_of_lt hfuel
      simp [spaced, tokensWithin]
  | cons token rest ih =>
      obtain ⟨htoken, hrest⟩ := List.forall_mem_cons.mp htokens
      obtain ⟨c, cs, htext, hc⟩ := exists_head_text htoken
      obtain ⟨fuel, rfl⟩ := Nat.exists_eq_succ_of_ne_zero (Nat.ne_zero_of_lt hfuel)
      have hscan := scan?_text htoken (spaced rest)
      have hspaced : spaced (token :: rest) = token.text ++ ' ' :: spaced rest := by
        rw [spaced, List.flatMap_cons, List.append_assoc, List.singleton_append, ← spaced]
      rw [htext, List.cons_append] at hscan
      rw [hspaced, htext, List.cons_append, tokensWithin, List.dropWhile_cons_of_neg (by simp [hc])]
      simp only [hscan]
      rw [tokensWithin_blank, ih hrest _ (Nat.lt_of_succ_lt_succ hfuel), List.reverse_cons,
        List.append_assoc, List.singleton_append]

theorem tokens?_spaced {tokens : List Token} (htokens : ∀ token ∈ tokens, token.Sound) :
    tokens? (spaced tokens) = some tokens :=
  tokensWithin_spaced htokens [] (Nat.lt_succ_of_le (length_le_spaced tokens))

end ShaderChain.Json.Token
