import Mathlib.Data.List.SplitBy
import ShaderChain.Proofs.Text.Trim
import ShaderChain.Text.Layout

/-! The tokens of a text are its longest runs of identifier characters and its other characters one
by one, without white space. -/

namespace ShaderChain.Text

/-- Whether characters that stand side by side belong to one word. -/
def joins (first second : Char) : Bool :=
  isIdentChar first && isIdentChar second

def withoutBlanks (runs : List (List Char)) : List (List Char) :=
  runs.filter fun run => !run.all isBlank

def tokens (cs : List Char) : List (List Char) :=
  withoutBlanks (cs.splitBy joins)

inductive IsToken : List Char → Prop
  | word {cs : List Char} (hne : cs ≠ []) (hchars : ∀ c ∈ cs, isIdentChar c = true) : IsToken cs
  | mark {c : Char} (hident : isIdentChar c = false) (hblank : isBlank c = false) : IsToken [c]

theorem toNat_of_isIdentChar {c : Char} (hc : isIdentChar c = true) :
    48 ≤ c.toNat ∧ c.toNat ≤ 122 := by
  have hrange : (((decide (c.val ≥ 'A'.val ∧ c.val ≤ 'Z'.val) ||
      (decide (c.val ≥ 'a'.val) && decide (c.val ≤ 'z'.val))) ||
      (decide (c.val ≥ '0'.val) && decide (c.val ≤ '9'.val))) || c == '_') = true := hc
  simp only [Bool.or_eq_true, Bool.and_eq_true, decide_eq_true_eq, UInt32.le_iff_toNat_le,
    ge_iff_le, beq_iff_eq] at hrange
  rcases hrange with hrange | rfl
  · have hupper : 'A'.val.toNat = 65 ∧ 'Z'.val.toNat = 90 := ⟨rfl, rfl⟩
    have hlower : 'a'.val.toNat = 97 ∧ 'z'.val.toNat = 122 := ⟨rfl, rfl⟩
    have hdigit : '0'.val.toNat = 48 ∧ '9'.val.toNat = 57 := ⟨rfl, rfl⟩
    have hval : c.val.toNat = c.toNat := rfl
    omega
  · decide

theorem isBlank_of_isIdentChar {c : Char} (hc : isIdentChar c = true) : isBlank c = false := by
  have hcode := toNat_of_isIdentChar hc
  rw [Bool.eq_false_iff]
  intro hblank
  simp only [isBlank, Bool.or_eq_true, Bool.and_eq_true, decide_eq_true_eq, beq_iff_eq] at hblank
  omega

theorem isIdentChar_of_isBlank {c : Char} (hc : isBlank c = true) : isIdentChar c = false := by
  rw [Bool.eq_false_iff]
  intro hident
  rw [isBlank_of_isIdentChar hident] at hc
  cases hc

theorem IsToken.withoutBlanks_cons {token : List Char} (htoken : IsToken token)
    (runs : List (List Char)) : withoutBlanks (token :: runs) = token :: withoutBlanks runs := by
  apply List.filter_cons_of_pos
  cases htoken with
  | word hne hchars =>
      obtain ⟨c, rest, rfl⟩ := List.exists_cons_of_ne_nil hne
      simp [isBlank_of_isIdentChar (hchars c (by simp))]
  | mark hident hblank => simp [hblank]

theorem withoutBlanks_cons_blank {c : Char} (hblank : isBlank c = true)
    (runs : List (List Char)) : withoutBlanks ([c] :: runs) = withoutBlanks runs := by
  apply List.filter_cons_of_neg
  simp [hblank]

/-! The tokens of two texts stay apart unless a word goes on from one to the other. -/

theorem tokens_append {front back : List Char}
    (hapart : ∀ a ∈ front.getLast?, ∀ b ∈ back.head?, joins a b = false) :
    tokens (front ++ back) = tokens front ++ tokens back := by
  unfold tokens withoutBlanks
  rw [List.splitBy_append hapart, List.filter_append]

theorem tokens_append_of_last {front : List Char}
    (hlast : ∀ a ∈ front.getLast?, isIdentChar a = false) (back : List Char) :
    tokens (front ++ back) = tokens front ++ tokens back := by
  apply tokens_append
  intro a ha b _
  rw [joins, hlast a ha, Bool.false_and]

theorem tokens_append_of_first (front : List Char) {back : List Char}
    (hfirst : ∀ b ∈ back.head?, isIdentChar b = false) :
    tokens (front ++ back) = tokens front ++ tokens back := by
  apply tokens_append
  intro a _ b hb
  rw [joins, hfirst b hb, Bool.and_false]

theorem IsToken.tokens_eq {token : List Char} (htoken : IsToken token) :
    tokens token = [token] := by
  have hrun : token.splitBy joins = [token] := by
    cases htoken with
    | word hne hchars =>
        apply List.splitBy_of_isChain hne
        apply List.Pairwise.isChain
        apply List.pairwise_of_forall_mem_list
        intro a ha b hb
        rw [joins, hchars a ha, hchars b hb, Bool.and_true]
    | mark hident hblank => rfl
  rw [tokens, hrun, htoken.withoutBlanks_cons]
  rfl

theorem tokens_blank {cs : List Char} (hcs : Blank cs) : tokens cs = [] := by
  induction cs with
  | nil => rfl
  | cons c rest ih =>
      obtain ⟨hc, hrest⟩ := List.forall_mem_cons.mp hcs
      have hapart : ∀ a ∈ [c].getLast?, isIdentChar a = false := by
        simpa using isIdentChar_of_isBlank hc
      have hnone : tokens [c] = [] := withoutBlanks_cons_blank hc []
      rw [← List.singleton_append, tokens_append_of_last hapart, hnone, ih hrest]
      rfl

theorem tokens_break {c : Char} (hident : isIdentChar c = false) (front back : List Char) :
    tokens (front ++ c :: back) = tokens front ++ (tokens [c] ++ tokens back) := by
  have hfirst : ∀ b ∈ (c :: back).head?, isIdentChar b = false := by simpa using hident
  have hlast : ∀ a ∈ [c].getLast?, isIdentChar a = false := by simpa using hident
  rw [tokens_append_of_first front hfirst, ← List.singleton_append, tokens_append_of_last hlast]

theorem tokens_mark_between {c : Char} (hident : isIdentChar c = false)
    (hblank : isBlank c = false) (front back : List Char) :
    tokens (front ++ c :: back) = tokens front ++ [c] :: tokens back := by
  rw [tokens_break hident, (IsToken.mark hident hblank).tokens_eq]
  rfl

theorem tokens_blank_between {c : Char} (hblank : isBlank c = true) (front back : List Char) :
    tokens (front ++ c :: back) = tokens front ++ tokens back := by
  have hnone : tokens [c] = [] := withoutBlanks_cons_blank hblank []
  rw [tokens_break (isIdentChar_of_isBlank hblank), hnone]
  rfl

theorem tokens_append_blank (cs : List Char) {after : List Char} (hafter : Blank after) :
    tokens (cs ++ after) = tokens cs := by
  rw [tokens_append_of_first, tokens_blank hafter, List.append_nil]
  intro c hc
  exact isIdentChar_of_isBlank (hafter c (List.mem_of_mem_head? hc))

theorem tokens_blank_append {before : List Char} (hbefore : Blank before) (cs : List Char) :
    tokens (before ++ cs) = tokens cs := by
  rw [tokens_append_of_last, tokens_blank hbefore, List.nil_append]
  intro c hc
  exact isIdentChar_of_isBlank (hbefore c (List.mem_of_mem_getLast? hc))

theorem tokens_trim (cs : List Char) : tokens (trim cs) = tokens cs := by
  obtain ⟨before, after, hbefore, hafter, hcs⟩ := exists_trim cs
  calc
    tokens (trim cs) = tokens (before ++ trim cs ++ after) := by
      rw [tokens_append_blank _ hafter, tokens_blank_append hbefore]
    _ = tokens cs := congrArg tokens hcs.symm

/-! Tokens as they are found. -/

theorem isIdentChar_of_isChain {first : Char} {rest : List Char}
    (hchain : (first :: rest).IsChain fun a b => joins a b = true) (hne : rest ≠ []) :
    ∀ c ∈ first :: rest, isIdentChar c = true := by
  induction rest generalizing first with
  | nil => exact absurd rfl hne
  | cons next more ih =>
      obtain ⟨hjoins, hmore⟩ := List.isChain_cons_cons.mp hchain
      obtain ⟨hfirst, hnext⟩ := Bool.and_eq_true_iff.mp hjoins
      rw [List.forall_mem_cons]
      refine ⟨hfirst, ?_⟩
      cases more with
      | nil => simpa using hnext
      | cons _ _ => exact ih hmore (by simp)

theorem isToken_or_blank {cs run : List Char} (hrun : run ∈ cs.splitBy joins) :
    IsToken run ∨ ∃ c, run = [c] ∧ isBlank c = true := by
  have hchain := List.isChain_of_mem_splitBy hrun
  obtain ⟨first, rest, rfl⟩ := List.exists_cons_of_ne_nil (List.ne_nil_of_mem_splitBy hrun)
  cases rest with
  | nil =>
      cases hident : isIdentChar first with
      | true => exact .inl (.word (by simp) (by simpa using hident))
      | false =>
          cases hblank : isBlank first with
          | true => exact .inr ⟨first, rfl, hblank⟩
          | false => exact .inl (.mark hident hblank)
  | cons next more =>
      exact .inl (.word (by simp) (isIdentChar_of_isChain hchain (by simp)))

theorem isToken_of_mem_tokens {cs token : List Char} (htoken : token ∈ tokens cs) :
    IsToken token := by
  obtain ⟨hrun, hkept⟩ := List.mem_filter.mp htoken
  rcases isToken_or_blank hrun with htoken | ⟨c, rfl, hblank⟩
  · exact htoken
  · simp [hblank] at hkept

end ShaderChain.Text
