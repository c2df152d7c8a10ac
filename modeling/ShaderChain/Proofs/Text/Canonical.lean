import ShaderChain.Proofs.Text.Key

/-! The spacing key as a canonical form. Of all texts with the same tokens it is the one whose only
white space is single spaces between words. -/

namespace ShaderChain.Text

/-- White space stands only between two identifier characters, and is a single space there.
`afterWord` tells whether an identifier character comes before the text. -/
def TightAfter (afterWord : Bool) (cs : List Char) : Prop :=
  ∀ before c after, cs = before ++ c :: after → isBlank c = true →
    c = ' ' ∧ (before.getLast?.map isIdentChar).getD afterWord = true ∧
      ∃ b ∈ after.head?, isIdentChar b = true

def Tight (cs : List Char) : Prop :=
  TightAfter false cs

theorem tightAfter_nil (afterWord : Bool) : TightAfter afterWord [] := by
  intro before c after hsplit
  simp at hsplit

theorem getD_getLast?_cons (afterWord : Bool) (c : Char) (before : List Char) :
    ((c :: before).getLast?.map isIdentChar).getD afterWord =
      (before.getLast?.map isIdentChar).getD (isIdentChar c) := by
  cases before with
  | nil => rfl
  | cons next more => simp [List.getLast?_cons]

theorem tightAfter_cons {afterWord : Bool} {c : Char} {rest : List Char} :
    TightAfter afterWord (c :: rest) ↔
      (isBlank c = true →
        c = ' ' ∧ afterWord = true ∧ ∃ b ∈ rest.head?, isIdentChar b = true) ∧
      TightAfter (isIdentChar c) rest := by
  constructor
  · intro htight
    constructor
    · exact htight [] c rest rfl
    · intro before d after hsplit hblank
      have hcons := htight (c :: before) d after (congrArg (c :: ·) hsplit) hblank
      rwa [getD_getLast?_cons] at hcons
  · intro ⟨hfirst, hrest⟩ before d after hsplit hblank
    cases before with
    | nil =>
        obtain ⟨rfl, rfl⟩ := List.cons.inj hsplit
        exact hfirst hblank
    | cons _ more =>
        obtain ⟨rfl, rfl⟩ := List.cons.inj hsplit
        rw [getD_getLast?_cons]
        exact hrest more d after rfl hblank

theorem tightAfter_of_not_isBlank {afterWord : Bool} {c : Char} {rest : List Char}
    (hblank : isBlank c = false) :
    TightAfter afterWord (c :: rest) ↔ TightAfter (isIdentChar c) rest := by
  simp [tightAfter_cons, hblank]

theorem tightAfter_spacingKeyFrom (afterWord gapped : Bool) (cs : List Char) :
    TightAfter afterWord (spacingKeyFrom afterWord gapped cs) := by
  induction cs generalizing afterWord gapped with
  | nil => exact tightAfter_nil afterWord
  | cons c rest ih =>
      rw [spacingKeyFrom]
      split
      · exact ih afterWord true
      · rename_i hblank
        rw [Bool.not_eq_true] at hblank
        split
        · rename_i hspaced
          simp only [Bool.and_eq_true] at hspaced
          obtain ⟨⟨hafter, -⟩, hident⟩ := hspaced
          rw [tightAfter_cons, tightAfter_of_not_isBlank hblank, hident]
          exact ⟨fun _ => ⟨rfl, hafter, c, rfl, hident⟩, ih true false⟩
        · rw [tightAfter_of_not_isBlank hblank]
          exact ih (isIdentChar c) false

theorem tight_spacingKey (cs : List Char) : Tight (spacingKey cs) :=
  tightAfter_spacingKeyFrom false false cs

/-! The walk through a tight text gives back what it has seen. Where it stands behind a space it
still owes that space. -/

theorem spacingKeyFrom_of_tight {cs : List Char} {afterWord : Bool}
    (htight : TightAfter afterWord cs) : spacingKeyFrom afterWord false cs = cs := by
  induction cs generalizing afterWord with
  | nil => rfl
  | cons c rest ih =>
      cases hblank : isBlank c with
      | false =>
          rw [tightAfter_of_not_isBlank hblank] at htight
          simp [spacingKeyFrom, hblank, ih htight]
      | true =>
          obtain ⟨hspace, hrest⟩ := tightAfter_cons.mp htight
          obtain ⟨rfl, rfl, b, hb, hident⟩ := hspace hblank
          obtain ⟨more, rfl⟩ := List.head?_eq_some_iff.mp hb
          have hmore := ih hrest
          have hb := isBlank_of_isIdentChar hident
          simp only [spacingKeyFrom, hb, hident, Bool.and_false, Bool.false_and,
            Bool.false_eq_true, if_false, List.cons.injEq, true_and] at hmore
          simp [spacingKeyFrom, hblank, hb, hident, hmore]

theorem spacingKey_eq_self_iff (cs : List Char) : spacingKey cs = cs ↔ Tight cs := by
  constructor
  · intro hself
    rw [← hself]
    exact tight_spacingKey cs
  · exact spacingKeyFrom_of_tight

theorem spacingKey_eq_iff (cs other : List Char) :
    spacingKey cs = spacingKey other ↔ tokens cs = tokens other := by
  constructor
  · intro hkeys
    rw [← tokens_spacingKey cs, hkeys, tokens_spacingKey]
  · exact spacingKey_of_tokens

/-- Two texts have the same key iff they have the same tokens. The key is the tight text among those
with its tokens, and so its own key. -/
theorem spacingKey_canonical (cs other : List Char) :
    (spacingKey cs = spacingKey other ↔ tokens cs = tokens other) ∧
      tokens (spacingKey cs) = tokens cs ∧ Tight (spacingKey cs) ∧
      spacingKey (spacingKey cs) = spacingKey cs ∧
      (other = spacingKey cs ↔ Tight other ∧ tokens other = tokens cs) := by
  refine ⟨spacingKey_eq_iff cs other, tokens_spacingKey cs, tight_spacingKey cs, ?_, ?_⟩
  · exact (spacingKey_eq_self_iff _).mpr (tight_spacingKey cs)
  · constructor
    · rintro rfl
      exact ⟨tight_spacingKey cs, tokens_spacingKey cs⟩
    · intro ⟨htight, htokens⟩
      rw [← (spacingKey_eq_iff other cs).mpr htokens]
      exact ((spacingKey_eq_self_iff other).mpr htight).symm

end ShaderChain.Text
