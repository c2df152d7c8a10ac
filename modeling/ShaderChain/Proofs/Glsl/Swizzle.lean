import Mathlib.Data.Set.List
import ShaderChain.Proofs.Expr.Reading

/-! Which texts select components. -/

namespace ShaderChain

namespace Alphabet

def letters : Alphabet → List Char
  | .xyzw => ['x', 'y', 'z', 'w']
  | .rgba => ['r', 'g', 'b', 'a']

theorem mem_letters (alphabet : Alphabet) (c : Char) :
    c ∈ alphabet.letters ↔ c ∈ Set.range alphabet.letter := by
  constructor
  · intro hc
    cases alphabet <;> simp only [letters, List.mem_cons, List.not_mem_nil, or_false] at hc <;>
      rcases hc with rfl | rfl | rfl | rfl
    exacts [⟨0, rfl⟩, ⟨1, rfl⟩, ⟨2, rfl⟩, ⟨3, rfl⟩, ⟨0, rfl⟩, ⟨1, rfl⟩, ⟨2, rfl⟩, ⟨3, rfl⟩]
  · rintro ⟨i, rfl⟩
    cases alphabet <;> revert i <;> decide

theorem letter_of_component? {alphabet : Alphabet} {c : Char} {i : Fin 4}
    (hc : alphabet.component? c = some i) : alphabet.letter i = c := by
  unfold component? at hc
  split at hc <;> cases hc <;> rfl

theorem map_letter_of_mapM {alphabet : Alphabet} {cs : List Char} {components : List (Fin 4)}
    (hcs : cs.mapM alphabet.component? = some components) :
    components.map alphabet.letter = cs := by
  induction cs generalizing components with
  | nil =>
      cases hcs
      rfl
  | cons c rest ih =>
      simp only [List.mapM_cons, Option.bind_eq_bind, Option.bind_eq_some_iff, Option.pure_def,
        Option.some.injEq] at hcs
      obtain ⟨i, hi, others, hothers, rfl⟩ := hcs
      rw [List.map_cons, letter_of_component? hi, ih hothers]

end Alphabet

namespace Swizzle

theorem text_of_inAlphabet? {cs : List Char} {alphabet : Alphabet} {s : Swizzle}
    (hs : inAlphabet? cs alphabet = some s) : s.text = String.ofList cs := by
  obtain ⟨components, hcomponents, hs⟩ := Option.bind_eq_some_iff.mp hs
  unfold ofComponents? at hs
  split at hs
  · cases hs
    rw [text, Alphabet.map_letter_of_mapM hcomponents]
  · cases hs

theorem parse?_eq_some_iff {getter : String} {s : Swizzle} :
    parse? getter = some s ↔ s.text = getter := by
  constructor
  · intro hparse
    rw [← String.ofList_toList (s := getter)]
    rw [parse?, Option.orElse_eq_orElse, Option.orElse_eq_or, Option.or_eq_some_iff] at hparse
    rcases hparse with hs | ⟨-, hs⟩
    · exact text_of_inAlphabet? hs
    · exact text_of_inAlphabet? hs
  · rintro rfl
    exact s.parse?_text

/-- One to four letters of one alphabet. -/
def Selects (getter : String) : Prop :=
  1 ≤ getter.toList.length ∧ getter.toList.length ≤ 4 ∧
    ∃ alphabet : Alphabet, ∀ c ∈ getter.toList, c ∈ alphabet.letters

theorem selects_iff (getter : String) : Selects getter ↔ ∃ s, parse? getter = some s := by
  simp only [parse?_eq_some_iff]
  constructor
  · rintro ⟨hpos, hle, alphabet, hletters⟩
    simp only [Alphabet.mem_letters] at hletters
    obtain ⟨components, hcomponents⟩ :
        getter.toList ∈ Set.range (List.map alphabet.letter) := by
      rw [Set.range_list_map]
      exact hletters
    rw [← hcomponents, List.length_map] at hpos hle
    refine ⟨⟨alphabet, components, List.ne_nil_of_length_pos hpos, hle⟩, ?_⟩
    rw [text, hcomponents, String.ofList_toList]
  · rintro ⟨s, rfl⟩
    rw [Selects, text, String.toList_ofList, List.length_map]
    refine ⟨List.length_pos_iff.mpr s.components_ne_nil, s.length_le_four, s.alphabet, ?_⟩
    intro c hc
    obtain ⟨i, -, rfl⟩ := List.mem_map.mp hc
    exact (s.alphabet.mem_letters _).mpr ⟨i, rfl⟩

end Swizzle

end ShaderChain
