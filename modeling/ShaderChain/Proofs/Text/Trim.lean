import Mathlib.Data.List.DropRight
import ShaderChain.Text.Blank

/-! Trimming. It takes white space off both ends of a text, all of it and nothing else. -/

namespace ShaderChain.Text

def Blank (cs : List Char) : Prop :=
  ∀ c ∈ cs, isBlank c = true

/-- No white space stands at an end of the text. -/
structure Trimmed (cs : List Char) : Prop where
  first : ∀ c ∈ cs.head?, isBlank c = false
  last : ∀ c ∈ cs.getLast?, isBlank c = false

theorem blank_takeWhile (cs : List Char) : Blank (cs.takeWhile isBlank) :=
  fun _ hc => List.mem_takeWhile_imp hc

theorem head?_dropWhile (p : Char → Bool) (cs : List Char) :
    ∀ c ∈ (cs.dropWhile p).head?, p c = false := by
  intro c hc
  have hfirst := List.head?_dropWhile_not p cs
  rw [Option.mem_def.mp hc] at hfirst
  simpa using hfirst

theorem getLast?_rdropWhile (p : Char → Bool) (cs : List Char) :
    ∀ c ∈ (cs.rdropWhile p).getLast?, p c = false := by
  rw [List.rdropWhile, List.getLast?_reverse]
  exact head?_dropWhile p cs.reverse

theorem dropWhile_of_head? {cs : List Char} (hfirst : ∀ c ∈ cs.head?, isBlank c = false) :
    cs.dropWhile isBlank = cs := by
  cases cs with
  | nil => rfl
  | cons c rest => rw [List.dropWhile_cons_of_neg (by simp [hfirst c rfl])]

theorem trimEnd_append {cs : List Char} (after : List Char) (hafter : Blank after) :
    trimEnd (cs ++ after) = trimEnd cs := by
  unfold trimEnd
  rw [List.reverse_append, List.dropWhile_append_of_pos]
  intro c hc
  exact hafter c (List.mem_reverse.mp hc)

theorem trimEnd_of_last {cs : List Char} (hlast : ∀ c ∈ cs.getLast?, isBlank c = false) :
    trimEnd cs = cs := by
  unfold trimEnd
  rw [dropWhile_of_head? (by rwa [List.head?_reverse]), List.reverse_reverse]

theorem exists_trimEnd (cs : List Char) : ∃ after, Blank after ∧ cs = trimEnd cs ++ after :=
  ⟨cs.rtakeWhile isBlank, fun _ hc => List.mem_rtakeWhile_imp hc,
    List.rdropWhile_append_rtakeWhile.symm⟩

theorem exists_trim (cs : List Char) :
    ∃ before after, Blank before ∧ Blank after ∧ cs = before ++ trim cs ++ after := by
  obtain ⟨after, hafter, hend⟩ := exists_trimEnd (cs.dropWhile isBlank)
  refine ⟨cs.takeWhile isBlank, after, blank_takeWhile cs, hafter, ?_⟩
  calc
    cs = cs.takeWhile isBlank ++ cs.dropWhile isBlank := List.takeWhile_append_dropWhile.symm
    _ = cs.takeWhile isBlank ++ (trim cs ++ after) := congrArg (cs.takeWhile isBlank ++ ·) hend
    _ = cs.takeWhile isBlank ++ trim cs ++ after := (List.append_assoc ..).symm

theorem trimmed_trim (cs : List Char) : Trimmed (trim cs) := by
  refine ⟨?_, getLast?_rdropWhile isBlank _⟩
  intro c hc
  obtain ⟨after, -, hend⟩ := exists_trimEnd (cs.dropWhile isBlank)
  have hfirst : (trimEnd (cs.dropWhile isBlank)).head? = some c := hc
  apply head?_dropWhile isBlank cs
  rw [hend, List.head?_append, hfirst]
  rfl

theorem Trimmed.trim_eq {cs : List Char} (hcs : Trimmed cs) : trim cs = cs := by
  unfold trim
  rw [dropWhile_of_head? hcs.first, trimEnd_of_last hcs.last]

theorem trim_append (cs : List Char) {after : List Char} (hafter : Blank after) :
    trim (cs ++ after) = trim cs := by
  unfold trim
  rw [List.dropWhile_append]
  split
  · rename_i hempty
    have hnone : (after ++ []).dropWhile isBlank = [] := List.dropWhile_append_of_pos hafter
    rw [List.isEmpty_iff.mp hempty, ← hnone, List.append_nil]
  · exact trimEnd_append after hafter

theorem trim_blank_append {before : List Char} (hbefore : Blank before) (cs : List Char) :
    trim (before ++ cs) = trim cs := by
  unfold trim
  rw [List.dropWhile_append_of_pos hbefore]

/-- `core` is what is left of a text without the white space at its ends. -/
structure Trims (cs core : List Char) : Prop where
  ends : ∃ before after, Blank before ∧ Blank after ∧ cs = before ++ core ++ after
  trimmed : Trimmed core

theorem trims_iff {cs core : List Char} : Trims cs core ↔ core = trim cs := by
  constructor
  · rintro ⟨⟨before, after, hbefore, hafter, rfl⟩, htrimmed⟩
    rw [trim_append _ hafter, trim_blank_append hbefore, htrimmed.trim_eq]
  · rintro rfl
    exact ⟨exists_trim cs, trimmed_trim cs⟩

end ShaderChain.Text
