import Mathlib.Data.List.Forall2
import ShaderChain.Proofs.Text.Token

/-! Lines. The tokens of a text are those of its lines one after the other, and lines that are put
together again are divided where they were. -/

namespace ShaderChain.Text

theorem mem_of_mem_intercalate {mark : List Char} {texts : List (List Char)} {c : Char}
    (hc : c ∈ mark.intercalate texts) : c ∈ mark ∨ ∃ text ∈ texts, c ∈ text := by
  induction texts with
  | nil => simp at hc
  | cons first rest ih =>
      cases rest with
      | nil => exact .inr ⟨first, by simp, by simpa using hc⟩
      | cons second more =>
          rw [List.intercalate_cons_cons, List.mem_append, List.mem_append] at hc
          rcases hc with (hfirst | hmark) | hrest
          · exact .inr ⟨first, by simp, hfirst⟩
          · exact .inl hmark
          · obtain hmark | ⟨text, htext, hc⟩ := ih hrest
            · exact .inl hmark
            · exact .inr ⟨text, List.mem_cons_of_mem _ htext, hc⟩

/-- Text that is one line as it stands, whatever line feed follows. -/
structure OneLine (line : List Char) : Prop where
  noFeed : '\n' ∉ line
  noReturn : ∀ c ∈ line.getLast?, c ≠ '\r'

theorem linesFrom_cons_of_ne {c : Char} (hc : c ≠ '\n') (seen rest : List Char) :
    linesFrom seen (c :: rest) = linesFrom (c :: seen) rest := by
  rw [linesFrom]
  exact hc

theorem linesFrom_append {line : List Char} (hline : '\n' ∉ line) (seen rest : List Char) :
    linesFrom seen (line ++ rest) = linesFrom (line.reverse ++ seen) rest := by
  induction line generalizing seen with
  | nil => rfl
  | cons c more ih =>
      rw [List.mem_cons, not_or] at hline
      rw [List.cons_append, linesFrom_cons_of_ne (Ne.symm hline.1), ih hline.2]
      simp

theorem endLine_reverse {line : List Char} (hline : ∀ c ∈ line.getLast?, c ≠ '\r') :
    endLine line.reverse = line := by
  rw [endLine, List.reverse_reverse]
  intro seen hseen
  have hlast : line.getLast? = some '\r' := by
    rw [← List.head?_reverse, hseen]
    rfl
  exact hline '\r' hlast rfl

theorem OneLine.lines_append {line : List Char} (hline : OneLine line) (rest : List Char) :
    lines (line ++ '\n' :: rest) = line :: lines rest := by
  rw [lines, linesFrom_append hline.noFeed, List.append_nil, linesFrom,
    endLine_reverse hline.noReturn]
  rfl

theorem lines_intercalate {ls : List (List Char)} (hne : ls ≠ [])
    (hlines : ∀ line ∈ ls, OneLine line) (rest : List Char) :
    lines (['\n'].intercalate ls ++ '\n' :: rest) = ls ++ lines rest := by
  induction ls with
  | nil => exact absurd rfl hne
  | cons line more ih =>
      obtain ⟨hline, hmore⟩ := List.forall_mem_cons.mp hlines
      cases more with
      | nil =>
          rw [List.intercalate_singleton, hline.lines_append]
          rfl
      | cons next others =>
          rw [List.intercalate_cons_cons, List.append_assoc, List.append_assoc,
            List.singleton_append, hline.lines_append, ih (by simp) hmore]
          rfl

theorem not_mem_endLine {seen : List Char} (hseen : '\n' ∉ seen) : '\n' ∉ endLine seen := by
  unfold endLine
  split
  · simp_all
  · simpa using hseen

theorem not_mem_of_mem_linesFrom {seen cs line : List Char} (hseen : '\n' ∉ seen)
    (hline : line ∈ linesFrom seen cs) : '\n' ∉ line := by
  induction cs generalizing seen with
  | nil =>
      rw [linesFrom] at hline
      split at hline
      · cases hline
      · rw [List.mem_singleton.mp hline]
        simpa using hseen
  | cons c rest ih =>
      by_cases hc : c = '\n'
      · rw [hc, linesFrom] at hline
        rcases List.mem_cons.mp hline with rfl | hrest
        · exact not_mem_endLine hseen
        · exact ih (by simp) hrest
      · rw [linesFrom_cons_of_ne hc] at hline
        exact ih (by simp [Ne.symm hc, hseen]) hline

theorem not_mem_of_mem_lines {cs line : List Char} (hline : line ∈ lines cs) : '\n' ∉ line :=
  not_mem_of_mem_linesFrom List.not_mem_nil hline

/-! The tokens of lines. -/

theorem tokens_endLine (seen : List Char) : tokens (endLine seen) = tokens seen.reverse := by
  unfold endLine
  split
  · rename_i more
    rw [List.reverse_cons, tokens_append_blank]
    intro c hc
    rw [List.mem_singleton.mp hc]
    rfl
  · rfl

theorem tokens_linesFrom (seen cs : List Char) :
    (linesFrom seen cs).flatMap tokens = tokens (seen.reverse ++ cs) := by
  induction cs generalizing seen with
  | nil =>
      rw [linesFrom]
      cases seen with
      | nil => rfl
      | cons c more => simp
  | cons c rest ih =>
      by_cases hc : c = '\n'
      · rw [hc, linesFrom, List.flatMap_cons, ih, tokens_endLine, tokens_blank_between rfl]
        rfl
      · rw [linesFrom_cons_of_ne hc, ih]
        simp

theorem tokens_lines (cs : List Char) : (lines cs).flatMap tokens = tokens cs :=
  tokens_linesFrom [] cs

theorem tokens_join (ls : List (List Char)) :
    tokens (['\n'].intercalate ls) = ls.flatMap tokens := by
  induction ls with
  | nil => rfl
  | cons line more ih =>
      cases more with
      | nil => simp
      | cons next others =>
          rw [List.intercalate_cons_cons, List.append_assoc, List.singleton_append,
            tokens_blank_between rfl, ih]
          rfl

/-! Indented lines. -/

/-- White space at the end of a line goes, and two spaces stand in front of what is left. -/
inductive Indented : List Char → List Char → Prop
  | blank {line : List Char} (hline : Blank line) : Indented line []
  | text {kept after : List Char} (hkept : ∃ c ∈ kept.getLast?, isBlank c = false)
      (hafter : Blank after) : Indented (kept ++ after) (' ' :: ' ' :: kept)

theorem indented_indentLine (line : List Char) : Indented line (indentLine [' ', ' '] line) := by
  obtain ⟨after, hafter, hline⟩ := exists_trimEnd line
  unfold indentLine
  split
  · rename_i hnone
    rw [hnone, List.nil_append] at hline
    exact .blank (hline ▸ hafter)
  · rename_i hsome
    have hlast := List.getLast?_eq_some_getLast hsome
    nth_rewrite 1 [hline]
    exact .text ⟨_, hlast, getLast?_rdropWhile isBlank line _ hlast⟩ hafter

theorem Indented.tokens_eq {line indented : List Char} (hindented : Indented line indented) :
    tokens indented = tokens line := by
  cases hindented with
  | blank hline =>
      rw [tokens_blank hline]
      rfl
  | text hkept hafter =>
      rw [tokens_append_blank _ hafter]
      exact (tokens_blank_between rfl [] _).trans (tokens_blank_between rfl [] _)

theorem Indented.oneLine {line indented : List Char} (hindented : Indented line indented)
    (hline : '\n' ∉ line) : OneLine indented := by
  cases hindented with
  | blank _ => exact ⟨List.not_mem_nil, nofun⟩
  | @text kept after hkept hafter =>
      rw [List.mem_append, not_or] at hline
      refine ⟨by simp [hline.1], ?_⟩
      rintro c hc rfl
      obtain ⟨last, hlast, hblank⟩ := hkept
      have hkept : kept ≠ [] := by
        rintro rfl
        cases hlast
      rw [List.getLast?_cons_of_ne_nil (by simp), List.getLast?_cons_of_ne_nil hkept,
        Option.mem_def.mp hlast] at hc
      cases hc
      cases hblank

end ShaderChain.Text
