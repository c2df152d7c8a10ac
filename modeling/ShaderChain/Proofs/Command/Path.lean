import ShaderChain.Command.Files

/-! Paths. The last step of a file in a directory is the name of the file. -/

namespace ShaderChain.Path

theorem pieces_slash (rest : List Char) : pieces ('/' :: rest) = [] :: pieces rest := rfl

theorem exists_pieces (cs : List Char) : ∃ piece others, pieces cs = piece :: others := by
  fun_cases pieces cs with
  | case1 => exact ⟨[], [], rfl⟩
  | case2 rest => exact ⟨[], pieces rest, rfl⟩
  | case3 c rest _ _ => exact ⟨[c], [], rfl⟩
  | case4 c rest _ piece others _ => exact ⟨c :: piece, others, rfl⟩

theorem pieces_cons {c : Char} (hc : c ≠ '/') {rest piece : List Char}
    {others : List (List Char)} (hrest : pieces rest = piece :: others) :
    pieces (c :: rest) = (c :: piece) :: others := by
  rw [pieces]
  · rw [hrest]
  · exact hc

theorem pieces_append_slash (front rest : List Char) :
    pieces (front ++ '/' :: rest) = pieces front ++ pieces rest := by
  induction front with
  | nil => rfl
  | cons c front ih =>
      by_cases hc : c = '/'
      · subst hc
        rw [List.cons_append, pieces_slash, ih, pieces_slash, List.cons_append]
      · obtain ⟨piece, others, hfront⟩ := exists_pieces front
        rw [hfront, List.cons_append] at ih
        rw [List.cons_append, pieces_cons hc ih, pieces_cons hc hfront, List.cons_append]

theorem pieces_of_not_mem {cs : List Char} (hcs : '/' ∉ cs) : pieces cs = [cs] := by
  induction cs with
  | nil => rfl
  | cons c cs ih =>
      rw [List.mem_cons, not_or] at hcs
      exact pieces_cons (Ne.symm hcs.1) (ih hcs.2)

theorem not_mem_of_mem_pieces {cs piece : List Char} (hpiece : piece ∈ pieces cs) :
    '/' ∉ piece := by
  induction cs generalizing piece with
  | nil =>
      rw [List.mem_singleton.mp hpiece]
      exact List.not_mem_nil
  | cons c cs ih =>
      by_cases hc : c = '/'
      · subst hc
        rcases List.mem_cons.mp hpiece with rfl | hpiece
        · exact List.not_mem_nil
        · exact ih hpiece
      · obtain ⟨first, others, hcs⟩ := exists_pieces cs
        rw [pieces_cons hc hcs] at hpiece
        rw [hcs] at ih
        rcases List.mem_cons.mp hpiece with rfl | hpiece
        · rw [List.mem_cons, not_or]
          exact ⟨Ne.symm hc, ih List.mem_cons_self⟩
        · exact ih (List.mem_cons_of_mem first hpiece)

theorem not_mem_of_mem_steps {path step : String} (hstep : step ∈ steps path) :
    '/' ∉ step.toList := by
  rw [steps, List.mem_map] at hstep
  obtain ⟨piece, hpiece, rfl⟩ := hstep
  rw [String.toList_ofList]
  exact not_mem_of_mem_pieces (List.mem_filter.mp hpiece).1

theorem steps_of_not_mem {name : String} (hname : '/' ∉ name.toList) (hne : name ≠ "") :
    steps name = [name] := by
  simp [steps, pieces_of_not_mem hname, hne]

theorem steps_behind_slash {path rest : String} {front : List Char}
    (hpath : path.toList = front ++ '/' :: rest.toList) :
    steps path = steps (String.ofList front) ++ steps rest := by
  simp only [steps, hpath, pieces_append_slash, List.filter_append, List.map_append,
    String.toList_ofList]

/-- The steps to a file in a directory are those to the directory and the name of the file. -/
theorem steps_join (dir : String) {name : String} (hname : '/' ∉ name.toList)
    (hne : name ≠ "") : steps (join dir name) = steps dir ++ [name] := by
  rw [← steps_of_not_mem hname hne]
  by_cases hempty : dir = ""
  · subst hempty
    simp [join, steps, pieces]
  · by_cases hslash : dir.toList.getLast? = some '/'
    · obtain ⟨front, hfront⟩ := List.getLast?_eq_some_iff.mp hslash
      have hend : dir.toList = front ++ '/' :: "".toList := hfront
      have hdir : steps dir = steps (String.ofList front) := by
        rw [steps_behind_slash hend]
        simp [steps, pieces]
      have hjoin : join dir name = dir ++ name := by simp [join, hslash]
      rw [hdir, hjoin, steps_behind_slash]
      simp [hfront]
    · have hjoin : join dir name = dir ++ "/" ++ name := by simp [join, hempty, hslash]
      have htext : (dir ++ "/" ++ name).toList = dir.toList ++ '/' :: name.toList := by simp
      rw [hjoin, steps_behind_slash htext, String.ofList_toList]

/-! Stems. -/

theorem getLast?_parts {path name : String} (hlast : (steps path).getLast? = some name)
    (hname : name ≠ ".") : (parts path).getLast? = some name := by
  obtain ⟨front, hfront⟩ := List.getLast?_eq_some_iff.mp hlast
  simp [parts, hfront, hname]

theorem stem?_of_name {path name : String} (hlast : (steps path).getLast? = some name)
    (hname : name ≠ "." ∧ name ≠ "..") : ∃ stem, stem? path = some stem ∧ '/' ∉ stem.toList := by
  have hslash := not_mem_of_mem_steps (List.mem_of_getLast? hlast)
  unfold stem?
  rw [getLast?_parts hlast hname.1]
  split
  · rename_i hnone
    cases hnone
  · rename_i hdots
    exact absurd (Option.some.inj hdots) hname.2
  · rename_i other _ hother
    cases hother
    -- What stands in front of the last dot is a part of the name.
    have hpart := (List.dropWhile_suffix (l := name.toList.reverse) (· != '.')).subset
    dsimp only
    split
    · exact ⟨name, rfl, hslash⟩
    · exact ⟨name, rfl, hslash⟩
    · rename_i dot rest _ htail
      refine ⟨String.ofList rest.reverse, rfl, ?_⟩
      rw [htail] at hpart
      rw [String.toList_ofList, List.mem_reverse]
      intro hmem
      exact hslash (List.mem_reverse.mp (hpart (List.mem_cons_of_mem dot hmem)))

end ShaderChain.Path
