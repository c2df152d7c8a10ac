import ShaderChain.Program.Basic
import ShaderChain.Proofs.Resolve.Noted

/-! The two stages of a program agree. The walk for the vertex stage leaves out some nodes of the
walk for the fragment stage and adds nothing, so that it cannot fail alone. -/

namespace ShaderChain

namespace Visit

/-- A visit as it is without regard to the node before. -/
def detached : Visit → Visit
  | .node position _ applied found => .node position "" applied found
  | .slot use => .slot use

@[simp] theorem uniform?_detached (v : Visit) : v.detached.uniform? = v.uniform? := by
  cases v <;> rfl

@[simp] theorem function?_detached (v : Visit) : v.detached.function? = v.function? := by
  cases v <;> rfl

/-- Only the message of an error depends on the node before. -/
theorem error?_detached_eq_none (v : Visit) : v.detached.error? = none ↔ v.error? = none := by
  cases v with
  | slot use => rfl
  | node => simp only [detached, error?_node_eq_none]

end Visit

namespace Walk

theorem detached_sublist (registry : Registry) (path : List Nat) (predecessor before : String)
    (position : Nat) (ns : List Node) :
    ((nodes registry .vertex path predecessor position ns).map Visit.detached).Sublist
      ((nodes registry .fragment path before position ns).map Visit.detached) := by
  induction ns generalizing predecessor before position with
  | nil => exact .slnil
  | cons node rest ih =>
      cases hfind : registry.find? node.name with
      | none =>
          simp only [nodes, hfind, List.map_cons]
          exact (ih predecessor before (position + 1)).cons_cons _
      | some t =>
          simp only [nodes, hfind, keeps_fragment, if_true, List.map_cons, List.map_append]
          split
          · simp only [List.map_cons, List.map_append]
            have hrest := ih node.name node.name (position + 1)
            exact (hrest.append_left _).cons_cons _
          · -- The node is left out with all that is bound to it, and is no predecessor either.
            have hrest := ih predecessor node.name (position + 1)
            exact (hrest.trans (List.sublist_append_right _ _)).cons _

end Walk

namespace Chain

variable (registry : Registry) (c : Chain)

theorem uniforms_vertex_sublist :
    (Walk.uniforms (c.visits registry .vertex)).Sublist
      (Walk.uniforms (c.visits registry .fragment)) := by
  have hvisits := (Walk.detached_sublist registry [] "" "" 0 c.nodes).filterMap Visit.uniform?
  simp only [List.filterMap_map, Function.comp_def, Visit.uniform?_detached] at hvisits
  exact hvisits

theorem exists_detached_eq {v : Visit} (hv : v ∈ c.visits registry .vertex) :
    ∃ u ∈ c.visits registry .fragment, u.detached = v.detached := by
  have hsubset := (Walk.detached_sublist registry [] "" "" 0 c.nodes).subset
  exact List.mem_map.mp (hsubset (List.mem_map_of_mem hv))

theorem clean_vertex {registry : Registry} {c : Chain}
    (hclean : Walk.Clean (c.visits registry .fragment)) :
    Walk.Clean (c.visits registry .vertex) := by
  intro v hv
  obtain ⟨u, hu, hdetached⟩ := c.exists_detached_eq registry hv
  rw [← Visit.error?_detached_eq_none, ← hdetached, Visit.error?_detached_eq_none]
  exact hclean u hu

theorem checkNames_of_clean {registry : Registry} (path : List Nat) (predecessor : String)
    (position : Nat) (ns : List Node)
    (hclean : Walk.Clean (Walk.nodes registry .fragment path predecessor position ns)) :
    checkNames registry position ns = .ok () := by
  induction ns generalizing predecessor position with
  | nil => rfl
  | cons node rest ih =>
      obtain ⟨t, hfind, -, hrest⟩ := Walk.clean_nodes_cons hclean
      simp only [checkNames, Resolve.lookup, hfind]
      exact ih node.name (position + 1) hrest

theorem functions_vertex_subset :
    (c.resources registry .vertex).functions ⊆ (c.resources registry .fragment).functions := by
  intro t ht
  obtain ⟨v, hv, hfunction⟩ := mem_functions_resources.mp ht
  obtain ⟨u, hu, hdetached⟩ := c.exists_detached_eq registry hv
  refine mem_functions_resources.mpr ⟨u, hu, ?_⟩
  rw [← Visit.function?_detached, hdetached, Visit.function?_detached]
  exact hfunction

variable {registry c} {target : ValueType} {fragment vertex : Compiled}

theorem exists_compileVertex (hfragment : c.compile registry target = .ok fragment) :
    ∃ vertex, c.compileVertex registry = .ok vertex := by
  obtain ⟨hclean, -⟩ := compile_eq_ok hfragment
  rw [compileVertex_eq, checkNames_of_clean [] "" 0 c.nodes hclean]
  exact compiledFor_of_clean (clean_vertex hclean) (.numeric .vec4)

theorem nodup_compile (hfragment : c.compile registry target = .ok fragment) :
    (fragment.uniforms.map Uniform.name).Nodup := by
  obtain ⟨-, rfl⟩ := compile_eq_ok hfragment
  simp only [Compiled.ofLayers, c.uniforms_resources registry .fragment]
  exact c.nodup_names registry .fragment

theorem compileVertex_sublist (hfragment : c.compile registry target = .ok fragment)
    (hvertex : c.compileVertex registry = .ok vertex) :
    vertex.uniforms.Sublist fragment.uniforms := by
  obtain ⟨-, rfl⟩ := compile_eq_ok hfragment
  rw [compileVertex_eq_ok hvertex]
  simp only [Compiled.ofLayers, c.uniforms_resources registry]
  exact c.uniforms_vertex_sublist registry

theorem compileVertex_subset (hfragment : c.compile registry target = .ok fragment)
    (hvertex : c.compileVertex registry = .ok vertex) :
    vertex.functions ⊆ fragment.functions := by
  obtain ⟨-, rfl⟩ := compile_eq_ok hfragment
  rw [compileVertex_eq_ok hvertex]
  exact c.functions_vertex_subset registry

end Chain

/-! Merging uniforms adds nothing to those that have all the names. -/

namespace Uniform

theorem firstOfNames_of_taken {taken : List String} {us : List Uniform}
    (htaken : ∀ u ∈ us, u.name ∈ taken) : firstOfNames taken us = [] := by
  induction us with
  | nil => rfl
  | cons u rest ih =>
      rw [List.forall_mem_cons] at htaken
      rw [firstOfNames, if_pos htaken.1]
      exact ih htaken.2

theorem firstOfNames_append {taken : List String} {us more : List Uniform}
    (hnodup : (us.map Uniform.name).Nodup) (hnew : ∀ u ∈ us, u.name ∉ taken)
    (hmore : ∀ u ∈ more, u.name ∈ taken ∨ u.name ∈ us.map Uniform.name) :
    firstOfNames taken (us ++ more) = us := by
  induction us generalizing taken with
  | nil => exact firstOfNames_of_taken (by simpa using hmore)
  | cons u rest ih =>
      rw [List.map_cons, List.nodup_cons] at hnodup
      rw [List.forall_mem_cons] at hnew
      rw [List.cons_append, firstOfNames, if_neg hnew.1, ih hnodup.2]
      · intro v hv hmem
        rcases List.mem_cons.mp hmem with heq | hmem
        · exact hnodup.1 (heq ▸ List.mem_map_of_mem hv)
        · exact hnew.2 v hv hmem
      · intro v hv
        rcases hmore v hv with hmem | hmem
        · exact .inl (List.mem_cons_of_mem _ hmem)
        · rcases List.mem_cons.mp hmem with heq | hmem
          · exact .inl (heq ▸ List.mem_cons_self)
          · exact .inr hmem

end Uniform

namespace Program

theorem mergeUniforms_of_sublist {fragment vertex : Compiled}
    (hnodup : (fragment.uniforms.map Uniform.name).Nodup)
    (hsublist : vertex.uniforms.Sublist fragment.uniforms) :
    mergeUniforms fragment vertex = fragment.uniforms := by
  refine Uniform.firstOfNames_append hnodup (by simp) fun u hu => .inr ?_
  split at hu
  · exact List.mem_map_of_mem (hsublist.subset hu)
  · cases hu

theorem run_build_error {registry : Registry} {c : Chain} {e : CompileError}
    (herror : c.compile registry (.numeric .vec4) = .error e) (options : Options)
    (counters : Counters) : (build registry c options).run counters = (.error e, counters) := by
  unfold build
  rw [herror]
  rfl

theorem run_build_ok {registry : Registry} {c : Chain} {fragment vertex : Compiled}
    (hfragment : c.compile registry (.numeric .vec4) = .ok fragment)
    (hvertex : c.compileVertex registry = .ok vertex) (options : Options) (counters : Counters) :
    (build registry c options).run counters =
      (.ok ⟨fragment.fragmentText options, vertex.vertexText options,
        mergeUniforms fragment vertex, counters.group⟩,
        { counters with group := counters.group + 1 }) := by
  unfold build
  rw [hfragment, hvertex]
  rfl

/-- A program is built if the chain compiles for the fragment stage, and fails to be with the same
error. The vertex stage has no uniforms or transforms but those of the fragment stage, whose
uniforms are the ones of the program. -/
theorem build_agrees (registry : Registry) (c : Chain) (options : Options) (counters : Counters) :
    match c.compile registry (.numeric .vec4) with
    | .error e => (build registry c options).run counters = (.error e, counters)
    | .ok fragment =>
        (fragment.uniforms.map Uniform.name).Nodup ∧
          ∃ vertex, c.compileVertex registry = .ok vertex ∧
            vertex.uniforms.Sublist fragment.uniforms ∧ vertex.functions ⊆ fragment.functions ∧
            (build registry c options).run counters =
              (.ok ⟨fragment.fragmentText options, vertex.vertexText options, fragment.uniforms,
                counters.group⟩, { counters with group := counters.group + 1 }) := by
  cases hfragment : c.compile registry (.numeric .vec4) with
  | error e => exact run_build_error hfragment options counters
  | ok fragment =>
      obtain ⟨vertex, hvertex⟩ := Chain.exists_compileVertex hfragment
      have hnodup := Chain.nodup_compile hfragment
      have hsublist := Chain.compileVertex_sublist hfragment hvertex
      refine ⟨hnodup, vertex, hvertex, hsublist, Chain.compileVertex_subset hfragment hvertex, ?_⟩
      rw [run_build_ok hfragment hvertex, mergeUniforms_of_sublist hnodup hsublist]

end Program

end ShaderChain
