import ShaderChain.Proofs.Resolve.Names
import ShaderChain.Proofs.Resolve.Visited

/-! What a walk notes. The uniforms of a chain are those of its slots, in the order of the walk.
Since no two slots share a name, none is lost. -/

namespace ShaderChain

namespace Walk

def uniforms (visits : List Visit) : List Uniform :=
  visits.filterMap Visit.uniform?

@[simp] theorem uniforms_nil : uniforms [] = [] := rfl

theorem uniforms_cons (v : Visit) (visits : List Visit) :
    uniforms (v :: visits) = v.uniform?.toList ++ uniforms visits := by
  cases huniform : v.uniform? <;> simp [uniforms, huniform]

@[simp] theorem uniforms_append (first second : List Visit) :
    uniforms (first ++ second) = uniforms first ++ uniforms second := by
  simp [uniforms]

end Walk

theorem SlotUse.name_of_uniform? {use : SlotUse} {u : Uniform} (huniform : use.uniform? = some u) :
    u.name = use.uniformName := by
  unfold uniform? at huniform
  split at huniform
  · cases huniform; rfl
  · cases huniform; rfl
  · cases huniform

namespace Walk

theorem exists_use_of_mem_uniforms {visits : List Visit} {u : Uniform} (hu : u ∈ uniforms visits) :
    ∃ use : SlotUse, .slot use ∈ visits ∧ use.uniform? = some u := by
  obtain ⟨v, hv, huniform⟩ := List.mem_filterMap.mp hu
  cases v with
  | node => cases huniform
  | slot use => exact ⟨use, hv, huniform⟩

theorem names_uniforms_sublist (visits : List Visit) :
    ((uniforms visits).map Uniform.name).Sublist
      ((visits.filterMap Visit.use?).map SlotUse.uniformName) := by
  induction visits with
  | nil => exact .slnil
  | cons v visits ih =>
      cases v with
      | node position predecessor applied found => exact ih
      | slot use =>
          rw [uniforms_cons, Visit.uniform?]
          cases huniform : use.uniform? with
          | none => exact ih.cons _
          | some u =>
              simp only [Option.toList_some, List.singleton_append, List.map_cons,
                SlotUse.name_of_uniform? huniform]
              exact ih.cons_cons _

theorem nodup_names {visits : List Visit} (hpaths : (paths visits).Nodup) :
    ((uniforms visits).map Uniform.name).Nodup := by
  -- The names of all slots differ already, also of those without a uniform.
  refine (names_uniforms_sublist visits).nodup ?_
  rw [paths, List.nodup_iff_pairwise_ne, List.pairwise_map] at hpaths
  rw [List.nodup_iff_pairwise_ne, List.pairwise_map]
  exact hpaths.imp fun hne heq => hne (SlotUse.path_of_uniformName_eq heq)

end Walk

namespace Resources

theorem uniforms_addUniform {r : Resources} {u : Uniform} (hnew : u.name ∉ r.uniforms.map (·.name)) :
    (r.addUniform u).uniforms = r.uniforms ++ [u] := by
  have hany : ¬r.uniforms.any (·.name == u.name) := by
    simpa using hnew
  simp [addUniform, hany]

@[simp] theorem uniforms_addFunction? (r : Resources) (found : Option Transform) :
    (r.addFunction? found).uniforms = r.uniforms := by
  cases found with
  | none => rfl
  | some t =>
      simp only [addFunction?, addFunction]
      split <;> rfl

theorem uniforms_note {r : Resources} {v : Visit}
    (hnew : ∀ u, v.uniform? = some u → u.name ∉ r.uniforms.map (·.name)) :
    (r.note v).uniforms = r.uniforms ++ v.uniform?.toList := by
  cases huniform : v.uniform? with
  | none => simp [note, huniform, addUniform?]
  | some u =>
      have hadded := uniforms_addUniform (r := r.addFunction? v.function?) (u := u)
      rw [uniforms_addFunction?] at hadded
      simpa [note, huniform, addUniform?] using hadded (hnew u huniform)

theorem uniforms_noteAll (r : Resources) (visits : List Visit)
    (hnodup : ((r.uniforms ++ Walk.uniforms visits).map Uniform.name).Nodup) :
    (r.noteAll visits).uniforms = r.uniforms ++ Walk.uniforms visits := by
  induction visits generalizing r with
  | nil => simp
  | cons v visits ih =>
      rw [Walk.uniforms_cons, ← List.append_assoc] at hnodup
      have hstep : (r.note v).uniforms = r.uniforms ++ v.uniform?.toList := by
        refine uniforms_note fun u hu hmem => ?_
        rw [hu, List.map_append, List.map_append, List.append_assoc, List.nodup_append] at hnodup
        exact hnodup.2.2 _ hmem u.name (by simp) rfl
      rw [Walk.uniforms_cons, noteAll_cons, ← List.append_assoc, ← hstep]
      exact ih _ (by rwa [hstep])

end Resources

/-! The transforms that are noted. Two of the same name are the same if they come from one
registry. -/

namespace Resources

@[simp] theorem functions_addUniform? (r : Resources) (u : Option Uniform) :
    (r.addUniform? u).functions = r.functions := by
  cases u with
  | none => rfl
  | some u =>
      simp only [addUniform?, addUniform]
      split <;> rfl

theorem mem_addFunction {registry : Registry} {r : Resources} {t : Transform}
    (hr : ∀ u ∈ r.functions, registry.find? u.name = some u)
    (ht : registry.find? t.name = some t) (u : Transform) :
    u ∈ (r.addFunction t).functions ↔ u ∈ r.functions ∨ u = t := by
  unfold addFunction
  split
  · rename_i hany
    obtain ⟨old, hold, hname⟩ := List.any_eq_true.mp hany
    -- The name is taken, but the registry has only one transform for it.
    have hsame : old = t := by
      have hfound := hr old hold
      rw [beq_iff_eq.mp hname, ht] at hfound
      exact (Option.some.inj hfound).symm
    constructor
    · exact .inl
    · rintro (hu | rfl)
      · exact hu
      · exact hsame ▸ hold
  · simp

theorem mem_functions_note {registry : Registry} {r : Resources} {v : Visit}
    (hr : ∀ u ∈ r.functions, registry.find? u.name = some u)
    (hv : ∀ t ∈ v.function?, registry.find? t.name = some t) (u : Transform) :
    u ∈ (r.note v).functions ↔ u ∈ r.functions ∨ v.function? = some u := by
  rw [note, functions_addUniform?]
  cases hfunction : v.function? with
  | none => simp [addFunction?]
  | some t => simp [addFunction?, mem_addFunction hr (hv t hfunction), eq_comm]

theorem mem_functions_noteAll {registry : Registry} {r : Resources} {visits : List Visit}
    (hr : ∀ u ∈ r.functions, registry.find? u.name = some u)
    (hvisits : ∀ v ∈ visits, ∀ t ∈ v.function?, registry.find? t.name = some t) (u : Transform) :
    u ∈ (r.noteAll visits).functions ↔ u ∈ r.functions ∨ ∃ v ∈ visits, v.function? = some u := by
  induction visits generalizing r with
  | nil => simp
  | cons v visits ih =>
      rw [List.forall_mem_cons] at hvisits
      have hnote := mem_functions_note hr hvisits.1
      have hnext : ∀ u ∈ (r.note v).functions, registry.find? u.name = some u := by
        intro u hu
        rcases (hnote u).mp hu with hu | hu
        · exact hr u hu
        · exact hvisits.1 u hu
      rw [noteAll_cons, ih hnext hvisits.2, hnote]
      simp [or_assoc]

end Resources

namespace Chain

theorem nodup_paths (registry : Registry) (stage : Stage) (c : Chain) :
    (Walk.paths (c.visits registry stage)).Nodup :=
  (Walk.apart_nodes stage [] "" 0 c.nodes fun _ _ d _ => Walk.nested_apart registry d).nodup

theorem nodup_names (registry : Registry) (stage : Stage) (c : Chain) :
    ((Walk.uniforms (c.visits registry stage)).map Uniform.name).Nodup :=
  Walk.nodup_names (c.nodup_paths registry stage)

theorem uniforms_resources (registry : Registry) (stage : Stage) (c : Chain) :
    (c.resources registry stage).uniforms = Walk.uniforms (c.visits registry stage) :=
  Resources.uniforms_noteAll {} _ (c.nodup_names registry stage)

theorem mem_functions_resources {registry : Registry} {stage : Stage} {c : Chain} {t : Transform} :
    t ∈ (c.resources registry stage).functions ↔
      ∃ v ∈ c.visits registry stage, v.function? = some t := by
  have hknown : ∀ v ∈ c.visits registry stage, ∀ t ∈ v.function?,
      registry.find? t.name = some t := by
    intro v hv t ht
    obtain ⟨d, -, hown⟩ := Walk.exists_own_of_mem hv
    cases hown with
    | slot => cases ht
    | node hnode =>
        obtain ⟨-, hname⟩ := Registry.mem_transforms_of_find? ht
        rw [hname]
        exact ht
  simp [resources, Resources.mem_functions_noteAll (r := {}) (by simp) hknown]

end Chain

end ShaderChain
