import ShaderChain.Proofs.Resolve.Parts

/-! The uniforms of a compiled chain: one for every signal and texture that is bound somewhere in
it, named by the path that leads there. -/

namespace ShaderChain

/-- Signals and textures are turned into uniforms; numbers stand in the text, and chains are
taken apart. -/
def Part.uniform? : Part → Option Uniform
  | .binding path (.signal signal) =>
      some ⟨Uniform.nameOf path, .numeric .float, .signal signal⟩
  | .binding path (.texture name) => some ⟨Uniform.nameOf path, .texture, .texture name⟩
  | _ => none

theorem Visit.uniform?_eq (v : Visit) : v.uniform? = v.part?.bind Part.uniform? := by
  cases v with
  | node => rfl
  | slot use =>
      obtain ⟨s, arg, slot, bound⟩ := use
      rcases bound with _ | ⟨_ | _ | _ | _⟩ <;> rfl

namespace Chain

variable {registry : Registry} {c : Chain}

theorem uniforms_visits (hc : c.AllChecked registry) :
    Walk.uniforms (c.visits registry .fragment) = c.parts.filterMap Part.uniform? := by
  rw [← parts_visits hc, List.filterMap_filterMap, Walk.uniforms]
  exact congrArg (List.filterMap · _) (funext Visit.uniform?_eq)

theorem nodup_paths_parts (hc : c.AllChecked registry) : (c.parts.filterMap Part.path?).Nodup := by
  -- Every binding is visited with its slot, and some slots have no binding.
  refine List.Sublist.nodup ?_ (c.nodup_paths registry .fragment)
  rw [← parts_visits hc]
  generalize c.visits registry .fragment = visits
  induction visits with
  | nil => exact .slnil
  | cons v visits ih =>
      cases v with
      | node position predecessor applied found => exact ih
      | slot use =>
          obtain ⟨s, arg, slot, bound⟩ := use
          cases bound with
          | none => exact ih.cons _
          | some b => exact ih.cons_cons _

theorem nodup_names_parts (hc : c.AllChecked registry) :
    ((c.parts.filterMap Part.path?).map Uniform.nameOf).Nodup := by
  rw [List.nodup_iff_pairwise_ne, List.pairwise_map]
  refine (nodup_paths_parts hc).imp fun hne heq => hne (Uniform.nameOf_injective heq)

/-- A compiled chain has a uniform for every signal and texture in it and no other, in the order of
the chain's parts. The names of all bindings differ, since they tell the paths. -/
theorem compile_uniforms {target : ValueType} {out : Compiled}
    (hout : c.compile registry target = .ok out) :
    out.uniforms = c.parts.filterMap Part.uniform? ∧
      (∀ path b, .binding path b ∈ c.parts ↔ c.BindsAt path b) ∧
      ((c.parts.filterMap Part.path?).map Uniform.nameOf).Nodup ∧
      ∀ path other, Uniform.nameOf path = Uniform.nameOf other → path = other := by
  obtain ⟨hclean, rfl⟩ := compile_eq_ok hout
  have hc := allChecked_of_clean hclean
  refine ⟨?_, fun _ _ => mem_parts, nodup_names_parts hc, fun _ _ => Uniform.nameOf_injective⟩
  exact (c.uniforms_resources registry .fragment).trans (uniforms_visits hc)

theorem compile_uniforms_sample :
    ∃ out, sample.compile .sample (.numeric .vec4) = .ok out ∧
      out.uniforms = [
        ⟨"u0_0", .texture, .texture "noise"⟩,
        ⟨"u0_1_0_0", .numeric .float, .signal (.live 0)⟩,
        ⟨"u1_0_0_0_0_0", .numeric .float, .signal (.live 0)⟩,
        ⟨"u1_1", .numeric .float, .signal (.live 1)⟩,
        ⟨"u2_0_0_0", .numeric .float, .signal (.live 0)⟩] := by
  obtain ⟨out, hout⟩ := compile_sample (.numeric .vec4)
  refine ⟨out, hout, (compile_uniforms hout).1.trans ?_⟩
  decide +kernel

end Chain

end ShaderChain
