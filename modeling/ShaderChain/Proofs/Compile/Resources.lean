import ShaderChain.Proofs.Compile.Mentions

/-! The resources that are reported with a compiled chain, and what of them its text refers to. -/

namespace ShaderChain

namespace Chain

variable {registry : Registry} {c : Chain}

def liveTransforms (registry : Registry) (c : Chain) : List Transform :=
  (c.liveParts registry).filterMap (Part.transform? registry)

def liveUniforms (registry : Registry) (c : Chain) : List Uniform :=
  (c.liveParts registry).filterMap Part.uniform?

theorem mem_functions_iff_parts (hc : c.AllChecked registry) {t : Transform} :
    t ∈ (c.resources registry .fragment).functions ↔
      t ∈ c.parts.filterMap (Part.transform? registry) := by
  have hsome : t ∈ (c.resources registry .fragment).functions ↔
      some t ∈ (c.resources registry .fragment).functions.map some := by
    simp
  rw [hsome, functions_resources hc, List.mem_map, List.mem_filterMap]
  simp only [List.mem_eraseDups, nodeNames, List.mem_filterMap]
  constructor
  · rintro ⟨name, ⟨part, hpart, hname⟩, hfind⟩
    cases part with
    | node applied => cases hname; exact ⟨_, hpart, hfind⟩
    | binding => cases hname
  · rintro ⟨part, hpart, hfind⟩
    cases part with
    | node applied => exact ⟨applied.name, ⟨_, hpart, rfl⟩, hfind⟩
    | binding => cases hfind

/-- Raw transforms stand first, in the chain and in all chains within it. -/
def RawFirst (registry : Registry) (c : Chain) : Prop :=
  ∀ d, c.Contains d → ∀ node ∈ d.nodes.tail, ∀ t ∈ registry.find? node.name, t.category ≠ .raw

instance (registry : Registry) (c : Chain) : Decidable (c.RawFirst registry) :=
  inferInstanceAs (Decidable (∀ d, c.Contains d →
    ∀ node ∈ d.nodes.tail, ∀ t ∈ registry.find? node.name, t.category ≠ .raw))

theorem parts_subset_liveParts (hc : c.AllChecked registry) (hraw : c.RawFirst registry) :
    c.parts ⊆ c.liveParts registry := by
  refine nodesParts_subset (fun d hd i _ => List.all_eq_true.mpr fun node hmem => ?_) []
  obtain ⟨j, hnode⟩ := List.mem_iff_getElem?.mp hmem
  rw [List.getElem?_drop] at hnode
  obtain ⟨t, hfind, hroot, -⟩ := hc d hd _ _ hnode
  have htail : node ∈ d.nodes.tail := by
    rw [← List.drop_one]
    exact List.mem_of_mem_drop (List.drop_drop ▸ Nat.add_comm i 1 ▸ hmem)
  have hother := hraw d hd node htail t hfind
  have hlater : 0 < i + 1 + j := by omega
  rw [hfind]
  cases hcategory : t.category <;> simp_all [Category.resets, Category.isRootOnly]

/-! The expression of a compiled chain, and the term that is read from its text. -/

section Body

variable (hc : c.AllChecked registry) (target : ValueType) (resources : Resources)
include hc

theorem mem_calls_body {t : Transform} :
    t ∈ (Compiled.ofLayers c.getter target (c.layers registry .fragment) resources).body.calls ↔
      t ∈ c.liveTransforms registry :=
  (mentions_body (m := .call t) trivial hc target resources).trans Part.mem_mentions_call

theorem mem_names_body {n : String} :
    n ∈ (Compiled.ofLayers c.getter target (c.layers registry .fragment) resources).body.names ∧
        n ≠ "st" ↔
      n ∈ (c.liveUniforms registry).map Uniform.name := by
  have hbody (hst : n ≠ "st") := (mentions_body (m := .name n) hst hc target resources).trans
    Part.mem_mentions_name
  constructor
  · rintro ⟨hn, hst⟩
    exact (hbody hst).mp hn
  · intro hn
    have hst : n ≠ "st" := by
      rintro rfl
      obtain ⟨u, hu, heq⟩ := List.mem_map.mp hn
      obtain ⟨part, -, huniform⟩ := List.mem_filterMap.mp hu
      exact Part.name_ne_st huniform heq
    exact ⟨(hbody hst).mpr hn, hst⟩

theorem glsl_of_mem_vectors_body {type : Numeric}
    (htype : type ∈
      (Compiled.ofLayers c.getter target (c.layers registry .fragment) resources).body.vectors) :
    type.glsl ∈ ["vec2", "vec3", "vec4"] := by
  cases type with
  | float =>
      have hmention := (mentions_body (m := .vector .float) rfl hc target resources).mp htype
      exact absurd hmention Part.not_mem_mentions_vector
  | _ => simp [Numeric.glsl]

end Body

/-- A compiled chain comes with the transforms of its nodes, each once, in the order in which they
are first applied. Its expression, as it is read from the text, calls the live ones and mentions
the uniforms of live bindings, and besides them only constructors and the base coordinate. If raw
transforms stand first in their chains, all are live. -/
theorem compile_resources (hbuilt : registry.Built) {target : ValueType} {out : Compiled}
    (hout : c.compile registry target = .ok out) :
    (out.functions.map some = c.nodeNames.eraseDups.map registry.find? ∧
        (out.functions.map Transform.name).Nodup) ∧
      (∀ t, t ∈ out.body.calls ↔ t ∈ c.liveTransforms registry) ∧
      (∃ term, Term.read? out.body.render = some term ∧
        (c.liveTransforms registry).map Transform.symbol ⊆ term.symbols ∧
        (∀ symbol ∈ term.symbols, symbol ∉ ["vec2", "vec3", "vec4"] →
          symbol ∈ (c.liveTransforms registry).map Transform.symbol) ∧
        ∀ name, name ∈ term.names ∧ name ≠ "st" ↔
          name ∈ (c.liveUniforms registry).map Uniform.name) ∧
      (c.liveTransforms registry ⊆ out.functions ∧ c.liveUniforms registry ⊆ out.uniforms) ∧
      (c.RawFirst registry →
        out.functions ⊆ c.liveTransforms registry ∧ out.uniforms ⊆ c.liveUniforms registry) := by
  obtain ⟨hclean, rfl⟩ := compile_eq_ok hout
  have hc := allChecked_of_clean hclean
  have huniforms : (c.resources registry .fragment).uniforms = c.parts.filterMap Part.uniform? :=
    (c.uniforms_resources registry .fragment).trans (uniforms_visits hc)
  refine ⟨⟨functions_resources hc, c.nodup_functions registry .fragment⟩,
    fun t => mem_calls_body hc target _, ?_, ⟨?_, ?_⟩, fun hraw => ⟨?_, ?_⟩⟩
  · refine ⟨_, Expr.read?_render (c.spelled_body hbuilt .fragment target _), ?_, ?_, ?_⟩
    · intro symbol hsymbol
      obtain ⟨t, ht, rfl⟩ := List.mem_map.mp hsymbol
      exact (Expr.mem_symbols_term _).mpr (.inl ⟨t, (mem_calls_body hc target _).mpr ht, rfl⟩)
    · intro symbol hsymbol hconstructor
      rcases (Expr.mem_symbols_term _).mp hsymbol with ⟨t, ht, rfl⟩ | ⟨type, htype, rfl⟩
      · exact List.mem_map_of_mem ((mem_calls_body hc target _).mp ht)
      · exact absurd (glsl_of_mem_vectors_body hc target _ htype) hconstructor
    · intro name
      rw [Expr.names_term]
      exact mem_names_body hc target _
  · intro t ht
    exact (mem_functions_iff_parts hc).mpr
      (List.filterMap_subset _ (liveParts_subset registry c) ht)
  · simp only [Compiled.ofLayers, huniforms]
    exact List.filterMap_subset _ (liveParts_subset registry c)
  · intro t ht
    exact List.filterMap_subset _ (parts_subset_liveParts hc hraw)
      ((mem_functions_iff_parts hc).mp ht)
  · simp only [Compiled.ofLayers, huniforms]
    exact List.filterMap_subset _ (parts_subset_liveParts hc hraw)

/-! The first of two transforms is reported with its uniform, but it is discarded. -/

def samplePainted : Chain :=
  ⟨1, .samplePaint,
    [⟨"flat", .source, [.signal (.live 0)], 1⟩, ⟨"tiles", .raw, [.signal (.live 1)], 1⟩], none⟩

theorem compile_samplePainted (target : ValueType) :
    ∃ out, samplePainted.compile .samplePaint target = .ok out :=
  exists_compile (by decide +kernel) target

theorem compile_resources_samplePainted :
    (∃ out, samplePainted.compile .samplePaint (.numeric .vec4) = .ok out ∧
      out.functions.map some = ["flat", "tiles"].map Registry.samplePaint.find? ∧
      (∀ t, t ∈ out.body.calls ↔ some t = Registry.samplePaint.find? "tiles") ∧
      ∃ term, Term.read? out.body.render = some term ∧
        ∀ name, name ∈ term.names ∧ name ≠ "st" ↔ name = "u1_0") ∧
    ∃ out, sample.compile .sample (.numeric .vec4) = .ok out ∧
      ∀ t ∈ out.functions, t ∈ out.body.calls := by
  refine ⟨?_, ?_⟩
  · obtain ⟨out, hout⟩ := compile_samplePainted (.numeric .vec4)
    obtain ⟨⟨hfunctions, -⟩, hcalls, ⟨term, hterm, -, -, hnames⟩, -⟩ :=
      compile_resources Registry.built_samplePaint hout
    have hnodes : samplePainted.nodeNames.eraseDups = ["flat", "tiles"] := by decide +kernel
    have hlive : (samplePainted.liveTransforms .samplePaint).map some =
      [Registry.samplePaint.find? "tiles"] := by decide +kernel
    have huniforms : (samplePainted.liveUniforms .samplePaint).map Uniform.name = ["u1_0"] := by
      decide +kernel
    refine ⟨out, hout, hnodes ▸ hfunctions, fun t => ?_, term, hterm, fun name => ?_⟩
    · rw [hcalls, ← List.mem_singleton, ← hlive]
      simp
    · rw [hnames, huniforms, List.mem_singleton]
  · obtain ⟨out, hout⟩ := compile_sample (.numeric .vec4)
    obtain ⟨-, hcalls, -, -, hall⟩ := compile_resources Registry.built_sample hout
    exact ⟨out, hout, fun t ht => (hcalls t).mpr ((hall (by decide +kernel)).1 ht)⟩

end Chain

end ShaderChain
