import ShaderChain.Proofs.Compile.WellTyped

/-! The target of a compilation. It reaches no check and no resource. The value is padded to it at
the end, and before that it reaches only the operand of a last node that moves the coordinate. -/

namespace ShaderChain

namespace Typed

/-- What a getter selects, or else the whole value. -/
def picked (value : Typed) : Option Swizzle → Typed
  | some getter => value.select getter
  | none => value

theorem finish_eq (value : Typed) (getter : Option Swizzle) (target : ValueType) :
    value.finish getter target = (value.picked getter).widen target := by
  cases getter <;> rfl

end Typed

theorem Category.consumed?_eq_none (category : Category) :
    category.consumed? = none ↔ category.resets := by
  cases category <;> simp [consumed?, resets]

namespace Layer

theorem expected_cons {next : Layer} (hresets : ¬next.transform.category.resets)
    (rest : List Layer) (first second : ValueType) :
    expected first (next :: rest) = expected second (next :: rest) := by
  rw [← Category.consumed?_eq_none] at hresets
  obtain ⟨type, htype⟩ := Option.ne_none_iff_exists'.mp hresets
  simp only [expected, htype]

theorem operandTarget_of_ne {t : Transform} (hcategory : t.category ≠ .combineCoordinate)
    (expected : ValueType) : operandTarget t expected = .numeric .vec4 := by
  unfold operandTarget
  split
  · contradiction
  · rfl

end Layer

namespace Field

theorem ofLayers_of_resets {next : Layer} (hresets : next.transform.category.resets)
    (rest : List Layer) (target : ValueType) (f g : Field) :
    ofLayers target f (next :: rest) = ofLayers target g (next :: rest) := by
  rw [ofLayers_cons, ofLayers_cons, compose_of_resets hresets f g]

theorem ofLayers_of_last {layers : List Layer}
    (hlast : ∀ last ∈ layers.getLast?, last.transform.category ≠ .combineCoordinate)
    (f : Field) (first second : ValueType) :
    ofLayers first f layers = ofLayers second f layers := by
  induction layers generalizing f with
  | nil => rfl
  | cons layer rest ih =>
      cases rest with
      | nil =>
          have hcategory := hlast layer rfl
          rw [ofLayers_cons first f layer, ofLayers_cons second f layer,
            Layer.operandTarget_of_ne hcategory, Layer.operandTarget_of_ne hcategory]
          rfl
      | cons next more =>
          rw [List.getLast?_cons_cons] at hlast
          rw [ofLayers_cons first f layer, ofLayers_cons second f layer]
          by_cases hresets : next.transform.category.resets
          · -- The target does reach this operand, but the next node drops all before it.
            rw [ofLayers_of_resets hresets more first _ f,
              ofLayers_of_resets hresets more second _ f]
            exact ih hlast f
          · rw [Layer.expected_cons hresets more first second]
            exact ih hlast _

end Field

theorem Walk.getLast?_layers {registry : Registry} {path : List Nat} {predecessor : String}
    {position : Nat} {ns : List Node}
    (hclean : Clean (nodes registry .fragment path predecessor position ns)) {last : Layer}
    (hlast : last ∈ (layers registry .fragment path position ns).getLast?) :
    ∃ node ∈ ns.getLast?, registry.find? node.name = some last.transform := by
  induction ns generalizing predecessor position with
  | nil => simp [layers] at hlast
  | cons node rest ih =>
      obtain ⟨t, hfind, -, hrest⟩ := clean_nodes_cons hclean
      rw [layers_cons hfind] at hlast
      cases rest with
      | nil =>
          have hlayer : layer registry t ⟨t.name, position, path ++ [position]⟩ node = last := by
            simpa [layers] using hlast
          rw [← hlayer, layer_transform]
          exact ⟨node, rfl, hfind⟩
      | cons next more =>
          obtain ⟨u, hnext, -, -⟩ := clean_nodes_cons hrest
          rw [layers_cons hnext, List.getLast?_cons_cons, ← layers_cons hnext] at hlast
          rw [List.getLast?_cons_cons]
          exact ih hrest hlast

/-- The expression is a value that was padded to the target. -/
structure Compiled.Pads (out : Compiled) (value : Typed) (target : ValueType) : Prop where
  body : out.body = (value.widen target).expr
  type : out.type = .numeric (value.widen target).type

namespace Chain

/-- The value of a chain before it is padded to the target. -/
def unpadded (registry : Registry) (c : Chain) (target : ValueType) :
    Except CompileError Typed := do
  let (layers, _) ← c.resolve registry .fragment
  return ((Field.ofLayers target .identity layers).typedAt baseCoordinate).picked c.getter

variable {registry : Registry} {c : Chain}

theorem unpadded_of_clean (hclean : Walk.Clean (c.visits registry .fragment))
    (target : ValueType) :
    c.unpadded registry target =
      .ok (((Field.ofLayers target .identity (c.layers registry .fragment)).typedAt
        baseCoordinate).picked c.getter) := by
  have hnone := (Walk.clean_iff _).mp hclean
  rw [unpadded, resolve_eq_outcome, Walk.outcome_of_no_error hnone]
  rfl

theorem exists_unpadded {target : ValueType} {out : Compiled}
    (hout : c.compile registry target = .ok out) :
    ∃ value, c.unpadded registry target = .ok value ∧ out.Pads value target := by
  obtain ⟨hclean, rfl⟩ := compile_eq_ok hout
  refine ⟨_, unpadded_of_clean hclean target, ?_, ?_⟩
  · rw [← Typed.finish_eq]
    rfl
  · rw [← Typed.finish_eq]
    rfl

/-- The last node does not move the coordinate by the value of another chain. -/
def EndsFixed (registry : Registry) (c : Chain) : Prop :=
  ∀ node ∈ c.nodes.getLast?, ∀ t, registry.find? node.name = some t →
    t.category ≠ .combineCoordinate

theorem EndsFixed.unpadded_eq (hends : c.EndsFixed registry)
    (hclean : Walk.Clean (c.visits registry .fragment)) (first second : ValueType) :
    c.unpadded registry first = c.unpadded registry second := by
  have hlast : ∀ last ∈ (c.layers registry .fragment).getLast?,
      last.transform.category ≠ .combineCoordinate := by
    intro last hmem
    obtain ⟨node, hnode, hfind⟩ := Walk.getLast?_layers hclean hmem
    exact hends node hnode _ hfind
  rw [unpadded_of_clean hclean, unpadded_of_clean hclean,
    Field.ofLayers_of_last hlast _ first second]

/-- Two targets meet the same error, or else the same uniforms, functions and stage. Unless the last
node moves the coordinate by the value of another chain, they also have the same value to pad. -/
theorem compile_targets (registry : Registry) (c : Chain) (first second : ValueType) :
    (∃ e, c.compile registry first = .error e ∧ c.compile registry second = .error e) ∨
      ∃ a b v w, c.compile registry first = .ok a ∧ c.compile registry second = .ok b ∧
        a.uniforms = b.uniforms ∧ a.functions = b.functions ∧ a.vertexStage = b.vertexStage ∧
        c.unpadded registry first = .ok v ∧ a.Pads v first ∧
        c.unpadded registry second = .ok w ∧ b.Pads w second ∧
        (c.EndsFixed registry → v = w) := by
  cases herror : c.firstError? registry .fragment with
  | some e =>
      left
      have hfails (target : ValueType) : c.compile registry target = .error e := by
        rw [compile_eq, compiledFor, herror]
      exact ⟨e, hfails first, hfails second⟩
  | none =>
      right
      obtain ⟨a, ha⟩ := exists_compile herror first
      obtain ⟨b, hb⟩ := exists_compile herror second
      obtain ⟨v, hv, hpadsFirst⟩ := exists_unpadded ha
      obtain ⟨w, hw, hpadsSecond⟩ := exists_unpadded hb
      obtain ⟨hclean, rfl⟩ := compile_eq_ok ha
      obtain ⟨-, rfl⟩ := compile_eq_ok hb
      refine ⟨_, _, v, w, ha, hb, rfl, rfl, rfl, hv, hpadsFirst, hw, hpadsSecond, ?_⟩
      intro hends
      rw [hends.unpadded_eq hclean first second, hw] at hv
      exact (Except.ok.inj hv).symm

theorem endsFixed_sample : sample.EndsFixed .sample := by
  intro node hnode t hfind
  cases hnode
  cases hfind
  nofun

theorem compile_targets_sample :
    sample.EndsFixed .sample ∧ ∃ a b v,
      sample.compile .sample .texture = .ok a ∧
        sample.compile .sample (.numeric .vec2) = .ok b ∧
        a.uniforms = b.uniforms ∧ a.functions = b.functions ∧ a.vertexStage = b.vertexStage ∧
        a.Pads v .texture ∧ b.Pads v (.numeric .vec2) := by
  refine ⟨endsFixed_sample, ?_⟩
  rcases compile_targets .sample sample .texture (.numeric .vec2) with ⟨e, hfails, -⟩ | hok
  · obtain ⟨out, hout⟩ := compile_sample .texture
    rw [hout] at hfails
    cases hfails
  · obtain ⟨a, b, v, w, ha, hb, huniforms, hfunctions, hstage, -, hfirst, -, hsecond, hsame⟩ := hok
    obtain rfl := hsame endsFixed_sample
    exact ⟨a, b, v, ha, hb, huniforms, hfunctions, hstage, hfirst, hsecond⟩

/-- The last node moves the coordinate by a color, or by the part of it that the target has. -/
def sampleMoved : Chain :=
  ⟨2, .sample,
    [⟨"rotate", .coordinate, [], 2⟩,
      ⟨"modulate", .combineCoordinate,
        [.chain ⟨1, .sample, [⟨"osc", .source, [], 1⟩], none⟩], 2⟩],
    none⟩

example :
    (sampleMoved.unpadded .sample (.numeric .vec2)).toOption.map (·.expr.render) ≠
      (sampleMoved.unpadded .sample (.numeric .vec4)).toOption.map (·.expr.render) := by
  decide +kernel

end Chain

end ShaderChain
