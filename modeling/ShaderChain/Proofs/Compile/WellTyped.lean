import ShaderChain.Program.Text
import ShaderChain.Proofs.Chain.Parts
import ShaderChain.Proofs.Compile.Spelling
import ShaderChain.Proofs.Expr.Reading
import ShaderChain.Proofs.Expr.Typing
import ShaderChain.Proofs.Resolve.Noted

/-! Compiled chains are well typed, unless a getter names components that are not there or leaves
more than fits a parameter. -/

namespace ShaderChain

/-- Whether a transform only changes where the value before it is taken. -/
def Category.movesCoordinate : Category → Bool
  | .coordinate | .combineCoordinate => true
  | _ => false

namespace Chain

/-- The type of a chain's value before its getter. -/
def natural (registry : Registry) (c : Chain) : Numeric :=
  if c.nodes.all fun node => (registry.find? node.name).any (·.category.movesCoordinate) then .vec2
  else .vec4

def ownType (registry : Registry) (c : Chain) : Numeric :=
  match c.getter with
  | some g => g.type
  | none => c.natural registry

theorem two_le_width_natural (registry : Registry) (c : Chain) :
    2 ≤ (c.natural registry).width := by
  unfold natural
  split <;> decide

end Chain

/-- The getter of a bound chain leaves no more components than its slot has. A slot for an operand
has as many as there can be. -/
def Binding.GetterFits (slot : Slot) : Binding → Prop
  | .chain d => ∀ g ∈ d.getter, ∀ width ∈ slot.type.width?, g.components.length ≤ width
  | _ => True

instance (slot : Slot) : (b : Binding) → Decidable (b.GetterFits slot)
  | .chain d => inferInstanceAs
      (Decidable (∀ g ∈ d.getter, ∀ width ∈ slot.type.width?, g.components.length ≤ width))
  | .literal _ | .signal _ | .texture _ => isTrue trivial

/-- The getters in a chain fit the values they select from and the slots they select for. -/
structure Chain.GettersFit (registry : Registry) (c : Chain) : Prop where
  within : ∀ d, c.Contains d → Swizzle.Within d.getter (d.natural registry)
  slots : ∀ d, c.Contains d → ∀ node ∈ d.nodes, ∀ t ∈ registry.find? node.name,
    ∀ pair ∈ t.slots.zip node.bindings, pair.2.GetterFits pair.1

instance (registry : Registry) (c : Chain) : Decidable (c.GettersFit registry) :=
  decidable_of_iff
    ((∀ d, c.Contains d → Swizzle.Within d.getter (d.natural registry)) ∧
      ∀ d, c.Contains d → ∀ node ∈ d.nodes, ∀ t ∈ registry.find? node.name,
        ∀ pair ∈ t.slots.zip node.bindings, pair.2.GetterFits pair.1)
    ⟨fun hfit => ⟨hfit.1, hfit.2⟩, fun hfit => ⟨hfit.within, hfit.slots⟩⟩

theorem Chain.GettersFit.nested {registry : Registry} {c d : Chain} {node : Node}
    (hfit : c.GettersFit registry) (hnode : node ∈ c.nodes)
    (hbinding : Binding.chain d ∈ node.bindings) : d.GettersFit registry :=
  ⟨fun e he => hfit.within e (.of_nested hnode hbinding he),
    fun e he => hfit.slots e (.of_nested hnode hbinding he)⟩

/-! The type of a field depends on the categories of its layers only. -/

theorem Field.type_compose (f : Field) (t : Transform) (operand : Expr → Expr) (args : List Expr) :
    (f.compose t operand args).type = if t.category.movesCoordinate then f.type else .vec4 := by
  unfold Field.compose
  cases t.category <;> rfl

theorem Field.compose_of_resets {t : Transform} (hresets : t.category.resets) (f other : Field)
    (operand : Expr → Expr) (args : List Expr) :
    f.compose t operand args = other.compose t operand args := by
  unfold Field.compose
  cases hcategory : t.category with
  | source | vertex | raw => rfl
  | _ => simp [hcategory, Category.resets] at hresets

theorem Field.type_ofLayers (target : ValueType) (f : Field) (layers : List Layer) :
    (Field.ofLayers target f layers).type =
      if layers.all (·.transform.category.movesCoordinate) then f.type else .vec4 := by
  induction layers generalizing f with
  | nil => rfl
  | cons layer rest ih =>
      rw [Field.ofLayers_cons, ih, Field.type_compose, List.all_cons]
      cases layer.transform.category.movesCoordinate <;> simp

theorem Walk.all_layers {registry : Registry} (p : Transform → Bool) (path : List Nat)
    (predecessor : String) (position : Nat) (ns : List Node)
    (hclean : Clean (nodes registry .fragment path predecessor position ns)) :
    (layers registry .fragment path position ns).all (fun layer => p layer.transform) =
      ns.all fun node => (registry.find? node.name).any p := by
  induction ns generalizing predecessor position with
  | nil => rfl
  | cons node rest ih =>
      obtain ⟨t, hfind, -, hrest⟩ := clean_nodes_cons hclean
      simp only [layers_cons hfind, List.all_cons, layer_transform, hfind, Option.any_some,
        ih node.name (position + 1) hrest]

theorem Chain.type_ofLayers {registry : Registry} (target : ValueType) (path : List Nat) (c : Chain)
    (hclean : Walk.Clean (Walk.nodes registry .fragment path "" 0 c.nodes)) :
    (Field.ofLayers target .identity (Walk.layers registry .fragment path 0 c.nodes)).type =
      c.natural registry := by
  rw [Field.type_ofLayers, Walk.all_layers (·.category.movesCoordinate) path "" 0 c.nodes hclean]
  rfl

/-! Inputs are typed in a context that has the uniforms of their visits. -/

namespace Context

def Covers (Γ : Context) (visits : List Visit) : Prop :=
  ∀ u ∈ Walk.uniforms visits, Γ u.name = some u.type

variable {Γ : Context}

@[simp] theorem covers_cons (v : Visit) (visits : List Visit) :
    Γ.Covers (v :: visits) ↔ (∀ u, v.uniform? = some u → Γ u.name = some u.type) ∧
      Γ.Covers visits := by
  simp [Covers, Walk.uniforms_cons, or_imp, forall_and]

@[simp] theorem covers_append (first second : List Visit) :
    Γ.Covers (first ++ second) ↔ Γ.Covers first ∧ Γ.Covers second := by
  simp [Covers, or_imp, forall_and]

end Context

section Nested

variable (Γ : Context) (registry : Registry)

/-- The layers of a chain that is bound to something are typed, and so is what its getter
selects. -/
structure NestedTyped (c : Chain) : Prop where
  within : Swizzle.Within c.getter (c.natural registry)
  wellTyped : ∀ path target, Walk.Clean (Walk.nodes registry .fragment path "" 0 c.nodes) →
    Γ.Covers (Walk.nodes registry .fragment path "" 0 c.nodes) →
    (Field.ofLayers target .identity (Walk.layers registry .fragment path 0 c.nodes)).WellTyped Γ

variable {Γ registry}

theorem wellTyped_float {e : Expr} (he : e.HasType Γ (.numeric .float)) :
    (Typed.mk .float e).WellTyped Γ :=
  he

theorem hasType_float {e : Expr} (he : e.HasType Γ (.numeric .float)) (type : Numeric) :
    ((Typed.mk .float e).widen (.numeric type)).expr.HasType Γ (.numeric type) := by
  have hwidth : Numeric.float.width ≤ type.width := by cases type <;> decide
  have hwiden := (wellTyped_float he).widen (.numeric type)
  have htype : ((Typed.mk .float e).widen (.numeric type)).type = type :=
    Numeric.wider_of_le hwidth
  rwa [Typed.WellTyped, htype] at hwiden

theorem wellTyped_nested {c : Chain} (hnested : NestedTyped Γ registry c) (path : List Nat)
    (target : ValueType)
    (hclean : Walk.Clean (Walk.ofBinding registry path (.chain c)))
    (hcovers : Γ.Covers (Walk.ofBinding registry path (.chain c))) {e : Expr}
    (he : e.HasType Γ (.numeric .vec2)) :
    (((Field.ofLayers target .identity
      (Walk.layers registry .fragment path 0 c.nodes)).typedAt e).fit c.getter target).WellTyped
        Γ := by
  have htype := c.type_ofLayers target path hclean
  refine Typed.WellTyped.fit (hnested.wellTyped path target hclean hcovers e he) ?_ ?_ target
  · simp only [Field.typedAt, htype, c.two_le_width_natural registry]
  · simp only [Field.typedAt, htype, hnested.within]

theorem hasType_operandAt (s : Site) (target : ValueType) (b : Binding)
    (hnested : ∀ c, b = .chain c → NestedTyped Γ registry c)
    (hclean : Walk.Clean
      (.slot ⟨s, 0, .operand, some b⟩ :: Walk.ofBinding registry (s.path ++ [0]) b))
    (hcovers : Γ.Covers
      (.slot ⟨s, 0, .operand, some b⟩ :: Walk.ofBinding registry (s.path ++ [0]) b)) {e : Expr}
    (he : e.HasType Γ (.numeric .vec2)) :
    (Input.operandAt target (some (Walk.input registry s 0 b)) e).HasType Γ (.numeric .vec4) := by
  rw [Walk.clean_cons] at hclean
  rw [Context.covers_cons] at hcovers
  cases b with
  | literal value =>
      simp only [Walk.input, Input.operandAt]
      exact ((wellTyped_float (.literal value)).widen target).color
  | signal signal =>
      have hname : Expr.HasType Γ (.name (s.uniformName 0)) (.numeric .float) :=
        .name (hcovers.1 _ rfl)
      simp only [Walk.input, Input.operandAt]
      exact ((wellTyped_float hname).widen target).color
  | texture name => cases hclean.1
  | chain c =>
      simp only [Walk.input, Input.operandAt]
      exact (wellTyped_nested (hnested c rfl) _ target hclean.2 hcovers.2 he).color

theorem hasType_argument (hbase : Γ "st" = some (.numeric .vec2)) (s : Site) (arg : Nat) (p : Param)
    (b : Binding) (hnested : ∀ c, b = .chain c → NestedTyped Γ registry c)
    (hfit : b.GetterFits p.slot)
    (hclean : Walk.Clean
      (.slot ⟨s, arg, p.slot, some b⟩ :: Walk.ofBinding registry (s.path ++ [arg]) b))
    (hcovers : Γ.Covers
      (.slot ⟨s, arg, p.slot, some b⟩ :: Walk.ofBinding registry (s.path ++ [arg]) b)) :
    (Input.argument p.type (Walk.input registry s arg b)).HasType Γ p.type := by
  obtain ⟨name, kind⟩ := p
  rw [Walk.clean_cons] at hclean
  rw [Context.covers_cons] at hcovers
  cases kind with
  | numeric type default =>
      cases b with
      | literal value =>
          simp only [Walk.input, Input.argument]
          exact hasType_float (.literal value) type
      | signal signal =>
          simp only [Walk.input, Input.argument]
          exact hasType_float (.name (hcovers.1 _ rfl)) type
      | texture name => cases hclean.1
      | chain c =>
          have hvalue := wellTyped_nested (hnested c rfl) _ (.numeric type) hclean.2 hcovers.2
            (.name hbase)
          rw [Typed.WellTyped, Typed.type_fit _ fun g hg => hfit g hg type.width rfl] at hvalue
          simp only [Walk.input, Input.argument]
          exact hvalue
  | texture =>
      cases b with
      | texture name =>
          simp only [Walk.input, Input.argument]
          exact .name (hcovers.1 _ rfl)
      | _ => cases hclean.1

theorem hasType_default (s : Site) (arg : Nat) (p : Param)
    (hclean : SlotUse.error? ⟨s, arg, p.slot, none⟩ = none) :
    (Input.argument p.type (Walk.defaultInput p.slot)).HasType Γ p.type := by
  obtain ⟨name, kind⟩ := p
  cases kind with
  | numeric type default =>
      simp only [Walk.defaultInput, Input.argument]
      exact hasType_float (.literal _) type
  | texture => cases hclean

theorem haveTypes_defaults (s : Site) (arg : Nat) (params : List Param)
    (hclean : Walk.Clean (Walk.unbound s arg (params.map Param.slot))) :
    Expr.HaveTypes Γ (Input.arguments params ((params.map Param.slot).map Walk.defaultInput))
      (params.map Param.type) := by
  induction params generalizing arg with
  | nil => exact .nil
  | cons p params ih =>
      simp only [List.map_cons, Walk.unbound, Walk.clean_cons] at hclean
      simp only [List.map_cons, Input.arguments]
      exact .cons (hasType_default s arg p hclean.1) (ih (arg + 1) hclean.2)

theorem haveTypes_arguments (hbase : Γ "st" = some (.numeric .vec2)) (s : Site) (arg : Nat)
    (params : List Param) (bindings : List Binding)
    (hnested : ∀ c, Binding.chain c ∈ bindings → NestedTyped Γ registry c)
    (hfit : ∀ pair ∈ (params.map Param.slot).zip bindings, pair.2.GetterFits pair.1)
    (hclean : Walk.Clean (Walk.slots registry s arg (params.map Param.slot) bindings))
    (hcovers : Γ.Covers (Walk.slots registry s arg (params.map Param.slot) bindings)) :
    Expr.HaveTypes Γ
      (Input.arguments params (Walk.inputs registry s arg (params.map Param.slot) bindings))
      (params.map Param.type) := by
  induction bindings generalizing arg params with
  | nil =>
      simp only [Walk.slots] at hclean
      simp only [Walk.inputs]
      exact haveTypes_defaults s arg params hclean
  | cons b rest ih =>
      cases params with
      | nil => exact .nil
      | cons p params =>
          simp only [List.map_cons, Walk.slots] at hclean hcovers
          rw [← List.cons_append, Walk.clean_append] at hclean
          rw [← List.cons_append, Context.covers_append] at hcovers
          simp only [List.map_cons, Walk.inputs, Input.arguments]
          rw [List.map_cons, List.zip_cons_cons, List.forall_mem_cons] at hfit
          exact .cons
            (hasType_argument hbase s arg p b (fun c hc => hnested c (by simp [hc])) hfit.1
              hclean.1 hcovers.1)
            (ih (arg + 1) params (fun c hc => hnested c (by simp [hc])) hfit.2 hclean.2 hcovers.2)

theorem wellTyped_node (hbase : Γ "st" = some (.numeric .vec2)) {f : Field} (hf : f.WellTyped Γ)
    (t : Transform) (s : Site) (target : ValueType) (node : Node)
    (hnested : ∀ c, Binding.chain c ∈ node.bindings → NestedTyped Γ registry c)
    (hfit : ∀ pair ∈ t.slots.zip node.bindings, pair.2.GetterFits pair.1)
    (hclean : Walk.Clean (Walk.ofNode registry t s node))
    (hcovers : Γ.Covers (Walk.ofNode registry t s node)) :
    (f.compose t (Input.operandAt target (Walk.layer registry t s node).operand)
      (Input.arguments t.params (Walk.layer registry t s node).args)).WellTyped Γ := by
  rw [Walk.ofNode_eq] at hclean hcovers
  obtain ⟨name, category, bindings, chain⟩ := node
  by_cases hoperand : t.category.hasOperand
  · rw [Walk.slots_of_operand hoperand] at hfit hclean hcovers
    cases bindings with
    | nil =>
        -- A slot for an operand has no default.
        simp [Walk.slots, Walk.unbound, Visit.error?, SlotUse.error?, Slot.operand] at hclean
    | cons b rest =>
        simp only [Walk.slots] at hclean hcovers
        rw [← List.cons_append, Walk.clean_append] at hclean
        rw [← List.cons_append, Context.covers_append] at hcovers
        rw [List.zip_cons_cons, List.forall_mem_cons] at hfit
        rw [Walk.layer_of_operand hoperand]
        refine hf.compose (fun _ e he => ?_) ?_
        · exact hasType_operandAt s target b (fun c hc => hnested c (by simp [hc])) hclean.1
            hcovers.1 he
        · exact haveTypes_arguments hbase s 1 t.params rest (fun c hc => hnested c (by simp [hc]))
            hfit.2 hclean.2 hcovers.2
  · rw [Walk.slots_of_no_operand hoperand] at hfit hclean hcovers
    rw [Walk.layer_of_no_operand hoperand]
    refine hf.compose (fun h => absurd h hoperand) ?_
    exact haveTypes_arguments hbase s 0 t.params bindings hnested hfit hclean hcovers

/-- What stands before a node that discards it need not be typed. -/
theorem wellTyped_acting (hbase : Γ "st" = some (.numeric .vec2)) {f : Field} (target : ValueType)
    (path : List Nat) (predecessor : String) (position : Nat) (ns : List Node)
    (hf : Chain.actsBefore registry ns → f.WellTyped Γ)
    (hnested : ∀ (i : Nat) (node : Node), ns[i]? = some node →
      Chain.actsBefore registry (ns.drop (i + 1)) →
        ∀ c, Binding.chain c ∈ node.bindings → NestedTyped Γ registry c)
    (hfit : ∀ (i : Nat) (node : Node), ns[i]? = some node →
      Chain.actsBefore registry (ns.drop (i + 1)) → ∀ t, registry.find? node.name = some t →
        ∀ pair ∈ t.slots.zip node.bindings, pair.2.GetterFits pair.1)
    (hclean : Walk.Clean (Walk.nodes registry .fragment path predecessor position ns))
    (hcovers : Γ.Covers (Walk.nodes registry .fragment path predecessor position ns)) :
    (Field.ofLayers target f (Walk.layers registry .fragment path position ns)).WellTyped Γ := by
  induction ns generalizing f predecessor position with
  | nil => exact hf rfl
  | cons node rest ih =>
      obtain ⟨t, hfind, hnode, hrest⟩ := Walk.clean_nodes_cons hclean
      rw [Walk.nodes_cons hfind, Context.covers_cons, Context.covers_append] at hcovers
      rw [Walk.layers_cons hfind, Field.ofLayers_cons, Walk.layer_transform]
      refine ih node.name (position + 1) (fun hacts => ?_) (fun i => hnested (i + 1))
        (fun i => hfit (i + 1)) hrest hcovers.2.2
      have hcompose {prior : Field} (hprior : prior.WellTyped Γ) :=
        wellTyped_node hbase hprior t ⟨t.name, position, path ++ [position]⟩
          (Layer.operandTarget t (Layer.expected target
            (Walk.layers registry .fragment path (position + 1) rest)))
          node (hnested 0 node rfl hacts) (hfit 0 node rfl hacts t hfind) hnode hcovers.2.1
      by_cases hresets : t.category.resets
      · -- The node is typed as if it stood first.
        rw [Field.compose_of_resets hresets f .identity]
        exact hcompose Field.wellTyped_identity
      · exact hcompose (hf ((Chain.actsBefore_cons hfind rest).mpr ⟨hresets, hacts⟩))

theorem nested_typed (hbase : Γ "st" = some (.numeric .vec2)) (c : Chain)
    (hfit : c.GettersFit registry) : NestedTyped Γ registry c := by
  induction c using Chain.nestedInduction with
  | step c ih =>
      refine ⟨hfit.within c .self, fun path target hclean hcovers => ?_⟩
      refine wellTyped_acting hbase target path "" 0 c.nodes (fun _ => Field.wellTyped_identity)
        (fun i node hi _ d hbinding => ?_) (fun i node hi _ => ?_) hclean hcovers
      · have hnode := List.mem_of_getElem? hi
        exact ih node hnode d hbinding (hfit.nested hnode hbinding)
      · exact hfit.slots c .self node (List.mem_of_getElem? hi)

end Nested

/-! The context of a program: the base coordinate and the uniforms it declares. -/

def Compiled.context (out : Compiled) : Context :=
  fun name =>
    if name = "st" then some (.numeric .vec2)
    else (out.uniforms.find? (·.name == name)).map (·.type)

theorem find?_of_nodup_names {us : List Uniform} (hnodup : (us.map Uniform.name).Nodup)
    {u : Uniform} (hu : u ∈ us) : us.find? (·.name == u.name) = some u := by
  induction us with
  | nil => cases hu
  | cons first rest ih =>
      rw [List.map_cons, List.nodup_cons] at hnodup
      rcases List.mem_cons.mp hu with rfl | hu
      · simp
      · have hne : first.name ≠ u.name := by
          intro heq
          exact hnodup.1 (heq ▸ List.mem_map_of_mem hu)
        simp [hne, ih hnodup.2 hu]

theorem covers_context {out : Compiled} {visits : List Visit}
    (huniforms : out.uniforms = Walk.uniforms visits)
    (hnodup : ((Walk.uniforms visits).map Uniform.name).Nodup) : out.context.Covers visits := by
  intro u hu
  obtain ⟨use, -, huse⟩ := Walk.exists_use_of_mem_uniforms hu
  have hne : u.name ≠ "st" := by
    rw [SlotUse.name_of_uniform? huse]
    exact Site.uniformName_ne_st _ _
  simp [Compiled.context, hne, huniforms, find?_of_nodup_names hnodup hu]

theorem Typed.type_finish (v : Typed) (getter : Option Swizzle) (target : ValueType) :
    .numeric (v.finish getter target).type =
      (ValueType.numeric ((getter.map Swizzle.type).getD v.type)).wider target := by
  cases getter <;> cases target <;> rfl

theorem Compiled.type_ofLayers_vec4 (getter : Option Swizzle) (layers : List Layer)
    (resources : Resources) :
    (Compiled.ofLayers getter (.numeric .vec4) layers resources).type = .numeric .vec4 := by
  have hwider (type : Numeric) : (ValueType.numeric type).wider (.numeric .vec4) = .numeric .vec4 := by
    cases type <;> rfl
  exact (Typed.type_finish _ getter (.numeric .vec4)).trans (hwider _)

theorem Compiled.padded_of_vec4 {out : Compiled} (htype : out.type = .numeric .vec4)
    (fill : Binary64) : out.padded fill = out.body.render := by
  simp [Compiled.padded, htype, Expr.coerce, Expr.pad]

namespace Chain

variable {registry : Registry} {c : Chain}

theorem type_compiled (hclean : Walk.Clean (c.visits registry .fragment)) (target : ValueType)
    (resources : Resources) :
    (Compiled.ofLayers c.getter target (c.layers registry .fragment) resources).type =
      (ValueType.numeric (c.ownType registry)).wider target := by
  refine (Typed.type_finish _ c.getter target).trans ?_
  rw [Field.typedAt, Chain.layers, c.type_ofLayers target [] hclean, ownType]
  cases c.getter <;> rfl

theorem hasType_compiled (hclean : Walk.Clean (c.visits registry .fragment))
    (hfit : c.GettersFit registry) (target : ValueType) {Γ : Context}
    (hbase : Γ "st" = some (.numeric .vec2)) (hcovers : Γ.Covers (c.visits registry .fragment))
    (resources : Resources) :
    (Compiled.ofLayers c.getter target (c.layers registry .fragment) resources).body.HasType Γ
      (Compiled.ofLayers c.getter target (c.layers registry .fragment) resources).type := by
  have hnested := nested_typed hbase c hfit
  have htype := c.type_ofLayers target [] hclean
  have hvalue := hnested.wellTyped [] target hclean hcovers baseCoordinate (.name hbase)
  refine Typed.WellTyped.finish hvalue ?_ ?_ target
  · rw [Field.typedAt, htype]
    exact c.two_le_width_natural registry
  · rw [Field.typedAt, htype]
    exact hnested.within

/-- The body of a compiled chain has the type that is reported for it, which is that of the chain
itself or of the target if that is wider. No program has to pad it any further. -/
theorem body_hasType (hbuilt : registry.Built) {target : ValueType} {out : Compiled}
    (hout : c.compile registry target = .ok out) :
    (c.GettersFit registry → out.body.HasType out.context out.type) ∧
      Term.read? out.body.render = some out.body.term ∧
      out.type = (ValueType.numeric (c.ownType registry)).wider target ∧
      (target = .numeric .vec4 →
        out.type = .numeric .vec4 ∧ ∀ fill, out.padded fill = out.body.render) ∧
      ∀ vertex, c.compileVertex registry = .ok vertex →
        vertex.type = .numeric .vec4 ∧ ∀ fill, vertex.padded fill = vertex.body.render := by
  obtain ⟨hclean, rfl⟩ := compile_eq_ok hout
  refine ⟨fun hfit => ?_, Expr.read?_render (c.spelled_body hbuilt _ _ _),
    type_compiled hclean target _, ?_, ?_⟩
  · refine hasType_compiled hclean hfit target rfl ?_ _
    exact covers_context (c.uniforms_resources registry .fragment) (c.nodup_names registry .fragment)
  · rintro rfl
    have htype := Compiled.type_ofLayers_vec4 c.getter (c.layers registry .fragment)
      (c.resources registry .fragment)
    exact ⟨htype, Compiled.padded_of_vec4 htype⟩
  · intro vertex hvertex
    have htype : vertex.type = .numeric .vec4 := by
      rw [compileVertex_eq_ok hvertex]
      exact Compiled.type_ofLayers_vec4 _ _ _
    exact ⟨htype, Compiled.padded_of_vec4 htype⟩

theorem body_hasType_sample :
    Registry.sample.Built ∧ sample.GettersFit .sample ∧
      ∃ out, sample.compile .sample (.numeric .vec4) = .ok out ∧
        out.body.HasType out.context (.numeric .vec4) ∧ out.padded 1.0 = out.body.render := by
  have hfit : sample.GettersFit .sample := by decide +kernel
  obtain ⟨out, hout⟩ := compile_sample (.numeric .vec4)
  obtain ⟨htyped, -, -, hwide, -⟩ := body_hasType Registry.built_sample hout
  obtain ⟨htype, hpadded⟩ := hwide rfl
  exact ⟨Registry.built_sample, hfit, out, hout, htype ▸ htyped hfit, hpadded 1.0⟩

end Chain

end ShaderChain
