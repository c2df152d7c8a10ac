import ShaderChain.Proofs.Expr.Token
import ShaderChain.Proofs.Registry.Built
import ShaderChain.Proofs.Resolve.Follows
import ShaderChain.Proofs.Resolve.Names

/-! What compiled expressions are written with: transforms of the registry, uniforms and the base
coordinate. -/

namespace ShaderChain

def Registry.Knows (registry : Registry) (t : Transform) : Prop :=
  ∃ name, registry.find? name = some t

def IsVariable (n : String) : Prop :=
  n = "st" ∨ ∃ (s : Site) (arg : Nat), n = s.uniformName arg

theorem isVariable_uniformName (s : Site) (arg : Nat) : IsVariable (s.uniformName arg) :=
  .inr ⟨s, arg, rfl⟩

theorem isIdentifier_of_isVariable {n : String} (hn : IsVariable n) :
    Text.isIdentifier n.toList := by
  rcases hn with rfl | ⟨s, arg, rfl⟩
  · decide +kernel
  · exact s.isIdentifier_uniformName arg

/-- Wherever an input stands, it adds known transforms and variables only. -/
def Input.Proper (registry : Registry) (input : Input) : Prop :=
  ∀ target,
    (∀ e : Expr, e.Only registry.Knows IsVariable →
      (Input.operandAt target (some input) e).Only registry.Knows IsVariable) ∧
    (Input.argument target input).Only registry.Knows IsVariable

section Nested

variable {registry : Registry}

def NestedProper (registry : Registry) (c : Chain) : Prop :=
  ∀ path target,
    (Field.ofLayers target .identity (Walk.layers registry .fragment path 0 c.nodes)).Only
      registry.Knows IsVariable

theorem only_baseCoordinate : baseCoordinate.Only registry.Knows IsVariable :=
  (Expr.only_name _).mpr (.inl rfl)

theorem proper_literal (value : Binary64) : (Input.literal value).Proper registry := by
  intro target
  have hvalue := Typed.only_widen (v := ⟨.float, .literal value⟩) (p := registry.Knows)
    (q := IsVariable) (Expr.only_literal value) target
  exact ⟨fun e _ => by simpa [Input.operandAt] using Typed.only_widen hvalue _, by
    simpa [Input.argument] using hvalue⟩

theorem proper_input (s : Site) (arg : Nat) (b : Binding)
    (hnested : ∀ c, b = .chain c → NestedProper registry c) :
    (Walk.input registry s arg b).Proper registry := by
  have huniform : (Input.uniform (s.uniformName arg)).Proper registry := by
    intro target
    have hvalue := Typed.only_widen (v := ⟨.float, .name (s.uniformName arg)⟩)
      (p := registry.Knows) (q := IsVariable)
      ((Expr.only_name _).mpr (isVariable_uniformName s arg)) target
    exact ⟨fun e _ => by simpa [Input.operandAt] using Typed.only_widen hvalue _, by
      simpa [Input.argument] using hvalue⟩
  cases b with
  | literal value => exact proper_literal value
  | signal signal => exact huniform
  | texture name => exact huniform
  | chain c =>
      intro target
      have hfield := hnested c rfl (s.path ++ [arg]) target
      have hfit (e : Expr) (he : e.Only registry.Knows IsVariable) :=
        Typed.only_fit (v := Field.typedAt _ e) (hfield e he) c.getter target
      simp only [Walk.input, Input.operandAt, Input.argument]
      exact ⟨fun e he => Typed.only_widen (hfit e he) _, hfit _ only_baseCoordinate⟩

theorem proper_inputs (s : Site) (arg : Nat) (slots : List Slot) (bindings : List Binding)
    (hnested : ∀ c, Binding.chain c ∈ bindings → NestedProper registry c) :
    ∀ input ∈ Walk.inputs registry s arg slots bindings, input.Proper registry := by
  induction bindings generalizing arg slots with
  | nil =>
      intro input hinput
      simp only [Walk.inputs, List.mem_map] at hinput
      obtain ⟨slot, -, rfl⟩ := hinput
      exact proper_literal _
  | cons b rest ih =>
      cases slots with
      | nil => simp [Walk.inputs]
      | cons slot slots =>
          simp only [Walk.inputs, List.forall_mem_cons]
          exact ⟨proper_input s arg b fun c hc => hnested c (by simp [hc]),
            ih (arg + 1) slots fun c hc => hnested c (by simp [hc])⟩

theorem only_arguments (params : List Param) (inputs : List Input)
    (hinputs : ∀ input ∈ inputs, input.Proper registry) :
    ∀ e ∈ Input.arguments params inputs, e.Only registry.Knows IsVariable := by
  induction inputs generalizing params with
  | nil => simp [Input.arguments]
  | cons input rest ih =>
      rw [List.forall_mem_cons] at hinputs
      cases params with
      | nil => simp [Input.arguments]
      | cons p params =>
          simp only [Input.arguments, List.forall_mem_cons]
          exact ⟨(hinputs.1 p.type).2, ih params hinputs.2⟩

theorem only_layer {f : Field} (hf : f.Only registry.Knows IsVariable) {t : Transform}
    (ht : registry.Knows t) (s : Site) (target : ValueType) (node : Node)
    (hnested : ∀ c, Binding.chain c ∈ node.bindings → NestedProper registry c) :
    (f.compose t (Input.operandAt target (Walk.layer registry t s node).operand)
      (Input.arguments t.params (Walk.layer registry t s node).args)).Only
        registry.Knows IsVariable := by
  obtain ⟨name, category, bindings, chain⟩ := node
  have hinputs := proper_inputs s 0 t.slots bindings hnested
  have hnone (e : Expr) : (Input.operandAt target none e).Only registry.Knows IsVariable := by
    simp [Input.operandAt]
  simp only [Walk.layer, Walk.layerOf]
  split
  · refine hf.compose ht ?_ (only_arguments _ _ fun i hi => hinputs i (List.mem_of_mem_tail hi))
    intro e he
    cases hhead : (Walk.inputs registry s 0 t.slots bindings).head? with
    | none => exact hnone e
    | some operand => exact (hinputs operand (List.mem_of_mem_head? hhead) target).1 e he
  · exact hf.compose ht (fun e _ => hnone e) (only_arguments _ _ hinputs)

theorem only_nodes {f : Field} (hf : f.Only registry.Knows IsVariable) (stage : Stage)
    (target : ValueType) (path : List Nat) (position : Nat) (ns : List Node)
    (hnested : ∀ node ∈ ns, ∀ c, Binding.chain c ∈ node.bindings → NestedProper registry c) :
    (Field.ofLayers target f (Walk.layers registry stage path position ns)).Only
      registry.Knows IsVariable := by
  induction ns generalizing f position with
  | nil => exact hf
  | cons node rest ih =>
      have hrest : ∀ other ∈ rest, ∀ c, Binding.chain c ∈ other.bindings →
          NestedProper registry c :=
        fun other hother => hnested other (by simp [hother])
      cases hfind : registry.find? node.name with
      | none =>
          simp only [Walk.layers, hfind]
          exact ih hf (position + 1) hrest
      | some t =>
          simp only [Walk.layers, hfind]
          split
          · rw [Field.ofLayers_cons, Walk.layer_transform]
            exact ih (only_layer hf ⟨_, hfind⟩ _ _ node (hnested node (by simp))) (position + 1)
              hrest
          · exact ih hf (position + 1) hrest

end Nested

theorem nested_proper (registry : Registry) (c : Chain) : NestedProper registry c := by
  induction c using Chain.nestedInduction with
  | step c ih =>
      intro path target
      exact only_nodes (fun _ he => he) .fragment target path 0 c.nodes ih

theorem Chain.only_body (registry : Registry) (stage : Stage) (c : Chain) (target : ValueType)
    (resources : Resources) :
    (Compiled.ofLayers c.getter target (c.layers registry stage) resources).body.Only
      registry.Knows IsVariable :=
  Typed.only_finish
    (only_nodes (fun _ he => he) stage target [] 0 c.nodes
      (fun _ _ d _ => nested_proper registry d) _ only_baseCoordinate)
    c.getter target

theorem Chain.spelled_body {registry : Registry} (hbuilt : registry.Built) (stage : Stage)
    (c : Chain) (target : ValueType) (resources : Resources) :
    (Compiled.ofLayers c.getter target (c.layers registry stage) resources).body.Spelled := by
  obtain ⟨hcalls, hnames⟩ := c.only_body registry stage target resources
  refine ⟨fun t ht => ?_, fun n hn => isIdentifier_of_isVariable (hnames n hn)⟩
  obtain ⟨name, hfind⟩ := hcalls t ht
  exact hbuilt.isIdentifier_symbol t (Registry.mem_transforms_of_find? hfind).1

end ShaderChain
