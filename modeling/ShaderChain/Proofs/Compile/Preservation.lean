import ShaderChain.Proofs.Chain.Meaning
import ShaderChain.Proofs.Compile.Spelling
import ShaderChain.Proofs.Expr.Reading

/-! Compilation preserves meaning. A field means what a chain does if its expression has the
chain's value at every coordinate. Composing layers keeps this. -/

namespace ShaderChain

section Field

variable (I : Interpretation σ) (base : Value σ)

def Field.Means (f : Field) (m : Meaning σ) : Prop :=
  f.type = m.type ∧ ∀ e, (f.value e).eval I base = m.value (e.eval I base)

namespace Field

variable {I base} {f : Field} {m : Meaning σ}

theorem means_identity : Field.identity.Means I base .identity :=
  ⟨rfl, fun _ => rfl⟩

theorem Means.typedAt (hmeans : f.Means I base m) (e : Expr) :
    (f.typedAt e).eval I base = m.sizedAt (e.eval I base) := by
  simp only [Typed.eval, Field.typedAt, Meaning.sizedAt, hmeans.1, hmeans.2]

theorem Means.colorAt (hmeans : f.Means I base m) (e : Expr) :
    (f.colorAt e).eval I base = m.colorAt I (e.eval I base) := by
  rw [Field.colorAt, Typed.eval_color, hmeans.typedAt]
  rfl

theorem Means.compose (hmeans : f.Means I base m) (t : Transform) {operand : Expr → Expr}
    {operandValue : Value σ → Value σ} {args : List Expr} {argValues : List (Value σ)}
    (hoperand : t.category.hasOperand →
      ∀ e, (operand e).eval I base = operandValue (e.eval I base))
    (hargs : Expr.evalList I base args = argValues) :
    (f.compose t operand args).Means I base (m.act I t operandValue argValues) := by
  unfold Field.compose Meaning.act
  cases hcategory : t.category with
  | source | vertex | raw =>
      refine ⟨rfl, fun e => ?_⟩
      simp only [Expr.eval, Expr.evalList, hargs]
  | coordinate =>
      refine ⟨hmeans.1, fun e => ?_⟩
      simp only [hmeans.2, Expr.eval, Expr.evalList, hargs]
  | color =>
      refine ⟨rfl, fun e => ?_⟩
      simp only [hmeans.colorAt, Expr.eval, Expr.evalList, hargs]
  | combine =>
      have hoperand := hoperand (by rw [hcategory]; rfl)
      refine ⟨rfl, fun e => ?_⟩
      simp only [hmeans.colorAt, hoperand, Expr.eval, Expr.evalList, hargs]
  | combineCoordinate =>
      have hoperand := hoperand (by rw [hcategory]; rfl)
      refine ⟨hmeans.1, fun e => ?_⟩
      simp only [hmeans.2, hoperand, Expr.eval, Expr.evalList, hargs]

end Field

end Field

/-! The inputs of a layer mean what is bound to the node, if the chains among it do. -/

section Nested

variable (I : Interpretation σ) (registry : Registry) (base : Value σ)

/-- The layers of a chain that is bound to something mean what its nodes do. -/
def NestedMeans (c : Chain) : Prop :=
  ∀ path target, Walk.Clean (Walk.nodes registry .fragment path "" 0 c.nodes) →
    (Field.ofLayers target .identity (Walk.layers registry .fragment path 0 c.nodes)).Means I base
      (Meaning.ofNodes I registry base target path 0 .identity c.nodes)

variable {I registry base}

theorem eval_uniform (s : Site) (arg : Nat) :
    (Typed.mk .float (.name (s.uniformName arg))).eval I base =
      ⟨.float, I.uniform (s.uniformName arg)⟩ := by
  simp [Typed.eval, Expr.eval, s.uniformName_ne_st arg]

theorem eval_nested {c : Chain} (hnested : NestedMeans I registry base c) (s : Site) (arg : Nat)
    (target : ValueType) (hclean : Walk.Clean (Walk.ofBinding registry (s.path ++ [arg]) (.chain c)))
    (e : Expr) :
    (((Field.ofLayers target .identity
        (Walk.layers registry .fragment (s.path ++ [arg]) 0 c.nodes)).typedAt e).fit
          c.getter target).eval I base =
      Meaning.boundAt I registry base s arg target (.chain c) (e.eval I base) := by
  rw [Typed.eval_fit, (hnested (s.path ++ [arg]) target hclean).typedAt e]
  rfl

theorem eval_operandAt (s : Site) (target : ValueType) (b : Binding)
    (hnested : ∀ c, b = .chain c → NestedMeans I registry base c)
    (hclean : Walk.Clean (Walk.ofBinding registry (s.path ++ [0]) b)) (e : Expr) :
    (Input.operandAt target (some (Walk.input registry s 0 b)) e).eval I base =
      (Meaning.boundAt I registry base s 0 target b (e.eval I base)).color I := by
  cases b with
  | literal value =>
      simp only [Walk.input, Input.operandAt, Typed.eval_color, Typed.eval_widen]
      rfl
  | signal signal =>
      simp only [Walk.input, Input.operandAt, Typed.eval_color, Typed.eval_widen, eval_uniform]
      rfl
  | texture name =>
      simp only [Walk.input, Input.operandAt, Typed.eval_color, Typed.eval_widen, eval_uniform]
      rfl
  | chain c =>
      simp only [Walk.input, Input.operandAt, Typed.eval_color]
      rw [eval_nested (hnested c rfl) s 0 target hclean e]

theorem eval_argument (s : Site) (arg : Nat) (target : ValueType) (b : Binding)
    (hnested : ∀ c, b = .chain c → NestedMeans I registry base c)
    (hclean : Walk.Clean (Walk.ofBinding registry (s.path ++ [arg]) b)) :
    (Input.argument target (Walk.input registry s arg b)).eval I base =
      (Meaning.boundAt I registry base s arg target b base).value := by
  cases b with
  | literal value =>
      simp only [Walk.input, Input.argument, Typed.eval_expr, Typed.eval_widen]
      rfl
  | signal signal =>
      simp only [Walk.input, Input.argument, Typed.eval_expr, Typed.eval_widen, eval_uniform]
      rfl
  | texture name =>
      simp only [Walk.input, Input.argument, Typed.eval_expr, Typed.eval_widen, eval_uniform]
      rfl
  | chain c =>
      simp only [Walk.input, Input.argument, Typed.eval_expr]
      rw [eval_nested (hnested c rfl) s arg target hclean]
      rfl

theorem eval_default (p : Param) :
    (Input.argument p.type (Walk.defaultInput p.slot)).eval I base = Meaning.default I p := by
  simp only [Walk.defaultInput, Input.argument, Typed.eval_expr, Typed.eval_widen]
  rfl

theorem eval_defaults (params : List Param) :
    Expr.evalList I base
        (Input.arguments params ((params.map Param.slot).map Walk.defaultInput)) =
      params.map (Meaning.default I) := by
  induction params with
  | nil => rfl
  | cons p params ih =>
      simp only [List.map_cons, Input.arguments, Expr.evalList, eval_default, ih]

theorem eval_arguments (s : Site) (arg : Nat) (params : List Param) (bindings : List Binding)
    (hnested : ∀ c, Binding.chain c ∈ bindings → NestedMeans I registry base c)
    (hclean : Walk.Clean (Walk.slots registry s arg (params.map Param.slot) bindings)) :
    Expr.evalList I base
        (Input.arguments params
          (Walk.inputs registry s arg (params.map Param.slot) bindings)) =
      Meaning.arguments I registry base s arg params bindings := by
  induction bindings generalizing arg params with
  | nil =>
      simp only [Walk.inputs, Meaning.arguments]
      exact eval_defaults params
  | cons b rest ih =>
      cases params with
      | nil => rfl
      | cons p params =>
          simp only [List.map_cons, Walk.slots, Walk.clean_cons, Walk.clean_append] at hclean
          obtain ⟨-, hbound, hrest⟩ := hclean
          simp only [List.map_cons, Walk.inputs, Input.arguments, Expr.evalList, Meaning.arguments]
          rw [eval_argument s arg p.type b (fun c hc => hnested c (by simp [hc])) hbound,
            ih (arg + 1) params (fun c hc => hnested c (by simp [hc])) hrest]

/-- The node that stands next asks for the same type before and after resolution. -/
theorem expected_layers (target : ValueType) (path : List Nat) (predecessor : String)
    (position : Nat) (ns : List Node)
    (hclean : Walk.Clean (Walk.nodes registry .fragment path predecessor position ns)) :
    Layer.expected target (Walk.layers registry .fragment path position ns) =
      Meaning.expected registry target ns := by
  cases ns with
  | nil => rfl
  | cons node rest =>
      obtain ⟨t, hfind, -, -⟩ := Walk.clean_nodes_cons hclean
      simp only [Walk.layers_cons hfind, Layer.expected, Walk.layer_transform, Meaning.expected,
        hfind]
      cases t.category.consumed? <;> rfl

theorem means_node {f : Field} {m : Meaning σ} (hmeans : f.Means I base m) (t : Transform)
    (s : Site) (expected : ValueType) (node : Node)
    (hnested : ∀ c, Binding.chain c ∈ node.bindings → NestedMeans I registry base c)
    (hclean : Walk.Clean (Walk.ofNode registry t s node)) :
    (f.compose t
      (Input.operandAt (Layer.operandTarget t expected) (Walk.layer registry t s node).operand)
      (Input.arguments t.params (Walk.layer registry t s node).args)).Means I base
        (Meaning.ofNode I registry base t s expected m node) := by
  obtain ⟨name, category, bindings, chain⟩ := node
  by_cases hoperand : t.category.hasOperand
  · simp only [Walk.ofNode, Walk.slots_of_operand hoperand] at hclean
    cases bindings with
    | nil =>
        -- A slot for an operand has no default.
        simp [Walk.slots, Walk.unbound, Visit.error?, SlotUse.error?, Slot.operand] at hclean
    | cons b rest =>
        simp only [Walk.slots, Walk.clean_cons, Walk.clean_append] at hclean
        obtain ⟨-, hbound, hrest⟩ := hclean
        have hvalue := fun target => eval_operandAt s target b
          (fun c hc => hnested c (by simp [hc])) hbound
        have hargs := eval_arguments s 1 t.params rest (fun c hc => hnested c (by simp [hc])) hrest
        rw [Walk.layer_of_operand hoperand]
        cases hcategory : t.category with
        | combine =>
            simp only [Meaning.ofNode, Layer.operandTarget, hcategory]
            exact hmeans.compose t (fun _ => hvalue _) hargs
        | combineCoordinate =>
            simp only [Meaning.ofNode, Layer.operandTarget, hcategory]
            exact hmeans.compose t (fun _ => hvalue _) hargs
        | _ => simp [hcategory, Category.hasOperand] at hoperand
  · simp only [Walk.ofNode, Walk.slots_of_no_operand hoperand] at hclean
    rw [Walk.layer_of_no_operand hoperand, Meaning.ofNode_of_no_operand I registry base hoperand]
    exact hmeans.compose t (fun h => absurd h hoperand)
      (eval_arguments s 0 t.params bindings hnested hclean)

theorem means_nodes {f : Field} {m : Meaning σ} (hmeans : f.Means I base m) (target : ValueType)
    (path : List Nat) (predecessor : String) (position : Nat) (ns : List Node)
    (hnested : ∀ node ∈ ns, ∀ c, Binding.chain c ∈ node.bindings →
      NestedMeans I registry base c)
    (hclean : Walk.Clean (Walk.nodes registry .fragment path predecessor position ns)) :
    (Field.ofLayers target f (Walk.layers registry .fragment path position ns)).Means I base
      (Meaning.ofNodes I registry base target path position m ns) := by
  induction ns generalizing f m predecessor position with
  | nil => exact hmeans
  | cons node rest ih =>
      obtain ⟨t, hfind, hnode, hrest⟩ := Walk.clean_nodes_cons hclean
      have hexpected := expected_layers target path node.name (position + 1) rest hrest
      have hnext := means_node hmeans t ⟨t.name, position, path ++ [position]⟩
        (Meaning.expected registry target rest) node (hnested node (by simp)) hnode
      simp only [Walk.layers_cons hfind, Meaning.ofNodes, hfind, Field.ofLayers_cons, hexpected,
        Walk.layer_transform]
      exact ih hnext node.name (position + 1)
        (fun other hother => hnested other (by simp [hother])) hrest

end Nested

theorem nested_means (I : Interpretation σ) (registry : Registry) (base : Value σ) (c : Chain) :
    NestedMeans I registry base c := by
  induction c using Chain.nestedInduction with
  | step c ih =>
      intro path target hclean
      exact means_nodes Field.means_identity target path "" 0 c.nodes ih hclean

def Chain.meaning (I : Interpretation σ) (registry : Registry) (target : ValueType) (c : Chain)
    (p : Value σ) : Value σ :=
  (((Meaning.ofNodes I registry p target [] 0 .identity c.nodes).sizedAt p).finish I c.getter
    target).value

theorem Chain.eval_ofLayers (I : Interpretation σ) {registry : Registry} {c : Chain}
    (hclean : Walk.Clean (c.visits registry .fragment)) (target : ValueType)
    (resources : Resources) (p : Value σ) :
    (Compiled.ofLayers c.getter target (c.layers registry .fragment) resources).body.eval I p =
      c.meaning I registry target p := by
  have hmeans := nested_means I registry p c [] target hclean
  have hfinish := Typed.eval_finish I p
    ((Field.ofLayers target .identity (c.layers registry .fragment)).typedAt baseCoordinate)
    c.getter target
  rw [Chain.layers, hmeans.typedAt] at hfinish
  exact congrArg Sized.value hfinish

theorem Chain.eval_body {registry : Registry} {c : Chain} {target : ValueType} {out : Compiled}
    (hout : c.compile registry target = .ok out) (I : Interpretation σ) (p : Value σ) :
    out.body.eval I p = c.meaning I registry target p := by
  obtain ⟨hclean, rfl⟩ := Chain.compile_eq_ok hout
  exact Chain.eval_ofLayers I hclean target _ p

theorem Chain.read?_body {registry : Registry} {c : Chain} {target : ValueType} {out : Compiled}
    (hout : c.compile registry target = .ok out) (hbuilt : registry.Built) :
    Term.read? out.body.render = some out.body.term := by
  obtain ⟨-, rfl⟩ := Chain.compile_eq_ok hout
  exact Expr.read?_render (c.spelled_body hbuilt _ _ _)

/-- A compiled chain has the value that the chain means, at every coordinate and under every
interpretation. The same holds of what its text is read as, if the transforms come from
descriptors. -/
theorem Chain.body_means {registry : Registry} {c : Chain} {target : ValueType} {out : Compiled}
    (hout : c.compile registry target = .ok out) (I : Interpretation σ) :
    (∀ p, out.body.eval I p = c.meaning I registry target p) ∧
      (registry.Built → ∃ term, Term.read? out.body.render = some term ∧
        ∀ p, term.eval I p = c.meaning I registry target p) := by
  refine ⟨Chain.eval_body hout I, fun hbuilt => ⟨_, Chain.read?_body hout hbuilt, fun p => ?_⟩⟩
  rw [Expr.eval_term]
  exact Chain.eval_body hout I p

/-- Numbers are read as the lengths of their texts, and functions count what they are applied to. -/
def Interpretation.counting : Interpretation Nat where
  number := String.length
  uniform name := .vector [name.length]
  function symbol args := .vector [symbol.length, args.length]

theorem Chain.body_means_sample :
    ∃ out term, Chain.sample.compile .sample (.numeric .vec4) = .ok out ∧
      Term.read? out.body.render = some term ∧
      term.eval .counting (.vector [1, 2]) =
        Chain.sample.meaning .counting .sample (.numeric .vec4) (.vector [1, 2]) := by
  obtain ⟨out, hout⟩ := Chain.compile_sample (.numeric .vec4)
  obtain ⟨term, hread, hvalue⟩ :=
    (Chain.body_means hout Interpretation.counting).2 Registry.built_sample
  exact ⟨out, term, hout, hread, hvalue _⟩

end ShaderChain
