import ShaderChain.Proofs.Resolve.Follows

/-! Compilation in one pass. The field is composed while the nodes are resolved, and the type that
is asked of a chain is handed down to the chains that its nodes are bound to. The outcome is the same
as when all nodes are resolved first and the field is composed from their layers afterwards. -/

namespace ShaderChain

/-- Composes a field with one more layer, of which a type is asked. -/
def Field.withLayer (prior : Field) (expected : ValueType) (layer : Layer) : Field :=
  prior.compose layer.transform
    (Input.operandAt (Layer.operandTarget layer.transform expected) layer.operand)
    (Input.arguments layer.transform.params layer.args)

namespace OnePass

/-- The transform of the first node that is kept for a stage. -/
def first? (registry : Registry) (stage : Stage) : List Node → Option Transform
  | [] => none
  | node :: rest =>
      match registry.find? node.name with
      | none => none
      | some t => if Resolve.keeps stage t.category then some t else first? registry stage rest

/-- The type that the next node takes, or else what the chain is to give. -/
def lookahead (registry : Registry) (stage : Stage) (target : ValueType) (rest : List Node) :
    ValueType :=
  match (first? registry stage rest).bind (·.category.consumed?) with
  | some type => .numeric type
  | none => target

def number (target : ValueType) (e : Expr) : Typed :=
  (Typed.mk .float e).widen target

def color (value : Typed) : Expr :=
  (value.widen (.numeric .vec4)).expr

/-- Stands for the operand of a transform that has none. -/
def noOperand (_ : Expr) : Expr :=
  .vector .vec4 [.literal 0.0]

def hoist (s : Site) (arg : Nat) (type : ValueType) (value : Uniform.Value) : Resolve Expr := do
  let name := s.uniformName arg
  modify (·.addUniform ⟨name, type, value⟩)
  return .name name

def unbound (s : Site) (p : Param) : Resolve Expr :=
  match p.kind with
  | .numeric type default => return (number (.numeric type) (.literal default)).expr
  | .texture => throw (s.missing p.slot)

mutual

def nodes (registry : Registry) (stage : Stage) (target : ValueType) (path : List Nat)
    (predecessor : String) (position : Nat) (prior : Field) : List Node → Resolve Field
  | [] => return prior
  | node :: rest => do
      let t ← Resolve.lookup registry position node
      if Resolve.keeps stage t.category then
        Resolve.checkNode t predecessor position node
        let expected := lookahead registry stage target rest
        modify (·.addFunction t)
        let field ← OnePass.node registry t ⟨t.name, position, path ++ [position]⟩ expected prior node
        nodes registry stage target path node.name (position + 1) field rest
      else nodes registry stage target path predecessor (position + 1) prior rest

def node (registry : Registry) (t : Transform) (s : Site) (expected : ValueType) (prior : Field) :
    Node → Resolve Field
  | ⟨_, _, [], _⟩ => do
      if t.category.hasOperand then throw (s.missing .operand)
      return prior.compose t noOperand (← t.params.mapM (unbound s))
  | ⟨_, _, b :: rest, _⟩ => do
      if t.category.hasOperand then
        let operand ← OnePass.operand registry s (Layer.operandTarget t expected) b
        return prior.compose t operand (← arguments registry s 1 t.params rest)
      else return prior.compose t noOperand (← arguments registry s 0 t.params (b :: rest))

/-- A chain is kept as a field, to be taken at the coordinate of the node. -/
def operand (registry : Registry) (s : Site) (target : ValueType) : Binding → Resolve (Expr → Expr)
  | .literal value => return fun _ => color (number target (.literal value))
  | .signal signal => do
      let name ← hoist s 0 (.numeric .float) (.signal signal)
      return fun _ => color (number target name)
  | .texture name => throw (s.mismatch .operand (.texture name))
  | .chain ⟨_, _, ns, getter⟩ => do
      let field ← nodes registry .fragment target (s.path ++ [0]) "" 0 .identity ns
      return fun coord => color ((field.typedAt coord).fit getter target)

def arguments (registry : Registry) (s : Site) (arg : Nat) (params : List Param) :
    List Binding → Resolve (List Expr)
  | [] => params.mapM (unbound s)
  | b :: rest =>
      match params with
      | [] => return []
      | p :: params => do
          let first ← argument registry s arg p b
          return first :: (← arguments registry s (arg + 1) params rest)

/-- A chain is taken at the base coordinate. -/
def argument (registry : Registry) (s : Site) (arg : Nat) (p : Param) : Binding → Resolve Expr
  | .literal value =>
      match p.kind with
      | .numeric type _ => return (number (.numeric type) (.literal value)).expr
      | .texture => throw (s.mismatch p.slot (.literal value))
  | .signal signal =>
      match p.kind with
      | .numeric type _ => do
          let name ← hoist s arg (.numeric .float) (.signal signal)
          return (number (.numeric type) name).expr
      | .texture => throw (s.mismatch p.slot (.signal signal))
  | .texture name =>
      match p.kind with
      | .numeric .. => throw (s.mismatch p.slot (.texture name))
      | .texture => hoist s arg .texture (.texture name)
  | .chain ⟨id, own, ns, getter⟩ =>
      match p.kind with
      | .numeric type _ => do
          let target := .numeric type
          let field ← nodes registry .fragment target (s.path ++ [arg]) "" 0 .identity ns
          return ((field.typedAt baseCoordinate).fit getter target).expr
      | .texture => throw (s.mismatch p.slot (.chain ⟨id, own, ns, getter⟩))

end

/-! Each step of the fold is the step of resolution, followed by what is composed from it. -/

section Nested

variable {registry : Registry}

def NestedFactors (registry : Registry) (c : Chain) : Prop :=
  ∀ target path prior, nodes registry .fragment target path "" 0 prior c.nodes =
    Resolve.nodes registry .fragment path "" 0 c.nodes >>= fun layers =>
      pure (Field.ofLayers target prior layers)

theorem operand_factors (s : Site) (target : ValueType) (b : Binding)
    (hnested : ∀ c, b = .chain c → NestedFactors registry c) :
    operand registry s target b =
      Resolve.operand registry s b >>= fun input => pure (Input.operandAt target (some input)) := by
  cases b with
  | literal value => rfl
  | signal signal => rfl
  | texture name => rfl
  | chain c =>
      obtain ⟨id, own, ns, getter⟩ := c
      have hnodes := hnested _ rfl target (s.path ++ [0]) .identity
      simp only [operand, Resolve.operand, Resolve.nested, hnodes, bind_assoc, pure_bind]
      rfl

theorem argument_factors (s : Site) (arg : Nat) (p : Param) (b : Binding)
    (hnested : ∀ c, b = .chain c → NestedFactors registry c) :
    argument registry s arg p b =
      Resolve.argument registry s arg p b >>= fun input => pure (Input.argument p.type input) := by
  obtain ⟨name, kind⟩ := p
  cases kind with
  | texture => cases b <;> rfl
  | numeric type default =>
      cases b with
      | literal value => rfl
      | signal signal => rfl
      | texture name => rfl
      | chain c =>
          obtain ⟨id, own, ns, getter⟩ := c
          have hnodes := hnested _ rfl (.numeric type) (s.path ++ [arg]) .identity
          simp only [argument, Resolve.argument, Resolve.nested, hnodes, bind_assoc, pure_bind]
          rfl

theorem unbound_factors (s : Site) (p : Param) :
    unbound s p = Resolve.unbound s p >>= fun input => pure (Input.argument p.type input) := by
  obtain ⟨name, kind⟩ := p
  cases kind <;> rfl

theorem unbound_all_factors (s : Site) (params : List Param) :
    params.mapM (unbound s) =
      params.mapM (Resolve.unbound s) >>= fun inputs => pure (Input.arguments params inputs) := by
  induction params with
  | nil => rfl
  | cons p params ih =>
      simp only [List.mapM_cons, unbound_factors, ih, bind_assoc, pure_bind, Input.arguments]

theorem arguments_factors (s : Site) (arg : Nat) (params : List Param) (bindings : List Binding)
    (hnested : ∀ c, Binding.chain c ∈ bindings → NestedFactors registry c) :
    arguments registry s arg params bindings =
      Resolve.arguments registry s arg params bindings >>= fun inputs =>
        pure (Input.arguments params inputs) := by
  induction bindings generalizing arg params with
  | nil => exact unbound_all_factors s params
  | cons b rest ih =>
      cases params with
      | nil => rfl
      | cons p params =>
          have hfirst := argument_factors s arg p b fun c hc => hnested c (by simp [hc])
          have hrest := ih (arg + 1) params fun c hc => hnested c (by simp [hc])
          simp only [arguments, Resolve.arguments, hfirst, hrest, bind_assoc, pure_bind,
            Input.arguments]

theorem node_factors (t : Transform) (s : Site) (expected : ValueType) (prior : Field) (n : Node)
    (hnested : ∀ c, Binding.chain c ∈ n.bindings → NestedFactors registry c) :
    node registry t s expected prior n =
      Resolve.layer registry t s n >>= fun layer => pure (prior.withLayer expected layer) := by
  obtain ⟨name, category, bindings, chain⟩ := n
  by_cases hoperand : t.category.hasOperand
  · cases bindings with
    | nil =>
        simp only [node, Resolve.layer, hoperand]
        rfl
    | cons b rest =>
        have hfirst := operand_factors s (Layer.operandTarget t expected) b
          fun c hc => hnested c (by simp [hc])
        have hrest := arguments_factors s 1 t.params rest fun c hc => hnested c (by simp [hc])
        simp only [node, Resolve.layer, hoperand, if_true, hfirst, hrest, bind_assoc, pure_bind]
        rfl
  · have hall := arguments_factors s 0 t.params bindings hnested
    cases bindings with
    | nil =>
        simp only [node, Resolve.layer, hoperand, Bool.false_eq_true, if_false,
          unbound_all_factors, bind_assoc, pure_bind]
        rfl
    | cons b rest =>
        simp only [node, Resolve.layer, hoperand, Bool.false_eq_true, if_false, hall, bind_assoc,
          pure_bind]
        rfl

theorem first?_eq {stage : Stage} {path : List Nat} {predecessor : String} {position : Nat}
    {ns : List Node} (hclean : Walk.Clean (Walk.nodes registry stage path predecessor position ns)) :
    first? registry stage ns =
      (Walk.layers registry stage path position ns).head?.map (·.transform) := by
  induction ns generalizing predecessor position with
  | nil => rfl
  | cons n rest ih =>
      cases hfind : registry.find? n.name with
      | none => simp [Walk.nodes, hfind, Visit.error?] at hclean
      | some t =>
          simp only [Walk.nodes, hfind] at hclean
          simp only [first?, Walk.layers, hfind]
          cases hkeeps : Resolve.keeps stage t.category with
          | true => simp
          | false =>
              rw [hkeeps] at hclean
              exact ih hclean

theorem lookahead_eq (target : ValueType) {stage : Stage} {path : List Nat} {predecessor : String}
    {position : Nat} {ns : List Node}
    (hclean : Walk.Clean (Walk.nodes registry stage path predecessor position ns)) :
    lookahead registry stage target ns =
      Layer.expected target (Walk.layers registry stage path position ns) := by
  rw [lookahead, first?_eq hclean]
  cases Walk.layers registry stage path position ns <;> rfl

theorem nodes_factors (stage : Stage) (target : ValueType) (path : List Nat)
    (predecessor : String) (position : Nat) (prior : Field) (ns : List Node)
    (hnested : ∀ n ∈ ns, ∀ c, Binding.chain c ∈ n.bindings → NestedFactors registry c) :
    nodes registry stage target path predecessor position prior ns =
      Resolve.nodes registry stage path predecessor position ns >>= fun layers =>
        pure (Field.ofLayers target prior layers) := by
  induction ns generalizing predecessor position prior with
  | nil => rfl
  | cons n rest ih =>
      have hrest := fun predecessor prior => ih predecessor (position + 1) prior
        fun other hother => hnested other (by simp [hother])
      cases hfind : registry.find? n.name with
      | none =>
          simp only [nodes, Resolve.nodes, Resolve.lookup, hfind, Resolve.lift_error_bind]
          rfl
      | some t =>
          simp only [nodes, Resolve.nodes, Resolve.lookup, hfind, Resolve.lift_ok_bind]
          cases hkeeps : Resolve.keeps stage t.category with
          | false => exact hrest predecessor prior
          | true =>
              have hnode := fun expected => node_factors t ⟨t.name, position, path ++ [position]⟩
                expected prior n (hnested n (by simp))
              have hfollows := Resolve.follows_nodes stage path n.name (position + 1) rest
                fun _ _ c _ => Resolve.nested_follows registry c
              simp only [if_true, hnode, hrest, bind_assoc, pure_bind]
              refine bind_congr fun _ => bind_congr fun _ => bind_congr fun layer => ?_
              -- The type that the next node takes is known once the nodes behind are resolved.
              refine hfollows.bind_congr fun hclean => ?_
              rw [lookahead_eq target hclean, Field.ofLayers_cons, Field.withLayer]

end Nested

theorem nested_factors (registry : Registry) (c : Chain) : NestedFactors registry c := by
  induction c using Chain.nestedInduction with
  | step c ih =>
      intro target path prior
      exact nodes_factors .fragment target path "" 0 prior c.nodes ih

/-- The fold factors into the two passes, for every field that it starts from. -/
theorem nodes_eq (registry : Registry) (stage : Stage) (target : ValueType) (path : List Nat)
    (predecessor : String) (position : Nat) (prior : Field) (ns : List Node) :
    nodes registry stage target path predecessor position prior ns =
      Resolve.nodes registry stage path predecessor position ns >>= fun layers =>
        pure (Field.ofLayers target prior layers) :=
  nodes_factors stage target path predecessor position prior ns fun _ _ c _ =>
    nested_factors registry c

theorem follows_nodes (registry : Registry) (stage : Stage) (target : ValueType) (path : List Nat)
    (predecessor : String) (position : Nat) (prior : Field) (ns : List Node) :
    Resolve.Follows (nodes registry stage target path predecessor position prior ns)
      (Walk.nodes registry stage path predecessor position ns)
      (Field.ofLayers target prior (Walk.layers registry stage path position ns)) := by
  rw [nodes_eq]
  exact (Resolve.follows_nodes stage path predecessor position ns
    fun _ _ c _ => Resolve.nested_follows registry c).map _

/-- The type that is asked of a chain and the field in front of it reach no check and no
resource. -/
theorem nodes_targets (registry : Registry) (stage : Stage) (first second : ValueType)
    (path : List Nat) (predecessor : String) (position : Nat) (f g : Field) (ns : List Node)
    (r : Resources) :
    ((nodes registry stage first path predecessor position f ns).run r).map Prod.snd =
      ((nodes registry stage second path predecessor position g ns).run r).map Prod.snd := by
  rw [follows_nodes registry stage first path predecessor position f ns r,
    follows_nodes registry stage second path predecessor position g ns r]
  cases herror : (Walk.nodes registry stage path predecessor position ns).findSome? Visit.error? with
  | some e => rw [Walk.outcome_of_error herror, Walk.outcome_of_error herror]
  | none =>
      rw [Walk.outcome_of_no_error herror, Walk.outcome_of_no_error herror]
      rfl

end OnePass

namespace Chain

/-- Compiles a chain for a stage in one pass. -/
def onePass (registry : Registry) (stage : Stage) (target : ValueType) (c : Chain) :
    Except CompileError Compiled := do
  let (field, resources) ←
    (OnePass.nodes registry stage target [] "" 0 .identity c.nodes).run {}
  let value := (field.typedAt baseCoordinate).finish c.getter target
  return {
    body := value.expr
    type := .numeric value.type
    uniforms := resources.uniforms
    functions := resources.functions
    vertexStage := (OnePass.first? registry stage c.nodes).any (·.category = .vertex) }

theorem onePass_eq (registry : Registry) (stage : Stage) (target : ValueType) (c : Chain) :
    c.onePass registry stage target = c.compiledFor registry stage target := by
  rw [onePass, OnePass.follows_nodes registry stage target [] "" 0 .identity c.nodes {},
    compiledFor, firstError?, visits]
  cases herror : (Walk.nodes registry stage [] "" 0 c.nodes).findSome? Visit.error? with
  | some e =>
      rw [Walk.outcome_of_error herror]
      rfl
  | none =>
      rw [Walk.outcome_of_no_error herror, OnePass.first?_eq ((Walk.clean_iff _).mpr herror)]
      have hstage : (((c.layers registry stage).head?.map (·.transform)).any
          (·.category = .vertex)) = Compiled.startsAtVertex (c.layers registry stage) := by
        cases c.layers registry stage <;> rfl
      simp only [Compiled.ofLayers, ← hstage]
      rfl

theorem compile_eq_onePass (registry : Registry) (c : Chain) (target : ValueType) :
    c.compile registry target = c.onePass registry .fragment target := by
  rw [compile_eq, onePass_eq]

/-- The names of all nodes are looked up first, also where the stage leaves the node out. -/
theorem compileVertex_eq_onePass (registry : Registry) (c : Chain) :
    c.compileVertex registry =
      checkNames registry 0 c.nodes >>= fun _ => c.onePass registry .vertex (.numeric .vec4) := by
  rw [compileVertex_eq, onePass_eq]

end Chain

end ShaderChain
