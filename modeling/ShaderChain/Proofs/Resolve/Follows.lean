import ShaderChain.Proofs.Registry.Built
import ShaderChain.Proofs.Resolve.Walk

/-! Resolution follows the walk over a chain. -/

namespace ShaderChain

namespace Resources

@[simp] theorem noteAll_nil (r : Resources) : r.noteAll [] = r := rfl

@[simp] theorem noteAll_cons (r : Resources) (v : Visit) (visits : List Visit) :
    r.noteAll (v :: visits) = (r.note v).noteAll visits := rfl

@[simp] theorem noteAll_append (r : Resources) (first second : List Visit) :
    r.noteAll (first ++ second) = (r.noteAll first).noteAll second :=
  List.foldl_append

end Resources

namespace Walk

theorem outcome_of_error {visits : List Visit} {e : CompileError}
    (herror : visits.findSome? Visit.error? = some e) (a : α) (r : Resources) :
    outcome visits a r = .error e := by
  simp [outcome, herror]

theorem outcome_of_no_error {visits : List Visit}
    (hnone : visits.findSome? Visit.error? = none) (a : α) (r : Resources) :
    outcome visits a r = .ok (a, r.noteAll visits) := by
  simp [outcome, hnone]

theorem outcome_append (first second : List Visit) (a : α) (b : β) (r : Resources) :
    outcome (first ++ second) b r = outcome first a r >>= fun x => outcome second b x.2 := by
  cases hfirst : first.findSome? Visit.error? with
  | some e =>
      have hboth : (first ++ second).findSome? Visit.error? = some e := by
        simp [List.findSome?_append, hfirst]
      rw [outcome_of_error hboth, outcome_of_error hfirst]
      rfl
  | none =>
      rw [outcome_of_no_error hfirst]
      simp [outcome, List.findSome?_append, hfirst, bind, Except.bind]

end Walk

namespace Resolve

/-- A computation follows a walk to a result if it ends as the walk says, whatever the resources
are to which it adds. -/
def Follows (m : Resolve α) (visits : List Visit) (a : α) : Prop :=
  ∀ r, m.run r = Walk.outcome visits a r

theorem follows_pure (a : α) : Follows (pure a) [] a :=
  fun _ => rfl

theorem Follows.bind {m : Resolve α} {f : α → Resolve β} {first second : List Visit} {a : α}
    {b : β} (hm : Follows m first a) (hf : Follows (f a) second b) :
    Follows (m >>= f) (first ++ second) b := by
  intro r
  rw [StateT.run_bind, hm r, Walk.outcome_append first second a b r]
  cases hfirst : first.findSome? Visit.error? with
  | some e =>
      rw [Walk.outcome_of_error hfirst]
      rfl
  | none =>
      rw [Walk.outcome_of_no_error hfirst]
      exact hf _

theorem Follows.map {m : Resolve α} {visits : List Visit} {a : α} (hm : Follows m visits a)
    (f : α → β) : Follows (m >>= fun x => pure (f x)) visits (f a) := by
  have hbind := Follows.bind (f := fun x => pure (f x)) hm (follows_pure (f a))
  rwa [List.append_nil] at hbind

/-- What comes after a walk matters only if the walk meets no error. -/
theorem Follows.bind_congr {m : Resolve α} {visits : List Visit} {a : α} (hm : Follows m visits a)
    {f g : α → Resolve β} (hsame : Walk.Clean visits → f a = g a) : m >>= f = m >>= g := by
  apply StateT.ext
  intro r
  rw [StateT.run_bind, StateT.run_bind, hm r]
  cases hfirst : visits.findSome? Visit.error? with
  | some e =>
      rw [Walk.outcome_of_error hfirst]
      rfl
  | none =>
      have hnext := hsame ((Walk.clean_iff visits).mpr hfirst)
      rw [Walk.outcome_of_no_error hfirst]
      exact congrArg (StateT.run · (r.noteAll visits)) hnext

theorem follows_throw {v : Visit} {e : CompileError} (herror : v.error? = some e)
    (visits : List Visit) (a : α) : Follows (throw e) (v :: visits) a := by
  intro r
  rw [Walk.outcome_of_error (by simp [herror] : (v :: visits).findSome? Visit.error? = some e)]
  rfl

theorem follows_modify {v : Visit} {f : Resources → Resources} (hnone : v.error? = none)
    (hnote : ∀ r : Resources, f r = r.note v) : Follows (modify f) [v] () := by
  intro r
  rw [Walk.outcome_of_no_error (by simp [hnone])]
  simp [hnote]
  rfl

/-! The steps of resolution, each with the visits it stands for. -/

theorem follows_unbound (s : Site) (arg : Nat) (p : Param) :
    Follows (unbound s p) [.slot ⟨s, arg, p.slot, none⟩] (Walk.defaultInput p.slot) := by
  obtain ⟨name, kind⟩ := p
  cases kind with
  | numeric type default => intro r; rfl
  | texture => exact follows_throw rfl _ _

theorem follows_unbound_all (s : Site) (arg : Nat) (params : List Param) :
    Follows (params.mapM (unbound s)) (Walk.unbound s arg (params.map Param.slot))
      ((params.map Param.slot).map Walk.defaultInput) := by
  induction params generalizing arg with
  | nil => exact follows_pure []
  | cons p params ih =>
      rw [List.mapM_cons]
      exact (follows_unbound s arg p).bind ((ih (arg + 1)).map _)

theorem follows_hoist (use : SlotUse) {type : ValueType} {value : Uniform.Value}
    (hnone : use.error? = none) (huniform : use.uniform? = some ⟨use.uniformName, type, value⟩) :
    Follows (hoist use.site use.arg type value) [.slot use] (.uniform use.uniformName) := by
  refine Follows.map (m := modify _) (follows_modify (v := .slot use) hnone ?_) _
  intro r
  simp [Resources.note, Visit.function?, Visit.uniform?, huniform, Resources.addFunction?,
    Resources.addUniform?, SlotUse.uniformName]

/-! A node is followed if the chains that it is bound to are. -/

section Nested

variable {registry : Registry}

def NestedFollows (registry : Registry) (c : Chain) : Prop :=
  ∀ path, Follows (nested registry path c) (Walk.ofBinding registry path (.chain c))
    (.chain (Walk.layers registry .fragment path 0 c.nodes) c.getter)

theorem follows_operand (s : Site) (b : Binding)
    (hnested : ∀ c, b = .chain c → NestedFollows registry c) :
    Follows (operand registry s b)
      (.slot ⟨s, 0, .operand, some b⟩ :: Walk.ofBinding registry (s.path ++ [0]) b)
      (Walk.input registry s 0 b) := by
  cases b with
  | literal value => intro r; rfl
  | signal signal => exact follows_hoist ⟨s, 0, .operand, some (.signal signal)⟩ rfl rfl
  | texture name => exact follows_throw rfl _ _
  | chain c => intro r; exact hnested c rfl (s.path ++ [0]) r

theorem follows_argument (s : Site) (arg : Nat) (p : Param) (b : Binding)
    (hnested : ∀ c, b = .chain c → NestedFollows registry c) :
    Follows (argument registry s arg p b)
      (.slot ⟨s, arg, p.slot, some b⟩ :: Walk.ofBinding registry (s.path ++ [arg]) b)
      (Walk.input registry s arg b) := by
  obtain ⟨name, kind⟩ := p
  cases kind with
  | numeric type default =>
      cases b with
      | literal value => intro r; rfl
      | signal signal => exact follows_hoist ⟨s, arg, _, some (.signal signal)⟩ rfl rfl
      | texture name => exact follows_throw rfl _ _
      | chain c => intro r; exact hnested c rfl (s.path ++ [arg]) r
  | texture =>
      cases b with
      | literal value => exact follows_throw rfl _ _
      | signal signal => exact follows_throw rfl _ _
      | texture name => exact follows_hoist ⟨s, arg, _, some (.texture name)⟩ rfl rfl
      | chain c => exact follows_throw rfl _ _

theorem follows_arguments (s : Site) (arg : Nat) (params : List Param) (bindings : List Binding)
    (hnested : ∀ c, Binding.chain c ∈ bindings → NestedFollows registry c) :
    Follows (arguments registry s arg params bindings)
      (Walk.slots registry s arg (params.map Param.slot) bindings)
      (Walk.inputs registry s arg (params.map Param.slot) bindings) := by
  induction bindings generalizing arg params with
  | nil =>
      simp only [arguments, Walk.slots, Walk.inputs]
      exact follows_unbound_all s arg params
  | cons b rest ih =>
      cases params with
      | nil =>
          simp only [arguments, List.map_nil, Walk.slots, Walk.inputs]
          exact follows_pure []
      | cons p params =>
          simp only [arguments, List.map_cons, Walk.slots, Walk.inputs]
          have hfirst := follows_argument s arg p b fun c hc => hnested c (by simp [hc])
          have hrest := ih (arg + 1) params fun c hc => hnested c (by simp [hc])
          exact hfirst.bind (hrest.map _)

theorem follows_layer (t : Transform) (s : Site) (node : Node)
    (hnested : ∀ c, Binding.chain c ∈ node.bindings → NestedFollows registry c) :
    Follows (layer registry t s node) (Walk.ofNode registry t s node)
      (Walk.layer registry t s node) := by
  obtain ⟨name, category, bindings, chain⟩ := node
  by_cases hoperand : t.category.hasOperand
  · have hslots := Walk.slots_of_operand hoperand
    cases bindings with
    | nil =>
        simp only [layer, hoperand, Walk.ofNode, hslots, Walk.slots, Walk.unbound]
        exact follows_throw rfl _ _
    | cons b rest =>
        simp only [layer, hoperand, Walk.ofNode, hslots, Walk.slots, if_true,
          Walk.layer_of_operand hoperand]
        have hfirst := follows_operand s b fun c hc => hnested c (by simp [hc])
        have hrest := follows_arguments s 1 t.params rest fun c hc => hnested c (by simp [hc])
        exact hfirst.bind (hrest.map _)
  · have hslots := Walk.slots_of_no_operand hoperand
    have hall := follows_arguments s 0 t.params bindings hnested
    cases bindings with
    | nil =>
        simp only [layer, hoperand, Walk.ofNode, hslots, Walk.layer_of_no_operand hoperand]
        exact hall.map _
    | cons b rest =>
        simp only [layer, hoperand, Walk.ofNode, hslots, Walk.layer_of_no_operand hoperand]
        exact hall.map _

theorem lift_ok_bind (a : α) (f : α → Resolve β) :
    (liftM (Except.ok a : Except CompileError α) >>= f) = f a := rfl

theorem lift_error_bind (e : CompileError) (f : α → Resolve β) :
    (liftM (Except.error e : Except CompileError α) >>= f) = throw e := rfl

theorem follows_nodes (stage : Stage) (path : List Nat) (predecessor : String) (position : Nat)
    (ns : List Node)
    (hnested : ∀ node ∈ ns, ∀ c, Binding.chain c ∈ node.bindings → NestedFollows registry c) :
    Follows (nodes registry stage path predecessor position ns)
      (Walk.nodes registry stage path predecessor position ns)
      (Walk.layers registry stage path position ns) := by
  induction ns generalizing predecessor position with
  | nil => exact follows_pure []
  | cons node rest ih =>
      have hrest := fun predecessor => ih predecessor (position + 1)
        fun other hother => hnested other (by simp [hother])
      cases hfind : registry.find? node.name with
      | none =>
          -- The walk goes on behind an unknown name, but its first error is this one.
          simp only [nodes, lookup, hfind, Walk.nodes, lift_error_bind]
          exact follows_throw rfl _ _
      | some t =>
          simp only [nodes, lookup, hfind, Walk.nodes, Walk.layers, lift_ok_bind]
          cases hkeeps : keeps stage t.category with
          | false => exact hrest predecessor
          | true =>
              simp only [if_true]
              have hlayer := follows_layer t ⟨t.name, position, path ++ [position]⟩ node
                (hnested node (by simp))
              cases hcheck : checkNode t predecessor position node with
              | error e =>
                  rw [lift_error_bind]
                  exact follows_throw (by simp [Visit.error?, hcheck]) _ _
              | ok checked =>
                  rw [lift_ok_bind]
                  have hnote : Follows (modify fun r : Resources => r.addFunction t)
                      [.node position predecessor node (some t)] () :=
                    follows_modify (by simp [Visit.error?, hcheck]) fun _ => rfl
                  exact hnote.bind (hlayer.bind ((hrest node.name).map _))

end Nested

theorem nested_follows (registry : Registry) (c : Chain) : NestedFollows registry c := by
  induction c using Chain.nestedInduction with
  | step c ih =>
      obtain ⟨id, own, ns, getter⟩ := c
      intro path
      exact (follows_nodes .fragment path "" 0 ns ih).map (Input.chain · getter)

end Resolve

theorem Field.ofLayers_cons (target : ValueType) (f : Field) (layer : Layer) (rest : List Layer) :
    Field.ofLayers target f (layer :: rest) =
      Field.ofLayers target
        (f.compose layer.transform
          (Input.operandAt (Layer.operandTarget layer.transform (Layer.expected target rest))
            layer.operand)
          (Input.arguments layer.transform.params layer.args)) rest := by
  cases layer
  rfl

/-! The outcome of resolving a whole chain. -/

namespace Chain

def visits (registry : Registry) (stage : Stage) (c : Chain) : List Visit :=
  Walk.nodes registry stage [] "" 0 c.nodes

def layers (registry : Registry) (stage : Stage) (c : Chain) : List Layer :=
  Walk.layers registry stage [] 0 c.nodes

def resources (registry : Registry) (stage : Stage) (c : Chain) : Resources :=
  ({} : Resources).noteAll (c.visits registry stage)

def firstError? (registry : Registry) (stage : Stage) (c : Chain) : Option CompileError :=
  (c.visits registry stage).findSome? Visit.error?

theorem resolve_eq_outcome (registry : Registry) (stage : Stage) (c : Chain) :
    c.resolve registry stage =
      Walk.outcome (c.visits registry stage) (c.layers registry stage) {} :=
  Resolve.follows_nodes stage [] "" 0 c.nodes (fun _ _ d _ => Resolve.nested_follows registry d)
    {}

/-- What a chain is compiled to for a stage, unless a walk over it meets an error. -/
def compiledFor (registry : Registry) (stage : Stage) (target : ValueType) (c : Chain) :
    Except CompileError Compiled :=
  match c.firstError? registry stage with
  | some e => .error e
  | none => .ok (.ofLayers c.getter target (c.layers registry stage) (c.resources registry stage))

theorem resolve_bind (registry : Registry) (stage : Stage) (target : ValueType) (c : Chain) :
    (c.resolve registry stage >>= fun (layers, resources) =>
      pure (Compiled.ofLayers c.getter target layers resources)) =
        c.compiledFor registry stage target := by
  rw [resolve_eq_outcome, compiledFor, firstError?]
  cases herror : (c.visits registry stage).findSome? Visit.error? with
  | some e => rw [Walk.outcome_of_error herror]; rfl
  | none => rw [Walk.outcome_of_no_error herror]; rfl

theorem compile_eq (registry : Registry) (c : Chain) (target : ValueType) :
    c.compile registry target = c.compiledFor registry .fragment target :=
  resolve_bind registry .fragment target c

theorem compileVertex_eq (registry : Registry) (c : Chain) :
    c.compileVertex registry =
      checkNames registry 0 c.nodes >>= fun _ => c.compiledFor registry .vertex (.numeric .vec4) := by
  rw [← resolve_bind]
  rfl

theorem compiledFor_eq_ok {registry : Registry} {stage : Stage} {target : ValueType} {c : Chain}
    {out : Compiled} (hout : c.compiledFor registry stage target = .ok out) :
    Walk.Clean (c.visits registry stage) ∧
      out = .ofLayers c.getter target (c.layers registry stage) (c.resources registry stage) := by
  unfold compiledFor at hout
  split at hout
  · cases hout
  · rename_i hnone
    exact ⟨(Walk.clean_iff _).mpr hnone, (Except.ok.inj hout).symm⟩

theorem compiledFor_of_clean {registry : Registry} {stage : Stage} {c : Chain}
    (hclean : Walk.Clean (c.visits registry stage)) (target : ValueType) :
    ∃ out, c.compiledFor registry stage target = .ok out := by
  have hnone : c.firstError? registry stage = none := (Walk.clean_iff _).mp hclean
  rw [compiledFor, hnone]
  exact ⟨_, rfl⟩

theorem exists_compile {registry : Registry} {c : Chain}
    (hnone : c.firstError? registry .fragment = none) (target : ValueType) :
    ∃ out, c.compile registry target = .ok out := by
  rw [compile_eq]
  exact compiledFor_of_clean ((Walk.clean_iff _).mpr hnone) target

theorem compile_eq_ok {registry : Registry} {c : Chain} {target : ValueType} {out : Compiled}
    (hout : c.compile registry target = .ok out) :
    Walk.Clean (c.visits registry .fragment) ∧
      out = .ofLayers c.getter target (c.layers registry .fragment)
        (c.resources registry .fragment) :=
  compiledFor_eq_ok (compile_eq registry c target ▸ hout)

theorem compileVertex_eq_ok {registry : Registry} {c : Chain} {out : Compiled}
    (hout : c.compileVertex registry = .ok out) :
    out = .ofLayers c.getter (.numeric .vec4) (c.layers registry .vertex)
      (c.resources registry .vertex) := by
  rw [compileVertex_eq] at hout
  cases hnames : checkNames registry 0 c.nodes with
  | error e => simp [hnames, bind, Except.bind] at hout
  | ok checked =>
      rw [hnames] at hout
      exact (compiledFor_eq_ok hout).2

/-! A chain that is bound to a texture, to signals and to further chains. -/

def sampleTurn : Chain :=
  ⟨1, .sample, [⟨"rotate", .coordinate, [.signal (.live 0)], 1⟩], some (.leading .float)⟩

def sampleWaves : Chain :=
  ⟨2, .sample,
    [⟨"osc", .source, [.chain sampleTurn], 2⟩, ⟨"rotate", .coordinate, [], 2⟩],
    some (.leading .vec2)⟩

def sample : Chain :=
  ⟨3, .sample,
    [⟨"displaceTexture", .vertex, [.texture "noise", .chain sampleTurn], 3⟩,
      ⟨"modulate", .combineCoordinate, [.chain sampleWaves, .signal (.live 1)], 3⟩,
      ⟨"add", .combine, [.chain sampleTurn, .literal 0.5], 3⟩],
    none⟩

theorem compile_sample (target : ValueType) :
    ∃ out, sample.compile .sample target = .ok out :=
  exists_compile (by decide +kernel) target

end Chain

end ShaderChain
