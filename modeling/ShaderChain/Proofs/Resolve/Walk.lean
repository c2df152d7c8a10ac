import ShaderChain.Compile.Compiled
import ShaderChain.Proofs.Chain.Tree

/-! Resolution as a walk over a chain. The walk visits every node and after it the node's slots,
each slot before the chain that is bound to it. Resolution fails with the first error that a
visit shows. Without one it notes what the visits contribute, and its layers can be read off the
chain alone. -/

namespace ShaderChain

/-- A slot of an applied transform with what it is bound to. -/
structure SlotUse where
  site : Site
  arg : Nat
  slot : Slot
  binding : Option Binding

namespace SlotUse

/-- A slot without a default has to be bound, and a texture fits a slot for textures only, which
nothing else fits. -/
def error? (use : SlotUse) : Option CompileError :=
  match use.binding, use.slot.type with
  | none, _ => if use.slot.default.isSome then none else some (use.site.missing use.slot)
  | some (.texture _), .texture => none
  | some (.texture name), .numeric _ => some (use.site.mismatch use.slot (.texture name))
  | some b, .texture => some (use.site.mismatch use.slot b)
  | some _, .numeric _ => none

def uniformName (use : SlotUse) : String :=
  use.site.uniformName use.arg

def uniform? (use : SlotUse) : Option Uniform :=
  match use.binding with
  | some (.signal signal) => some ⟨use.uniformName, .numeric .float, .signal signal⟩
  | some (.texture name) => some ⟨use.uniformName, .texture, .texture name⟩
  | _ => none

end SlotUse

inductive Visit where
  | node (position : Nat) (predecessor : String) (applied : Node) (found : Option Transform)
  | slot (use : SlotUse)

namespace Visit

def error? : Visit → Option CompileError
  | .node position _ applied none =>
      some (.unknownOperation applied.name position applied.chain)
  | .node position predecessor applied (some t) =>
      match Resolve.checkNode t predecessor position applied with
      | .ok () => none
      | .error e => some e
  | .slot use => use.error?

theorem error?_node_eq_none {position : Nat} {predecessor : String} {applied : Node}
    {found : Option Transform} :
    error? (.node position predecessor applied found) = none ↔
      ∃ t, found = some t ∧ ¬(0 < position ∧ t.category.isRootOnly) ∧
        applied.bindings.length ≤ t.slots.length := by
  cases found with
  | none => simp [error?]
  | some t =>
      by_cases hroot : 0 < position ∧ t.category.isRootOnly
      · simp [error?, Resolve.checkNode, hroot]
      · by_cases hcount : t.slots.length < applied.bindings.length
        · simp [error?, Resolve.checkNode, hroot, hcount]
        · have hnone : error? (.node position predecessor applied (some t)) = none := by
            simp [error?, Resolve.checkNode, hroot, hcount]
          exact ⟨fun _ => ⟨t, rfl, hroot, Nat.le_of_not_lt hcount⟩, fun _ => hnone⟩

def uniform? : Visit → Option Uniform
  | .node .. => none
  | .slot use => use.uniform?

def function? : Visit → Option Transform
  | .node _ _ _ found => found
  | .slot _ => none

def use? : Visit → Option SlotUse
  | .node .. => none
  | .slot use => some use

end Visit

/-! What a visit contributes to the resources. -/

namespace Resources

def addUniform? (r : Resources) : Option Uniform → Resources
  | some u => r.addUniform u
  | none => r

def addFunction? (r : Resources) : Option Transform → Resources
  | some t => r.addFunction t
  | none => r

def note (r : Resources) (v : Visit) : Resources :=
  (r.addFunction? v.function?).addUniform? v.uniform?

def noteAll (r : Resources) (visits : List Visit) : Resources :=
  visits.foldl note r

end Resources

namespace Walk

/-- The slots that are left when there are no more bindings. -/
def unbound (s : Site) (arg : Nat) : List Slot → List Visit
  | [] => []
  | slot :: slots => .slot ⟨s, arg, slot, none⟩ :: unbound s (arg + 1) slots

mutual

def nodes (registry : Registry) (stage : Stage) (path : List Nat) (predecessor : String)
    (position : Nat) : List Node → List Visit
  | [] => []
  | node :: rest =>
      match registry.find? node.name with
      | none =>
          .node position predecessor node none ::
            nodes registry stage path predecessor (position + 1) rest
      | some t =>
          if Resolve.keeps stage t.category then
            .node position predecessor node (some t) ::
              (ofNode registry t ⟨t.name, position, path ++ [position]⟩ node ++
                nodes registry stage path node.name (position + 1) rest)
          else nodes registry stage path predecessor (position + 1) rest

def ofNode (registry : Registry) (t : Transform) (s : Site) : Node → List Visit
  | ⟨_, _, bindings, _⟩ => slots registry s 0 t.slots bindings

def slots (registry : Registry) (s : Site) (arg : Nat) (left : List Slot) :
    List Binding → List Visit
  | [] => unbound s arg left
  | b :: rest =>
      match left with
      | [] => []
      | slot :: left =>
          .slot ⟨s, arg, slot, some b⟩ ::
            (ofBinding registry (s.path ++ [arg]) b ++ slots registry s (arg + 1) left rest)

def ofBinding (registry : Registry) (path : List Nat) : Binding → List Visit
  | .literal _ => []
  | .signal _ => []
  | .texture _ => []
  | .chain ⟨_, _, ns, _⟩ => nodes registry .fragment path "" 0 ns

end

/-! The layers of a chain, as they are when resolution finds no error. -/

def defaultInput (slot : Slot) : Input :=
  .literal (slot.default.getD 0.0)

def layerOf (t : Transform) (inputs : List Input) : Layer :=
  if t.category.hasOperand then ⟨t, inputs.head?, inputs.tail⟩ else ⟨t, none, inputs⟩

mutual

def layers (registry : Registry) (stage : Stage) (path : List Nat) (position : Nat) :
    List Node → List Layer
  | [] => []
  | node :: rest =>
      match registry.find? node.name with
      | none => layers registry stage path (position + 1) rest
      | some t =>
          if Resolve.keeps stage t.category then
            layer registry t ⟨t.name, position, path ++ [position]⟩ node ::
              layers registry stage path (position + 1) rest
          else layers registry stage path (position + 1) rest

def layer (registry : Registry) (t : Transform) (s : Site) : Node → Layer
  | ⟨_, _, bindings, _⟩ => layerOf t (inputs registry s 0 t.slots bindings)

def inputs (registry : Registry) (s : Site) (arg : Nat) (left : List Slot) :
    List Binding → List Input
  | [] => left.map defaultInput
  | b :: rest =>
      match left with
      | [] => []
      | _ :: left => input registry s arg b :: inputs registry s (arg + 1) left rest

def input (registry : Registry) (s : Site) (arg : Nat) : Binding → Input
  | .literal value => .literal value
  | .signal _ => .uniform (s.uniformName arg)
  | .texture _ => .uniform (s.uniformName arg)
  | .chain ⟨_, _, ns, getter⟩ =>
      .chain (layers registry .fragment (s.path ++ [arg]) 0 ns) getter

end

@[simp] theorem keeps_fragment (category : Category) :
    Resolve.keeps .fragment category = true := rfl

theorem slots_of_operand {t : Transform} (hoperand : t.category.hasOperand) :
    t.slots = .operand :: t.params.map Param.slot := by
  simp [Transform.slots, Transform.operand?, hoperand]

theorem slots_of_no_operand {t : Transform} (hoperand : ¬t.category.hasOperand) :
    t.slots = t.params.map Param.slot := by
  simp [Transform.slots, Transform.operand?, hoperand]

theorem ofNode_eq (registry : Registry) (t : Transform) (s : Site) (node : Node) :
    ofNode registry t s node = slots registry s 0 t.slots node.bindings := by
  cases node
  rfl

@[simp] theorem layer_transform (registry : Registry) (t : Transform) (s : Site) (node : Node) :
    (layer registry t s node).transform = t := by
  obtain ⟨name, category, bindings, chain⟩ := node
  simp only [layer, layerOf]
  split <;> rfl

theorem layer_of_operand {t : Transform} (hoperand : t.category.hasOperand) (registry : Registry)
    (s : Site) (name : String) (category : Category) (b : Binding) (rest : List Binding)
    (chain : ChainId) :
    layer registry t s ⟨name, category, b :: rest, chain⟩ =
      ⟨t, some (input registry s 0 b), inputs registry s 1 (t.params.map Param.slot) rest⟩ := by
  simp [layer, layerOf, slots_of_operand hoperand, hoperand, inputs]

theorem layer_of_no_operand {t : Transform} (hoperand : ¬t.category.hasOperand)
    (registry : Registry) (s : Site) (node : Node) :
    layer registry t s node =
      ⟨t, none, inputs registry s 0 (t.params.map Param.slot) node.bindings⟩ := by
  obtain ⟨name, category, bindings, chain⟩ := node
  simp [layer, layerOf, slots_of_no_operand hoperand, hoperand]

def Clean (visits : List Visit) : Prop :=
  ∀ v ∈ visits, v.error? = none

theorem clean_iff (visits : List Visit) :
    Clean visits ↔ visits.findSome? Visit.error? = none :=
  List.findSome?_eq_none_iff.symm

@[simp] theorem clean_nil : Clean [] := by
  simp [Clean]

@[simp] theorem clean_cons (v : Visit) (visits : List Visit) :
    Clean (v :: visits) ↔ v.error? = none ∧ Clean visits := by
  simp [Clean]

@[simp] theorem clean_append (first second : List Visit) :
    Clean (first ++ second) ↔ Clean first ∧ Clean second := by
  simp only [Clean, List.mem_append]
  constructor
  · intro hclean
    exact ⟨fun v hv => hclean v (.inl hv), fun v hv => hclean v (.inr hv)⟩
  · rintro ⟨hfirst, hsecond⟩ v (hv | hv)
    · exact hfirst v hv
    · exact hsecond v hv

/-! The first node of a walk for the fragment stage, which leaves none out. -/

theorem nodes_cons {registry : Registry} {node : Node} {t : Transform}
    (hfind : registry.find? node.name = some t) (path : List Nat) (predecessor : String)
    (position : Nat) (rest : List Node) :
    nodes registry .fragment path predecessor position (node :: rest) =
      .node position predecessor node (some t) ::
        (ofNode registry t ⟨t.name, position, path ++ [position]⟩ node ++
          nodes registry .fragment path node.name (position + 1) rest) := by
  simp only [nodes, hfind, keeps_fragment, if_true]

theorem layers_cons {registry : Registry} {node : Node} {t : Transform}
    (hfind : registry.find? node.name = some t) (path : List Nat) (position : Nat)
    (rest : List Node) :
    layers registry .fragment path position (node :: rest) =
      layer registry t ⟨t.name, position, path ++ [position]⟩ node ::
        layers registry .fragment path (position + 1) rest := by
  simp only [layers, hfind, keeps_fragment, if_true]

theorem clean_nodes_cons {registry : Registry} {path : List Nat} {predecessor : String}
    {position : Nat} {node : Node} {rest : List Node}
    (hclean : Clean (nodes registry .fragment path predecessor position (node :: rest))) :
    ∃ t, registry.find? node.name = some t ∧
      Clean (ofNode registry t ⟨t.name, position, path ++ [position]⟩ node) ∧
      Clean (nodes registry .fragment path node.name (position + 1) rest) := by
  cases hfind : registry.find? node.name with
  | none => simp [nodes, hfind, Visit.error?] at hclean
  | some t =>
      rw [nodes_cons hfind, clean_cons, clean_append] at hclean
      exact ⟨t, rfl, hclean.2⟩

/-- The end of a resolution that walks over the visits and gives `a`. -/
def outcome (visits : List Visit) (a : α) (r : Resources) : Except CompileError (α × Resources) :=
  match visits.findSome? Visit.error? with
  | some e => .error e
  | none => .ok (a, r.noteAll visits)

end Walk

end ShaderChain
