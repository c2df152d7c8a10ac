import ShaderChain.Compile.Resources
import ShaderChain.Proofs.Chain.Tree

/-! The parts of a chain: its nodes and what they are bound to, with the parts of the chains that
are bound to something, in the order in which they are written. -/

namespace ShaderChain

inductive Part where
  | node (applied : Node)
  /-- The path has the indices of a node and an argument for every chain on the way. -/
  | binding (path : List Nat) (bound : Binding)

def Part.path? : Part → Option (List Nat)
  | .node _ => none
  | .binding path _ => some path

def Part.name? : Part → Option String
  | .node applied => some applied.name
  | .binding .. => none

namespace Chain

/-! A node stands before what it is bound to, and the parts of a chain right behind its binding. A
node is left out with all that it is bound to if it does not act, which the nodes behind it
decide. -/

mutual

def nodesParts (acts : List Node → Bool) (path : List Nat) (position : Nat) :
    List Node → List Part
  | [] => []
  | ⟨name, category, bindings, chain⟩ :: rest =>
      (if acts rest then
        .node ⟨name, category, bindings, chain⟩ ::
          bindingsParts acts (path ++ [position]) 0 bindings
      else []) ++ nodesParts acts path (position + 1) rest

def bindingsParts (acts : List Node → Bool) (path : List Nat) (arg : Nat) :
    List Binding → List Part
  | [] => []
  | b :: rest =>
      .binding (path ++ [arg]) b ::
        (bindingParts acts (path ++ [arg]) b ++ bindingsParts acts path (arg + 1) rest)

def bindingParts (acts : List Node → Bool) (path : List Nat) : Binding → List Part
  | .literal _ => []
  | .signal _ => []
  | .texture _ => []
  | .chain ⟨_, _, ns, _⟩ => nodesParts acts path 0 ns

end

def allAct (_ : List Node) : Bool :=
  true

def parts (c : Chain) : List Part :=
  nodesParts allAct [] 0 c.nodes

/-- The names of the transforms in a chain, as often as they are applied. -/
def nodeNames (c : Chain) : List String :=
  c.parts.filterMap Part.name?

/-- A node acts unless one behind it discards all before. -/
def actsBefore (registry : Registry) (later : List Node) : Bool :=
  later.all fun node => !(registry.find? node.name).any (·.category.resets)

theorem actsBefore_cons {registry : Registry} {node : Node} {t : Transform}
    (hfind : registry.find? node.name = some t) (rest : List Node) :
    actsBefore registry (node :: rest) ↔ ¬t.category.resets ∧ actsBefore registry rest := by
  simp [actsBefore, hfind]

/-- The parts that a chain's value depends on. -/
def liveParts (registry : Registry) (c : Chain) : List Part :=
  nodesParts (actsBefore registry) [] 0 c.nodes

variable {acts : List Node → Bool} {part : Part}

theorem nodesParts_cons (acts : List Node → Bool) (path : List Nat) (position : Nat) (node : Node)
    (rest : List Node) :
    nodesParts acts path position (node :: rest) =
      (if acts rest then
        .node node :: bindingsParts acts (path ++ [position]) 0 node.bindings
      else []) ++ nodesParts acts path (position + 1) rest := by
  cases node
  rfl

theorem mem_nodesParts {path : List Nat} {position : Nat} {ns : List Node} :
    part ∈ nodesParts acts path position ns ↔
      ∃ i node, ns[i]? = some node ∧ acts (ns.drop (i + 1)) ∧
        (part = .node node ∨
          part ∈ bindingsParts acts (path ++ [position + i]) 0 node.bindings) := by
  induction ns generalizing position with
  | nil => simp [nodesParts]
  | cons node rest ih =>
      rw [nodesParts_cons, List.mem_append, ih]
      constructor
      · rintro (hpart | ⟨i, other, hother, hacts, hpart⟩)
        · split at hpart
          · rename_i hacts
            exact ⟨0, node, rfl, hacts, List.mem_cons.mp hpart⟩
          · cases hpart
        · refine ⟨i + 1, other, hother, hacts, ?_⟩
          rwa [show position + (i + 1) = position + 1 + i by omega]
      · rintro ⟨i, other, hother, hacts, hpart⟩
        cases i with
        | zero =>
            cases hother
            have hrest : acts rest := hacts
            rw [if_pos hrest]
            exact .inl (List.mem_cons.mpr hpart)
        | succ i =>
            refine .inr ⟨i, other, hother, hacts, ?_⟩
            rwa [show position + (i + 1) = position + 1 + i by omega] at hpart

theorem mem_bindingsParts {path : List Nat} {arg : Nat} {bindings : List Binding} :
    part ∈ bindingsParts acts path arg bindings ↔
      ∃ i b, bindings[i]? = some b ∧
        (part = .binding (path ++ [arg + i]) b ∨
          part ∈ bindingParts acts (path ++ [arg + i]) b) := by
  induction bindings generalizing arg with
  | nil => simp [bindingsParts]
  | cons b rest ih =>
      rw [bindingsParts, List.mem_cons, List.mem_append, ih]
      constructor
      · rintro (rfl | hpart | ⟨i, other, hother, hpart⟩)
        · exact ⟨0, b, rfl, .inl rfl⟩
        · exact ⟨0, b, rfl, .inr hpart⟩
        · refine ⟨i + 1, other, hother, ?_⟩
          rwa [show arg + (i + 1) = arg + 1 + i by omega]
      · rintro ⟨i, other, hother, hpart⟩
        cases i with
        | zero =>
            cases hother
            rcases hpart with rfl | hpart
            · exact .inl rfl
            · exact .inr (.inl hpart)
        | succ i =>
            refine .inr (.inr ⟨i, other, hother, ?_⟩)
            rwa [show arg + (i + 1) = arg + 1 + i by omega] at hpart

theorem mem_bindingsParts_of_nested {acts' : List Node → Bool} {path : List Nat} {arg : Nat}
    {bindings : List Binding}
    (hnested : ∀ d path, Binding.chain d ∈ bindings →
      part ∈ nodesParts acts path 0 d.nodes → part ∈ nodesParts acts' path 0 d.nodes)
    (hpart : part ∈ bindingsParts acts path arg bindings) :
    part ∈ bindingsParts acts' path arg bindings := by
  obtain ⟨i, b, hb, hpart⟩ := mem_bindingsParts.mp hpart
  refine mem_bindingsParts.mpr ⟨i, b, hb, hpart.imp_right fun hinner => ?_⟩
  cases b with
  | chain d => exact hnested d _ (List.mem_of_getElem? hb) hinner
  | _ => cases hinner

/-- The more nodes act, the more parts there are. -/
theorem nodesParts_subset {acts' : List Node → Bool} {c : Chain}
    (hacts : ∀ d, c.Contains d → ∀ i,
      acts (d.nodes.drop (i + 1)) → acts' (d.nodes.drop (i + 1))) (path : List Nat) :
    nodesParts acts path 0 c.nodes ⊆ nodesParts acts' path 0 c.nodes := by
  induction c using nestedInduction generalizing path with
  | step c ih =>
      intro part hpart
      obtain ⟨i, node, hnode, hact, hpart⟩ := mem_nodesParts.mp hpart
      have hmem := List.mem_of_getElem? hnode
      refine mem_nodesParts.mpr ⟨i, node, hnode, hacts c .self i hact, ?_⟩
      refine hpart.imp_right (mem_bindingsParts_of_nested fun d path hd hinner => ?_)
      exact ih node hmem d hd (fun e he => hacts e (.of_nested hmem hd he)) path hinner

theorem liveParts_subset (registry : Registry) (c : Chain) : c.liveParts registry ⊆ c.parts :=
  nodesParts_subset (fun _ _ _ _ => rfl) []

inductive BindsAt : Chain → List Nat → Binding → Prop
  | own {c : Chain} {i arg : Nat} {node : Node} {b : Binding} (hnode : c.nodes[i]? = some node)
      (hbinding : node.bindings[arg]? = some b) : BindsAt c [i, arg] b
  | nested {c d : Chain} {i arg : Nat} {node : Node} {path : List Nat} {b : Binding}
      (hnode : c.nodes[i]? = some node) (hbinding : node.bindings[arg]? = some (.chain d))
      (hinner : BindsAt d path b) : BindsAt c (i :: arg :: path) b

theorem BindsAt.mem_nodesParts {c : Chain} {path : List Nat} {b : Binding}
    (hbinds : c.BindsAt path b) (before : List Nat) :
    .binding (before ++ path) b ∈ nodesParts allAct before 0 c.nodes := by
  induction hbinds generalizing before with
  | @own c i arg node b hnode hbinding =>
      refine Chain.mem_nodesParts.mpr ⟨i, node, hnode, rfl, .inr ?_⟩
      exact mem_bindingsParts.mpr ⟨arg, b, hbinding, .inl (by simp)⟩
  | @nested c d i arg node path b hnode hbinding _ ih =>
      refine Chain.mem_nodesParts.mpr ⟨i, node, hnode, rfl, .inr ?_⟩
      refine mem_bindingsParts.mpr ⟨arg, _, hbinding, .inr ?_⟩
      have hinner := ih (before ++ [0 + i] ++ [0 + arg])
      simp only [Nat.zero_add, List.append_assoc, List.cons_append, List.nil_append] at hinner ⊢
      exact hinner

theorem exists_bindsAt {c : Chain} {before path : List Nat} {b : Binding}
    (hpart : .binding path b ∈ nodesParts allAct before 0 c.nodes) :
    ∃ more, path = before ++ more ∧ c.BindsAt more b := by
  induction c using nestedInduction generalizing before with
  | step c ih =>
      obtain ⟨i, node, hnode, -, hpart⟩ := mem_nodesParts.mp hpart
      rcases hpart with hnone | hpart
      · cases hnone
      · obtain ⟨arg, bound, hbound, hpart⟩ := mem_bindingsParts.mp hpart
        simp only [Nat.zero_add] at hpart
        rcases hpart with heq | hinner
        · cases heq
          exact ⟨[i, arg], by simp, .own hnode hbound⟩
        · cases bound with
          | chain d =>
              obtain ⟨more, rfl, hbinds⟩ :=
                ih node (List.mem_of_getElem? hnode) d (List.mem_of_getElem? hbound) hinner
              exact ⟨i :: arg :: more, by simp, .nested hnode hbound hbinds⟩
          | _ => cases hinner

theorem mem_parts {c : Chain} {path : List Nat} {b : Binding} :
    .binding path b ∈ c.parts ↔ c.BindsAt path b := by
  constructor
  · intro hpart
    obtain ⟨more, rfl, hbinds⟩ := exists_bindsAt hpart
    exact hbinds
  · exact fun hbinds => hbinds.mem_nodesParts []

end Chain

end ShaderChain
