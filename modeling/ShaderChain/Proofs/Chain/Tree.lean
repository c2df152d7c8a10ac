import ShaderChain.Chain.Basic

/-! The chains that occur in a chain, and induction over them. -/

namespace ShaderChain

namespace Chain

/-- A chain occurs in itself, and with a chain also the chains that its nodes are bound to. -/
inductive Contains (c : Chain) : Chain → Prop
  | self : Contains c c
  | nested {d e : Chain} {node : Node} (houter : Contains c d) (hnode : node ∈ d.nodes)
      (hbinding : Binding.chain e ∈ node.bindings) : Contains c e

theorem Contains.of_nested {c d e : Chain} {node : Node} (hnode : node ∈ c.nodes)
    (hbinding : Binding.chain d ∈ node.bindings) (hinner : Contains d e) : Contains c e := by
  induction hinner with
  | self => exact .nested .self hnode hbinding
  | nested _ hnode' hbinding' ih => exact .nested ih hnode' hbinding'

theorem Contains.cases_nested {c e : Chain} (hcontains : Contains c e) :
    e = c ∨ ∃ node ∈ c.nodes, ∃ d, Binding.chain d ∈ node.bindings ∧ Contains d e := by
  induction hcontains with
  | self => exact .inl rfl
  | nested _ hnode hbinding ih =>
      rcases ih with rfl | ⟨outer, houter, d, hd, hinner⟩
      · exact .inr ⟨_, hnode, _, hbinding, .self⟩
      · exact .inr ⟨outer, houter, d, hd, .nested hinner hnode hbinding⟩

theorem sizeOf_nested {c d : Chain} {node : Node} (hnode : node ∈ c.nodes)
    (hbinding : Binding.chain d ∈ node.bindings) : sizeOf d < sizeOf c := by
  obtain ⟨id, registry, nodes, getter⟩ := c
  obtain ⟨name, category, bindings, chain⟩ := node
  have hnodeSize := List.sizeOf_lt_of_mem hnode
  have hbindingSize := List.sizeOf_lt_of_mem hbinding
  simp only [NodeOf.mk.sizeOf_spec, Binding.chain.sizeOf_spec] at hnodeSize hbindingSize
  simp only [ChainOf.mk.sizeOf_spec]
  omega

/-- What holds of a chain whenever it holds of the chains that its nodes are bound to holds of
every chain. -/
@[elab_as_elim]
theorem nestedInduction {motive : Chain → Prop}
    (step : ∀ c : Chain,
      (∀ node ∈ c.nodes, ∀ d, Binding.chain d ∈ node.bindings → motive d) → motive c)
    (c : Chain) : motive c :=
  step c fun _ hnode d hbinding =>
    have := sizeOf_nested hnode hbinding
    nestedInduction step d
termination_by sizeOf c

/-! The chains in a chain can be listed, so that what is said of all of them can be decided. -/

mutual

def subchains : Chain → List Chain
  | ⟨id, registry, ns, getter⟩ => ⟨id, registry, ns, getter⟩ :: nodesSubchains ns

def nodesSubchains : List Node → List Chain
  | [] => []
  | ⟨_, _, bindings, _⟩ :: rest => bindingsSubchains bindings ++ nodesSubchains rest

def bindingsSubchains : List Binding → List Chain
  | [] => []
  | b :: rest => bindingSubchains b ++ bindingsSubchains rest

def bindingSubchains : Binding → List Chain
  | .literal _ => []
  | .signal _ => []
  | .texture _ => []
  | .chain c => subchains c

end

theorem mem_bindingsSubchains {e : Chain} {bindings : List Binding} :
    e ∈ bindingsSubchains bindings ↔ ∃ d, Binding.chain d ∈ bindings ∧ e ∈ subchains d := by
  induction bindings with
  | nil => simp [bindingsSubchains]
  | cons b rest ih =>
      rw [bindingsSubchains, List.mem_append, ih]
      cases b <;> simp [bindingSubchains]

theorem mem_nodesSubchains {e : Chain} {ns : List Node} :
    e ∈ nodesSubchains ns ↔
      ∃ node ∈ ns, ∃ d, Binding.chain d ∈ node.bindings ∧ e ∈ subchains d := by
  induction ns with
  | nil => simp [nodesSubchains]
  | cons node rest ih => simp [nodesSubchains, mem_bindingsSubchains, ih]

theorem mem_subchains {c e : Chain} : e ∈ subchains c ↔ c.Contains e := by
  induction c using nestedInduction with
  | step c ih =>
      have hlist : e ∈ subchains c ↔ e = c ∨ e ∈ nodesSubchains c.nodes := by
        cases c
        simp [subchains]
      rw [hlist, mem_nodesSubchains]
      constructor
      · rintro (rfl | ⟨node, hnode, d, hd, he⟩)
        · exact .self
        · exact .of_nested hnode hd ((ih node hnode d hd).mp he)
      · intro hcontains
        rcases hcontains.cases_nested with rfl | ⟨node, hnode, d, hd, he⟩
        · exact .inl rfl
        · exact .inr ⟨node, hnode, d, hd, (ih node hnode d hd).mpr he⟩

instance (c : Chain) (p : Chain → Prop) [DecidablePred p] :
    Decidable (∀ d, c.Contains d → p d) :=
  decidable_of_iff (∀ d ∈ subchains c, p d) (by simp only [mem_subchains])

end Chain

end ShaderChain
