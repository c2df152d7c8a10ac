import ShaderChain.Proofs.Resolve.Follows

/-! What a walk over a chain visits: the nodes of the chains in it, and the slots of their
transforms. -/

namespace ShaderChain

namespace Walk

theorem mem_unbound {v : Visit} {s : Site} {arg : Nat} {left : List Slot} :
    v ∈ unbound s arg left ↔
      ∃ i slot, left[i]? = some slot ∧ v = .slot ⟨s, arg + i, slot, none⟩ := by
  induction left generalizing arg with
  | nil => simp [unbound]
  | cons slot left ih =>
      rw [unbound, List.mem_cons, ih]
      constructor
      · rintro (rfl | ⟨i, other, hother, rfl⟩)
        · exact ⟨0, slot, rfl, rfl⟩
        · exact ⟨i + 1, other, hother, by rw [Nat.add_right_comm, Nat.add_assoc]⟩
      · rintro ⟨i, other, hother, rfl⟩
        cases i with
        | zero => exact .inl (by cases hother; rfl)
        | succ i => exact .inr ⟨i, other, hother, by rw [Nat.add_right_comm, Nat.add_assoc]⟩

/-- Every slot is visited, whether it is bound or not, and so are the chains that are bound to
slots. -/
theorem mem_slots {registry : Registry} {v : Visit} {s : Site} {arg : Nat} {left : List Slot}
    {bindings : List Binding} :
    v ∈ slots registry s arg left bindings ↔
      ∃ i slot, left[i]? = some slot ∧
        (v = .slot ⟨s, arg + i, slot, bindings[i]?⟩ ∨
          ∃ b ∈ bindings[i]?, v ∈ ofBinding registry (s.path ++ [arg + i]) b) := by
  induction bindings generalizing arg left with
  | nil => simp [slots, mem_unbound]
  | cons b rest ih =>
      cases left with
      | nil => simp [slots]
      | cons slot left =>
          rw [slots, List.mem_cons, List.mem_append, ih]
          constructor
          · rintro (rfl | hv | ⟨i, other, hother, hv⟩)
            · exact ⟨0, slot, rfl, .inl rfl⟩
            · exact ⟨0, slot, rfl, .inr ⟨b, rfl, hv⟩⟩
            · refine ⟨i + 1, other, hother, ?_⟩
              rwa [show arg + (i + 1) = arg + 1 + i by omega]
          · rintro ⟨i, other, hother, hv⟩
            cases i with
            | zero =>
                cases hother
                rcases hv with rfl | ⟨_, ⟨⟩, hv⟩
                · exact .inl rfl
                · exact .inr (.inl hv)
            | succ i =>
                refine .inr (.inr ⟨i, other, hother, ?_⟩)
                rwa [show arg + (i + 1) = arg + 1 + i by omega] at hv

def AtNode (registry : Registry) (path : List Nat) (position : Nat) (node : Node) (v : Visit) :
    Prop :=
  (∃ before, v = .node position before node (registry.find? node.name)) ∨
    ∃ t, registry.find? node.name = some t ∧
      v ∈ ofNode registry t ⟨t.name, position, path ++ [position]⟩ node

theorem exists_of_mem_nodes {registry : Registry} {stage : Stage} {v : Visit} {path : List Nat}
    {predecessor : String} {position : Nat} {ns : List Node}
    (hv : v ∈ nodes registry stage path predecessor position ns) :
    ∃ i node, ns[i]? = some node ∧ AtNode registry path (position + i) node v := by
  induction ns generalizing predecessor position with
  | nil => simp [nodes] at hv
  | cons node rest ih =>
      have hlater {predecessor : String}
          (hv : v ∈ nodes registry stage path predecessor (position + 1) rest) :
          ∃ i other, (node :: rest)[i]? = some other ∧
            AtNode registry path (position + i) other v := by
        obtain ⟨i, other, hother, hvisit⟩ := ih hv
        rw [show position + 1 + i = position + (i + 1) by omega] at hvisit
        exact ⟨i + 1, other, hother, hvisit⟩
      cases hfind : registry.find? node.name with
      | none =>
          simp only [nodes, hfind, List.mem_cons] at hv
          rcases hv with rfl | hv
          · exact ⟨0, node, rfl, .inl ⟨predecessor, by simp [hfind]⟩⟩
          · exact hlater hv
      | some t =>
          simp only [nodes, hfind] at hv
          split at hv
          · rw [List.mem_cons, List.mem_append] at hv
            rcases hv with rfl | hv | hv
            · exact ⟨0, node, rfl, .inl ⟨predecessor, by simp [hfind]⟩⟩
            · exact ⟨0, node, rfl, .inr ⟨t, hfind, hv⟩⟩
            · exact hlater hv
          · exact hlater hv

theorem mem_nodes_of_mem_ofNode {registry : Registry} {v : Visit} {path : List Nat}
    {position i : Nat} {ns : List Node} {node : Node} {t : Transform} (predecessor : String)
    (hnode : ns[i]? = some node) (hfind : registry.find? node.name = some t)
    (hv : v ∈ ofNode registry t ⟨t.name, position + i, path ++ [position + i]⟩ node) :
    v ∈ nodes registry .fragment path predecessor position ns := by
  induction ns generalizing predecessor position i with
  | nil => simp at hnode
  | cons first rest ih =>
      cases i with
      | zero =>
          cases hnode
          simp only [nodes, hfind, keeps_fragment, if_true, List.mem_cons, List.mem_append]
          exact .inr (.inl hv)
      | succ i =>
          rw [show position + (i + 1) = position + 1 + i by omega] at hv
          have hrest (predecessor : String) := ih predecessor hnode hv
          cases hfirst : registry.find? first.name with
          | none =>
              simp only [nodes, hfirst, List.mem_cons]
              exact .inr (hrest predecessor)
          | some u =>
              simp only [nodes, hfirst, keeps_fragment, if_true, List.mem_cons, List.mem_append]
              exact .inr (.inr (hrest first.name))

end Walk

/-- The visits to a chain's own nodes and their slots. -/
inductive Visit.Own (registry : Registry) (d : Chain) : Visit → Prop
  | node {i : Nat} {before : String} {node : Node} (hnode : d.nodes[i]? = some node) :
      Own registry d (.node i before node (registry.find? node.name))
  | slot {i arg : Nat} {path : List Nat} {node : Node} {t : Transform} {slot : Slot}
      (hnode : d.nodes[i]? = some node) (hfind : registry.find? node.name = some t)
      (hslot : t.slots[arg]? = some slot) :
      Own registry d (.slot ⟨⟨t.name, i, path⟩, arg, slot, node.bindings[arg]?⟩)

namespace Walk

variable {registry : Registry}

theorem exists_own_of_mem {stage : Stage} {v : Visit} {path : List Nat} {predecessor : String}
    {c : Chain} (hv : v ∈ nodes registry stage path predecessor 0 c.nodes) :
    ∃ d, c.Contains d ∧ v.Own registry d := by
  induction c using Chain.nestedInduction generalizing stage path predecessor with
  | step c ih =>
      obtain ⟨i, node, hnode, hvisit⟩ := exists_of_mem_nodes hv
      rw [Nat.zero_add] at hvisit
      rcases hvisit with ⟨before, rfl⟩ | ⟨t, hfind, hvisit⟩
      · exact ⟨c, .self, .node hnode⟩
      · rw [ofNode_eq, mem_slots] at hvisit
        obtain ⟨arg, slot, hslot, hvisit⟩ := hvisit
        rw [Nat.zero_add] at hvisit
        rcases hvisit with rfl | ⟨b, hb, hvisit⟩
        · exact ⟨c, .self, .slot hnode hfind hslot⟩
        · cases b with
          | chain d =>
              have hmem := List.mem_of_getElem? hnode
              have hbound := List.mem_of_getElem? hb
              obtain ⟨e, he, hown⟩ := ih node hmem d hbound hvisit
              exact ⟨e, .of_nested hmem hbound he, hown⟩
          | _ => simp [ofBinding] at hvisit

/-- A chain that is bound to a slot is walked as a part of the chain around it. -/
theorem nodes_subset {ns : List Node} {i arg : Nat} {node : Node} {t : Transform} {d : Chain}
    (hnode : ns[i]? = some node) (hfind : registry.find? node.name = some t)
    (hcount : node.bindings.length ≤ t.slots.length)
    (hbinding : node.bindings[arg]? = some (.chain d)) (path : List Nat) (predecessor : String) :
    nodes registry .fragment (path ++ [i] ++ [arg]) "" 0 d.nodes ⊆
      nodes registry .fragment path predecessor 0 ns := by
  have hbound : arg < t.slots.length := by
    have := (List.getElem?_eq_some_iff.mp hbinding).1
    omega
  intro v hv
  refine mem_nodes_of_mem_ofNode predecessor hnode hfind ?_
  rw [Nat.zero_add, ofNode_eq, mem_slots]
  refine ⟨arg, t.slots[arg], List.getElem?_eq_getElem hbound, .inr ⟨_, hbinding, ?_⟩⟩
  rw [Nat.zero_add]
  exact hv

/-- A chain in which all names are known and no bindings are left over is walked to its end. -/
theorem visits_subset {c d : Chain}
    (hcounts : ∀ e, c.Contains e → ∀ node ∈ e.nodes,
      ∃ t, registry.find? node.name = some t ∧ node.bindings.length ≤ t.slots.length)
    (hcontains : c.Contains d) :
    ∃ path, nodes registry .fragment path "" 0 d.nodes ⊆ c.visits registry .fragment := by
  induction hcontains with
  | self => exact ⟨[], List.Subset.refl _⟩
  | @nested outer inner node houter hnode hbinding ih =>
      obtain ⟨path, hsubset⟩ := ih
      obtain ⟨t, hfind, hcount⟩ := hcounts outer houter node hnode
      obtain ⟨i, hi⟩ := List.mem_iff_getElem?.mp hnode
      obtain ⟨arg, harg⟩ := List.mem_iff_getElem?.mp hbinding
      have hinner := nodes_subset hi hfind hcount harg path ""
      exact ⟨path ++ [i] ++ [arg], fun v hv => hsubset (hinner hv)⟩

end Walk

end ShaderChain
