import Mathlib.Data.List.Basic
import ShaderChain.Proofs.Chain.Constructed
import ShaderChain.Proofs.Chain.Parts
import ShaderChain.Proofs.Resolve.Noted

/-! A walk that meets no error visits the parts of a chain in their order, and besides them only
slots that are not bound. -/

namespace ShaderChain

namespace Walk

theorem exists_node_mem_nodes {registry : Registry} {path : List Nat} {i : Nat} {ns : List Node}
    {node : Node} (predecessor : String) (position : Nat) (hnode : ns[i]? = some node) :
    ∃ before, .node (position + i) before node (registry.find? node.name) ∈
      nodes registry .fragment path predecessor position ns := by
  induction ns generalizing predecessor position i with
  | nil => simp at hnode
  | cons first rest ih =>
      cases i with
      | zero =>
          cases hnode
          cases hfind : registry.find? node.name with
          | none => exact ⟨predecessor, by simp [nodes, hfind]⟩
          | some t => exact ⟨predecessor, by simp [nodes, hfind]⟩
      | succ i =>
          rw [show position + (i + 1) = position + 1 + i by omega]
          cases hfirst : registry.find? first.name with
          | none =>
              obtain ⟨before, hmem⟩ := ih predecessor (position + 1) hnode
              exact ⟨before, by simp [nodes, hfirst, hmem]⟩
          | some t =>
              obtain ⟨before, hmem⟩ := ih first.name (position + 1) hnode
              exact ⟨before, by simp [nodes, hfirst, hmem]⟩

end Walk

namespace Chain

/-- What the construction of chains checks holds of all nodes in a chain. -/
def AllChecked (registry : Registry) (c : Chain) : Prop :=
  ∀ d, c.Contains d → ∀ i node, d.nodes[i]? = some node → NodeChecked registry i node

theorem AllChecked.nested {registry : Registry} {c d : Chain} {node : Node}
    (hc : c.AllChecked registry) (hnode : node ∈ c.nodes)
    (hbinding : .chain d ∈ node.bindings) : d.AllChecked registry :=
  fun e he => hc e (.of_nested hnode hbinding he)

theorem AllChecked.find? {registry : Registry} {c : Chain} {node : Node}
    (hc : c.AllChecked registry) (hnode : node ∈ c.nodes) :
    ∃ t, registry.find? node.name = some t ∧ node.bindings.length ≤ t.slots.length := by
  obtain ⟨i, hi⟩ := List.mem_iff_getElem?.mp hnode
  obtain ⟨t, hfind, -, hcount⟩ := hc c .self i node hi
  exact ⟨t, hfind, hcount⟩

theorem nodeChecked_of_clean {registry : Registry} {path : List Nat} {predecessor : String}
    {ns : List Node} (hclean : Walk.Clean (Walk.nodes registry .fragment path predecessor 0 ns))
    {i : Nat} {node : Node} (hnode : ns[i]? = some node) : NodeChecked registry i node := by
  obtain ⟨before, hmem⟩ := Walk.exists_node_mem_nodes predecessor 0 hnode
  rw [Nat.zero_add] at hmem
  exact Visit.error?_node_eq_none.mp (hclean _ hmem)

theorem allChecked_of_clean {registry : Registry} {c : Chain}
    (hclean : Walk.Clean (c.visits registry .fragment)) : c.AllChecked registry := by
  have hinner : ∀ d, c.Contains d →
      ∃ path, Walk.Clean (Walk.nodes registry .fragment path "" 0 d.nodes) := by
    intro d hd
    induction hd with
    | self => exact ⟨[], hclean⟩
    | @nested outer inner node _ hnode hbinding ih =>
        obtain ⟨path, houter⟩ := ih
        obtain ⟨i, hi⟩ := List.mem_iff_getElem?.mp hnode
        obtain ⟨arg, harg⟩ := List.mem_iff_getElem?.mp hbinding
        obtain ⟨t, hfind, -, hcount⟩ := nodeChecked_of_clean houter hi
        have hsubset := Walk.nodes_subset hi hfind hcount harg path ""
        exact ⟨path ++ [i] ++ [arg], fun v hv => houter v (hsubset hv)⟩
  intro d hd i node hnode
  obtain ⟨path, hd⟩ := hinner d hd
  exact nodeChecked_of_clean hd hnode

end Chain

namespace Visit

def part? : Visit → Option Part
  | .node _ _ applied _ => some (.node applied)
  | .slot use => use.binding.map (.binding use.path)

end Visit

namespace Walk

open Chain

def NestedParts (registry : Registry) (c : Chain) : Prop :=
  ∀ path, (nodes registry .fragment path "" 0 c.nodes).filterMap Visit.part? =
    nodesParts allAct path 0 c.nodes

variable {registry : Registry}

theorem parts_unbound (s : Site) (arg : Nat) (left : List Slot) :
    (unbound s arg left).filterMap Visit.part? = [] := by
  induction left generalizing arg with
  | nil => rfl
  | cons slot left ih => exact ih (arg + 1)

theorem parts_slots (s : Site) (arg : Nat) (left : List Slot) (bindings : List Binding)
    (hnested : ∀ c, Binding.chain c ∈ bindings → NestedParts registry c)
    (hcount : bindings.length ≤ left.length) :
    (slots registry s arg left bindings).filterMap Visit.part? =
      bindingsParts allAct s.path arg bindings := by
  induction bindings generalizing arg left with
  | nil => exact parts_unbound s arg left
  | cons b rest ih =>
      cases left with
      | nil => simp at hcount
      | cons slot left =>
          have hinner : (ofBinding registry (s.path ++ [arg]) b).filterMap Visit.part? =
              bindingParts allAct (s.path ++ [arg]) b := by
            cases b with
            | chain c => exact hnested c (by simp) _
            | _ => rfl
          have hrest := ih (arg + 1) left (fun c hc => hnested c (by simp [hc]))
            (Nat.le_of_succ_le_succ hcount)
          simp only [slots, bindingsParts, List.filterMap_append, hinner, hrest,
            List.filterMap_cons, Visit.part?, Option.map_some, SlotUse.path]

theorem parts_nodes (path : List Nat) (predecessor : String) (position : Nat) (ns : List Node)
    (hnested : ∀ node ∈ ns, ∀ c, Binding.chain c ∈ node.bindings → NestedParts registry c)
    (hknown : ∀ node ∈ ns, ∃ t, registry.find? node.name = some t ∧
      node.bindings.length ≤ t.slots.length) :
    (nodes registry .fragment path predecessor position ns).filterMap Visit.part? =
      nodesParts allAct path position ns := by
  induction ns generalizing predecessor position with
  | nil => rfl
  | cons node rest ih =>
      rw [List.forall_mem_cons] at hnested hknown
      obtain ⟨⟨t, hfind, hcount⟩, hrest⟩ := hknown
      have hnode := parts_slots ⟨t.name, position, path ++ [position]⟩ 0 t.slots node.bindings
        hnested.1 hcount
      rw [nodes_cons hfind, nodesParts_cons, ofNode_eq, List.filterMap_cons, List.filterMap_append,
        hnode, ih node.name (position + 1) hnested.2 hrest]
      rfl

theorem nested_parts (c : Chain) (hc : c.AllChecked registry) : NestedParts registry c := by
  induction c using Chain.nestedInduction with
  | step c ih =>
      intro path
      exact parts_nodes path "" 0 c.nodes
        (fun node hnode d hd => ih node hnode d hd (hc.nested hnode hd))
        fun node hnode => hc.find? hnode

end Walk

theorem Chain.parts_visits {registry : Registry} {c : Chain} (hc : c.AllChecked registry) :
    (c.visits registry .fragment).filterMap Visit.part? = c.parts :=
  Walk.nested_parts c hc []

/-! The transforms that are noted are the first of each name. -/

namespace Resources

theorem names_addFunction (r : Resources) (t : Transform) :
    (r.addFunction t).functions.map Transform.name =
      if t.name ∈ r.functions.map Transform.name then r.functions.map Transform.name
      else r.functions.map Transform.name ++ [t.name] := by
  have hany : r.functions.any (·.name == t.name) ↔ t.name ∈ r.functions.map Transform.name := by
    simp
  by_cases hmem : t.name ∈ r.functions.map Transform.name
  · rw [addFunction, if_pos (hany.mpr hmem), if_pos hmem]
  · rw [addFunction, if_neg (mt hany.mp hmem), if_neg hmem, List.map_append]
    rfl

theorem names_noteAll (r : Resources) (visits : List Visit)
    (hr : (r.functions.map Transform.name).eraseDups = r.functions.map Transform.name) :
    (r.noteAll visits).functions.map Transform.name =
      (r.functions.map Transform.name ++
        (visits.filterMap Visit.function?).map Transform.name).eraseDups := by
  induction visits generalizing r with
  | nil => simp [hr]
  | cons v visits ih =>
      rw [noteAll_cons]
      cases hfunction : v.function? with
      | none =>
          have hnote : (r.note v).functions = r.functions := by
            simp [note, hfunction, addFunction?]
          rw [ih (r.note v) (by rw [hnote, hr]), hnote, List.filterMap_cons_none hfunction]
      | some t =>
          have hnote : (r.note v).functions.map Transform.name =
              (r.addFunction t).functions.map Transform.name := by
            simp [note, hfunction, addFunction?]
          rw [names_addFunction] at hnote
          rw [List.filterMap_cons_some hfunction, List.map_cons]
          generalize r.functions.map Transform.name = names at hr hnote
          split at hnote
          · rename_i hmem
            -- The name is among those before, where it stays.
            rw [ih _ (by rw [hnote, hr]), hnote, List.eraseDups_append, List.eraseDups_append,
              List.cons_removeAll, if_neg (by simpa using hmem)]
          · rename_i hmem
            have hnext : (names ++ [t.name]).eraseDups = names ++ [t.name] := by
              rw [List.eraseDups_append, hr, List.cons_removeAll, if_pos (by simpa using hmem)]
              simp [List.eraseDups_cons]
            rw [ih _ (by rw [hnote, hnext]), hnote, List.append_assoc, List.singleton_append]

theorem nodup_noteAll (r : Resources) (visits : List Visit)
    (hr : (r.functions.map Transform.name).Nodup) :
    ((r.noteAll visits).functions.map Transform.name).Nodup := by
  induction visits generalizing r with
  | nil => exact hr
  | cons v visits ih =>
      refine ih (r.note v) ?_
      rw [note, functions_addUniform?]
      cases v.function? with
      | none => exact hr
      | some t =>
          rw [addFunction?, names_addFunction]
          split
          · exact hr
          · rename_i hnew
            rw [List.nodup_append]
            refine ⟨hr, by simp, ?_⟩
            rintro name hname other hother rfl
            exact hnew (List.mem_singleton.mp hother ▸ hname)

end Resources

namespace Chain

theorem names_visited {registry : Registry} {c : Chain} (hc : c.AllChecked registry) :
    ((c.visits registry .fragment).filterMap Visit.function?).map Transform.name =
      c.nodeNames := by
  rw [nodeNames, ← parts_visits hc, List.filterMap_filterMap, List.map_filterMap]
  refine List.filterMap_congr fun v hv => ?_
  obtain ⟨d, hd, hown⟩ := Walk.exists_own_of_mem hv
  cases hown with
  | node hnode =>
      obtain ⟨t, hfind, -⟩ := hc d hd _ _ hnode
      simp [Visit.function?, Visit.part?, Part.name?, hfind,
        (Registry.mem_transforms_of_find? hfind).2]
  | @slot i arg path node t slot hnode hfind hslot =>
      cases node.bindings[arg]? with
      | none => rfl
      | some b => rfl

/-- The transforms that a chain refers to, each where it is applied first. -/
theorem functions_resources {registry : Registry} {c : Chain} (hc : c.AllChecked registry) :
    (c.resources registry .fragment).functions.map some =
      c.nodeNames.eraseDups.map registry.find? := by
  have hnames : (c.resources registry .fragment).functions.map Transform.name =
      c.nodeNames.eraseDups := by
    rw [← names_visited hc]
    exact Resources.names_noteAll {} (c.visits registry .fragment) rfl
  have hknown : ∀ t ∈ (c.resources registry .fragment).functions,
      registry.find? t.name = some t := by
    intro t ht
    obtain ⟨v, hv, hfunction⟩ := mem_functions_resources.mp ht
    obtain ⟨d, -, hown⟩ := Walk.exists_own_of_mem hv
    cases hown with
    | slot => cases hfunction
    | node => rwa [(Registry.mem_transforms_of_find? hfunction).2]
  rw [← hnames, List.map_map]
  exact List.map_congr_left fun t ht => (hknown t ht).symm

theorem nodup_functions (registry : Registry) (stage : Stage) (c : Chain) :
    ((c.resources registry stage).functions.map Transform.name).Nodup :=
  Resources.nodup_noteAll {} _ List.nodup_nil

end Chain

end ShaderChain
