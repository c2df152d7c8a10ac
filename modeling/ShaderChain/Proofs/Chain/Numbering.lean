import Mathlib.Data.List.Basic
import ShaderChain.Proofs.Chain.Tree

/-! The numbers of the chains that occur in a chain, in an order that is neither that of the outer
chains nor that of the inner ones: what the first node is bound to comes before the chain itself,
and what the other nodes are bound to after it. -/

namespace ShaderChain

namespace Chain

mutual

def ids : Chain → List ChainId
  | ⟨id, _, [], _⟩ => [id]
  | ⟨id, _, ⟨_, _, bindings, _⟩ :: rest, _⟩ => bindingsIds bindings ++ id :: nodesIds rest

def nodesIds : List Node → List ChainId
  | [] => []
  | ⟨_, _, bindings, _⟩ :: rest => bindingsIds bindings ++ nodesIds rest

def bindingsIds : List Binding → List ChainId
  | [] => []
  | b :: rest => bindingIds b ++ bindingsIds rest

def bindingIds : Binding → List ChainId
  | .literal _ => []
  | .signal _ => []
  | .texture _ => []
  | .chain c => ids c

end

theorem ids_eq (c : Chain) :
    c.ids = nodesIds (c.nodes.take 1) ++ c.id :: nodesIds c.nodes.tail := by
  obtain ⟨id, registry, nodes, getter⟩ := c
  cases nodes with
  | nil => rw [ids, List.take_nil, List.tail_nil, nodesIds]; rfl
  | cons node rest =>
      rw [ids, List.take_succ_cons, List.take_zero, List.tail_cons, nodesIds, nodesIds,
        List.append_nil]

theorem nodesIds_append (front back : List Node) :
    nodesIds (front ++ back) = nodesIds front ++ nodesIds back := by
  induction front with
  | nil => rw [nodesIds]; rfl
  | cons node rest ih => rw [List.cons_append, nodesIds, nodesIds, ih, List.append_assoc]

theorem nodesIds_singleton (node : Node) : nodesIds [node] = bindingsIds node.bindings := by
  rw [nodesIds, nodesIds, List.append_nil]

/-! Every chain has its number there, once. -/

theorem perm_bindingsIds {bindings : List Binding}
    (hnested : ∀ d, .chain d ∈ bindings → ((subchains d).map (·.id)).Perm (ids d)) :
    ((bindingsSubchains bindings).map (·.id)).Perm (bindingsIds bindings) := by
  induction bindings with
  | nil => rw [bindingsSubchains, bindingsIds]; rfl
  | cons b rest ih =>
      rw [bindingsSubchains, bindingsIds, List.map_append]
      apply List.Perm.append
      · cases b with
        | chain d =>
            rw [bindingSubchains, bindingIds]
            exact hnested d List.mem_cons_self
        | literal | signal | texture => rw [bindingSubchains, bindingIds]; rfl
      · exact ih fun d hd => hnested d (List.mem_cons_of_mem _ hd)

theorem perm_nodesIds {nodes : List Node}
    (hnested : ∀ node ∈ nodes, ∀ d, .chain d ∈ node.bindings →
      ((subchains d).map (·.id)).Perm (ids d)) :
    ((nodesSubchains nodes).map (·.id)).Perm (nodesIds nodes) := by
  induction nodes with
  | nil => rw [nodesSubchains, nodesIds]; rfl
  | cons node rest ih =>
      rw [nodesSubchains, nodesIds, List.map_append]
      apply List.Perm.append
      · exact perm_bindingsIds (hnested node List.mem_cons_self)
      · exact ih fun node hnode => hnested node (List.mem_cons_of_mem _ hnode)

theorem perm_ids (c : Chain) : (c.subchains.map (·.id)).Perm c.ids := by
  induction c using nestedInduction with
  | step c ih =>
      have hnodes : nodesIds c.nodes = nodesIds (c.nodes.take 1) ++ nodesIds c.nodes.tail := by
        rw [← nodesIds_append, ← List.drop_one, List.take_append_drop]
      have hsubchains : c.subchains.map (·.id) = c.id :: (nodesSubchains c.nodes).map (·.id) := by
        cases c
        rw [subchains, List.map_cons]
      rw [hsubchains, ids_eq]
      have hinner := (perm_nodesIds ih).cons c.id
      rw [hnodes] at hinner
      exact hinner.trans List.perm_middle.symm

theorem id_mem_ids {c d : Chain} (hcontains : c.Contains d) : d.id ∈ c.ids :=
  (perm_ids c).mem_iff.mp (List.mem_map_of_mem (mem_subchains.mpr hcontains))

/-! The numbers of a chain keep their order in a chain around it. -/

theorem ids_sublist_bindingsIds {bindings : List Binding} {d : Chain}
    (hd : .chain d ∈ bindings) : d.ids.Sublist (bindingsIds bindings) := by
  induction bindings with
  | nil => cases hd
  | cons b rest ih =>
      rw [bindingsIds]
      rcases List.mem_cons.mp hd with rfl | hd
      · rw [bindingIds]
        exact List.sublist_append_left ..
      · exact (ih hd).trans (List.sublist_append_right ..)

theorem ids_sublist_nodesIds {nodes : List Node} {node : Node} (hnode : node ∈ nodes) {d : Chain}
    (hd : .chain d ∈ node.bindings) : d.ids.Sublist (nodesIds nodes) := by
  obtain ⟨front, back, rfl⟩ := List.append_of_mem hnode
  rw [nodesIds_append, nodesIds]
  exact ((ids_sublist_bindingsIds hd).trans (List.sublist_append_left ..)).trans
    (List.sublist_append_right ..)

theorem Contains.ids_sublist {c d : Chain} (hcontains : c.Contains d) : d.ids.Sublist c.ids := by
  induction hcontains with
  | self => exact List.Sublist.refl _
  | @nested d e node _ hnode hbinding ih =>
      refine List.Sublist.trans ?_ ih
      rw [ids_eq d]
      have hnodes : node ∈ d.nodes.take 1 ++ d.nodes.tail := by
        rwa [← List.drop_one, List.take_append_drop]
      rcases List.mem_append.mp hnodes with hfirst | hlater
      · exact (ids_sublist_nodesIds hfirst hbinding).trans (List.sublist_append_left ..)
      · exact ((ids_sublist_nodesIds hlater hbinding).trans (List.sublist_cons_self ..)).trans
          (List.sublist_append_right ..)

/-- A chain has a larger number than those its first node is bound to, at any depth, and a smaller
one than those its other nodes are bound to. -/
structure Between (c : Chain) : Prop where
  first : ∀ node ∈ c.nodes.head?, ∀ d, .chain d ∈ node.bindings →
    ∀ inner, Contains d inner → inner.id < c.id
  later : ∀ node ∈ c.nodes.tail, ∀ d, .chain d ∈ node.bindings →
    ∀ inner, Contains d inner → c.id < inner.id

theorem between_of_pairwise {c : Chain} (hids : c.ids.Pairwise (· < ·)) {d : Chain}
    (hcontains : c.Contains d) : Between d := by
  have hsorted := hids.sublist hcontains.ids_sublist
  rw [ids_eq, List.pairwise_append, List.pairwise_cons] at hsorted
  obtain ⟨-, ⟨hlater, -⟩, hfirst⟩ := hsorted
  constructor
  · intro node hnode e he inner hinner
    have htake : node ∈ d.nodes.take 1 := by
      obtain ⟨rest, hrest⟩ := List.head?_eq_some_iff.mp hnode
      rw [hrest]
      exact List.mem_cons_self
    exact hfirst _ ((ids_sublist_nodesIds htake he).subset (id_mem_ids hinner)) _
      List.mem_cons_self
  · intro node hnode e he inner hinner
    exact hlater _ ((ids_sublist_nodesIds hnode he).subset (id_mem_ids hinner))

/-! Nodes that carry the number of the chain they belong to. -/

def Owns (c : Chain) : Prop :=
  ∀ node ∈ c.nodes, node.chain = c.id

/-- Whether this holds of all chains in a chain. -/
def Labelled (c : Chain) : Prop :=
  ∀ d, c.Contains d → Owns d

theorem labelled_iff {c : Chain} :
    Labelled c ↔ Owns c ∧ ∀ node ∈ c.nodes, ∀ d, .chain d ∈ node.bindings → Labelled d := by
  constructor
  · intro hc
    exact ⟨hc c .self, fun node hnode d hd e he => hc e (.of_nested hnode hd he)⟩
  · intro ⟨hc, hnested⟩ d hd
    rcases hd.cases_nested with rfl | ⟨node, hnode, e, he, hinner⟩
    · exact hc
    · exact hnested node hnode e he d hinner

end Chain

end ShaderChain
