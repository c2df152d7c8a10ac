import ShaderChain.Chain.Build
import ShaderChain.Proofs.Chain.Tree
import ShaderChain.Proofs.Update

/-! Chains as they are constructed, one transform at a time and from chains that were constructed
before. -/

namespace ShaderChain

namespace Chain

/-- What a chain is bound to on its way is constructed for the same registry. -/
inductive Constructed (registry : Registry) : Chain → Prop
  | root {name : String} {args : List Binding} {c : Chain} {counters after : Counters}
      (hargs : ∀ d, .chain d ∈ args → Constructed registry d)
      (hroot : (root registry name args).run counters = (.ok c, after)) : Constructed registry c
  | andThen {c next : Chain} {name : String} {args : List Binding} (hc : Constructed registry c)
      (hargs : ∀ d, .chain d ∈ args → Constructed registry d)
      (hnext : c.andThen name args = .ok next) : Constructed registry next
  | select {c next : Chain} {getter : String} (hc : Constructed registry c)
      (hnext : c.select getter = .ok next) : Constructed registry next

/-! What a step of the construction checks, and what it adds. -/

theorem push_of_le {c : Chain} {t : Transform} {args : List Binding}
    (hcount : args.length ≤ t.slots.length) (name : String) :
    c.push t name args = .ok { c with nodes := c.nodes ++ [⟨name, t.category, args, c.id⟩] } := by
  rw [push, Edit.push, checkCount, if_neg (Nat.not_lt.mpr hcount)]
  rfl

theorem push_of_lt {c : Chain} {t : Transform} {args : List Binding}
    (hcount : t.slots.length < args.length) (name : String) :
    c.push t name args = .error (.tooManyArguments name t.slots.length args.length) := by
  rw [push, Edit.push, checkCount, if_pos hcount]
  rfl

theorem push_eq_ok {c next : Chain} {t : Transform} {name : String} {args : List Binding}
    (hnext : c.push t name args = .ok next) :
    args.length ≤ t.slots.length ∧
      next = { c with nodes := c.nodes ++ [⟨name, t.category, args, c.id⟩] } := by
  rcases Nat.lt_or_ge t.slots.length args.length with hcount | hcount
  · rw [push_of_lt hcount] at hnext
    cases hnext
  · rw [push_of_le hcount] at hnext
    exact ⟨hcount, (Except.ok.inj hnext).symm⟩

theorem run_root {registry : Registry} {name : String} {t : Transform}
    (hfind : registry.find? name = some t) (hroot : t.category.isRoot) (args : List Binding)
    (counters : Counters) :
    (root registry name args).run counters =
      (push ⟨counters.chain, registry, [], none⟩ t name args,
        { counters with chain := counters.chain + 1 }) := by
  simp only [root, lookup, hfind, Update.lift_ok_bind, hroot]
  rfl

theorem root_eq_ok {registry : Registry} {name : String} {args : List Binding} {c : Chain}
    {counters after : Counters}
    (hroot : (root registry name args).run counters = (.ok c, after)) :
    ∃ t, registry.find? name = some t ∧
      push ⟨counters.chain, registry, [], none⟩ t name args = .ok c := by
  cases hfind : registry.find? name with
  | none =>
      unfold root lookup at hroot
      rw [hfind] at hroot
      cases hroot
  | some t =>
      refine ⟨t, rfl, ?_⟩
      by_cases hisRoot : t.category.isRoot
      · rw [run_root hfind hisRoot] at hroot
        exact congrArg Prod.fst hroot
      · unfold root lookup at hroot
        simp only [hfind, Update.lift_ok_bind, hisRoot] at hroot
        cases hroot

theorem andThen_eq (c : Chain) (name : String) (args : List Binding) :
    c.andThen name args =
      lookup c.registry name >>= fun t =>
        c.checkPosition t name >>= fun _ => c.push t name args := by
  simp only [andThen, Edit.andThen, Update.on_get_bind, Update.on_lift_bind, push]

theorem andThen_of_unknown {c : Chain} {name : String} (hfind : c.registry.find? name = none)
    (args : List Binding) : c.andThen name args = .error (.unknownOperation name) := by
  rw [andThen_eq, lookup, hfind]
  rfl

theorem andThen_of_found {c : Chain} {name : String} {t : Transform}
    (hfind : c.registry.find? name = some t) (args : List Binding) :
    c.andThen name args = c.checkPosition t name >>= fun _ => c.push t name args := by
  rw [andThen_eq, lookup, hfind]
  rfl

theorem checkPosition_of_last {c : Chain} {last : Node} (hlast : c.nodes.getLast? = some last)
    {t : Transform} (hrootOnly : t.category.isRootOnly) (name : String) :
    c.checkPosition t name =
      .error (.invalidPosition name t.category last.name last.category c.nodes.length) := by
  rw [checkPosition, if_pos hrootOnly, hlast]

theorem checkPosition_of_not_rootOnly {t : Transform} (hrootOnly : ¬t.category.isRootOnly)
    (c : Chain) (name : String) : c.checkPosition t name = .ok () := by
  rw [checkPosition, if_neg hrootOnly]

theorem andThen_eq_ok {c next : Chain} {name : String} {args : List Binding}
    (hnext : c.andThen name args = .ok next) :
    ∃ t, c.registry.find? name = some t ∧ (c.nodes ≠ [] → ¬t.category.isRootOnly) ∧
      c.push t name args = .ok next := by
  cases hfind : c.registry.find? name with
  | none =>
      rw [andThen_of_unknown hfind] at hnext
      cases hnext
  | some t =>
      rw [andThen_of_found hfind] at hnext
      cases hposition : c.checkPosition t name with
      | error e =>
          rw [hposition] at hnext
          cases hnext
      | ok checked =>
          rw [hposition] at hnext
          refine ⟨t, rfl, fun hne hrootOnly => ?_, hnext⟩
          rw [checkPosition_of_last (List.getLast?_eq_some_getLast hne) hrootOnly] at hposition
          cases hposition

theorem select_of_some {getter : String} {swizzle : Swizzle}
    (hparse : Swizzle.parse? getter = some swizzle) (c : Chain) :
    c.select getter = .ok { c with getter := some swizzle } := by
  rw [select, Edit.select, parseGetter, hparse]
  rfl

theorem select_of_none {getter : String} (hparse : Swizzle.parse? getter = none) (c : Chain) :
    c.select getter = .error (.invalidSwizzle getter) := by
  rw [select, Edit.select, parseGetter, hparse]
  rfl

theorem select_eq_ok {c next : Chain} {getter : String} (hnext : c.select getter = .ok next) :
    next.registry = c.registry ∧ next.nodes = c.nodes := by
  cases hparse : Swizzle.parse? getter with
  | none =>
      rw [select_of_none hparse] at hnext
      cases hnext
  | some swizzle =>
      rw [select_of_some hparse] at hnext
      cases hnext
      exact ⟨rfl, rfl⟩

/-- A node stands for a transform that is known, may stand where it stands, and has a slot for
every binding. -/
def NodeChecked (registry : Registry) (position : Nat) (node : Node) : Prop :=
  ∃ t, registry.find? node.name = some t ∧ ¬(0 < position ∧ t.category.isRootOnly) ∧
    node.bindings.length ≤ t.slots.length

structure Checked (registry : Registry) (c : Chain) : Prop where
  registry_eq : c.registry = registry
  nodes : ∀ i node, c.nodes[i]? = some node → NodeChecked registry i node
  nested : ∀ node ∈ c.nodes, ∀ d, .chain d ∈ node.bindings → Constructed registry d

theorem Checked.push {registry : Registry} {c next : Chain} {t : Transform} {name : String}
    {args : List Binding} (hc : Checked registry c) (hfind : registry.find? name = some t)
    (hposition : c.nodes ≠ [] → ¬t.category.isRootOnly)
    (hargs : ∀ d, .chain d ∈ args → Constructed registry d)
    (hnext : c.push t name args = .ok next) : Checked registry next := by
  obtain ⟨hcount, rfl⟩ := push_eq_ok hnext
  refine ⟨hc.registry_eq, ?_, ?_⟩
  · intro i node hnode
    simp only [List.getElem?_append] at hnode
    split at hnode
    · exact hc.nodes i node hnode
    · rw [List.getElem?_singleton] at hnode
      split at hnode
      · rename_i hlast
        cases hnode
        refine ⟨t, hfind, fun ⟨hpos, hrootOnly⟩ => hposition ?_ hrootOnly, hcount⟩
        intro hnil
        rw [hnil, List.length_nil] at hlast
        omega
      · cases hnode
  · intro node hnode
    rcases List.mem_append.mp hnode with hnode | hnode
    · exact hc.nested node hnode
    · rw [List.mem_singleton.mp hnode]
      exact hargs

theorem Constructed.checked {registry : Registry} {c : Chain} (hc : Constructed registry c) :
    Checked registry c := by
  induction hc with
  | root hargs hroot =>
      obtain ⟨t, hfind, hpush⟩ := root_eq_ok hroot
      refine Checked.push ⟨rfl, by simp, by simp⟩ hfind (fun hne => absurd rfl hne) hargs hpush
  | andThen _ hargs hnext ih =>
      obtain ⟨t, hfind, hposition, hpush⟩ := andThen_eq_ok hnext
      rw [ih.registry_eq] at hfind
      exact ih.push hfind hposition hargs hpush
  | select _ hnext ih =>
      obtain ⟨hregistry, hnodes⟩ := select_eq_ok hnext
      exact ⟨hregistry ▸ ih.registry_eq, hnodes ▸ ih.nodes, hnodes ▸ ih.nested⟩

theorem Constructed.of_contains {registry : Registry} {c d : Chain} (hc : Constructed registry c)
    (hd : c.Contains d) : Constructed registry d := by
  induction hd with
  | self => exact hc
  | nested _ hnode hbinding ih => exact ih.checked.nested _ hnode _ hbinding

end Chain

end ShaderChain
