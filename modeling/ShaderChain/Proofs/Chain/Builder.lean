import ShaderChain.Proofs.Chain.Constructed
import ShaderChain.Proofs.Registry.Built

/-! The construction of a chain as a run of calls, any of which may fail. -/

namespace ShaderChain

namespace Chain

inductive Call where
  | andThen (name : String) (args : List Binding)
  | select (getter : String)

namespace Call

def apply (c : Chain) : Call → Except ChainError Chain
  | .andThen name args => c.andThen name args
  | .select getter => c.select getter

def edit : Call → Edit Unit
  | .andThen name args => Edit.andThen name args
  | .select getter => Edit.select getter

/-- The chain behind a call, one that fails included. -/
def next (c : Chain) (call : Call) : Chain :=
  (call.edit.run c).2

/-- The node that a call appends if it succeeds. -/
def node? (registry : Registry) (id : ChainId) : Call → Option Node
  | .andThen name args => (registry.find? name).map fun t => ⟨name, t.category, args, id⟩
  | .select _ => none

def getter? : Call → Option Swizzle
  | .andThen .. => none
  | .select getter => Swizzle.parse? getter

end Call

def run (c : Chain) (calls : List Call) : Chain :=
  calls.foldl Call.next c

/-- The calls of a run that did not fail. -/
def succeeded (c : Chain) : List Call → List Call
  | [] => []
  | call :: rest =>
      match call.apply c with
      | .ok next => call :: succeeded next rest
      | .error _ => succeeded c rest

/-! What a single call answers. -/

theorem isRootOnly_iff (category : Category) :
    category.isRootOnly ↔ category = .source ∨ category = .vertex := by
  cases category <;> simp [Category.isRootOnly]

theorem root_eq_ok_started {registry : Registry} {name : String} {args : List Binding} {c : Chain}
    {counters after : Counters}
    (hroot : (root registry name args).run counters = (.ok c, after)) :
    ∃ t, registry.find? name = some t ∧ t.category.isRoot ∧ args.length ≤ t.slots.length ∧
      c = ⟨counters.chain, registry, [⟨name, t.category, args, counters.chain⟩], none⟩ := by
  obtain ⟨t, hfind, hpush⟩ := root_eq_ok hroot
  obtain ⟨hcount, rfl⟩ := push_eq_ok hpush
  by_cases hisRoot : t.category.isRoot
  · exact ⟨t, hfind, hisRoot, hcount, rfl⟩
  · unfold root lookup at hroot
    simp only [hfind, Update.lift_ok_bind, hisRoot] at hroot
    cases hroot

/-- How a chain answers when a transform is to be appended: with the first of three errors that
applies, or else with one more node. -/
structure Answers (registry : Registry) (c : Chain) (name : String) (args : List Binding) :
    Prop where
  unknown : registry.find? name = none → c.andThen name args = .error (.unknownOperation name)
  position : ∀ t, registry.find? name = some t → t.category = .source ∨ t.category = .vertex →
    ∃ last, c.nodes.getLast? = some last ∧ c.andThen name args =
      .error (.invalidPosition name t.category last.name last.category c.nodes.length)
  count : ∀ t, registry.find? name = some t → ¬(t.category = .source ∨ t.category = .vertex) →
    t.slots.length < args.length →
      c.andThen name args = .error (.tooManyArguments name t.slots.length args.length)
  accepted : ∀ t, registry.find? name = some t → ¬(t.category = .source ∨ t.category = .vertex) →
    args.length ≤ t.slots.length →
      c.andThen name args =
        .ok { c with nodes := c.nodes ++ [⟨name, t.category, args, c.id⟩] }

theorem answers_of_nonempty {c : Chain} (hne : c.nodes ≠ []) (name : String)
    (args : List Binding) : Answers c.registry c name args := by
  have hlast := List.getLast?_eq_some_getLast hne
  refine ⟨fun hfind => andThen_of_unknown hfind args, fun t hfind hposition => ?_,
    fun t hfind hposition hcount => ?_, fun t hfind hposition hcount => ?_⟩
  · refine ⟨_, hlast, ?_⟩
    rw [andThen_of_found hfind, checkPosition_of_last hlast ((isRootOnly_iff _).mpr hposition)]
    rfl
  · have hchecked := checkPosition_of_not_rootOnly (mt (isRootOnly_iff _).mp hposition) c name
    rw [andThen_of_found hfind, hchecked]
    exact push_of_lt hcount name
  · have hchecked := checkPosition_of_not_rootOnly (mt (isRootOnly_iff _).mp hposition) c name
    rw [andThen_of_found hfind, hchecked]
    exact push_of_le hcount name

theorem Answers.exists_ok {registry : Registry} {c : Chain} {name : String} {args : List Binding}
    (hanswers : Answers registry c name args) :
    (∃ next, c.andThen name args = .ok next) ↔
      ∃ t, registry.find? name = some t ∧ ¬(t.category = .source ∨ t.category = .vertex) ∧
        args.length ≤ t.slots.length := by
  constructor
  · rintro ⟨next, hnext⟩
    cases hfind : registry.find? name with
    | none => simp [hanswers.unknown hfind] at hnext
    | some t =>
        refine ⟨t, rfl, fun hposition => ?_, Nat.le_of_not_lt fun hcount => ?_⟩
        · obtain ⟨last, -, herror⟩ := hanswers.position t hfind hposition
          simp [herror] at hnext
        · by_cases hposition : t.category = .source ∨ t.category = .vertex
          · obtain ⟨last, -, herror⟩ := hanswers.position t hfind hposition
            simp [herror] at hnext
          · simp [hanswers.count t hfind hposition hcount] at hnext
  · rintro ⟨t, hfind, hposition, hcount⟩
    exact ⟨_, hanswers.accepted t hfind hposition hcount⟩

/-! What a call changes: it appends its node or sets the getter, and nothing else. -/

theorem apply_eq_ok {c next : Chain} {call : Call} (hnext : call.apply c = .ok next) :
    next = { c with
      nodes := c.nodes ++ (call.node? c.registry c.id).toList
      getter := call.getter?.or c.getter } := by
  cases call with
  | andThen name args =>
      obtain ⟨t, hfind, -, hpush⟩ := andThen_eq_ok hnext
      obtain ⟨-, rfl⟩ := push_eq_ok hpush
      simp [Call.node?, Call.getter?, hfind]
  | select getter =>
      cases hparse : Swizzle.parse? getter with
      | none =>
          rw [Call.apply, select_of_none hparse] at hnext
          cases hnext
      | some swizzle =>
          rw [Call.apply, select_of_some hparse] at hnext
          cases hnext
          simp [Call.node?, Call.getter?, hparse]

theorem getter?_of_error {c : Chain} {call : Call} {e : ChainError}
    (herror : call.apply c = .error e) : call.getter? = none := by
  cases call with
  | andThen name args => rfl
  | select getter =>
      cases hparse : Swizzle.parse? getter with
      | none => exact hparse
      | some swizzle =>
          rw [Call.apply, select_of_some hparse] at herror
          cases herror

/-! A call checks everything before it changes the chain. -/

theorem atomic_push (t : Transform) (name : String) (args : List Binding) :
    (Edit.push t name args).Atomic :=
  (Update.readOnly_lift _).atomic_bind fun _ => Update.atomic_modify _

theorem atomic_andThen (name : String) (args : List Binding) : (Edit.andThen name args).Atomic :=
  Update.readOnly_get.atomic_bind fun _ => (Update.readOnly_lift _).atomic_bind fun t =>
    (Update.readOnly_lift _).atomic_bind fun _ => atomic_push t name args

theorem atomic_select (getter : String) : (Edit.select getter).Atomic :=
  (Update.readOnly_lift _).atomic_bind fun _ => Update.atomic_modify _

theorem on_edit (call : Call) (c : Chain) : call.edit.on c = call.apply c := by
  cases call <;> rfl

theorem next_of_ok {c next : Chain} {call : Call} (hnext : call.apply c = .ok next) :
    call.next c = next :=
  Update.state_of_ok (on_edit call c ▸ hnext)

theorem next_of_error {c : Chain} {call : Call} {e : ChainError}
    (herror : call.apply c = .error e) : call.next c = c := by
  rw [← on_edit] at herror
  cases call with
  | andThen name args => exact (atomic_andThen name args).state_of_error herror
  | select getter => exact (atomic_select getter).state_of_error herror

theorem run_cons_ok {c next : Chain} {call : Call} (hnext : call.apply c = .ok next)
    (calls : List Call) :
    c.run (call :: calls) = next.run calls ∧ c.succeeded (call :: calls) =
      call :: next.succeeded calls := by
  simp [run, succeeded, next_of_ok hnext, hnext]

theorem run_cons_error {c : Chain} {call : Call} {e : ChainError}
    (herror : call.apply c = .error e) (calls : List Call) :
    c.run (call :: calls) = c.run calls ∧ c.succeeded (call :: calls) = c.succeeded calls := by
  simp [run, succeeded, next_of_error herror, herror]

/-- The whole of a run. The nodes come from the calls that succeeded, and the getter from the last
one that selects components. -/
theorem run_eq (c : Chain) (calls : List Call) :
    c.run calls = { c with
      nodes := c.nodes ++ (c.succeeded calls).filterMap (Call.node? c.registry c.id)
      getter := (calls.filterMap Call.getter?).getLast?.or c.getter } := by
  induction calls generalizing c with
  | nil => simp [run, succeeded]
  | cons call calls ih =>
      cases hnext : call.apply c with
      | error e =>
          obtain ⟨hrun, hsucceeded⟩ := run_cons_error hnext calls
          rw [hrun, hsucceeded, List.filterMap_cons_none (getter?_of_error hnext)]
          exact ih c
      | ok next =>
          obtain ⟨hrun, hsucceeded⟩ := run_cons_ok hnext calls
          rw [hrun, hsucceeded, ih next, apply_eq_ok hnext]
          cases hnode : call.node? c.registry c.id <;> cases hgetter : call.getter? <;>
            simp [hnode, hgetter, List.getLast?_cons]

theorem run_succeeded (c : Chain) (calls : List Call) :
    c.run (c.succeeded calls) = c.run calls := by
  induction calls generalizing c with
  | nil => rfl
  | cons call calls ih =>
      cases hnext : call.apply c with
      | error e =>
          obtain ⟨hrun, hsucceeded⟩ := run_cons_error hnext calls
          rw [hrun, hsucceeded, ih]
      | ok next =>
          obtain ⟨hrun, hsucceeded⟩ := run_cons_ok hnext calls
          rw [hrun, hsucceeded, (run_cons_ok hnext _).1, ih]

/-! The invariant of the construction. -/

structure NodeBuilt (registry : Registry) (id : ChainId) (node : Node) (t : Transform) : Prop where
  found : registry.find? node.name = some t
  category : node.category = t.category
  chain : node.chain = id
  count : node.bindings.length ≤ t.slots.length

structure Built (registry : Registry) (c : Chain) : Prop where
  registry_eq : c.registry = registry
  first : ∃ node rest t, c.nodes = node :: rest ∧ NodeBuilt registry c.id node t ∧
    t.category.isRoot
  later : ∀ node ∈ c.nodes.tail, ∃ t, NodeBuilt registry c.id node t ∧
    ¬(t.category = .source ∨ t.category = .vertex)

theorem Built.nonempty {registry : Registry} {c : Chain} (hc : Built registry c) :
    c.nodes ≠ [] := by
  obtain ⟨node, rest, t, hnodes, -⟩ := hc.first
  simp [hnodes]

theorem Built.answers {registry : Registry} {c : Chain} (hc : Built registry c) (name : String)
    (args : List Binding) : Answers registry c name args :=
  hc.registry_eq ▸ answers_of_nonempty hc.nonempty name args

theorem built_root {registry : Registry} {name : String} {args : List Binding} {c : Chain}
    {counters after : Counters}
    (hroot : (root registry name args).run counters = (.ok c, after)) : Built registry c := by
  obtain ⟨t, hfind, hisRoot, hcount, rfl⟩ := root_eq_ok_started hroot
  exact ⟨rfl, ⟨_, [], t, rfl, ⟨hfind, rfl, rfl, hcount⟩, hisRoot⟩, by simp⟩

theorem Built.apply {registry : Registry} {c next : Chain} (hc : Built registry c) {call : Call}
    (hnext : call.apply c = .ok next) : Built registry next := by
  obtain ⟨first, rest, t, hnodes, hfirst, hisRoot⟩ := hc.first
  cases call with
  | select getter =>
      rw [apply_eq_ok hnext]
      simp only [Call.node?, Option.toList_none, List.append_nil]
      exact ⟨hc.registry_eq, hc.first, hc.later⟩
  | andThen name args =>
      obtain ⟨u, hfind, hposition, hcount⟩ := (hc.answers name args).exists_ok.mp ⟨next, hnext⟩
      rw [Call.apply, (hc.answers name args).accepted u hfind hposition hcount] at hnext
      cases hnext
      have hlater := hc.later
      rw [hnodes, List.tail_cons] at hlater
      refine ⟨hc.registry_eq, ⟨first, rest ++ [_], t, by rw [hnodes]; rfl, hfirst, hisRoot⟩, ?_⟩
      intro node hnode
      rw [hnodes, List.cons_append, List.tail_cons, List.mem_append, List.mem_singleton] at hnode
      rcases hnode with hnode | rfl
      · exact hlater node hnode
      · exact ⟨u, ⟨hfind, rfl, rfl, hcount⟩, hposition⟩

theorem Built.next {registry : Registry} {c : Chain} (hc : Built registry c) (call : Call) :
    Built registry (call.next c) := by
  cases hnext : call.apply c with
  | ok next =>
      rw [next_of_ok hnext]
      exact hc.apply hnext
  | error e =>
      rw [next_of_error hnext]
      exact hc

theorem Built.run {registry : Registry} {c : Chain} (hc : Built registry c) (calls : List Call) :
    Built registry (c.run calls) := by
  induction calls generalizing c with
  | nil => exact hc
  | cons call calls ih => exact ih (hc.next call)

/-- A chain that was started has, after any calls, the nodes of those that succeeded and the last
getter that could be read. It keeps the invariant, and it goes on to answer by the registry
alone. -/
theorem run_of_root {registry : Registry} {name : String} {args : List Binding} {c : Chain}
    {counters after : Counters}
    (hroot : (root registry name args).run counters = (.ok c, after)) (calls : List Call) :
    (∃ t, registry.find? name = some t ∧ (c.run calls).nodes =
        ⟨name, t.category, args, c.id⟩ ::
          (c.succeeded calls).filterMap (Call.node? registry c.id)) ∧
      (c.run calls).getter = (calls.filterMap Call.getter?).getLast? ∧
      (c.run calls).id = c.id ∧ (c.run calls).registry = registry ∧
      c.run (c.succeeded calls) = c.run calls ∧
      (∀ (call : Call) (e : ChainError), call.apply (c.run calls) = .error e →
        c.run (calls ++ [call]) = c.run calls) ∧
      Built registry (c.run calls) ∧
      ∀ (name : String) (args : List Binding), Answers registry (c.run calls) name args ∧
        ((∃ next, (c.run calls).andThen name args = .ok next) ↔
          ∃ t, registry.find? name = some t ∧ ¬(t.category = .source ∨ t.category = .vertex) ∧
            args.length ≤ t.slots.length) := by
  have hbuilt := (built_root hroot).run calls
  obtain ⟨t, hfind, -, -, rfl⟩ := root_eq_ok_started hroot
  refine ⟨⟨t, hfind, ?_⟩, ?_, ?_, ?_, run_succeeded _ calls, fun call e herror => ?_, hbuilt,
    fun name args => ⟨hbuilt.answers name args, (hbuilt.answers name args).exists_ok⟩⟩
  · rw [run_eq]
    rfl
  · rw [run_eq, Option.or_none]
  · rw [run_eq]
  · rw [run_eq]
  · rw [run, List.foldl_append]
    exact (run_cons_error herror []).1

/-- Four calls that fail and two that do not. -/
def sampleCalls : List Call :=
  [.andThen "spin" [], .andThen "osc" [.literal 1.0],
    .andThen "rotate" [.literal 0.5, .literal 0.0, .literal 0.0], .andThen "rotate" [.literal 0.5],
    .select "rg", .select "xg"]

theorem run_of_root_sampleCalls :
    ∃ c after, (root .sample "osc" []).run {} = (.ok c, after) ∧
      (c.run sampleCalls).nodes.map (·.name) = ["osc", "rotate"] ∧
      (c.run sampleCalls).getter.map Swizzle.text = some "rg" ∧
      (c.run sampleCalls).andThen "osc" [.literal 1.0] =
        .error (.invalidPosition "osc" .source "rotate" .coordinate 2) := by
  have hroot : (root .sample "osc" []).run {} =
      (.ok ⟨1, .sample, [⟨"osc", .source, [], 1⟩], none⟩, { chain := 2 }) := rfl
  obtain ⟨⟨t, -, hnodes⟩, hgetter, -, -, -, -, -, hanswers⟩ := run_of_root hroot sampleCalls
  refine ⟨_, _, hroot, ?_, ?_, ?_⟩
  · rw [hnodes]
    rfl
  · rw [hgetter]
    decide +kernel
  · obtain ⟨u, hfind, hcategory⟩ : ∃ u, Registry.sample.find? "osc" = some u ∧
        u.category = .source := ⟨_, rfl, rfl⟩
    obtain ⟨last, hlast, herror⟩ := (hanswers "osc" [.literal 1.0]).1.position u hfind
      (.inl hcategory)
    rw [herror, hcategory]
    rw [hnodes] at hlast ⊢
    cases hlast
    rfl

end Chain

end ShaderChain
