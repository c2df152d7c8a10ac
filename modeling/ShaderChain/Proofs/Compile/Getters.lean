import ShaderChain.Proofs.Compile.Slots
import ShaderChain.Proofs.Compile.WellTyped
import ShaderChain.Proofs.Expr.Subterm

/-! The getters of chains that are bound to slots. A chain compiles whatever they select, and the
calls of its body are typed exactly if those that the body depends on fit their slots. -/

namespace ShaderChain

namespace Chain

/-- The chains that the value of a chain depends on: itself, and with a chain also those bound to
its nodes that act. -/
inductive Live (registry : Registry) : Chain → Chain → Prop
  | self (c : Chain) : Live registry c c
  | nested {c d e : Chain} {i arg : Nat} {node : Node} (hnode : c.nodes[i]? = some node)
      (hacts : actsBefore registry (c.nodes.drop (i + 1)))
      (hbinding : node.bindings[arg]? = some (.chain d)) (hinner : Live registry d e) :
      Live registry c e

/-- A chain is bound to a slot of a node that the value depends on. -/
inductive LiveBinding (registry : Registry) (c : Chain) (t : Transform) (arg : Nat) (slot : Slot)
    (d : Chain) : Prop
  | mk {e : Chain} {i : Nat} {node : Node} (hlive : Live registry c e)
      (hnode : e.nodes[i]? = some node) (hacts : actsBefore registry (e.nodes.drop (i + 1)))
      (hfind : registry.find? node.name = some t) (hslot : t.slots[arg]? = some slot)
      (hbinding : node.bindings[arg]? = some (.chain d)) : LiveBinding registry c t arg slot d

/-- A bound chain has the components that its getter selects, and they are no more than the slot
has. -/
structure FitsSlot (registry : Registry) (d : Chain) (slot : Slot) : Prop where
  within : Swizzle.Within d.getter (d.natural registry)
  count : (Binding.chain d).GetterFits slot

def BoundGettersFit (registry : Registry) (c : Chain) : Prop :=
  ∀ t arg slot d, c.LiveBinding registry t arg slot d → d.FitsSlot registry slot

variable {registry : Registry}

theorem BoundGettersFit.nested {c d : Chain} {i arg : Nat} {node : Node}
    (hfit : c.BoundGettersFit registry) (hnode : c.nodes[i]? = some node)
    (hacts : actsBefore registry (c.nodes.drop (i + 1)))
    (hbinding : node.bindings[arg]? = some (.chain d)) : d.BoundGettersFit registry := by
  rintro t arg slot e ⟨hlive, hinner, hbefore, hfind, hslot, hbound⟩
  exact hfit t arg slot e
    (.mk (.nested hnode hacts hbinding hlive) hinner hbefore hfind hslot hbound)

end Chain

namespace Walk

theorem clean_node {registry : Registry} {path : List Nat} {predecessor : String}
    {position i : Nat} {ns : List Node} {node : Node}
    (hclean : Clean (nodes registry .fragment path predecessor position ns))
    (hnode : ns[i]? = some node) :
    ∃ t, registry.find? node.name = some t ∧ node.bindings.length ≤ t.slots.length := by
  induction ns generalizing predecessor position i with
  | nil => simp at hnode
  | cons first rest ih =>
      obtain ⟨t, hfind, -, hrest⟩ := clean_nodes_cons hclean
      cases i with
      | zero =>
          cases hnode
          rw [nodes_cons hfind, clean_cons, Visit.error?_node_eq_none] at hclean
          obtain ⟨⟨u, hu, -, hcount⟩, -⟩ := hclean
          cases hu
          exact ⟨t, hfind, hcount⟩
      | succ i => exact ih hrest hnode

theorem exists_slot {registry : Registry} {path : List Nat} {predecessor : String}
    {position i arg : Nat} {ns : List Node} {node : Node} {b : Binding}
    (hclean : Clean (nodes registry .fragment path predecessor position ns))
    (hnode : ns[i]? = some node) (hbinding : node.bindings[arg]? = some b) :
    ∃ t slot, registry.find? node.name = some t ∧ t.slots[arg]? = some slot := by
  obtain ⟨t, hfind, hcount⟩ := clean_node hclean hnode
  have hbound := (List.getElem?_eq_some_iff.mp hbinding).1
  exact ⟨t, _, hfind, List.getElem?_eq_getElem (Nat.lt_of_lt_of_le hbound hcount)⟩

theorem getElem?_arguments {registry : Registry} {params : List Param} {bindings : List Binding}
    {i : Nat} {p : Param} {b : Binding} (hp : params[i]? = some p) (hb : bindings[i]? = some b)
    (s : Site) (arg : Nat) :
    (Input.arguments params (inputs registry s arg (params.map Param.slot) bindings))[i]? =
      some (Input.argument p.type (input registry s (arg + i) b)) := by
  induction bindings generalizing params arg i with
  | nil => simp at hb
  | cons first rest ih =>
      cases params with
      | nil => simp at hp
      | cons q params =>
          cases i with
          | zero =>
              cases hp
              cases hb
              rfl
          | succ i =>
              simp only [List.getElem?_cons_succ] at hp hb
              simp only [List.map_cons, inputs, Input.arguments, List.getElem?_cons_succ]
              rw [ih hp hb, Nat.add_right_comm, Nat.add_assoc]

end Walk

theorem Transform.argumentTypes_eq (t : Transform) :
    ∃ first, t.argumentTypes = first :: t.slots.map Slot.type := by
  have hparams : (t.params.map Param.slot).map Slot.type = t.params.map Param.type := by
    rw [List.map_map]
    rfl
  unfold argumentTypes
  by_cases hoperand : t.category.hasOperand
  · rw [Walk.slots_of_operand hoperand, List.map_cons, hparams]
    cases hcategory : t.category with
    | combine | combineCoordinate => exact ⟨_, rfl⟩
    | _ => simp [hcategory, Category.hasOperand] at hoperand
  · rw [Walk.slots_of_no_operand hoperand, hparams]
    cases hcategory : t.category with
    | combine | combineCoordinate => simp [hcategory, Category.hasOperand] at hoperand
    | _ => exact ⟨_, rfl⟩

/-! Fitting getters are enough. -/

section Sufficient

variable {Γ : Context} {registry : Registry}

theorem Chain.BoundGettersFit.wellTyped (hbase : Γ "st" = some (.numeric .vec2)) {c : Chain}
    (hfit : c.BoundGettersFit registry) (path : List Nat) (target : ValueType)
    (hclean : Walk.Clean (Walk.nodes registry .fragment path "" 0 c.nodes))
    (hcovers : Γ.Covers (Walk.nodes registry .fragment path "" 0 c.nodes)) :
    (Field.ofLayers target .identity
      (Walk.layers registry .fragment path 0 c.nodes)).WellTyped Γ := by
  induction c using Chain.nestedInduction generalizing path target with
  | step c ih =>
      refine wellTyped_acting hbase target path "" 0 c.nodes (fun _ => Field.wellTyped_identity)
        ?_ ?_ hclean hcovers
      · intro i node hnode hacts d hd
        obtain ⟨arg, harg⟩ := List.mem_iff_getElem?.mp hd
        obtain ⟨t, slot, hfind, hslot⟩ := Walk.exists_slot hclean hnode harg
        refine ⟨(hfit t arg slot d (.mk (.self c) hnode hacts hfind hslot harg)).within, ?_⟩
        intro path target hclean hcovers
        exact ih node (List.mem_of_getElem? hnode) d hd (hfit.nested hnode hacts harg) path target
          hclean hcovers
      · rintro i node hnode hacts t hfind ⟨slot, b⟩ hpair
        obtain ⟨arg, harg⟩ := List.mem_iff_getElem?.mp hpair
        obtain ⟨hslot, hb⟩ := List.getElem?_zip_eq_some.mp harg
        cases b with
        | chain d => exact (hfit t arg slot d (.mk (.self c) hnode hacts hfind hslot hb)).count
        | _ => trivial

end Sufficient

/-! Fitting getters are needed. The value of every live chain occurs in the body, fitted to its slot
by its getter. -/

/-- What a slot gets for a chain that is bound to it. An operand may first be fitted to something
else. -/
inductive Chain.ValueFor (Γ : Context) (registry : Registry) (d : Chain) (slot : Slot) : Expr → Prop
  | mk {path : List Nat} {q : Expr} {target : ValueType}
      (hq : q.apparent Γ = some (.numeric .vec2))
      (hclean : Walk.Clean (Walk.nodes registry .fragment path "" 0 d.nodes))
      (htarget : target = slot.type ∨ slot = .operand) :
      ValueFor Γ registry d slot
        ((((Field.ofLayers target .identity
          (Walk.layers registry .fragment path 0 d.nodes)).typedAt q).fit d.getter target).widen
            slot.type).expr

/-- A call that has the value of a bound chain in its place among the arguments. -/
def Chain.CallWith (Γ : Context) (registry : Registry) (d : Chain) (t : Transform) (arg : Nat)
    (slot : Slot) (e : Expr) : Prop :=
  ∃ args a, e = .call t args ∧ args[arg + 1]? = some a ∧ d.ValueFor Γ registry slot a

section Necessary

variable {Γ : Context} {registry : Registry}

theorem Field.apparent_ofLayers {f : Field} (hf : f.Apparent Γ) (target : ValueType)
    (layers : List Layer) : (Field.ofLayers target f layers).Apparent Γ := by
  induction layers generalizing f with
  | nil => exact hf
  | cons layer rest ih =>
      rw [Field.ofLayers_cons]
      exact ih (hf.compose _ _ _)

theorem Chain.ValueFor.fitsSlot {d : Chain} {slot : Slot} {a : Expr}
    (hvalue : d.ValueFor Γ registry slot a) (ha : a.HasType Γ slot.type) :
    d.FitsSlot registry slot := by
  obtain @⟨path, q, target, hq, hclean, htarget⟩ := hvalue
  have hnatural := d.type_ofLayers target path hclean
  have happarent := Field.apparent_ofLayers Field.apparent_identity target
    (Walk.layers registry .fragment path 0 d.nodes) q hq
  rw [hnatural] at happarent
  constructor
  · -- The selection occurs in the argument, and the chain's own type is all it can select from.
    intro g hg i hi
    rw [Option.mem_def.mp hg] at ha
    obtain ⟨type, hselected⟩ := ha.subterm
      ((Typed.occursIn_widen (Typed.select _ g) target).trans (Typed.occursIn_widen _ slot.type))
    cases hselected with
    | swizzle hsource _ hcomponents =>
        cases happarent.symm.trans hsource.apparent_eq
        exact hcomponents i hi
  · intro g hg width hwidth
    rcases htarget with rfl | rfl
    · obtain ⟨type, htype⟩ : ∃ type, slot.type = .numeric type := by
        cases htype : slot.type with
        | numeric type => exact ⟨type, rfl⟩
        | texture => simp [htype, ValueType.width?] at hwidth
      rw [Option.mem_def.mp hg, Typed.widen_fit, htype] at ha
      rw [htype] at hwidth
      cases hwidth
      have hwider := (Typed.apparent_widen rfl (.numeric type)).symm.trans ha.apparent_eq
      simp only [Typed.widen, Typed.select, Option.some.injEq, ValueType.numeric.injEq] at hwider
      rw [← g.width_type]
      exact Numeric.le_of_wider_eq hwider
    · -- An operand has as many components as a getter can select.
      cases hwidth
      exact g.length_le_four

theorem Field.Uses.occursIn_compose {f : Field} (hf : f.Uses) (t : Transform)
    (operand : Expr → Expr) (args : List Expr) (q : Expr) :
    ∃ first, (Expr.call t (first ::
      if t.category.hasOperand then operand q :: args else args)).OccursIn
        ((f.compose t operand args).value q) := by
  unfold Field.compose
  cases t.category with
  | source | vertex | raw | color | combine => exact ⟨_, .self⟩
  | coordinate | combineCoordinate => exact ⟨q, hf _⟩

theorem Chain.valueFor_param {d : Chain} (hbase : Γ "st" = some (.numeric .vec2)) (s : Site)
    (arg : Nat) (p : Param)
    (hclean : Walk.Clean (Walk.nodes registry .fragment (s.path ++ [arg]) "" 0 d.nodes)) :
    d.ValueFor Γ registry p.slot
      (Input.argument p.type (Walk.input registry s arg (.chain d))) := by
  have hq : baseCoordinate.apparent Γ = some (.numeric .vec2) := hbase
  have hvalue : d.ValueFor Γ registry p.slot _ := .mk hq hclean (.inl rfl)
  rw [Typed.widen_fit] at hvalue
  exact hvalue

/-- The operand and the arguments of a call stand behind its first argument, in the order of the
slots. -/
theorem Chain.exists_valueFor (hbase : Γ "st" = some (.numeric .vec2)) {t : Transform} {node : Node}
    {arg : Nat} {slot : Slot} {d : Chain} (hslot : t.slots[arg]? = some slot)
    (hbinding : node.bindings[arg]? = some (.chain d)) (s : Site) (target : ValueType)
    (hclean : Walk.Clean (Walk.nodes registry .fragment (s.path ++ [arg]) "" 0 d.nodes)) {q : Expr}
    (hq : q.apparent Γ = some (.numeric .vec2)) :
    ∃ a, (if t.category.hasOperand then
        Input.operandAt target (Walk.layer registry t s node).operand q ::
          Input.arguments t.params (Walk.layer registry t s node).args
      else Input.arguments t.params (Walk.layer registry t s node).args)[arg]? = some a ∧
        d.ValueFor Γ registry slot a := by
  obtain ⟨name, category, bindings, chain⟩ := node
  by_cases hoperand : t.category.hasOperand
  · rw [Walk.slots_of_operand hoperand] at hslot
    rw [if_pos hoperand]
    cases bindings with
    | nil => simp at hbinding
    | cons b rest =>
        rw [Walk.layer_of_operand hoperand]
        cases arg with
        | zero =>
            cases hslot
            cases hbinding
            exact ⟨_, rfl, .mk hq hclean (.inr rfl)⟩
        | succ i =>
            simp only [List.getElem?_cons_succ, List.getElem?_map, Option.map_eq_some_iff] at hslot
            simp only [List.getElem?_cons_succ] at hbinding ⊢
            obtain ⟨p, hp, rfl⟩ := hslot
            refine ⟨_, Walk.getElem?_arguments hp hbinding s 1, ?_⟩
            rw [Nat.add_comm 1 i]
            exact valueFor_param hbase s (i + 1) p hclean
  · rw [Walk.slots_of_no_operand hoperand, List.getElem?_map, Option.map_eq_some_iff] at hslot
    obtain ⟨p, hp, rfl⟩ := hslot
    rw [if_neg hoperand, Walk.layer_of_no_operand hoperand]
    refine ⟨_, Walk.getElem?_arguments hp hbinding s 0, ?_⟩
    rw [Nat.zero_add]
    exact valueFor_param hbase s arg p hclean

theorem Field.Uses.shows_node (hbase : Γ "st" = some (.numeric .vec2)) {f : Field} (hf : f.Uses)
    {t : Transform} {node : Node} {arg : Nat} {slot : Slot} {d : Chain}
    (hslot : t.slots[arg]? = some slot) (hbinding : node.bindings[arg]? = some (.chain d))
    (s : Site) (target : ValueType)
    (hclean : Walk.Clean (Walk.nodes registry .fragment (s.path ++ [arg]) "" 0 d.nodes)) :
    (f.compose t (Input.operandAt target (Walk.layer registry t s node).operand)
      (Input.arguments t.params (Walk.layer registry t s node).args)).Shows Γ
        (d.CallWith Γ registry t arg slot) := by
  intro q hq
  obtain ⟨a, ha, hvalue⟩ := Chain.exists_valueFor hbase hslot hbinding s target hclean hq
  obtain ⟨first, hcall⟩ := hf.occursIn_compose t
    (Input.operandAt target (Walk.layer registry t s node).operand)
    (Input.arguments t.params (Walk.layer registry t s node).args) q
  exact ⟨_, ⟨_, a, rfl, ha, hvalue⟩, hcall⟩

theorem Field.Shows.ofNodes {f : Field} {P : Expr → Prop} (hf : f.Shows Γ P) (target : ValueType)
    (path : List Nat) (predecessor : String) (position : Nat) (ns : List Node)
    (hacts : Chain.actsBefore registry ns)
    (hclean : Walk.Clean (Walk.nodes registry .fragment path predecessor position ns)) :
    (Field.ofLayers target f (Walk.layers registry .fragment path position ns)).Shows Γ P := by
  induction ns generalizing f predecessor position with
  | nil => exact hf
  | cons node rest ih =>
      obtain ⟨t, hfind, -, hrest⟩ := Walk.clean_nodes_cons hclean
      rw [Chain.actsBefore_cons hfind] at hacts
      rw [Walk.layers_cons hfind, Field.ofLayers_cons, Walk.layer_transform]
      exact ih (hf.compose hacts.1 _ _) node.name (position + 1) hacts.2 hrest

theorem Field.Uses.shows_acting (hbase : Γ "st" = some (.numeric .vec2)) {f : Field} (hf : f.Uses)
    (target : ValueType) (path : List Nat) (predecessor : String) (position : Nat) (ns : List Node)
    {i arg : Nat} {node : Node} {t : Transform} {slot : Slot} {d : Chain}
    (hnode : ns[i]? = some node) (hacts : Chain.actsBefore registry (ns.drop (i + 1)))
    (hfind : registry.find? node.name = some t) (hslot : t.slots[arg]? = some slot)
    (hbinding : node.bindings[arg]? = some (.chain d))
    (hclean : Walk.Clean (Walk.nodes registry .fragment path predecessor position ns))
    (hinner : Walk.Clean
      (Walk.nodes registry .fragment (path ++ [position + i] ++ [arg]) "" 0 d.nodes)) :
    (Field.ofLayers target f (Walk.layers registry .fragment path position ns)).Shows Γ
      (d.CallWith Γ registry t arg slot) := by
  induction ns generalizing f predecessor position i with
  | nil => simp at hnode
  | cons first rest ih =>
      obtain ⟨u, hu, -, hrest⟩ := Walk.clean_nodes_cons hclean
      rw [Walk.layers_cons hu, Field.ofLayers_cons, Walk.layer_transform]
      cases i with
      | zero =>
          cases hnode
          cases hu.symm.trans hfind
          have hshows := hf.shows_node hbase hslot hbinding
            ⟨t.name, position, path ++ [position]⟩ (Layer.operandTarget t (Layer.expected target
              (Walk.layers registry .fragment path (position + 1) rest))) hinner
          exact hshows.ofNodes target path node.name (position + 1) rest hacts hrest
      | succ i =>
          rw [show position + (i + 1) = position + 1 + i by omega] at hinner
          exact ih (hf.compose u _ _) first.name (position + 1) hnode hacts hrest hinner

namespace Chain

variable {c d e : Chain}

theorem shows_bound (hbase : Γ "st" = some (.numeric .vec2)) {i arg : Nat} {node : Node}
    {t : Transform} {slot : Slot} (hnode : c.nodes[i]? = some node)
    (hacts : actsBefore registry (c.nodes.drop (i + 1)))
    (hfind : registry.find? node.name = some t) (hslot : t.slots[arg]? = some slot)
    (hbinding : node.bindings[arg]? = some (.chain d)) (path : List Nat) (target : ValueType)
    (hclean : Walk.Clean (Walk.nodes registry .fragment path "" 0 c.nodes)) :
    (Field.ofLayers target .identity (Walk.layers registry .fragment path 0 c.nodes)).Shows Γ
      (d.CallWith Γ registry t arg slot) := by
  obtain ⟨u, hu, hcount⟩ := Walk.clean_node hclean hnode
  have hinner : Walk.Clean
      (Walk.nodes registry .fragment (path ++ [0 + i] ++ [arg]) "" 0 d.nodes) := by
    rw [Nat.zero_add]
    intro v hv
    exact hclean v (Walk.nodes_subset hnode hu hcount hbinding path "" hv)
  exact Field.Uses.shows_acting hbase (fun _ => .self) target path "" 0 c.nodes hnode hacts hfind
    hslot hbinding hclean hinner

theorem ValueFor.exists_value {slot : Slot} {a : Expr} (hvalue : d.ValueFor Γ registry slot a) :
    ∃ path target q, q.apparent Γ = some (.numeric .vec2) ∧
      Walk.Clean (Walk.nodes registry .fragment path "" 0 d.nodes) ∧
      ((Field.ofLayers target .identity
        (Walk.layers registry .fragment path 0 d.nodes)).value q).OccursIn a := by
  obtain @⟨path, q, target, hq, hclean, -⟩ := hvalue
  refine ⟨path, target, q, hq, hclean, ?_⟩
  exact (Typed.occursIn_fit (Field.typedAt _ q) d.getter target).trans (Typed.occursIn_widen _ _)

theorem Live.occursIn (hbase : Γ "st" = some (.numeric .vec2)) (hlive : Live registry c e)
    (path : List Nat) (target : ValueType) {q : Expr} (hq : q.apparent Γ = some (.numeric .vec2))
    (hclean : Walk.Clean (Walk.nodes registry .fragment path "" 0 c.nodes)) :
    ∃ path' target' q', q'.apparent Γ = some (.numeric .vec2) ∧
      Walk.Clean (Walk.nodes registry .fragment path' "" 0 e.nodes) ∧
      ((Field.ofLayers target' .identity
        (Walk.layers registry .fragment path' 0 e.nodes)).value q').OccursIn
          ((Field.ofLayers target .identity
            (Walk.layers registry .fragment path 0 c.nodes)).value q) := by
  induction hlive generalizing path target q with
  | self c => exact ⟨path, target, q, hq, hclean, .self⟩
  | nested hnode hacts hbinding _ ih =>
      obtain ⟨t, slot, hfind, hslot⟩ := Walk.exists_slot hclean hnode hbinding
      obtain ⟨_, ⟨args, a, rfl, ha, hvalue⟩, hcall⟩ :=
        shows_bound hbase hnode hacts hfind hslot hbinding path target hclean q hq
      obtain ⟨inner, asked, at', hat, hinner, hoccurs⟩ := hvalue.exists_value
      obtain ⟨path', target', q', hq', hclean', hdeep⟩ := ih inner asked hat hinner
      refine ⟨path', target', q', hq', hclean', ?_⟩
      exact hdeep.trans (hoccurs.trans (.trans (.call (List.mem_of_getElem? ha) .self) hcall))

theorem LiveBinding.occursIn (hbase : Γ "st" = some (.numeric .vec2)) {t : Transform} {arg : Nat}
    {slot : Slot} (hbound : c.LiveBinding registry t arg slot d) (path : List Nat)
    (target : ValueType) {q : Expr} (hq : q.apparent Γ = some (.numeric .vec2))
    (hclean : Walk.Clean (Walk.nodes registry .fragment path "" 0 c.nodes)) :
    ∃ args a, (Expr.call t args).OccursIn ((Field.ofLayers target .identity
        (Walk.layers registry .fragment path 0 c.nodes)).value q) ∧
      args[arg + 1]? = some a ∧ d.ValueFor Γ registry slot a := by
  obtain ⟨hlive, hnode, hacts, hfind, hslot, hbinding⟩ := hbound
  obtain ⟨inner, asked, at', hat, hinner, hoccurs⟩ :=
    hlive.occursIn hbase path target hq hclean
  obtain ⟨_, ⟨args, a, rfl, ha, hvalue⟩, hcall⟩ :=
    shows_bound hbase hnode hacts hfind hslot hbinding inner asked hinner at' hat
  exact ⟨args, a, hcall.trans hoccurs, ha, hvalue⟩

end Chain

end Necessary

namespace Chain

variable {registry : Registry} {c : Chain}

/-- All calls have arguments of the types that their transforms declare. -/
def CallsTyped (Γ : Context) (body : Expr) : Prop :=
  ∀ t args, (Expr.call t args).OccursIn body → Expr.HaveTypes Γ args t.argumentTypes

theorem CallsTyped.argument {Γ : Context} {body : Expr} (htyped : CallsTyped Γ body)
    {t : Transform} {args : List Expr} (hcall : (Expr.call t args).OccursIn body) {arg : Nat}
    {slot : Slot} {a : Expr} (hslot : t.slots[arg]? = some slot) (ha : args[arg + 1]? = some a) :
    a.HasType Γ slot.type := by
  obtain ⟨type, htype, hhas⟩ := (htyped t args hcall).getElem? ha
  obtain ⟨first, htypes⟩ := t.argumentTypes_eq
  rw [htypes, List.getElem?_cons_succ, List.getElem?_map, hslot] at htype
  cases htype
  exact hhas

variable {target : ValueType} {out : Compiled}

theorem LiveBinding.argument {t : Transform} {arg : Nat} {slot : Slot} {d : Chain}
    (hbound : c.LiveBinding registry t arg slot d) (hout : c.compile registry target = .ok out) :
    ∃ args a, (Expr.call t args).OccursIn out.body ∧ args[arg + 1]? = some a ∧
      d.ValueFor out.context registry slot a := by
  have hbase : out.context "st" = some (.numeric .vec2) := rfl
  obtain ⟨hclean, rfl⟩ := compile_eq_ok hout
  obtain ⟨args, a, hcall, ha, hvalue⟩ := hbound.occursIn hbase [] target
    (Expr.HasType.name hbase).apparent_eq hclean
  -- The getter of the outermost chain selects from the value, and hides no call of it.
  exact ⟨args, a, hcall.trans (Typed.occursIn_finish (Field.typedAt _ _) c.getter target), ha,
    hvalue⟩

theorem callsTyped_iff (hout : c.compile registry target = .ok out) :
    CallsTyped out.context out.body ↔ c.BoundGettersFit registry := by
  constructor
  · intro htyped t arg slot d hbound
    obtain ⟨args, a, hcall, ha, hvalue⟩ := hbound.argument hout
    obtain ⟨-, -, -, -, hslot, -⟩ := hbound
    exact hvalue.fitsSlot (htyped.argument hcall hslot ha)
  · intro hfit t args hcall
    obtain ⟨hclean, rfl⟩ := compile_eq_ok hout
    have hcovers : (Compiled.ofLayers c.getter target (c.layers registry .fragment)
        (c.resources registry .fragment)).context.Covers (c.visits registry .fragment) :=
      covers_context (c.uniforms_resources registry .fragment) (c.nodup_names registry .fragment)
    have hvalue := hfit.wellTyped rfl [] target hclean hcovers baseCoordinate (.name rfl)
    obtain ⟨type, htype⟩ := hvalue.subterm (Typed.call_of_finish hcall)
    cases htype with
    | call hargs => exact hargs

/-- Getters are no reason for a chain not to compile. Its calls are typed exactly if the getters of
bound chains fit their slots, and one that does not fit leaves its own argument without the type of
the slot. -/
theorem compile_getters (hc : Constructed registry c) (target : ValueType) :
    ((∃ out, c.compile registry target = .ok out) ↔
        ∀ d, c.Contains d → ∀ node ∈ d.nodes, ∀ t, registry.find? node.name = some t →
          t.Accepts node.bindings) ∧
      ∀ out, c.compile registry target = .ok out →
        (CallsTyped out.context out.body ↔ c.BoundGettersFit registry) ∧
        ∀ t arg slot d, c.LiveBinding registry t arg slot d →
          ∃ args a, (Expr.call t args).OccursIn out.body ∧ args[arg + 1]? = some a ∧
            d.ValueFor out.context registry slot a ∧
            (a.HasType out.context slot.type → d.FitsSlot registry slot) := by
  refine ⟨hc.exists_compile_eq_ok target, fun out hout => ⟨callsTyped_iff hout, ?_⟩⟩
  intro t arg slot d hbound
  obtain ⟨args, a, hcall, ha, hvalue⟩ := hbound.argument hout
  exact ⟨args, a, hcall, ha, hvalue, hvalue.fitsSlot⟩

/-! Three components in the place of a number, and the third component of a coordinate. -/

def sampleWide : Chain :=
  ⟨1, .sample, [⟨"osc", .source, [], 1⟩], Swizzle.parse? "xyz"⟩

def sampleDeep : Chain :=
  ⟨2, .sample, [⟨"rotate", .coordinate, [], 2⟩], Swizzle.parse? "z"⟩

def sampleMisfit : Chain :=
  ⟨3, .sample, [⟨"osc", .source, [.chain sampleWide, .chain sampleDeep], 3⟩], none⟩

theorem constructed_sampleMisfit : Constructed .sample sampleMisfit := by
  have hosc : (root .sample "osc" []).run {} =
      (.ok ⟨1, .sample, [⟨"osc", .source, [], 1⟩], none⟩, { chain := 2 }) := rfl
  have hrotate : (root .sample "rotate" []).run { chain := 2 } =
      (.ok ⟨2, .sample, [⟨"rotate", .coordinate, [], 2⟩], none⟩, { chain := 3 }) := rfl
  have hwide : select ⟨1, .sample, [⟨"osc", .source, [], 1⟩], none⟩ "xyz" = .ok sampleWide := rfl
  have hdeep : select ⟨2, .sample, [⟨"rotate", .coordinate, [], 2⟩], none⟩ "z" = .ok sampleDeep :=
    rfl
  have hmisfit : (root .sample "osc" [.chain sampleWide, .chain sampleDeep]).run { chain := 3 } =
      (.ok sampleMisfit, { chain := 4 }) := rfl
  refine .root (fun d hd => ?_) hmisfit
  simp only [List.mem_cons, Binding.chain.injEq, List.not_mem_nil, or_false] at hd
  rcases hd with rfl | rfl
  · exact .select (.root (by simp) hosc) hwide
  · exact .select (.root (by simp) hrotate) hdeep

theorem liveBinding_sampleMisfit :
    ∃ t frequency sync, sampleMisfit.LiveBinding .sample t 0 frequency sampleWide ∧
      sampleMisfit.LiveBinding .sample t 1 sync sampleDeep ∧
      frequency.type = .numeric .float ∧ sync.type = .numeric .float := by
  have hosc : ∃ t frequency sync, Registry.sample.find? "osc" = some t ∧
      t.slots[0]? = some frequency ∧ t.slots[1]? = some sync ∧
      frequency.type = .numeric .float ∧ sync.type = .numeric .float :=
    ⟨_, _, _, rfl, rfl, rfl, rfl, rfl⟩
  obtain ⟨t, frequency, sync, hfind, hfrequency, hsync, htypes⟩ := hosc
  have hnode : sampleMisfit.nodes[0]? =
      some ⟨"osc", .source, [.chain sampleWide, .chain sampleDeep], 3⟩ := rfl
  exact ⟨t, frequency, sync, .mk (.self _) hnode rfl hfind hfrequency rfl,
    .mk (.self _) hnode rfl hfind hsync rfl, htypes⟩

theorem compile_getters_sampleMisfit :
    Constructed .sample sampleMisfit ∧
      ∃ out, sampleMisfit.compile .sample (.numeric .vec4) = .ok out ∧
        ¬CallsTyped out.context out.body ∧
        ∀ arg ∈ [0, 1], ∃ t args a, (Expr.call t args).OccursIn out.body ∧
          args[arg + 1]? = some a ∧ ¬a.HasType out.context (.numeric .float) := by
  refine ⟨constructed_sampleMisfit, ?_⟩
  have hnone : sampleMisfit.firstError? .sample .fragment = none := by decide +kernel
  obtain ⟨out, hout⟩ := exists_compile hnone (.numeric .vec4)
  obtain ⟨-, hgetters⟩ := compile_getters constructed_sampleMisfit (.numeric .vec4)
  obtain ⟨htyped, harguments⟩ := hgetters out hout
  obtain ⟨t, frequency, sync, hwide, hdeep, hfrequency, hsync⟩ := liveBinding_sampleMisfit
  have hnotWide : ¬sampleWide.FitsSlot .sample frequency := by
    intro hfit
    have hcount := hfit.count _ rfl 1 (by rw [hfrequency]; rfl)
    exact absurd hcount (by decide)
  have hnotDeep : ¬sampleDeep.FitsSlot .sample sync := by
    intro hfit
    exact absurd hfit.within (by decide +kernel)
  refine ⟨out, hout, fun hcalls => hnotWide (htyped.mp hcalls t 0 frequency _ hwide), ?_⟩
  intro arg harg
  simp only [List.mem_cons, List.not_mem_nil, or_false] at harg
  rcases harg with rfl | rfl
  · obtain ⟨args, a, hcall, ha, -, hfits⟩ := harguments t 0 frequency _ hwide
    exact ⟨t, args, a, hcall, ha, fun hhas => hnotWide (hfits (hfrequency ▸ hhas))⟩
  · obtain ⟨args, a, hcall, ha, -, hfits⟩ := harguments t 1 sync _ hdeep
    exact ⟨t, args, a, hcall, ha, fun hhas => hnotDeep (hfits (hsync ▸ hhas))⟩

end Chain

end ShaderChain
