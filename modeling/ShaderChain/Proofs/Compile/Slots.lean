import ShaderChain.Proofs.Chain.Constructed
import ShaderChain.Proofs.Resolve.Visited

/-! Constructed chains fail to compile for one reason only: a slot that is not bound as it has to
be. -/

namespace ShaderChain

/-- Whether an error is about what is bound to a slot, and not about the structure of a chain. -/
def CompileError.isOfSlot : CompileError → Bool
  | .missingArgument .. | .typeMismatch .. => true
  | .unknownOperation .. | .invalidPosition .. | .tooManyArguments .. => false

def Binding.isTexture : Binding → Bool
  | .texture _ => true
  | _ => false

namespace Transform

def firstParam (t : Transform) : Nat :=
  if t.category.hasOperand then 1 else 0

/-- Textures are bound to the parameters for them, and to nothing else. An operand has to be
bound. -/
structure Accepts (t : Transform) (bindings : List Binding) : Prop where
  operand : t.category.hasOperand → ∃ b, bindings[0]? = some b ∧ ¬b.isTexture
  textures : ∀ (i : Nat) (p : Param), t.params[i]? = some p → p.type = .texture →
    ∃ b, bindings[t.firstParam + i]? = some b ∧ b.isTexture
  numbers : ∀ (i : Nat) (p : Param), t.params[i]? = some p → p.type ≠ .texture →
    ∀ b, bindings[t.firstParam + i]? = some b → ¬b.isTexture

theorem getElem?_slots_operand {t : Transform} (hoperand : t.category.hasOperand) :
    t.slots[0]? = some .operand := by
  rw [Walk.slots_of_operand hoperand]
  rfl

theorem getElem?_slots_param (t : Transform) (i : Nat) :
    t.slots[t.firstParam + i]? = t.params[i]?.map Param.slot := by
  by_cases hoperand : t.category.hasOperand
  · rw [Walk.slots_of_operand hoperand, firstParam, if_pos hoperand, Nat.add_comm]
    simp
  · rw [Walk.slots_of_no_operand hoperand, firstParam, if_neg hoperand, Nat.zero_add]
    simp

theorem slot_cases {t : Transform} {arg : Nat} {slot : Slot} (hslot : t.slots[arg]? = some slot) :
    (t.category.hasOperand ∧ arg = 0 ∧ slot = .operand) ∨
      ∃ i p, t.params[i]? = some p ∧ arg = t.firstParam + i ∧ slot = p.slot := by
  by_cases hfirst : arg < t.firstParam
  · have hoperand : t.category.hasOperand := by
      by_cases hoperand : t.category.hasOperand
      · exact hoperand
      · simp [firstParam, hoperand] at hfirst
    have hzero : arg = 0 := by
      simp only [firstParam, hoperand, if_true] at hfirst
      omega
    rw [hzero, getElem?_slots_operand hoperand] at hslot
    exact .inl ⟨hoperand, hzero, (Option.some.inj hslot).symm⟩
  · obtain ⟨i, rfl⟩ := Nat.exists_eq_add_of_le (Nat.le_of_not_lt hfirst)
    rw [getElem?_slots_param, Option.map_eq_some_iff] at hslot
    obtain ⟨p, hp, rfl⟩ := hslot
    exact .inr ⟨i, p, hp, rfl, rfl⟩

end Transform

namespace SlotUse

theorem error?_operand_eq_none {s : Site} {arg : Nat} {bound : Option Binding} :
    error? ⟨s, arg, .operand, bound⟩ = none ↔ ∃ b, bound = some b ∧ ¬b.isTexture := by
  cases bound with
  | none => simp [error?, Slot.operand]
  | some b => cases b <;> simp [error?, Slot.operand, Binding.isTexture]

theorem error?_param_eq_none {s : Site} {arg : Nat} {p : Param} {bound : Option Binding} :
    error? ⟨s, arg, p.slot, bound⟩ = none ↔
      (p.type = .texture → ∃ b, bound = some b ∧ b.isTexture) ∧
        (p.type ≠ .texture → ∀ b, bound = some b → ¬b.isTexture) := by
  obtain ⟨name, kind⟩ := p
  cases kind with
  | numeric type default =>
      cases bound with
      | none => simp [error?, Param.slot, Param.type, Param.Kind.type, Param.Kind.default?]
      | some b => cases b <;> simp [error?, Param.slot, Param.type, Param.Kind.type, Binding.isTexture]
  | texture =>
      cases bound with
      | none => simp [error?, Param.slot, Param.type, Param.Kind.type, Param.Kind.default?]
      | some b => cases b <;> simp [error?, Param.slot, Param.type, Param.Kind.type, Binding.isTexture]

theorem error?_eq_some {use : SlotUse} {e : CompileError} (herror : use.error? = some e) :
    (use.binding = none ∧
        e = .missingArgument use.site.name use.site.position use.slot.name) ∨
      ∃ b, use.binding = some b ∧
        e = .typeMismatch use.site.name use.site.position use.slot.name use.slot.type b.kind := by
  obtain ⟨s, arg, ⟨name, type, default⟩, bound⟩ := use
  cases bound with
  | none =>
      simp only [error?] at herror
      split at herror
      · cases herror
      · exact .inl ⟨rfl, (Option.some.inj herror).symm⟩
  | some b =>
      refine .inr ⟨b, rfl, ?_⟩
      cases b <;> cases type <;> cases herror <;> rfl

end SlotUse

theorem Transform.accepts_iff {t : Transform} {bindings : List Binding} (s : Site) :
    t.Accepts bindings ↔ ∀ arg slot, t.slots[arg]? = some slot →
      SlotUse.error? ⟨s, arg, slot, bindings[arg]?⟩ = none := by
  constructor
  · intro haccepts arg slot hslot
    rcases slot_cases hslot with ⟨hoperand, rfl, rfl⟩ | ⟨i, p, hp, rfl, rfl⟩
    · exact SlotUse.error?_operand_eq_none.mpr (haccepts.operand hoperand)
    · exact SlotUse.error?_param_eq_none.mpr ⟨haccepts.textures i p hp, haccepts.numbers i p hp⟩
  · intro hnone
    have hparam (i : Nat) (p : Param) (hp : t.params[i]? = some p) :=
      SlotUse.error?_param_eq_none.mp
        (hnone (t.firstParam + i) p.slot (by rw [getElem?_slots_param, hp]; rfl))
    refine ⟨fun hoperand => ?_, fun i p hp => (hparam i p hp).1, fun i p hp => (hparam i p hp).2⟩
    exact SlotUse.error?_operand_eq_none.mp
      (hnone 0 .operand (getElem?_slots_operand hoperand))

namespace Chain

/-- The slots in a chain in the order of a walk: the operand of a node before its parameters, and
each slot before those of the chain that is bound to it. -/
def slotUses (registry : Registry) (c : Chain) : List SlotUse :=
  (c.visits registry .fragment).filterMap Visit.use?

theorem mem_slotUses {registry : Registry} {c : Chain} {use : SlotUse} :
    use ∈ c.slotUses registry ↔ .slot use ∈ c.visits registry .fragment := by
  simp only [slotUses, List.mem_filterMap]
  constructor
  · rintro ⟨v, hv, huse⟩
    cases v with
    | node => cases huse
    | slot => cases huse; exact hv
  · intro hv
    exact ⟨_, hv, rfl⟩

variable {registry : Registry} {c : Chain}

theorem Constructed.node_clean (hc : Constructed registry c) {position : Nat}
    {predecessor : String} {applied : Node} {found : Option Transform}
    (hv : .node position predecessor applied found ∈ c.visits registry .fragment) :
    Visit.error? (.node position predecessor applied found) = none := by
  obtain ⟨d, hd, hown⟩ := Walk.exists_own_of_mem hv
  cases hown with
  | node hnode => exact Visit.error?_node_eq_none.mpr ((hc.of_contains hd).checked.nodes _ _ hnode)

theorem Constructed.clean_iff (hc : Constructed registry c) :
    Walk.Clean (c.visits registry .fragment) ↔
      ∀ d, c.Contains d → ∀ node ∈ d.nodes, ∀ t, registry.find? node.name = some t →
        t.Accepts node.bindings := by
  -- No binding is left over, so that the walk reaches every chain that is bound to something.
  have hcounts : ∀ d, c.Contains d → ∀ node ∈ d.nodes,
      ∃ t, registry.find? node.name = some t ∧ node.bindings.length ≤ t.slots.length := by
    intro d hd node hnode
    obtain ⟨i, hi⟩ := List.mem_iff_getElem?.mp hnode
    obtain ⟨t, hfind, -, hcount⟩ := (hc.of_contains hd).checked.nodes i node hi
    exact ⟨t, hfind, hcount⟩
  constructor
  · intro hclean d hd node hnode t hfind
    obtain ⟨path, hsubset⟩ := Walk.visits_subset hcounts hd
    obtain ⟨i, hi⟩ := List.mem_iff_getElem?.mp hnode
    refine (Transform.accepts_iff ⟨t.name, i, path ++ [i]⟩).mpr fun arg slot hslot => ?_
    refine hclean (.slot _) (hsubset (Walk.mem_nodes_of_mem_ofNode "" hi hfind ?_))
    simp only [Nat.zero_add, Walk.ofNode_eq, Walk.mem_slots]
    exact ⟨arg, slot, hslot, .inl rfl⟩
  · intro haccepts v hv
    obtain ⟨d, hd, hown⟩ := Walk.exists_own_of_mem hv
    cases hown with
    | node => exact hc.node_clean hv
    | slot hnode hfind hslot =>
        have hall := haccepts d hd _ (List.mem_of_getElem? hnode) _ hfind
        exact (Transform.accepts_iff _).mp hall _ _ hslot

theorem Constructed.firstError?_eq (hc : Constructed registry c) :
    c.firstError? registry .fragment = (c.slotUses registry).findSome? SlotUse.error? := by
  have hvisits : ∀ visits : List Visit, visits ⊆ c.visits registry .fragment →
      visits.findSome? Visit.error? = (visits.filterMap Visit.use?).findSome? SlotUse.error? := by
    intro visits hsubset
    induction visits with
    | nil => rfl
    | cons v visits ih =>
        rw [List.cons_subset] at hsubset
        cases v with
        | node position predecessor applied found =>
            simp only [List.findSome?_cons, hc.node_clean hsubset.1, ih hsubset.2]
            rfl
        | slot use =>
            simp only [List.findSome?_cons, ih hsubset.2]
            rfl
  exact hvisits _ (List.Subset.refl _)

theorem Constructed.compile_eq_error (hc : Constructed registry c) (target : ValueType)
    (e : CompileError) :
    c.compile registry target = .error e ↔
      ∃ before use after, c.slotUses registry = before ++ use :: after ∧
        use.error? = some e ∧ ∀ u ∈ before, u.error? = none := by
  rw [← List.findSome?_eq_some_iff, Chain.compile_eq, compiledFor, hc.firstError?_eq]
  cases (c.slotUses registry).findSome? SlotUse.error? <;> simp

theorem Constructed.isOfSlot_of_compile (hc : Constructed registry c) {target : ValueType}
    {e : CompileError} (herror : c.compile registry target = .error e) : e.isOfSlot := by
  obtain ⟨before, use, after, -, huse, -⟩ := (hc.compile_eq_error target e).mp herror
  rcases SlotUse.error?_eq_some huse with ⟨-, rfl⟩ | ⟨b, -, rfl⟩
  · rfl
  · rfl

theorem exists_node_of_mem_slotUses {use : SlotUse} (huse : use ∈ c.slotUses registry) :
    ∃ d i node t, c.Contains d ∧ d.nodes[i]? = some node ∧ registry.find? node.name = some t ∧
      use.site.name = t.name ∧ use.site.position = i ∧ t.slots[use.arg]? = some use.slot ∧
      use.binding = node.bindings[use.arg]? := by
  obtain ⟨d, hd, hown⟩ := Walk.exists_own_of_mem (mem_slotUses.mp huse)
  cases hown with
  | slot hnode hfind hslot => exact ⟨d, _, _, _, hd, hnode, hfind, rfl, rfl, hslot, rfl⟩

theorem Constructed.exists_compile_eq_ok (hc : Constructed registry c) (target : ValueType) :
    (∃ out, c.compile registry target = .ok out) ↔
      ∀ d, c.Contains d → ∀ node ∈ d.nodes, ∀ t, registry.find? node.name = some t →
        t.Accepts node.bindings := by
  rw [← hc.clean_iff, Chain.compile_eq]
  constructor
  · rintro ⟨out, hout⟩
    exact (compiledFor_eq_ok hout).1
  · intro hclean
    exact compiledFor_of_clean hclean target

/-- A constructed chain compiles if all its slots are bound as they have to be. Otherwise the error
is that of the first slot that is not, and it names the slot's transform, its position in its own
chain and the parameter. -/
theorem compile_constructed (hc : Constructed registry c) (target : ValueType) :
    (∀ e, c.compile registry target = .error e → e.isOfSlot) ∧
      ((∃ out, c.compile registry target = .ok out) ↔
        ∀ d, c.Contains d → ∀ node ∈ d.nodes, ∀ t, registry.find? node.name = some t →
          t.Accepts node.bindings) ∧
      (∀ e, c.compile registry target = .error e ↔
        ∃ before use after, c.slotUses registry = before ++ use :: after ∧
          use.error? = some e ∧ ∀ u ∈ before, u.error? = none) ∧
      (∀ use ∈ c.slotUses registry, ∃ d i node t, c.Contains d ∧ d.nodes[i]? = some node ∧
        registry.find? node.name = some t ∧ use.site.name = t.name ∧ use.site.position = i ∧
        t.slots[use.arg]? = some use.slot ∧ use.binding = node.bindings[use.arg]?) ∧
      ∀ (use : SlotUse) (e : CompileError), use.error? = some e →
        (use.binding = none ∧
            e = .missingArgument use.site.name use.site.position use.slot.name) ∨
          ∃ b, use.binding = some b ∧
            e = .typeMismatch use.site.name use.site.position use.slot.name use.slot.type b.kind :=
  ⟨fun _ herror => hc.isOfSlot_of_compile herror, hc.exists_compile_eq_ok target,
    hc.compile_eq_error target, fun _ huse => exists_node_of_mem_slotUses huse,
    fun _ _ herror => SlotUse.error?_eq_some herror⟩

/-! A texture stands in the place of a number, in a chain that is bound to an operand. -/

def sampleLoose : Chain :=
  ⟨1, .sample, [⟨"osc", .source, [.literal 2.0, .texture "noise"], 1⟩], none⟩

def sampleMixed : Chain :=
  ⟨2, .sample, [⟨"osc", .source, [], 2⟩, ⟨"add", .combine, [.chain sampleLoose], 2⟩], none⟩

theorem constructed_sampleMixed : Constructed .sample sampleMixed := by
  have hloose : (root .sample "osc" [.literal 2.0, .texture "noise"]).run {} =
      (.ok sampleLoose, { chain := 2 }) := rfl
  have hfirst : (root .sample "osc" []).run { chain := 2 } =
      (.ok ⟨2, .sample, [⟨"osc", .source, [], 2⟩], none⟩, { chain := 3 }) := rfl
  have hmixed : andThen ⟨2, .sample, [⟨"osc", .source, [], 2⟩], none⟩ "add" [.chain sampleLoose] =
      .ok sampleMixed := rfl
  refine .andThen (.root (by simp) hfirst) ?_ hmixed
  rintro d hd
  cases List.mem_singleton.mp hd
  exact .root (by simp) hloose

theorem compile_constructed_sampleMixed :
    Constructed .sample sampleMixed ∧
      sampleMixed.compile .sample (.numeric .vec4) =
        .error (.typeMismatch "osc" 0 "sync" (.numeric .float) "texture") := by
  refine ⟨constructed_sampleMixed, ?_⟩
  obtain ⟨-, -, herror, -⟩ := compile_constructed constructed_sampleMixed (.numeric .vec4)
  exact (herror _).mpr (List.findSome?_eq_some_iff.mp (by decide +kernel))

end Chain

end ShaderChain
