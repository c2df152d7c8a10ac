import ShaderChain.Proofs.Registry.Built

/-! Normal forms. What a descriptor has to have for normalization to accept it, and the shape that
every transform has which comes out of it. -/

namespace ShaderChain

namespace Descriptor

def normalForm? (d : Descriptor) : Option Transform :=
  match d.normalize with
  | .ok t => some t
  | .error _ => none

def failure? (d : Descriptor) : Option RegistrationError :=
  match d.normalize with
  | .ok _ => none
  | .error e => some e

theorem normalForm?_eq_some {d : Descriptor} {t : Transform} :
    d.normalForm? = some t ↔ d.normalize = .ok t := by
  unfold normalForm?
  cases d.normalize <;> simp

theorem name_of_normalForm? {d : Descriptor} {t : Transform} (ht : d.normalForm? = some t) :
    t.name = d.name :=
  (normalize_eq_ok (normalForm?_eq_some.mp ht)).1

/-- The first parameter is checked before the others, and its name is taken from there on. -/
theorem normalizeParams_cons_eq_ok {d : Descriptor} {taken : List String} {p : ParamDescriptor}
    {rest : List ParamDescriptor} {params : List Param}
    (hok : d.normalizeParams taken (p :: rest) = .ok params) :
    p.name ∉ taken ∧ ∃ kind more, params = ⟨p.name, kind⟩ :: more ∧
      d.normalizeParams (p.name :: taken) rest = .ok more := by
  unfold normalizeParams checkName at hok
  by_cases hident : Text.isIdentifier p.name.toList
  · by_cases htaken : p.name ∈ taken
    · simp [hident, htaken, bind, Except.bind, throw, throwThe, MonadExceptOf.throw] at hok
    · cases htype : ValueType.parse p.type with
      | error e =>
          simp [hident, htaken, htype, bind, Except.bind, mapError_error] at hok
      | ok type =>
          cases hrest : d.normalizeParams (p.name :: taken) rest with
          | error e =>
              simp [hident, htaken, htype, hrest, bind, Except.bind, mapError_ok] at hok
          | ok more =>
              simp [hident, htaken, htype, hrest, bind, Except.bind, mapError_ok, pure,
                Except.pure] at hok
              exact ⟨htaken, paramKind p type, more, hok.symm, rfl⟩
  · simp [hident, bind, Except.bind] at hok

theorem nodup_normalizeParams {d : Descriptor} {taken : List String} {ps : List ParamDescriptor}
    {params : List Param} (hok : d.normalizeParams taken ps = .ok params) :
    (params.map Param.name).Nodup ∧ ∀ p ∈ params, p.name ∉ taken := by
  induction ps generalizing taken params with
  | nil =>
      cases hok
      simp
  | cons p rest ih =>
      obtain ⟨htaken, kind, more, rfl, hrest⟩ := normalizeParams_cons_eq_ok hok
      obtain ⟨hnodup, hnew⟩ := ih hrest
      refine ⟨List.nodup_cons.mpr ⟨?_, hnodup⟩, List.forall_mem_cons.mpr ⟨htaken, ?_⟩⟩
      · intro hmem
        obtain ⟨q, hq, hname⟩ := List.mem_map.mp hmem
        exact hnew q hq (hname ▸ List.mem_cons_self)
      · intro q hq hmem
        exact hnew q hq (List.mem_cons_of_mem _ hmem)

end Descriptor

theorem Param.slot_ne_operand (p : Param) : p.slot ≠ .operand := by
  obtain ⟨name, kind⟩ := p
  cases kind <;> simp [Param.slot, Slot.operand, Param.Kind.type, Param.Kind.default?]

theorem Param.default_slot (p : Param) : p.slot.default = none ↔ p.slot.type = .texture := by
  obtain ⟨name, kind⟩ := p
  cases kind <;> simp [Param.slot, Param.Kind.type, Param.Kind.default?]

/-- The declaration of an argument in the text of a function. -/
def Slot.declaration (slot : Slot) : String :=
  slot.type.glsl ++ " " ++ slot.name

namespace Transform

/-- The slots behind the one for an operand. -/
def customSlots (t : Transform) : List Slot :=
  if t.category.hasOperand then t.slots.drop 1 else t.slots

/-- What the type alone gives: the signature of the category, the slot for the operand in front, and
no default where a texture or a color is taken. -/
structure Shaped (t : Transform) : Prop where
  signature : t.signature =
    t.category.signature.result.glsl ++ " " ++ t.symbol ++ "(" ++
      ", ".intercalate ((t.category.signature.leading.map fun (type, name) =>
        type.glsl ++ " " ++ name) ++ t.customSlots.map Slot.declaration) ++ ")"
  operand : t.slots.head? = some ⟨"color", .numeric .vec4, none⟩ ↔
    t.category = .combine ∨ t.category = .combineCoordinate
  defaults : ∀ slot ∈ t.slots, slot.default = none ↔ slot.type = .texture ∨ slot = .operand
  custom : t.customSlots = t.params.map Param.slot
  nonempty : t.category.hasOperand → 1 ≤ t.slots.length

/-- The shape of a transform that was normalized, with what its descriptor was checked for. -/
structure WellFormed (t : Transform) : Prop extends Shaped t where
  symbol : Text.isIdentifier t.symbol.toList
  names : (t.slots.map Slot.name).Nodup

theorem hasOperand_iff (category : Category) :
    category.hasOperand ↔ category = .combine ∨ category = .combineCoordinate := by
  cases category <;> simp [Category.hasOperand]

theorem customSlots_eq (t : Transform) : t.customSlots = t.params.map Param.slot := by
  unfold customSlots slots operand?
  split <;> simp

theorem map_declaration_slots (params : List Param) :
    (params.map Param.slot).map Slot.declaration =
      params.map fun p => p.type.glsl ++ " " ++ p.name := by
  rw [List.map_map]
  rfl

theorem signature_eq (t : Transform) :
    t.signature =
      t.category.signature.result.glsl ++ " " ++ t.symbol ++ "(" ++
        ", ".intercalate ((t.category.signature.leading.map fun (type, name) =>
          type.glsl ++ " " ++ name) ++ t.customSlots.map Slot.declaration) ++ ")" := by
  rw [customSlots_eq, map_declaration_slots]
  rfl

theorem head?_slots (t : Transform) :
    t.slots.head? = some .operand ↔ t.category = .combine ∨ t.category = .combineCoordinate := by
  rw [← hasOperand_iff]
  unfold slots operand?
  by_cases hoperand : t.category.hasOperand
  · simp [hoperand]
  · cases hparams : t.params with
    | nil => simp [hoperand]
    | cons p rest => simp [hoperand, p.slot_ne_operand]

theorem default_of_mem_slots {t : Transform} {slot : Slot} (hslot : slot ∈ t.slots) :
    slot.default = none ↔ slot.type = .texture ∨ slot = .operand := by
  rcases List.mem_append.mp hslot with hfirst | hparam
  · have heq : slot = .operand := by
      unfold operand? at hfirst
      split at hfirst <;> simp at hfirst
      exact hfirst
    simp [heq, Slot.operand]
  · obtain ⟨p, -, rfl⟩ := List.mem_map.mp hparam
    simp [p.default_slot, p.slot_ne_operand]

theorem length_slots_pos {t : Transform} (hoperand : t.category.hasOperand) :
    1 ≤ t.slots.length := by
  simp [slots, operand?, hoperand]

theorem shaped (t : Transform) : t.Shaped where
  signature := t.signature_eq
  operand := t.head?_slots
  defaults _ := default_of_mem_slots
  custom := t.customSlots_eq
  nonempty := length_slots_pos

end Transform

theorem Descriptor.wellFormed_normalize {d : Descriptor} {t : Transform}
    (hok : d.normalize = .ok t) : t.WellFormed := by
  obtain ⟨-, -, hsymbol, -, hparams⟩ := normalize_eq_ok hok
  obtain ⟨hnodup, hnew⟩ := nodup_normalizeParams hparams
  have hnames : (t.params.map Param.slot).map Slot.name = t.params.map Param.name := by
    rw [List.map_map]
    rfl
  refine ⟨t.shaped, hsymbol, ?_⟩
  by_cases hoperand : t.category.hasOperand
  · simp only [hoperand, if_true] at hnew
    simp only [Transform.slots, Transform.operand?, hoperand, if_true, Option.toList_some,
      List.singleton_append, List.map_cons, hnames, List.nodup_cons]
    refine ⟨fun hmem => ?_, hnodup⟩
    obtain ⟨p, hp, hname⟩ := List.mem_map.mp hmem
    exact hnew p hp (hname ▸ List.mem_cons_self)
  · simpa [Transform.slots, Transform.operand?, hoperand] using hnames ▸ hnodup

end ShaderChain
