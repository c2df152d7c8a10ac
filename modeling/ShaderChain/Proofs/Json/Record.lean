import ShaderChain.Json.Record
import ShaderChain.Proofs.Json.Sound

/-! The parts of records, lists and numbers in a JSON value. -/

namespace ShaderChain.Json

/-! Lists, item by item. -/

theorem mapM_map_of_inverse {read? : β → Option α} {write : α → β} {as : List α}
    (hread : ∀ a ∈ as, read? (write a) = some a) : (as.map write).mapM read? = some as := by
  induction as with
  | nil => rfl
  | cons a rest ih =>
      obtain ⟨ha, hrest⟩ := List.forall_mem_cons.mp hread
      rw [List.map_cons, List.mapM_cons, ha, ih hrest]
      rfl

theorem exists_of_mem_mapM {read? : α → Option β} {xs : List α} {ys : List β}
    (hread : xs.mapM read? = some ys) {y : β} (hy : y ∈ ys) : ∃ x ∈ xs, read? x = some y := by
  induction xs generalizing ys with
  | nil =>
      cases hread
      cases hy
  | cons x xs ih =>
      simp only [List.mapM_cons, Option.bind_eq_bind, Option.bind_eq_some_iff, Option.pure_def,
        Option.some.injEq] at hread
      obtain ⟨first, hfirst, rest, hrest, rfl⟩ := hread
      rcases List.mem_cons.mp hy with rfl | hy
      · exact ⟨x, List.mem_cons_self, hfirst⟩
      · obtain ⟨found, hmem, hfound⟩ := ih hrest hy
        exact ⟨found, List.mem_cons_of_mem x hmem, hfound⟩

theorem list?_map {read? : Json → Option α} {write : α → Json} {as : List α}
    (hread : ∀ a ∈ as, read? (write a) = some a) :
    list? read? (.array (as.map write)) = some as :=
  mapM_map_of_inverse hread

theorem list?_eq_some {read? : Json → Option α} {json : Json} {as : List α}
    (hread : list? read? json = some as) :
    ∃ items, json = .array items ∧ items.mapM read? = some as := by
  unfold list? at hread
  split at hread
  · exact ⟨_, rfl, hread⟩
  · cases hread

/-- The items of a field that may be absent. -/
theorem exists_item {read? : Json → Option α} {field : Option Json} {as : List α}
    (hread : withDefault? [] (list? read?) field = some as) {a : α} (ha : a ∈ as) :
    ∃ items item, field = some (.array items) ∧ item ∈ items ∧ read? item = some a := by
  cases field with
  | none =>
      cases hread
      cases ha
  | some value =>
      obtain ⟨items, rfl, hitems⟩ := list?_eq_some hread
      obtain ⟨item, hitem, hread⟩ := exists_of_mem_mapM hitems ha
      exact ⟨items, item, rfl, hitem, hread⟩

/-! How deep values are nested. -/

theorem allFit_iff {levels : Nat} {items : List Json} :
    allFit levels items = true ↔ ∀ item ∈ items, item.fits levels := by
  induction items with
  | nil => simp [allFit]
  | cons item rest ih => rw [allFit, Bool.and_eq_true, ih, List.forall_mem_cons]

theorem membersFit_iff {levels : Nat} {members : List (String × Json)} :
    membersFit levels members = true ↔ ∀ member ∈ members, member.2.fits levels := by
  induction members with
  | nil => simp [membersFit]
  | cons member rest ih => rw [membersFit, Bool.and_eq_true, ih, List.forall_mem_cons]

theorem fits_array {levels : Nat} {items : List Json} :
    (Json.array items).fits (levels + 1) = true ↔ ∀ item ∈ items, item.fits levels := by
  rw [fits, Nat.add_sub_cancel, ← allFit_iff]
  simp

theorem fits_object {levels : Nat} {members : List (String × Json)} :
    (Json.object members).fits (levels + 1) = true ↔ ∀ member ∈ members, member.2.fits levels := by
  rw [fits, Nat.add_sub_cancel, ← membersFit_iff]
  simp

theorem exists_of_fits_array {levels : Nat} {items : List Json}
    (hfits : (Json.array items).fits levels) :
    ∃ inner, levels = inner + 1 ∧ ∀ item ∈ items, item.fits inner := by
  cases levels with
  | zero =>
      rw [fits] at hfits
      cases hfits
  | succ inner => exact ⟨inner, rfl, fits_array.mp hfits⟩

/-! The fields of a record are items or members of the value. -/

theorem mem_of_unique? {name : String} {members : List (String × Json)} {value : Json}
    (hfield : unique? name members = some (some value)) : (name, value) ∈ members := by
  induction members with
  | nil => cases hfield
  | cons member rest ih =>
      obtain ⟨key, first⟩ := member
      rw [unique?] at hfield
      split at hfield
      · rename_i hkey
        split at hfield
        · cases hfield
          rw [hkey]
          exact List.mem_cons_self
        · cases hfield
      · exact List.mem_cons_of_mem _ (ih hfield)

theorem record?_cases {names : List String} {json : Json} {fields : List (Option Json)}
    (hrecord : json.record? names = some fields) :
    (∃ items, json = .array items ∧ ∀ value, some value ∈ fields → value ∈ items) ∨
      ∃ members, json = .object members ∧
        ∀ value, some value ∈ fields → ∃ name, (name, value) ∈ members := by
  unfold record? at hrecord
  split at hrecord
  · rename_i members
    refine .inr ⟨members, rfl, fun value hvalue => ?_⟩
    obtain ⟨name, -, hfield⟩ := exists_of_mem_mapM hrecord hvalue
    exact ⟨name, mem_of_unique? hfield⟩
  · rename_i items
    split at hrecord
    · cases hrecord
      refine .inl ⟨items, rfl, fun value hvalue => ?_⟩
      simpa using hvalue
    · cases hrecord
  · cases hrecord

theorem Sound.field {names : List String} {json : Json} (hjson : json.Sound)
    {fields : List (Option Json)} (hrecord : json.record? names = some fields) {value : Json}
    (hvalue : some value ∈ fields) : value.Sound := by
  rcases record?_cases hrecord with ⟨items, rfl, hitems⟩ | ⟨members, rfl, hmembers⟩
  · cases hjson with
    | array hjson => exact hjson value (hitems value hvalue)
  · cases hjson with
    | object hjson =>
        obtain ⟨name, hmember⟩ := hmembers value hvalue
        exact hjson (name, value) hmember

theorem Sound.item {names : List String} {json : Json} (hjson : json.Sound)
    {fields : List (Option Json)} (hrecord : json.record? names = some fields) {items : List Json}
    (hitems : some (.array items) ∈ fields) {item : Json} (hitem : item ∈ items) : item.Sound := by
  cases hjson.field hrecord hitems with
  | array hsound => exact hsound item hitem

theorem fits_field {names : List String} {json : Json} {levels : Nat}
    (hfits : json.fits levels) {fields : List (Option Json)}
    (hrecord : json.record? names = some fields) :
    ∃ inner, levels = inner + 1 ∧ ∀ value, some value ∈ fields → value.fits inner := by
  cases levels with
  | zero =>
      rcases record?_cases hrecord with ⟨items, rfl, -⟩ | ⟨members, rfl, -⟩
      · rw [fits] at hfits
        cases hfits
      · rw [fits] at hfits
        cases hfits
  | succ inner =>
      refine ⟨inner, rfl, fun value hvalue => ?_⟩
      rcases record?_cases hrecord with ⟨items, rfl, hitems⟩ | ⟨members, rfl, hmembers⟩
      · exact fits_array.mp hfits value (hitems value hvalue)
      · obtain ⟨name, hmember⟩ := hmembers value hvalue
        exact fits_object.mp hfits (name, value) hmember

/-! Numbers and optional fields. -/

section Number

variable {x : Binary64}

theorem number?_ofBinary64 (hx : x.isFinite) : number? (ofBinary64 x) = some x := by
  rw [ofBinary64, if_pos hx]
  rfl

theorem sound_ofBinary64 (x : Binary64) : (ofBinary64 x).Sound := by
  unfold ofBinary64
  split
  · rename_i hx
    exact .number hx
  · exact .null

theorem fits_ofBinary64 (x : Binary64) (levels : Nat) : (ofBinary64 x).fits levels := by
  unfold ofBinary64
  split <;> rfl

theorem Sound.isFinite_of_number? {json : Json} (hjson : json.Sound)
    (hx : json.number? = some x) : x.isFinite := by
  cases hjson with
  | number hn =>
      cases hx
      exact hn.isFinite
  | null | bool | string | array | object | unreadable => cases hx

end Number

theorem forall_mem_optionalMember {P : Json → Prop} {write : α → Json} (hwrite : ∀ a, P (write a))
    (name : String) (value : Option α) :
    ∀ member ∈ optionalMember name (value.map write), P member.2 := by
  intro member hmember
  cases value with
  | none => cases hmember
  | some a =>
      cases List.mem_singleton.mp hmember
      exact hwrite a

section Optional

variable {read? : Json → Option α} {write : α → Json}

theorem optional?_some {json : Json} (hnull : json ≠ .null) :
    optional? read? (some json) = (read? json).map some := by
  unfold optional?
  split
  · rename_i heq
    cases heq
  · rename_i heq
    exact absurd (Option.some.inj heq) hnull
  · rename_i heq
    cases heq
    rfl

theorem optional?_map {value : Option α}
    (hread : ∀ a, value = some a → read? (write a) = some a ∧ write a ≠ .null) :
    optional? read? (value.map write) = some value := by
  cases value with
  | none => rfl
  | some a =>
      obtain ⟨hread, hnull⟩ := hread a rfl
      rw [Option.map_some, optional?_some hnull, hread]
      rfl

theorem optional?_getD_null {value : Option α}
    (hread : ∀ a, value = some a → read? (write a) = some a ∧ write a ≠ .null) :
    optional? read? (some ((value.map write).getD .null)) = some value := by
  cases value with
  | none => rfl
  | some a => exact optional?_map hread

theorem exists_of_optional? {field : Option Json} {a : α}
    (hfield : optional? read? field = some (some a)) :
    ∃ json, field = some json ∧ read? json = some a := by
  unfold optional? at hfield
  split at hfield
  · cases hfield
  · cases hfield
  · obtain ⟨found, hfound, heq⟩ := Option.map_eq_some_iff.mp hfield
    cases heq
    exact ⟨_, rfl, hfound⟩

end Optional

end ShaderChain.Json
