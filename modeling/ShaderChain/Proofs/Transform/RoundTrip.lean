import ShaderChain.Proofs.Json.Record
import ShaderChain.Transform.Catalog

/-! Descriptors and catalogs come back from the JSON that they are written as. -/

namespace ShaderChain

namespace Source

theorem ofJson?_toJson (s : Source) : ofJson? s.toJson = some s := by
  cases s with
  | text s => rfl
  | lines ls =>
      have hread : (ls.map Json.string).mapM Json.text? = some ls :=
        Json.mapM_map_of_inverse fun _ _ => rfl
      rw [toJson, ofJson?, hread]
      rfl

theorem toJson_ne_null (s : Source) : s.toJson ≠ .null := by
  cases s <;> exact nofun

theorem sound_toJson (s : Source) : s.toJson.Sound := by
  cases s with
  | text s => exact .string s
  | lines ls =>
      refine .array fun item hitem => ?_
      obtain ⟨line, -, rfl⟩ := List.mem_map.mp hitem
      exact .string line

theorem fits_toJson (s : Source) (levels : Nat) : s.toJson.fits (levels + 1) := by
  cases s with
  | text s => rfl
  | lines ls =>
      refine Json.fits_array.mpr fun item hitem => ?_
      obtain ⟨line, -, rfl⟩ := List.mem_map.mp hitem
      rfl

end Source

namespace ParamDescriptor

/-- Whether the default can be written. -/
def Finite (p : ParamDescriptor) : Prop :=
  ∀ x, p.default = some x → x.isFinite

theorem ofJson?_eq_some {json : Json} {p : ParamDescriptor} :
    ofJson? json = some p ↔ ∃ name type default,
      json.record? ["name", "type", "default"] = some [name, type, default] ∧
      Json.required? Json.text? name = some p.name ∧
      Json.withDefault? "float" Json.text? type = some p.type ∧
      Json.optional? Json.number? default = some p.default := by
  simp only [ofJson?, Option.bind_eq_bind, Option.bind_eq_some_iff]
  constructor
  · intro ⟨fields, hfields, hp⟩
    split at hp
    · simp only [Option.bind_eq_some_iff, Option.pure_def, Option.some.injEq] at hp
      obtain ⟨_, hname, _, htype, _, hdefault, rfl⟩ := hp
      exact ⟨_, _, _, hfields, hname, htype, hdefault⟩
    · cases hp
  · intro ⟨name, type, default, hfields, hname, htype, hdefault⟩
    refine ⟨_, hfields, ?_⟩
    simp only [hname, htype, hdefault]
    rfl

theorem toJson_eq (p : ParamDescriptor) :
    p.toJson = .object [("name", .string p.name), ("type", .string p.type),
      ("default", (p.default.map .ofBinary64).getD .null)] := by
  rw [toJson]
  cases p.default <;> rfl

theorem ofJson?_toJson {p : ParamDescriptor} (hp : p.Finite) : ofJson? p.toJson = some p := by
  have hfields : p.toJson.record? ["name", "type", "default"] =
      some [some (.string p.name), some (.string p.type),
        some ((p.default.map .ofBinary64).getD .null)] := by
    rw [toJson_eq]
    rfl
  refine ofJson?_eq_some.mpr ⟨_, _, _, hfields, rfl, rfl, ?_⟩
  apply Json.optional?_getD_null
  intro x hx
  refine ⟨Json.number?_ofBinary64 (hp x hx), ?_⟩
  rw [Json.ofBinary64, if_pos (hp x hx)]
  intro heq
  cases heq

-- What is not finite is written as null, and so the default is lost.
example : ofJson? (toJson ⟨"level", "float", some (.ofMagnitude false Binary64.infinity)⟩) =
    some ⟨"level", "float", none⟩ := rfl

theorem sound_toJson (p : ParamDescriptor) : p.toJson.Sound := by
  rw [toJson_eq]
  refine .object ?_
  simp only [List.forall_mem_cons]
  refine ⟨.string _, .string _, ?_, nofun⟩
  cases p.default with
  | none => exact .null
  | some x => exact Json.sound_ofBinary64 x

theorem fits_toJson (p : ParamDescriptor) (levels : Nat) : p.toJson.fits (levels + 1) := by
  rw [toJson_eq, Json.fits_object]
  simp only [List.forall_mem_cons]
  refine ⟨rfl, rfl, ?_, nofun⟩
  cases p.default with
  | none => rfl
  | some x => exact Json.fits_ofBinary64 x levels

theorem finite_of_ofJson? {json : Json} (hjson : json.Sound) {p : ParamDescriptor}
    (hp : ofJson? json = some p) : p.Finite := by
  obtain ⟨name, type, default, hfields, -, -, hdefault⟩ := ofJson?_eq_some.mp hp
  intro x hx
  rw [hx] at hdefault
  obtain ⟨value, rfl, hnumber⟩ := Json.exists_of_optional? hdefault
  exact (hjson.field hfields (by simp)).isFinite_of_number? hnumber

end ParamDescriptor

namespace Descriptor

def Finite (d : Descriptor) : Prop :=
  ∀ p ∈ d.params, p.Finite

theorem ofJson?_eq_some {json : Json} {d : Descriptor} :
    ofJson? json = some d ↔ ∃ name category params main es300 vertex symbol,
      json.record? fieldNames = some [name, category, params, main, es300, vertex, symbol] ∧
      Json.required? Json.text? name = some d.name ∧
      Json.required? Json.text? category = some d.category ∧
      Json.withDefault? [] (Json.list? ParamDescriptor.ofJson?) params = some d.params ∧
      Json.required? Source.ofJson? main = some d.sources.main ∧
      Json.optional? Source.ofJson? es300 = some d.sources.es300 ∧
      Json.optional? Source.ofJson? vertex = some d.sources.vertex ∧
      Json.optional? Json.text? symbol = some d.symbol := by
  simp only [ofJson?, Option.bind_eq_bind, Option.bind_eq_some_iff]
  constructor
  · intro ⟨fields, hfields, hd⟩
    split at hd
    · simp only [Option.bind_eq_some_iff, Option.pure_def, Option.some.injEq] at hd
      obtain ⟨_, hname, _, hcategory, _, hparams, _, hmain, _, hes300, _, hvertex, _, hsymbol,
        rfl⟩ := hd
      exact ⟨_, _, _, _, _, _, _, hfields, hname, hcategory, hparams, hmain, hes300, hvertex,
        hsymbol⟩
    · cases hd
  · intro ⟨_, _, _, _, _, _, _, hfields, hname, hcategory, hparams, hmain, hes300, hvertex,
      hsymbol⟩
    refine ⟨_, hfields, ?_⟩
    simp only [hname, hcategory, hparams, hmain, hes300, hvertex, hsymbol]
    rfl

theorem record?_toJson (d : Descriptor) :
    d.toJson.record? fieldNames =
      some [some (.string d.name), some (.string d.category),
        some (.array (d.params.map ParamDescriptor.toJson)), some d.sources.main.toJson,
        d.sources.es300.map Source.toJson, d.sources.vertex.map Source.toJson,
        d.symbol.map .string] := by
  obtain ⟨name, category, params, ⟨main, es300, vertex⟩, symbol⟩ := d
  cases es300 <;> cases vertex <;> cases symbol <;> rfl

theorem ofJson?_toJson {d : Descriptor} (hd : d.Finite) : ofJson? d.toJson = some d := by
  refine ofJson?_eq_some.mpr ⟨_, _, _, _, _, _, _, d.record?_toJson, rfl, rfl, ?_,
    d.sources.main.ofJson?_toJson, ?_, ?_, ?_⟩
  · exact Json.list?_map fun p hp => ParamDescriptor.ofJson?_toJson (hd p hp)
  · exact Json.optional?_map fun s _ => ⟨s.ofJson?_toJson, s.toJson_ne_null⟩
  · exact Json.optional?_map fun s _ => ⟨s.ofJson?_toJson, s.toJson_ne_null⟩
  · exact Json.optional?_map fun s _ => ⟨rfl, nofun⟩

/-- The members are the fields, of which some may be absent. -/
theorem forall_member_toJson {P : Json → Prop} {d : Descriptor} (htext : ∀ s, P (.string s))
    (hparams : P (.array (d.params.map ParamDescriptor.toJson)))
    (hsource : ∀ s : Source, P s.toJson) : ∃ members, d.toJson = .object members ∧
      ∀ member ∈ members, P member.2 := by
  refine ⟨_, rfl, ?_⟩
  simp only [List.forall_mem_append, List.forall_mem_cons]
  exact ⟨⟨⟨⟨htext _, htext _, hparams, hsource _, nofun⟩,
    Json.forall_mem_optionalMember hsource _ _⟩, Json.forall_mem_optionalMember hsource _ _⟩,
    Json.forall_mem_optionalMember htext _ _⟩

theorem sound_toJson (d : Descriptor) : d.toJson.Sound := by
  have hparams : Json.Sound (.array (d.params.map ParamDescriptor.toJson)) := by
    refine .array fun item hitem => ?_
    obtain ⟨p, -, rfl⟩ := List.mem_map.mp hitem
    exact p.sound_toJson
  obtain ⟨members, hmembers, hsound⟩ := forall_member_toJson .string hparams Source.sound_toJson
  rw [hmembers]
  exact .object hsound

theorem fits_toJson (d : Descriptor) (levels : Nat) : d.toJson.fits (levels + 3) := by
  have hparams : (Json.array (d.params.map ParamDescriptor.toJson)).fits (levels + 2) := by
    refine Json.fits_array.mpr fun item hitem => ?_
    obtain ⟨p, -, rfl⟩ := List.mem_map.mp hitem
    exact p.fits_toJson levels
  obtain ⟨members, hmembers, hfits⟩ :=
    forall_member_toJson (P := fun json => json.fits (levels + 2)) (fun _ => rfl) hparams
      fun s => s.fits_toJson (levels + 1)
  rw [hmembers]
  exact Json.fits_object.mpr hfits

theorem finite_of_ofJson? {json : Json} (hjson : json.Sound) {d : Descriptor}
    (hd : ofJson? json = some d) : d.Finite := by
  obtain ⟨_, _, params, _, _, _, _, hfields, -, -, hparams, -⟩ := ofJson?_eq_some.mp hd
  intro p hp
  obtain ⟨items, item, rfl, hitem, hread⟩ := Json.exists_item hparams hp
  exact ParamDescriptor.finite_of_ofJson? (hjson.item hfields (by simp) hitem) hread

end Descriptor

namespace Catalog

/-! The two forms of a catalog. -/

def bareJson (ds : List Descriptor) : Json :=
  .array (ds.map Descriptor.toJson)

def versionedJson (version : String) (ds : List Descriptor) : Json :=
  .object [("version", .string version), ("transforms", bareJson ds)]

theorem bare?_bareJson {ds : List Descriptor} (hds : ∀ d ∈ ds, d.Finite) :
    bare? (bareJson ds) = some ds :=
  Json.list?_map fun d hd => Descriptor.ofJson?_toJson (hds d hd)

theorem versioned?_versionedJson (version : String) {ds : List Descriptor}
    (hds : ∀ d ∈ ds, d.Finite) : versioned? (versionedJson version ds) = some ds := by
  have hfields : (versionedJson version ds).record? ["version", "transforms"] =
      some [some (.string version), some (bareJson ds)] := rfl
  rw [versioned?, hfields]
  exact bare?_bareJson hds

/-- The first item of an array would have to be a text and a descriptor. -/
theorem versioned?_of_bare? {json : Json} {ds : List Descriptor} (hbare : bare? json = some ds) :
    versioned? json = none := by
  obtain ⟨items, rfl, hitems⟩ := Json.list?_eq_some hbare
  cases items with
  | nil => rfl
  | cons first rest =>
      have htext : first.text? = none := by
        rw [List.mapM_cons] at hitems
        obtain ⟨d, hd, -⟩ := Option.bind_eq_some_iff.mp hitems
        obtain ⟨_, _, _, _, _, _, _, hfields, -⟩ := Descriptor.ofJson?_eq_some.mp hd
        cases first with
        | string => cases hfields
        | null | bool | number | array | object | unreadable => rfl
      match rest with
      | [] =>
          change (first.text?.bind fun _ => some []) = none
          rw [htext, Option.bind_none]
      | [second] =>
          change (first.text?.bind fun _ => Json.list? Descriptor.ofJson? second) = none
          rw [htext, Option.bind_none]
      | second :: third :: more => simp [versioned?, Json.record?]

theorem ofJson?_bareJson {ds : List Descriptor} (hds : ∀ d ∈ ds, d.Finite) :
    ofJson? (bareJson ds) = some ds := by
  have hbare := bare?_bareJson hds
  rw [ofJson?, versioned?_of_bare? hbare, hbare]
  rfl

theorem ofJson?_versionedJson (version : String) {ds : List Descriptor}
    (hds : ∀ d ∈ ds, d.Finite) : ofJson? (versionedJson version ds) = some ds := by
  rw [ofJson?, versioned?_versionedJson version hds]
  rfl

/-! Both forms can be written, and are nested to a small depth only. -/

theorem sound_bareJson (ds : List Descriptor) : (bareJson ds).Sound := by
  refine .array fun item hitem => ?_
  obtain ⟨d, -, rfl⟩ := List.mem_map.mp hitem
  exact d.sound_toJson

theorem sound_versionedJson (version : String) (ds : List Descriptor) :
    (versionedJson version ds).Sound := by
  refine .object ?_
  simp only [List.forall_mem_cons]
  exact ⟨.string version, sound_bareJson ds, nofun⟩

theorem fits_bareJson (ds : List Descriptor) (levels : Nat) :
    (bareJson ds).fits (levels + 4) := by
  refine Json.fits_array.mpr fun item hitem => ?_
  obtain ⟨d, -, rfl⟩ := List.mem_map.mp hitem
  exact d.fits_toJson levels

theorem fits_versionedJson (version : String) (ds : List Descriptor) (levels : Nat) :
    (versionedJson version ds).fits (levels + 5) := by
  rw [versionedJson, Json.fits_object]
  simp only [List.forall_mem_cons]
  exact ⟨rfl, fits_bareJson ds levels, nofun⟩

end Catalog

end ShaderChain
