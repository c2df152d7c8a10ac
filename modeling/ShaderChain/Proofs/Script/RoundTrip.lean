import ShaderChain.Proofs.Json.Printing
import ShaderChain.Proofs.Script.Json
import ShaderChain.Proofs.Transform.RoundTrip
import ShaderChain.Script.Basic

/-! Scripts and catalogs come back from the documents that they are written as. -/

namespace ShaderChain

namespace Options

theorem ofJson?_toJson (options : Options) : ofJson? options.toJson = some options := by
  obtain ⟨version, precision⟩ := options
  cases version <;> cases precision <;> rfl

theorem sound_toJson (options : Options) : options.toJson.Sound := by
  have hnumber : options.version.number < 2 ^ 64 := by
    cases options.version <;> decide
  refine .object ?_
  simp only [List.forall_mem_cons]
  exact ⟨.number hnumber, .string _, nofun⟩

theorem fits_toJson (options : Options) (levels : Nat) : options.toJson.fits (levels + 1) := by
  refine Json.fits_object.mpr ?_
  simp only [List.forall_mem_cons]
  exact ⟨rfl, rfl, nofun⟩

end Options

namespace Script

/-- Whether all numbers of a script can be written. -/
structure Finite (s : Script) : Prop where
  transforms : ∀ d ∈ s.transforms, d.Finite
  chain : s.chain.Finite

theorem ofJson?_eq_some {json : Json} {s : Script} :
    ofJson? json = some s ↔ ∃ version options transforms chain,
      json.record? fieldNames = some [version, options, transforms, chain] ∧
      Json.optional? Json.text? version = some s.version ∧
      Json.withDefault? {} Options.ofJson? options = some s.options ∧
      Json.withDefault? [] (Json.list? Descriptor.ofJson?) transforms = some s.transforms ∧
      Json.required? Outline.ofJson? chain = some s.chain := by
  simp only [ofJson?, Option.bind_eq_bind, Option.bind_eq_some_iff]
  constructor
  · intro ⟨fields, hfields, hs⟩
    split at hs
    · simp only [Option.bind_eq_some_iff, Option.pure_def, Option.some.injEq] at hs
      obtain ⟨_, hversion, _, hoptions, _, htransforms, _, hchain, rfl⟩ := hs
      exact ⟨_, _, _, _, hfields, hversion, hoptions, htransforms, hchain⟩
    · cases hs
  · intro ⟨_, _, _, _, hfields, hversion, hoptions, htransforms, hchain⟩
    refine ⟨_, hfields, ?_⟩
    simp only [hversion, hoptions, htransforms, hchain]
    rfl

theorem toJson_eq (s : Script) :
    s.toJson = .object [("version", (s.version.map .string).getD .null),
      ("options", s.options.toJson), ("transforms", Catalog.bareJson s.transforms),
      ("chain", s.chain.toJson)] := by
  rw [toJson]
  cases s.version <;> rfl

theorem record?_toJson (s : Script) :
    s.toJson.record? fieldNames = some [some ((s.version.map .string).getD .null),
      some s.options.toJson, some (Catalog.bareJson s.transforms), some s.chain.toJson] := by
  rw [toJson_eq]
  rfl

theorem ofJson?_toJson {s : Script} (hs : s.Finite) : ofJson? s.toJson = some s :=
  ofJson?_eq_some.mpr ⟨_, _, _, _, s.record?_toJson,
    Json.optional?_getD_null fun _ _ => ⟨rfl, nofun⟩, s.options.ofJson?_toJson,
    Catalog.bare?_bareJson hs.transforms, Outline.ofJson?_toJson hs.chain⟩

theorem sound_toJson (s : Script) : s.toJson.Sound := by
  rw [toJson_eq]
  refine .object ?_
  simp only [List.forall_mem_cons]
  refine ⟨?_, s.options.sound_toJson, Catalog.sound_bareJson s.transforms, s.chain.sound_toJson,
    nofun⟩
  cases s.version with
  | none => exact .null
  | some version => exact .string version

theorem finite_of_ofJson? {json : Json} (hjson : json.Sound) {s : Script}
    (hs : ofJson? json = some s) : s.Finite := by
  obtain ⟨_, _, transforms, chain, hfields, -, -, htransforms, hchain⟩ := ofJson?_eq_some.mp hs
  constructor
  · intro d hd
    obtain ⟨items, item, rfl, hitem, hread⟩ := Json.exists_item htransforms hd
    exact Descriptor.finite_of_ofJson? (hjson.item hfields (by simp) hitem) hread
  · obtain ⟨value, rfl, hvalue⟩ := Option.bind_eq_some_iff.mp hchain
    exact Outline.finite_of_ofJson? (hjson.field hfields (by simp)) hvalue

theorem argumentsFit_of_fits {json : Json} (hfits : json.fits Json.maxLevels) :
    argumentsFit json := by
  unfold argumentsFit
  split
  · rename_i chain hfields
    obtain ⟨below, hbelow, hfieldsFit⟩ := Json.fits_field hfits hfields
    apply Outline.argumentsFit_of_fits
    rw [hbelow]
    exact hfieldsFit chain (by simp)
  · rfl

/-- What was read fits when it is written again. -/
theorem fits_toJson {json : Json} (hfit : argumentsFit json) {s : Script}
    (hs : ofJson? json = some s) : s.toJson.fits Json.maxLevels := by
  obtain ⟨_, _, _, chain, hfields, -, -, -, hchain⟩ := ofJson?_eq_some.mp hs
  obtain ⟨chainJson, rfl, hread⟩ := Option.bind_eq_some_iff.mp hchain
  simp only [argumentsFit, hfields] at hfit
  have hargs : ∀ op ∈ s.chain.ops, ∀ arg ∈ op.args, (Outline.argToJson arg).fits (4 * 30 + 2) := by
    intro op hop arg harg
    obtain ⟨item, hitem, hread⟩ := Outline.exists_of_argumentsFit hfit hread hop harg
    refine Outline.fits_argToJson fun inner hinner => ?_
    subst hinner
    cases Outline.readFrom_of_argOfJson? hread with
    | chain hinner => exact Outline.fits_toJson hitem hinner
  have hlevels : Json.maxLevels = 4 * 30 + 2 + 4 + 1 := rfl
  rw [toJson_eq, hlevels, Json.fits_object]
  simp only [List.forall_mem_cons]
  refine ⟨?_, s.options.fits_toJson _, Catalog.fits_bareJson s.transforms _,
    Outline.fits_toJson_of_args hargs, nofun⟩
  cases s.version <;> rfl

theorem parse?_eq_some {text : String} {s : Script} :
    parse? text = some s ↔ ∃ json, Json.parse? text = some json ∧ argumentsFit json ∧
      ofJson? json = some s := by
  rw [parse?, Option.bind_eq_bind, Option.bind_eq_some_iff]
  apply exists_congr
  intro json
  cases argumentsFit json <;> simp [guard]

/-- How a script comes back, from its JSON value and from any text that stands for it. -/
structure RoundTrips (s : Script) : Prop where
  value : s.Finite → ofJson? s.toJson = some s
  rendered : Json.parse? s.toJson.render = some s.toJson
  finite : ∀ text, parse? text = some s → s.Finite
  again : ∀ text, parse? text = some s →
    ∀ written, Json.parse? written = some s.toJson → parse? written = some s

theorem roundTrips (s : Script) : s.RoundTrips where
  value := ofJson?_toJson
  rendered := Json.parse?_render s.sound_toJson
  finite := by
    intro text hs
    obtain ⟨json, hjson, -, hread⟩ := parse?_eq_some.mp hs
    exact finite_of_ofJson? (Json.sound_parse? hjson) hread
  again := by
    intro text hs written hwritten
    obtain ⟨json, hjson, hfit, hread⟩ := parse?_eq_some.mp hs
    have hfinite := finite_of_ofJson? (Json.sound_parse? hjson) hread
    exact parse?_eq_some.mpr ⟨s.toJson, hwritten, argumentsFit_of_fits (fits_toJson hfit hread),
      ofJson?_toJson hfinite⟩

end Script

namespace Catalog

/-- A value that a list of descriptors is read from, as is any text that stands for it. -/
structure Holds (json : Json) (ds : List Descriptor) : Prop where
  value : ofJson? json = some ds
  rendered : Json.parse? json.render = some json
  text : ∀ text, Json.parse? text = some json → parse? text = some ds

theorem holds_of_ofJson? {json : Json} {ds : List Descriptor} (hjson : json.Sound)
    (hfits : json.fits Json.maxLevels) (hds : ofJson? json = some ds) : Holds json ds where
  value := hds
  rendered := Json.parse?_render hjson
  text := by
    intro text htext
    rw [parse?, htext]
    simp [hfits, hds, guard]

theorem holds_bareJson {ds : List Descriptor} (hds : ∀ d ∈ ds, d.Finite) :
    Holds (bareJson ds) ds :=
  holds_of_ofJson? (sound_bareJson ds) (fits_bareJson ds 123) (ofJson?_bareJson hds)

theorem holds_versionedJson (version : String) {ds : List Descriptor}
    (hds : ∀ d ∈ ds, d.Finite) : Holds (versionedJson version ds) ds :=
  holds_of_ofJson? (sound_versionedJson version ds) (fits_versionedJson version ds 122)
    (ofJson?_versionedJson version hds)

end Catalog

/-- Scripts come back, and so do descriptors in both forms of a catalog. No value has both. -/
theorem documents_roundTrip (s : Script) (ds : List Descriptor) :
    s.RoundTrips ∧
      ((∀ d ∈ ds, d.Finite) → Catalog.Holds (Catalog.bareJson ds) ds ∧
        ∀ version, Catalog.Holds (Catalog.versionedJson version ds) ds) ∧
      ∀ json, Catalog.versioned? json = none ∨ Catalog.bare? json = none := by
  refine ⟨s.roundTrips, fun hds => ?_, fun json => ?_⟩
  · exact ⟨Catalog.holds_bareJson hds, fun version => Catalog.holds_versionedJson version hds⟩
  · cases hbare : Catalog.bare? json with
    | none => exact .inr rfl
    | some found => exact .inl (Catalog.versioned?_of_bare? hbare)

end ShaderChain
