import ShaderChain.Builtin
import ShaderChain.Proofs.Update

/-! Registries as they are built, by one registration after the other. -/

namespace ShaderChain

theorem mapError_ok (f : ε → ε') (a : α) :
    (Except.ok a : Except ε α).mapError f = .ok a := rfl

theorem mapError_error (f : ε → ε') (e : ε) :
    (Except.error e : Except ε α).mapError f = .error (f e) := rfl

theorem Descriptor.normalize_eq_ok {d : Descriptor} {t : Transform} (hok : d.normalize = .ok t) :
    t.name = d.name ∧ t.symbol = d.symbol.getD d.name ∧ Text.isIdentifier t.symbol.toList ∧
      Category.parse d.category = .ok t.category ∧
      d.normalizeParams (if t.category.hasOperand then [Slot.operand.name] else []) d.params =
        .ok t.params := by
  unfold Descriptor.normalize at hok
  by_cases hident : Text.isIdentifier (d.symbol.getD d.name).toList
  · cases hcategory : Category.parse d.category with
    | error e =>
        simp [checkName, hident, hcategory, bind, Except.bind, mapError_error] at hok
    | ok category =>
        cases hparams : d.normalizeParams
            (if category.hasOperand then [Slot.operand.name] else []) d.params with
        | error e =>
            simp [checkName, hident, hcategory, hparams, bind, Except.bind, mapError_ok] at hok
        | ok params =>
            simp [checkName, hident, hcategory, hparams, bind, Except.bind, mapError_ok, pure,
              Except.pure] at hok
            subst hok
            exact ⟨rfl, rfl, hident, rfl, hparams⟩
  · simp [checkName, hident, bind, Except.bind] at hok

namespace Registry

theorem mem_transforms_of_find? {r : Registry} {name : String} {t : Transform}
    (hfind : r.find? name = some t) : t ∈ r.transforms ∧ t.name = name := by
  refine ⟨List.mem_of_find?_eq_some hfind, ?_⟩
  simpa using List.find?_some hfind

theorem mem_insert {r : Registry} {t u : Transform} (hu : u ∈ (r.insert t).transforms) :
    u = t ∨ u ∈ r.transforms := by
  unfold insert at hu
  split at hu
  · simp only [List.mem_map] at hu
    obtain ⟨old, hold, rfl⟩ := hu
    split
    · exact .inl rfl
    · exact .inr hold
  · simp only [List.mem_append, List.mem_singleton] at hu
    exact hu.symm

inductive Built : Registry → Prop
  | empty : Built .empty
  | register {r next : Registry} {d : Descriptor} (hr : Built r) (hnext : r.register d = .ok next) :
      Built next

/-! Registering a descriptor, whether it fails or not. -/

theorem run_register_ok {d : Descriptor} {t : Transform} (hok : d.normalize = .ok t)
    (r : Registry) : (Edit.register d).run r = (.ok t, r.insert t) := by
  rw [Edit.register, hok]
  rfl

theorem run_register_error {d : Descriptor} {e : RegistrationError}
    (herror : d.normalize = .error e) (r : Registry) :
    (Edit.register d).run r = (.error e, r) := by
  rw [Edit.register, herror]
  rfl

theorem register_of_ok {r : Registry} {d : Descriptor} {t : Transform} (hok : d.normalize = .ok t) :
    r.register d = .ok (r.insert t) := by
  rw [register, Update.on, run_register_ok hok]

theorem register_of_error {r : Registry} {d : Descriptor} {e : RegistrationError}
    (herror : d.normalize = .error e) : r.register d = .error e := by
  rw [register, Update.on, run_register_error herror]

theorem register_eq_ok {r next : Registry} {d : Descriptor} (hnext : r.register d = .ok next) :
    ∃ t, d.normalize = .ok t ∧ next = r.insert t := by
  cases ht : d.normalize with
  | error e =>
      rw [register_of_error ht] at hnext
      cases hnext
  | ok t =>
      rw [register_of_ok ht] at hnext
      exact ⟨t, rfl, (Except.ok.inj hnext).symm⟩

theorem extend_of_ok {d : Descriptor} {t : Transform} (hok : d.normalize = .ok t) (r : Registry)
    (ds : List Descriptor) : r.extend (d :: ds) = (r.insert t).extend ds :=
  Update.run_collect_ok (run_register_ok hok r) ds

theorem extend_of_error {d : Descriptor} {e : RegistrationError} (herror : d.normalize = .error e)
    (r : Registry) (ds : List Descriptor) :
    r.extend (d :: ds) = (e :: (r.extend ds).1, (r.extend ds).2) :=
  Update.run_collect_error (run_register_error herror r) ds

theorem Built.extend {r : Registry} (hr : Built r) (ds : List Descriptor) :
    Built (r.extend ds).2 := by
  induction ds generalizing r with
  | nil => exact hr
  | cons d ds ih =>
      cases hd : d.normalize with
      | ok t =>
          rw [extend_of_ok hd]
          exact ih (hr.register (register_of_ok hd))
      | error e =>
          rw [extend_of_error hd]
          exact ih hr

theorem find?_insert_of_ne {r : Registry} {t : Transform} {name : String} (hne : t.name ≠ name) :
    (r.insert t).find? name = r.find? name := by
  unfold insert
  split
  · simp only [find?]
    induction r.transforms with
    | nil => rfl
    | cons u rest ih =>
        rw [List.map_cons]
        by_cases hsame : u.name = t.name
        · rw [if_pos (by simpa using hsame), List.find?_cons_of_neg (by simpa using hne),
            List.find?_cons_of_neg (by simpa [hsame] using hne), ih]
        · rw [if_neg (by simpa using hsame), List.find?_cons, List.find?_cons, ih]
  · simp [find?, List.find?_append, hne]

theorem find?_extend {r : Registry} {ds : List Descriptor} {name : String}
    (hother : ∀ d ∈ ds, d.name ≠ name) : (r.extend ds).2.find? name = r.find? name := by
  induction ds generalizing r with
  | nil => rfl
  | cons d ds ih =>
      rw [List.forall_mem_cons] at hother
      cases hd : d.normalize with
      | ok t =>
          have hname : t.name ≠ name := (Descriptor.normalize_eq_ok hd).1 ▸ hother.1
          rw [extend_of_ok hd, ih hother.2, find?_insert_of_ne hname]
      | error e =>
          rw [extend_of_error hd]
          exact ih hother.2

theorem Built.isIdentifier_symbol {r : Registry} (hr : Built r) :
    ∀ t ∈ r.transforms, Text.isIdentifier t.symbol.toList := by
  induction hr with
  | empty => simp [Registry.empty]
  | register hr hnext ih =>
      obtain ⟨t, ht, rfl⟩ := register_eq_ok hnext
      intro u hu
      rcases mem_insert hu with rfl | hu
      · exact (Descriptor.normalize_eq_ok ht).2.2.1
      · exact ih u hu

/-- A few of the built-in transforms, of different categories. -/
def sample : Registry :=
  .ofDescriptors (Builtin.sources.take 1 ++ Builtin.coordinates.take 1 ++
    Builtin.combines.take 1 ++ Builtin.modulations.take 1 ++ Builtin.displacements.drop 2)

theorem built_sample : sample.Built :=
  Built.empty.extend _

/-- Two transforms that share a symbol but not the types of their arguments. -/
def samplePaint : Registry :=
  .ofDescriptors [
    { name := "flat"
      category := "src"
      params := [.number "level" 1.0]
      sources := { main := .text "return vec4(level);" }
      symbol := some "paint" },
    { name := "tiles"
      category := "raw"
      params := [.number "across" 4.0, .number "down" 4.0]
      sources := { main := .lines [
        "vec4 paint(vec2 _st, float across, float down) \x7b",
        "  return vec4(fract(_st * vec2(across, down)), 0.0, 1.0);",
        "\x7d"] }
      symbol := some "paint" }]

theorem built_samplePaint : samplePaint.Built :=
  Built.empty.extend _

end Registry

end ShaderChain
