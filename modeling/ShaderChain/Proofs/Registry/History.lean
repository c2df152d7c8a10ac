import ShaderChain.Proofs.Transform.Normal

/-! A registry after any calls that registered descriptors. It reflects their history: all that was
registered is there once, in the order in which the names first were, and as it was last. -/

namespace ShaderChain

namespace Registry

inductive Call where
  | register (d : Descriptor)
  | extend (ds : List Descriptor)

def Call.descriptors : Call → List Descriptor
  | .register d => [d]
  | .extend ds => ds

/-- The registry behind a call, one that fails to register included. -/
def Call.next (r : Registry) : Call → Registry
  | .register d => ((Edit.register d).run r).2
  | .extend ds => (r.extend ds).2

def replay (calls : List Call) : Registry :=
  calls.foldl Call.next .empty

def history (calls : List Call) : List Descriptor :=
  calls.flatMap Call.descriptors

/-! What a call does, by what becomes of its descriptors. -/

theorem next_of_ok {d : Descriptor} {t : Transform} (hok : d.normalize = .ok t) (r : Registry) :
    (Call.register d).next r = r.insert t := by
  rw [Call.next, run_register_ok hok]

theorem next_of_error {d : Descriptor} {e : RegistrationError} (herror : d.normalize = .error e)
    (r : Registry) : (Call.register d).next r = r := by
  rw [Call.next, run_register_error herror]

theorem extend_cons (r : Registry) (d : Descriptor) (ds : List Descriptor) :
    (r.extend (d :: ds)).2 = ((Call.register d).next r |>.extend ds).2 := by
  cases hd : d.normalize with
  | ok t => rw [extend_of_ok hd, next_of_ok hd]
  | error e => rw [extend_of_error hd, next_of_error hd]

theorem extend_errors (r : Registry) (ds : List Descriptor) :
    (r.extend ds).1 = ds.filterMap Descriptor.failure? := by
  induction ds generalizing r with
  | nil => rfl
  | cons d ds ih =>
      cases hd : d.normalize with
      | ok t =>
          have hnone : d.failure? = none := by simp [Descriptor.failure?, hd]
          rw [extend_of_ok hd, List.filterMap_cons_none hnone, ih]
      | error e =>
          have hsome : d.failure? = some e := by simp [Descriptor.failure?, hd]
          rw [extend_of_error hd, List.filterMap_cons_some hsome, ih]

theorem extend_filter (r : Registry) (ds : List Descriptor) :
    (r.extend (ds.filter (·.normalForm?.isSome))).2 = (r.extend ds).2 := by
  induction ds generalizing r with
  | nil => rfl
  | cons d ds ih =>
      cases hd : d.normalize with
      | ok t =>
          rw [List.filter_cons_of_pos (by simp [Descriptor.normalForm?, hd]), extend_cons,
            extend_cons, ih]
      | error e =>
          rw [List.filter_cons_of_neg (by simp [Descriptor.normalForm?, hd]), extend_cons, ih,
            next_of_error hd]

/-! What inserting a transform does to the names and to what is found. -/

theorem contains_iff (r : Registry) (name : String) : r.contains name ↔ name ∈ r.names := by
  simp [contains, names]

theorem names_insert (r : Registry) (t : Transform) :
    (r.insert t).names = if t.name ∈ r.names then r.names else r.names ++ [t.name] := by
  unfold insert
  by_cases hmem : t.name ∈ r.names
  · rw [if_pos ((r.contains_iff _).mpr hmem), if_pos hmem, names, names, List.map_map]
    refine List.map_congr_left fun u _ => ?_
    by_cases hsame : u.name = t.name <;> simp [hsame]
  · rw [if_neg (mt (r.contains_iff _).mp hmem), if_neg hmem]
    simp [names]

theorem nodup_names_insert {r : Registry} (hnodup : r.names.Nodup) (t : Transform) :
    (r.insert t).names.Nodup := by
  rw [names_insert]
  split
  · exact hnodup
  · rename_i hnew
    refine List.nodup_append.mpr ⟨hnodup, by simp, ?_⟩
    rintro old hold _ hmem rfl
    exact hnew (List.mem_singleton.mp hmem ▸ hold)

theorem find?_insert_self (r : Registry) (t : Transform) :
    (r.insert t).find? t.name = some t := by
  obtain ⟨ts⟩ := r
  by_cases hcontains : (⟨ts⟩ : Registry).contains t.name
  · rw [insert, if_pos hcontains]
    simp only [contains, find?] at hcontains ⊢
    induction ts with
    | nil => cases hcontains
    | cons u rest ih =>
        by_cases hsame : u.name = t.name
        · simp [hsame]
        · simp only [List.any_cons, beq_eq_false_iff_ne.mpr hsame, Bool.false_or] at hcontains
          rw [List.map_cons, if_neg (by simpa using hsame),
            List.find?_cons_of_neg (by simpa using hsame)]
          exact ih hcontains
  · rw [insert, if_neg hcontains]
    have hnone : ts.find? (·.name == t.name) = none := by
      simpa [contains] using hcontains
    simp [find?, List.find?_append, hnone]

theorem find?_of_mem {r : Registry} (hnodup : r.names.Nodup) {t : Transform}
    (ht : t ∈ r.transforms) : r.find? t.name = some t := by
  obtain ⟨ts⟩ := r
  simp only [names, find?] at hnodup ht ⊢
  induction ts with
  | nil => cases ht
  | cons u rest ih =>
      rw [List.map_cons, List.nodup_cons] at hnodup
      rcases List.mem_cons.mp ht with rfl | ht
      · simp
      · have hne : u.name ≠ t.name := fun heq => hnodup.1 (heq ▸ List.mem_map_of_mem ht)
        rw [List.find?_cons_of_neg (by simpa using hne)]
        exact ih hnodup.2 ht

/-! The invariant, which every call keeps. -/

/-- `ds` are all the descriptors so far, those that failed among them. -/
structure Reflects (r : Registry) (ds : List Descriptor) : Prop where
  nodup : r.names.Nodup
  names : r.names = ((ds.filter (·.normalForm?.isSome)).map (·.name)).eraseDups
  find? : ∀ name, r.find? name =
    ((ds.filter (·.name == name)).filterMap Descriptor.normalForm?).getLast?

theorem reflects_empty : Registry.empty.Reflects [] :=
  ⟨List.nodup_nil, rfl, fun _ => rfl⟩

theorem eraseDups_concat (names : List String) (name : String) :
    (names ++ [name]).eraseDups =
      if name ∈ names.eraseDups then names.eraseDups else names.eraseDups ++ [name] := by
  rw [List.eraseDups_append, List.cons_removeAll]
  by_cases hmem : name ∈ names
  · simp [hmem, List.mem_eraseDups]
  · simp [hmem, List.mem_eraseDups, List.eraseDups_cons]

theorem Reflects.insert {r : Registry} {ds : List Descriptor} (hr : r.Reflects ds)
    {d : Descriptor} {t : Transform} (ht : d.normalForm? = some t) :
    (r.insert t).Reflects (ds ++ [d]) := by
  have hname := Descriptor.name_of_normalForm? ht
  refine ⟨nodup_names_insert hr.nodup t, ?_, fun name => ?_⟩
  · have hkept : [d].filter (·.normalForm?.isSome) = [d] := by simp [ht]
    rw [names_insert, hr.names, hname, List.filter_append, hkept, List.map_append, List.map_singleton,
      eraseDups_concat]
  · by_cases hsame : d.name = name
    · subst hsame
      rw [← hname, find?_insert_self, hname]
      simp [List.filter_append, ht]
    · rw [find?_insert_of_ne (hname ▸ hsame), hr.find?]
      simp [List.filter_append, hsame]

theorem Reflects.skip {r : Registry} {ds : List Descriptor} (hr : r.Reflects ds)
    {d : Descriptor} (hnone : d.normalForm? = none) : r.Reflects (ds ++ [d]) := by
  refine ⟨hr.nodup, ?_, fun name => ?_⟩
  · simp [hr.names, List.filter_append, hnone]
  · by_cases hsame : d.name = name <;> simp [hr.find?, List.filter_append, hsame, hnone]

theorem Reflects.register {r : Registry} {ds : List Descriptor} (hr : r.Reflects ds)
    (d : Descriptor) : ((Call.register d).next r).Reflects (ds ++ [d]) := by
  cases hd : d.normalize with
  | ok t =>
      rw [next_of_ok hd]
      exact hr.insert (Descriptor.normalForm?_eq_some.mpr hd)
  | error e =>
      rw [next_of_error hd]
      exact hr.skip (by simp [Descriptor.normalForm?, hd])

theorem Reflects.extend {r : Registry} {ds : List Descriptor} (hr : r.Reflects ds)
    (more : List Descriptor) : (r.extend more).2.Reflects (ds ++ more) := by
  induction more generalizing r ds with
  | nil =>
      rw [List.append_nil]
      exact hr
  | cons d more ih =>
      rw [extend_cons, List.append_cons]
      exact ih (hr.register d)

theorem Reflects.call {r : Registry} {ds : List Descriptor} (hr : r.Reflects ds) (call : Call) :
    (call.next r).Reflects (ds ++ call.descriptors) := by
  cases call with
  | register d => exact hr.register d
  | extend more => exact hr.extend more

theorem reflects_foldl {r : Registry} {ds : List Descriptor} (hr : r.Reflects ds)
    (calls : List Call) : (calls.foldl Call.next r).Reflects (ds ++ history calls) := by
  induction calls generalizing r ds with
  | nil => simpa [history] using hr
  | cons call calls ih =>
      rw [history, List.flatMap_cons, ← List.append_assoc]
      exact ih (hr.call call)

theorem reflects_replay (calls : List Call) : (replay calls).Reflects (history calls) :=
  reflects_foldl reflects_empty calls

/-! What the invariant says about a registry as a whole. -/

theorem Reflects.exists_descriptor {r : Registry} {ds : List Descriptor} (hr : r.Reflects ds)
    {name : String} {t : Transform} (ht : r.find? name = some t) :
    ∃ d ∈ ds, d.name = name ∧ d.normalize = .ok t := by
  rw [hr.find?] at ht
  obtain ⟨d, hd, hnormal⟩ := List.mem_filterMap.mp (List.mem_of_getLast? ht)
  obtain ⟨hmem, hname⟩ := List.mem_filter.mp hd
  exact ⟨d, hmem, by simpa using hname, Descriptor.normalForm?_eq_some.mp hnormal⟩

theorem Reflects.mem_names {r : Registry} {ds : List Descriptor} (hr : r.Reflects ds)
    (name : String) : name ∈ r.names ↔ ∃ d ∈ ds, d.name = name ∧ ∃ t, d.normalize = .ok t := by
  rw [hr.names, List.mem_eraseDups]
  simp only [List.mem_map, List.mem_filter, Option.isSome_iff_exists,
    Descriptor.normalForm?_eq_some]
  constructor
  · rintro ⟨d, ⟨hd, ht⟩, hname⟩
    exact ⟨d, hd, hname, ht⟩
  · rintro ⟨d, hd, hname, ht⟩
    exact ⟨d, ⟨hd, ht⟩, hname⟩

theorem transforms_eq {r : Registry} (hnodup : r.names.Nodup) :
    r.transforms.map some = r.names.map r.find? := by
  rw [names, List.map_map]
  exact List.map_congr_left fun t ht => (find?_of_mem hnodup ht).symm

theorem Reflects.wellFormed {r : Registry} {ds : List Descriptor} (hr : r.Reflects ds)
    {t : Transform} (ht : t ∈ r.transforms) : t.WellFormed := by
  obtain ⟨d, -, -, hnormal⟩ := hr.exists_descriptor (find?_of_mem hr.nodup ht)
  exact Descriptor.wellFormed_normalize hnormal

/-- Whatever calls a registry comes from, it has every name under which a descriptor was accepted,
once and in the order of the first, with the normal form of the last. -/
theorem replay_reflects_history (calls : List Call) :
    let r := replay calls
    let ds := history calls
    (r.names.Nodup ∧ r.names = ((ds.filter (·.normalForm?.isSome)).map (·.name)).eraseDups ∧
        r.transforms.map some = r.names.map r.find?) ∧
      r.size = ((ds.filter (·.normalForm?.isSome)).map (·.name)).eraseDups.length ∧
      (∀ name, r.find? name =
          ((ds.filter (·.name == name)).filterMap Descriptor.normalForm?).getLast? ∧
        ∀ t ∈ r.find? name, t.name = name) ∧
      (∀ name, r.contains name ↔ ∃ d ∈ ds, d.name = name ∧ ∃ t, d.normalize = .ok t) ∧
      (∀ more, (r.extend more).1 = more.filterMap Descriptor.failure? ∧
        (r.extend more).2 = (r.extend (more.filter (·.normalForm?.isSome))).2) ∧
      ∀ t ∈ r.transforms, t.WellFormed := by
  intro r ds
  have hr : r.Reflects ds := reflects_replay calls
  refine ⟨⟨hr.nodup, hr.names, transforms_eq hr.nodup⟩, ?_, fun name => ⟨hr.find? name, ?_⟩, ?_, ?_,
    fun t ht => hr.wellFormed ht⟩
  · rw [← hr.names, names, List.length_map, size]
  · exact fun t ht => (mem_transforms_of_find? ht).2
  · intro name
    rw [contains_iff, hr.mem_names]
  · exact fun more => ⟨r.extend_errors more, (r.extend_filter more).symm⟩

end Registry

end ShaderChain
