import Mathlib.Tactic.Common
import ShaderChain.Proofs.Registry.History

/-! Registries with an index. The transforms are found in a hash map, and their names stand beside
it in the order of registration. No call gets the two out of step, and the answers are those of the
registry that is a list. -/

namespace ShaderChain

structure Indexed where
  table : Std.HashMap String Transform
  /-- The names in the order in which they were first registered. -/
  order : List String

namespace Indexed

def empty : Indexed :=
  ⟨∅, []⟩

def find? (s : Indexed) (name : String) : Option Transform :=
  s.table[name]?

def contains (s : Indexed) (name : String) : Bool :=
  s.table.contains name

def size (s : Indexed) : Nat :=
  s.order.length

def transforms (s : Indexed) : List Transform :=
  s.order.filterMap s.find?

def roots (s : Indexed) : List Transform :=
  s.transforms.filter (·.category.isRoot)

abbrev Edit :=
  Update RegistrationError Indexed

/-- The transform goes into the table first. Only a name that was not there is put behind the
others. -/
def Edit.register (d : Descriptor) : Edit Transform := do
  let t ← d.normalize
  let previous ← modifyGet fun s => (s.find? t.name, { s with table := s.table.insert t.name t })
  if previous.isNone then modify fun s => { s with order := s.order ++ [t.name] }
  return t

def extend (s : Indexed) (ds : List Descriptor) : List RegistrationError × Indexed :=
  (Update.collect Edit.register ds).run s

/-- The registry behind a call, one that fails to register included. -/
def next (s : Indexed) : Registry.Call → Indexed
  | .register d => ((Edit.register d).run s).2
  | .extend ds => (s.extend ds).2

def replay (calls : List Registry.Call) : Indexed :=
  calls.foldl next .empty

/-! What registering a descriptor comes to. -/

def insert (s : Indexed) (t : Transform) : Indexed where
  table := s.table.insert t.name t
  order := if t.name ∈ s.table then s.order else s.order ++ [t.name]

theorem run_register_ok {d : Descriptor} {t : Transform} (hok : d.normalize = .ok t)
    (s : Indexed) : (Edit.register d).run s = (.ok t, s.insert t) := by
  have hmem : t.name ∈ s.table ↔ (s.find? t.name).isSome := Std.HashMap.mem_iff_isSome_getElem?
  have hput : (modifyGet fun s => (s.find? t.name, { s with table := s.table.insert t.name t }) :
      Edit (Option Transform)).run s =
        (.ok (s.find? t.name), { s with table := s.table.insert t.name t }) := rfl
  rw [Edit.register, hok, Update.lift_ok_bind, Update.run_bind_ok hput, insert]
  simp only [hmem]
  cases s.find? t.name <;> rfl

theorem run_register_error {d : Descriptor} {e : RegistrationError}
    (herror : d.normalize = .error e) (s : Indexed) :
    (Edit.register d).run s = (.error e, s) := by
  rw [Edit.register, herror]
  rfl

/-- The table finds what the list finds, and the names are in the same order. -/
structure Refines (s : Indexed) (r : Registry) : Prop where
  find? : ∀ name, s.find? name = r.find? name
  order : s.order = r.names
  nodup : r.names.Nodup

theorem refines_empty : empty.Refines .empty :=
  ⟨fun _ => Std.HashMap.getElem?_empty, rfl, List.nodup_nil⟩

theorem Refines.mem_table {s : Indexed} {r : Registry} (hr : s.Refines r) (name : String) :
    name ∈ s.table ↔ name ∈ r.names := by
  rw [Std.HashMap.mem_iff_isSome_getElem?, ← Indexed.find?, hr.find?, Registry.find?,
    List.find?_isSome, Registry.names]
  simp

theorem Refines.insert {s : Indexed} {r : Registry} (hr : s.Refines r) (t : Transform) :
    (s.insert t).Refines (r.insert t) := by
  refine ⟨fun name => ?_, ?_, Registry.nodup_names_insert hr.nodup t⟩
  · rw [Indexed.find?, Indexed.insert, Std.HashMap.getElem?_insert]
    by_cases hname : t.name = name
    · rw [if_pos (beq_iff_eq.mpr hname), ← hname, Registry.find?_insert_self]
    · rw [if_neg (mt beq_iff_eq.mp hname), Registry.find?_insert_of_ne hname]
      exact hr.find? name
  · rw [Registry.names_insert, Indexed.insert, hr.order]
    simp only [hr.mem_table]

/-! The calls on the two registries, step by step. -/

theorem simulates_register (d : Descriptor) :
    Update.Simulates Refines (Edit.register d) (Registry.Edit.register d) := by
  intro s r hr
  cases hd : d.normalize with
  | ok t =>
      rw [run_register_ok hd, Registry.run_register_ok hd]
      exact ⟨rfl, hr.insert t⟩
  | error e =>
      rw [run_register_error hd, Registry.run_register_error hd]
      exact ⟨rfl, hr⟩

theorem Refines.extend {s : Indexed} {r : Registry} (hr : s.Refines r) (ds : List Descriptor) :
    (s.extend ds).1 = (r.extend ds).1 ∧ (s.extend ds).2.Refines (r.extend ds).2 :=
  Update.simulates_collect simulates_register ds hr

theorem Refines.next {s : Indexed} {r : Registry} (hr : s.Refines r) (call : Registry.Call) :
    (s.next call).Refines (call.next r) := by
  cases call with
  | register d => exact (simulates_register d s r hr).2
  | extend ds => exact (hr.extend ds).2

theorem Refines.foldl {s : Indexed} {r : Registry} (hr : s.Refines r)
    (calls : List Registry.Call) :
    (calls.foldl Indexed.next s).Refines (calls.foldl Registry.Call.next r) := by
  induction calls generalizing s r with
  | nil => exact hr
  | cons call calls ih => exact ih (hr.next call)

theorem refines_replay (calls : List Registry.Call) :
    (replay calls).Refines (Registry.replay calls) :=
  refines_empty.foldl calls

/-! What follows for the table and the order, and for the answers. -/

/-- The table and the order have the same names, each of them once and with a transform that bears
it. -/
structure InStep (s : Indexed) : Prop where
  nodup : s.order.Nodup
  mem : ∀ name, name ∈ s.order ↔ name ∈ s.table
  name : ∀ name t, s.find? name = some t → t.name = name

structure Answers (s : Indexed) (r : Registry) : Prop where
  find? : ∀ name, s.find? name = r.find? name
  contains : ∀ name, s.contains name = r.contains name
  size : s.size = r.size
  transforms : s.transforms = r.transforms
  roots : s.roots = r.roots
  register : ∀ d, ((Edit.register d).run s).1 = ((Registry.Edit.register d).run r).1
  extend : ∀ ds, (s.extend ds).1 = (r.extend ds).1

theorem Refines.inStep {s : Indexed} {r : Registry} (hr : s.Refines r) : s.InStep where
  nodup := hr.order ▸ hr.nodup
  mem name := by rw [hr.order, hr.mem_table]
  name name t ht := (Registry.mem_transforms_of_find? (hr.find? name ▸ ht)).2

theorem Refines.transforms {s : Indexed} {r : Registry} (hr : s.Refines r) :
    s.transforms = r.transforms := by
  have hfind : s.find? = r.find? := funext hr.find?
  have hlist : (r.names.map r.find?).filterMap id = r.transforms := by
    rw [← Registry.transforms_eq hr.nodup, List.filterMap_map]
    exact List.filterMap_some
  rw [Indexed.transforms, hfind, hr.order, ← hlist, List.filterMap_map]
  rfl

theorem Refines.answers {s : Indexed} {r : Registry} (hr : s.Refines r) : s.Answers r where
  find? := hr.find?
  contains name := by
    rw [Bool.eq_iff_iff, Registry.contains_iff, ← hr.mem_table]
    exact Std.HashMap.contains_iff_mem
  size := by rw [Indexed.size, hr.order, Registry.names, List.length_map, Registry.size]
  transforms := hr.transforms
  roots := by rw [Indexed.roots, hr.transforms, Registry.roots]
  register d := (simulates_register d s r hr).1
  extend ds := (hr.extend ds).1

/-- Whatever calls are made, the table and the order are in step, and every further call is answered
as by the list of transforms that comes from the same calls. -/
theorem replay_inStep (calls : List Registry.Call) :
    (replay calls).InStep ∧ (replay calls).Answers (Registry.replay calls) :=
  ⟨(refines_replay calls).inStep, (refines_replay calls).answers⟩

end Indexed

end ShaderChain
