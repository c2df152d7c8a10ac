import ShaderChain.Proofs.Resolve.Walk
import ShaderChain.Proofs.Text.Line

/-! The names of uniforms. A name tells the path to the argument that it stands for, and no path
is walked twice. -/

namespace ShaderChain

namespace Uniform

/-- The indices of a path in decimal notation, with underscores between them. -/
def nameOf (path : List Nat) : String :=
  "u" ++ "_".intercalate (path.map toString)

theorem toList_nameOf (path : List Nat) :
    (nameOf path).toList = 'u' :: ['_'].intercalate (path.map (Nat.toDigits 10)) := by
  simp [nameOf, String.toList_intercalate, Function.comp_def]

theorem toDigits_injective {m n : Nat} (heq : Nat.toDigits 10 m = Nat.toDigits 10 n) : m = n := by
  rw [← Nat.ofDigitChars_ten_toDigits (n := m), heq, Nat.ofDigitChars_ten_toDigits]

theorem map_toDigits_injective {first second : List Nat}
    (heq : first.map (Nat.toDigits 10) = second.map (Nat.toDigits 10)) : first = second :=
  List.map_inj_right (fun _ _ => toDigits_injective) |>.mp heq

/-- Underscores stand between the indices of a path only, so that they can be told apart. -/
theorem splitOn_digits {path : List Nat} (hne : path ≠ []) :
    List.splitOn '_' (['_'].intercalate (path.map (Nat.toDigits 10))) =
      path.map (Nat.toDigits 10) := by
  refine List.splitOn_intercalate '_' ?_ (by simpa using hne)
  intro digits hdigits
  obtain ⟨n, -, rfl⟩ := List.mem_map.mp hdigits
  exact Nat.underscore_not_in_toDigits

theorem eq_nil_of_intercalate {path : List Nat}
    (hpath : ['_'].intercalate (path.map (Nat.toDigits 10)) = []) : path = [] := by
  rcases path with _ | ⟨n, _ | ⟨m, more⟩⟩
  · rfl
  · simp [Nat.toDigits_ne_nil] at hpath
  · simp [List.intercalate_cons_cons] at hpath

theorem nameOf_injective {path other : List Nat} (heq : nameOf path = nameOf other) :
    path = other := by
  have hchars := congrArg String.toList heq
  rw [toList_nameOf, toList_nameOf, List.cons.injEq] at hchars
  by_cases hpath : path = []
  · subst hpath
    exact (eq_nil_of_intercalate hchars.2.symm).symm
  · by_cases hother : other = []
    · subst hother
      exact eq_nil_of_intercalate hchars.2
    · have hsplit := congrArg (List.splitOn '_') hchars.2
      rw [splitOn_digits hpath, splitOn_digits hother] at hsplit
      exact map_toDigits_injective hsplit

theorem isIdentChar_of_mem_intercalate {path : List Nat} {c : Char}
    (hc : c ∈ ['_'].intercalate (path.map (Nat.toDigits 10))) : Text.isIdentChar c := by
  obtain hmark | ⟨digits, hdigits, hc⟩ := Text.mem_of_mem_intercalate hc
  · rw [List.mem_singleton.mp hmark]
    rfl
  · obtain ⟨n, -, rfl⟩ := List.mem_map.mp hdigits
    have hisDigit := Nat.isDigit_of_mem_toDigits (by decide) (by decide) hc
    simp [Text.isIdentChar, Char.isAlphanum, hisDigit]

theorem isIdentifier_nameOf (path : List Nat) : Text.isIdentifier (nameOf path).toList := by
  rw [toList_nameOf, Text.isIdentifier]
  have hchars : (['_'].intercalate (path.map (Nat.toDigits 10))).all Text.isIdentChar :=
    List.all_eq_true.mpr fun _ => isIdentChar_of_mem_intercalate
  rw [hchars]
  simp [Text.isReserved, List.isPrefixOf]

theorem nameOf_ne_st (path : List Nat) : nameOf path ≠ "st" := by
  intro heq
  have hchars := congrArg String.toList heq
  simp [toList_nameOf] at hchars

end Uniform

namespace Site

theorem uniformName_eq (s : Site) (arg : Nat) :
    s.uniformName arg = Uniform.nameOf (s.path ++ [arg]) := rfl

theorem isIdentifier_uniformName (s : Site) (arg : Nat) :
    Text.isIdentifier (s.uniformName arg).toList :=
  Uniform.isIdentifier_nameOf _

theorem uniformName_ne_st (s : Site) (arg : Nat) : s.uniformName arg ≠ "st" :=
  Uniform.nameOf_ne_st _

end Site

/-! The paths that a walk takes. -/

namespace SlotUse

def path (use : SlotUse) : List Nat :=
  use.site.path ++ [use.arg]

theorem path_of_uniformName_eq {use other : SlotUse} (heq : use.uniformName = other.uniformName) :
    use.path = other.path :=
  Uniform.nameOf_injective heq

end SlotUse

namespace Walk

def paths (visits : List Visit) : List (List Nat) :=
  (visits.filterMap Visit.use?).map SlotUse.path

@[simp] theorem paths_nil : paths [] = [] := rfl

@[simp] theorem paths_node (position : Nat) (predecessor : String) (applied : Node)
    (found : Option Transform) (visits : List Visit) :
    paths (.node position predecessor applied found :: visits) = paths visits := rfl

@[simp] theorem paths_slot (use : SlotUse) (visits : List Visit) :
    paths (.slot use :: visits) = use.path :: paths visits := rfl

@[simp] theorem paths_append (first second : List Visit) :
    paths (first ++ second) = paths first ++ paths second := by
  simp [paths]

/-- Paths that differ from each other and go on from `path` with an index of at least
`lowest`. -/
structure Apart (path : List Nat) (lowest : Nat) (found : List (List Nat)) : Prop where
  nodup : found.Nodup
  below : ∀ p ∈ found, ∃ index more, p = path ++ index :: more ∧ lowest ≤ index

theorem apart_nil (path : List Nat) (lowest : Nat) : Apart path lowest [] :=
  ⟨List.nodup_nil, by simp⟩

theorem Apart.weaken {path : List Nat} {lowest : Nat} {found : List (List Nat)}
    (hfound : Apart path (lowest + 1) found) : Apart path lowest found := by
  refine ⟨hfound.nodup, fun p hp => ?_⟩
  obtain ⟨index, more, rfl, hindex⟩ := hfound.below p hp
  exact ⟨index, more, rfl, by omega⟩

/-- What lies below an index is apart from what lies below later ones. -/
theorem Apart.append {path : List Nat} {lowest : Nat} {inner later : List (List Nat)}
    (hinner : Apart (path ++ [lowest]) 0 inner) (hlater : Apart path (lowest + 1) later) :
    Apart path lowest (inner ++ later) := by
  have hbelow : ∀ p ∈ inner, ∃ more, p = path ++ lowest :: more := by
    intro p hp
    obtain ⟨index, more, rfl, -⟩ := hinner.below p hp
    exact ⟨index :: more, by simp⟩
  refine ⟨List.nodup_append.mpr ⟨hinner.nodup, hlater.nodup, ?_⟩, ?_⟩
  · intro p hp q hq heq
    obtain ⟨more, rfl⟩ := hbelow p hp
    obtain ⟨index, more', rfl, hindex⟩ := hlater.below q hq
    simp only [List.append_cancel_left_eq, List.cons.injEq] at heq
    omega
  · intro p hp
    rcases List.mem_append.mp hp with hp | hp
    · obtain ⟨more, rfl⟩ := hbelow p hp
      exact ⟨lowest, more, rfl, Nat.le_refl _⟩
    · exact hlater.weaken.below p hp

/-- A path is apart from the longer ones that start with it. -/
theorem Apart.cons {path : List Nat} {lowest : Nat} {inner later : List (List Nat)}
    (hinner : Apart (path ++ [lowest]) 0 inner) (hlater : Apart path (lowest + 1) later) :
    Apart path lowest ((path ++ [lowest]) :: (inner ++ later)) := by
  have happend := hinner.append hlater
  refine ⟨List.nodup_cons.mpr ⟨?_, happend.nodup⟩, ?_⟩
  · intro hmem
    rcases List.mem_append.mp hmem with hmem | hmem
    · obtain ⟨index, more, heq, -⟩ := hinner.below _ hmem
      simp at heq
    · obtain ⟨index, more, heq, hindex⟩ := hlater.below _ hmem
      simp only [List.append_cancel_left_eq, List.cons.injEq] at heq
      omega
  · intro p hp
    rcases List.mem_cons.mp hp with rfl | hp
    · exact ⟨lowest, [], rfl, Nat.le_refl _⟩
    · exact happend.below p hp

theorem apart_unbound (s : Site) (arg : Nat) (slots : List Slot) :
    Apart s.path arg (paths (unbound s arg slots)) := by
  induction slots generalizing arg with
  | nil => exact apart_nil _ _
  | cons slot slots ih =>
      simp only [unbound, paths_slot]
      exact Apart.cons (apart_nil _ _) (ih (arg + 1))

section Nested

variable {registry : Registry}

def NestedApart (registry : Registry) (c : Chain) : Prop :=
  ∀ path, Apart path 0 (paths (nodes registry .fragment path "" 0 c.nodes))

theorem apart_slots (s : Site) (arg : Nat) (slots : List Slot) (bindings : List Binding)
    (hnested : ∀ c, Binding.chain c ∈ bindings → NestedApart registry c) :
    Apart s.path arg (paths (Walk.slots registry s arg slots bindings)) := by
  induction bindings generalizing arg slots with
  | nil => exact apart_unbound s arg slots
  | cons b rest ih =>
      cases slots with
      | nil => exact apart_nil _ _
      | cons slot slots =>
          have hbound : Apart (s.path ++ [arg]) 0
              (paths (ofBinding registry (s.path ++ [arg]) b)) := by
            cases b with
            | chain c => exact hnested c (by simp) _
            | _ => exact apart_nil _ _
          simp only [Walk.slots, paths_slot, paths_append]
          exact hbound.cons (ih (arg + 1) slots fun c hc => hnested c (by simp [hc]))

theorem apart_nodes (stage : Stage) (path : List Nat) (predecessor : String) (position : Nat)
    (ns : List Node)
    (hnested : ∀ node ∈ ns, ∀ c, Binding.chain c ∈ node.bindings → NestedApart registry c) :
    Apart path position (paths (nodes registry stage path predecessor position ns)) := by
  induction ns generalizing predecessor position with
  | nil => exact apart_nil _ _
  | cons node rest ih =>
      have hrest := fun predecessor => ih predecessor (position + 1)
        fun other hother => hnested other (by simp [hother])
      cases hfind : registry.find? node.name with
      | none =>
          simp only [nodes, hfind, paths_node]
          exact (hrest predecessor).weaken
      | some t =>
          simp only [nodes, hfind]
          split
          · rw [paths_node, paths_append, ofNode_eq]
            have hnode := apart_slots ⟨t.name, position, path ++ [position]⟩ 0 t.slots
              node.bindings (hnested node (by simp))
            exact hnode.append (hrest node.name)
          · exact (hrest predecessor).weaken

end Nested

theorem nested_apart (registry : Registry) (c : Chain) : NestedApart registry c := by
  induction c using Chain.nestedInduction with
  | step c ih => exact fun path => apart_nodes .fragment path "" 0 c.nodes ih

end Walk

end ShaderChain
