import ShaderChain.Compile.Field

/-! The transforms and names that occur in an expression. -/

namespace ShaderChain

namespace Expr

mutual

def calls : Expr → List Transform
  | .literal _ => []
  | .name _ => []
  | .call t args => t :: callsList args
  | .vector _ parts => callsList parts
  | .swizzle value _ => calls value

def callsList : List Expr → List Transform
  | [] => []
  | e :: rest => calls e ++ callsList rest

end

mutual

def names : Expr → List String
  | .literal _ => []
  | .name text => [text]
  | .call _ args => namesList args
  | .vector _ parts => namesList parts
  | .swizzle value _ => names value

def namesList : List Expr → List String
  | [] => []
  | e :: rest => names e ++ namesList rest

end

/-- All transforms and names in an expression are of the given kinds. -/
def Only (p : Transform → Prop) (q : String → Prop) (e : Expr) : Prop :=
  (∀ t ∈ e.calls, p t) ∧ ∀ n ∈ e.names, q n

variable {p : Transform → Prop} {q : String → Prop}

@[simp] theorem only_literal (value : Binary64) : Only p q (.literal value) := by
  simp [Only, calls, names]

@[simp] theorem only_name (text : String) : Only p q (.name text) ↔ q text := by
  simp [Only, calls, names]

theorem mem_callsList {t : Transform} {args : List Expr} :
    t ∈ callsList args ↔ ∃ e ∈ args, t ∈ e.calls := by
  induction args with
  | nil => simp [callsList]
  | cons e rest ih => simp [callsList, ih]

theorem mem_namesList {n : String} {args : List Expr} :
    n ∈ namesList args ↔ ∃ e ∈ args, n ∈ e.names := by
  induction args with
  | nil => simp [namesList]
  | cons e rest ih => simp [namesList, ih]

theorem only_list (args : List Expr) :
    ((∀ t ∈ callsList args, p t) ∧ ∀ n ∈ namesList args, q n) ↔ ∀ e ∈ args, Only p q e := by
  simp only [mem_callsList, mem_namesList, Only]
  constructor
  · rintro ⟨hcalls, hnames⟩ e he
    exact ⟨fun t ht => hcalls t ⟨e, he, ht⟩, fun n hn => hnames n ⟨e, he, hn⟩⟩
  · intro hall
    exact ⟨fun t ⟨e, he, ht⟩ => (hall e he).1 t ht, fun n ⟨e, he, hn⟩ => (hall e he).2 n hn⟩

@[simp] theorem only_call (t : Transform) (args : List Expr) :
    Only p q (.call t args) ↔ p t ∧ ∀ e ∈ args, Only p q e := by
  rw [← only_list]
  simp only [Only, calls, names, List.forall_mem_cons, and_assoc]

@[simp] theorem only_vector (type : Numeric) (parts : List Expr) :
    Only p q (.vector type parts) ↔ ∀ e ∈ parts, Only p q e :=
  only_list parts

@[simp] theorem only_swizzle (value : Expr) (getter : Swizzle) :
    Only p q (.swizzle value getter) ↔ Only p q value :=
  Iff.rfl

theorem literal_of_mem_padding {e : Expr} {width : Nat} {type : Numeric} {fill : Binary64}
    (he : e ∈ padding width type fill) : ∃ value, e = .literal value := by
  cases type with
  | vec4 =>
      simp only [padding, List.mem_append, List.mem_replicate, List.mem_singleton] at he
      rcases he with ⟨-, rfl⟩ | rfl
      · exact ⟨_, rfl⟩
      · exact ⟨_, rfl⟩
  | _ => exact ⟨fill, List.eq_of_mem_replicate he⟩

theorem only_padding (width : Nat) (type : Numeric) (fill : Binary64) :
    ∀ e ∈ padding width type fill, Only p q e := by
  intro e he
  obtain ⟨value, rfl⟩ := literal_of_mem_padding he
  exact only_literal value

theorem only_pad {e : Expr} (he : Only p q e) (source target : Numeric) (fill : Binary64) :
    Only p q (e.pad source target fill) := by
  unfold pad
  split
  · rw [only_vector, List.forall_mem_cons]
    exact ⟨he, only_padding _ _ _⟩
  · exact he

end Expr

/-! Fitting and composing add calls and names of the kinds they are given. -/

section Fields

variable {p : Transform → Prop} {q : String → Prop}

theorem Typed.only_widen {v : Typed} (hv : v.expr.Only p q) (target : ValueType) :
    (v.widen target).expr.Only p q := by
  cases target with
  | numeric target => exact Expr.only_pad hv _ _ _
  | texture => exact hv

theorem Typed.only_select {v : Typed} (hv : v.expr.Only p q) (getter : Swizzle) :
    (v.select getter).expr.Only p q :=
  hv

theorem Typed.only_narrow {v : Typed} (hv : v.expr.Only p q) (target : ValueType) :
    (v.narrow target).expr.Only p q := by
  cases target with
  | numeric target =>
      simp only [Typed.narrow]
      split
      · exact only_select hv _
      · exact hv
  | texture => exact hv

theorem Typed.only_fit {v : Typed} (hv : v.expr.Only p q) (getter : Option Swizzle)
    (target : ValueType) : (v.fit getter target).expr.Only p q := by
  cases getter with
  | some getter => exact only_widen (only_select hv getter) target
  | none => exact only_widen (only_narrow hv target) target

theorem Typed.only_finish {v : Typed} (hv : v.expr.Only p q) (getter : Option Swizzle)
    (target : ValueType) : (v.finish getter target).expr.Only p q := by
  cases getter with
  | some getter => exact only_widen (only_select hv getter) target
  | none => exact only_widen hv target

def Field.Only (p : Transform → Prop) (q : String → Prop) (f : Field) : Prop :=
  ∀ e : Expr, e.Only p q → (f.value e).Only p q

theorem Field.Only.compose {f : Field} (hf : f.Only p q) {t : Transform} (ht : p t)
    {operand : Expr → Expr} (hoperand : ∀ e, e.Only p q → (operand e).Only p q)
    {args : List Expr} (hargs : ∀ e ∈ args, e.Only p q) : (f.compose t operand args).Only p q := by
  intro e he
  have hcolor : (f.colorAt e).Only p q := Typed.only_widen (hf e he) _
  unfold Field.compose
  cases t.category with
  | source | vertex | raw =>
      simpa using ⟨ht, he, hargs⟩
  | coordinate =>
      apply hf
      simpa using ⟨ht, he, hargs⟩
  | color =>
      simpa using ⟨ht, hcolor, hargs⟩
  | combine =>
      simpa using ⟨ht, hcolor, hoperand e he, hargs⟩
  | combineCoordinate =>
      apply hf
      simpa using ⟨ht, he, hoperand e he, hargs⟩

end Fields

end ShaderChain
