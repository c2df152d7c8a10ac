import Mathlib.Algebra.GroupWithZero.Nat
import ShaderChain.Proofs.Expr.Occurrence
import ShaderChain.Proofs.Expr.Value

/-! The types of expressions, by the rules of GLSL. Nothing is converted: an argument has the type
that the function declares, and a constructor gets as many components as it makes. -/

namespace ShaderChain

/-- The types that the arguments of a call are declared with, the fixed ones of the category
first. -/
def Transform.argumentTypes (t : Transform) : List ValueType :=
  (t.category.signature.leading.map fun (type, _) => .numeric type) ++ t.params.map Param.type

abbrev Context :=
  String → Option ValueType

namespace Expr

mutual

inductive HasType (Γ : Context) : Expr → ValueType → Prop
  | literal (value : Binary64) : HasType Γ (.literal value) (.numeric .float)
  | name {text : String} {type : ValueType} (hname : Γ text = some type) :
      HasType Γ (.name text) type
  | call {t : Transform} {args : List Expr} (hargs : HaveTypes Γ args t.argumentTypes) :
      HasType Γ (.call t args) (.numeric t.category.signature.result)
  | vector {type : Numeric} {parts : List Expr} {types : List Numeric}
      (hparts : HaveTypes Γ parts (types.map .numeric))
      (hwidth : (types.map Numeric.width).sum = type.width) :
      HasType Γ (.vector type parts) (.numeric type)
  | swizzle {value : Expr} {source : Numeric} {getter : Swizzle}
      (hvalue : HasType Γ value (.numeric source)) (hvector : 2 ≤ source.width)
      (hcomponents : ∀ i ∈ getter.components, i.val < source.width) :
      HasType Γ (.swizzle value getter) (.numeric getter.type)

inductive HaveTypes (Γ : Context) : List Expr → List ValueType → Prop
  | nil : HaveTypes Γ [] []
  | cons {e : Expr} {type : ValueType} {rest : List Expr} {types : List ValueType}
      (hfirst : HasType Γ e type) (hrest : HaveTypes Γ rest types) :
      HaveTypes Γ (e :: rest) (type :: types)

end

variable {Γ : Context}

theorem length_padding {width : Nat} {type : Numeric} (hwidth : width < type.width)
    (fill : Binary64) : (padding width type fill).length = type.width - width := by
  cases type with
  | vec4 =>
      simp only [Numeric.width] at hwidth
      simp only [padding, List.length_append, List.length_replicate, List.length_singleton,
        Numeric.width]
      omega
  | _ => simp [padding]

theorem haveTypes_literals {es : List Expr} (hes : ∀ e ∈ es, ∃ value, e = .literal value) :
    HaveTypes Γ es ((List.replicate es.length Numeric.float).map .numeric) := by
  induction es with
  | nil => exact .nil
  | cons e rest ih =>
      rw [List.forall_mem_cons] at hes
      obtain ⟨⟨value, rfl⟩, hrest⟩ := hes
      exact .cons (.literal value) (ih hrest)

theorem HasType.pad {e : Expr} {source : Numeric} (he : HasType Γ e (.numeric source))
    (target : Numeric) (fill : Binary64) :
    HasType Γ (e.pad source target fill) (.numeric (source.wider target)) := by
  unfold Expr.pad Numeric.wider
  split
  · rename_i hwider
    have hparts : HaveTypes Γ (e :: padding source.width target fill)
        ((source :: List.replicate (padding source.width target fill).length .float).map .numeric) :=
      .cons he (haveTypes_literals fun _ => literal_of_mem_padding)
    refine .vector hparts ?_
    have hfloat : Numeric.float.width = 1 := rfl
    simp only [List.map_cons, List.map_replicate, List.sum_cons, List.sum_replicate_nat, hfloat,
      length_padding hwider]
    omega
  · exact he

theorem HaveTypes.append {first second : List Expr} {types more : List ValueType}
    (hfirst : HaveTypes Γ first types) (hsecond : HaveTypes Γ second more) :
    HaveTypes Γ (first ++ second) (types ++ more) := by
  induction first generalizing types with
  | nil => cases hfirst; exact hsecond
  | cons e rest ih =>
      cases hfirst with
      | cons he hrest => exact .cons he (ih hrest)

theorem HasType.apply {t : Transform} {signature : Signature}
    (hsignature : t.category.signature = signature) {leading args : List Expr}
    (hleading : HaveTypes Γ leading (signature.leading.map fun (type, _) => .numeric type))
    (hargs : HaveTypes Γ args (t.params.map Param.type)) :
    HasType Γ (.call t (leading ++ args)) (.numeric signature.result) := by
  subst hsignature
  exact .call (hleading.append hargs)

end Expr

/-! Padding and selecting keep expressions typed. -/

theorem Numeric.wider_of_le {a b : Numeric} (hle : a.width ≤ b.width) : a.wider b = b := by
  revert hle
  cases a <;> cases b <;> decide

theorem Swizzle.lt_of_mem_leading (type : Numeric) :
    ∀ i ∈ (Swizzle.leading type).components, i.val < type.width := by
  cases type <;> decide

/-- A getter, if there is one, names components that a value of the type has. -/
def Swizzle.Within (getter : Option Swizzle) (type : Numeric) : Prop :=
  ∀ g ∈ getter, ∀ i ∈ g.components, i.val < type.width

instance (getter : Option Swizzle) (type : Numeric) : Decidable (Swizzle.Within getter type) :=
  inferInstanceAs (Decidable (∀ g ∈ getter, ∀ i ∈ g.components, i.val < type.width))

namespace Typed

def WellTyped (Γ : Context) (v : Typed) : Prop :=
  v.expr.HasType Γ (.numeric v.type)

variable {Γ : Context} {v : Typed}

theorem WellTyped.widen (hv : v.WellTyped Γ) (target : ValueType) :
    (v.widen target).WellTyped Γ := by
  cases target with
  | numeric target => exact Expr.HasType.pad hv target 0.0
  | texture => exact hv

theorem WellTyped.select (hv : v.WellTyped Γ) {getter : Swizzle} (hvector : 2 ≤ v.type.width)
    (hcomponents : ∀ i ∈ getter.components, i.val < v.type.width) :
    (v.select getter).WellTyped Γ :=
  .swizzle hv hvector hcomponents

theorem WellTyped.narrow (hv : v.WellTyped Γ) (target : ValueType) :
    (v.narrow target).WellTyped Γ := by
  cases target with
  | texture => exact hv
  | numeric target =>
      simp only [Typed.narrow]
      split
      · rename_i hnarrower
        have hpos : 1 ≤ target.width := by cases target <;> decide
        refine hv.select (by omega) fun i hi => ?_
        exact Nat.lt_trans (Swizzle.lt_of_mem_leading target i hi) hnarrower
      · exact hv

theorem WellTyped.fit (hv : v.WellTyped Γ) {getter : Option Swizzle} (hvector : 2 ≤ v.type.width)
    (hwithin : Swizzle.Within getter v.type) (target : ValueType) :
    (v.fit getter target).WellTyped Γ := by
  cases getter with
  | some g => exact (hv.select hvector (hwithin g rfl)).widen target
  | none => exact (hv.narrow target).widen target

theorem WellTyped.finish (hv : v.WellTyped Γ) {getter : Option Swizzle}
    (hvector : 2 ≤ v.type.width) (hwithin : Swizzle.Within getter v.type) (target : ValueType) :
    (v.finish getter target).WellTyped Γ := by
  cases getter with
  | some g => exact (hv.select hvector (hwithin g rfl)).widen target
  | none => exact hv.widen target

/-- A value is fitted exactly, unless a getter leaves more than is asked for. -/
theorem type_fit (v : Typed) {getter : Option Swizzle} {type : Numeric}
    (hlength : ∀ g ∈ getter, g.components.length ≤ type.width) :
    (v.fit getter (.numeric type)).type = type := by
  cases getter with
  | some g =>
      have hwidth : g.type.width ≤ type.width := by
        rw [g.width_type]
        exact hlength g rfl
      exact Numeric.wider_of_le hwidth
  | none =>
      have hwidth : (v.narrow (.numeric type)).type.width ≤ type.width := by
        simp only [Typed.narrow]
        split
        · simp [Typed.select, Swizzle.type_leading]
        · omega
      exact Numeric.wider_of_le hwidth

theorem WellTyped.color (hv : v.WellTyped Γ) :
    (v.widen (.numeric .vec4)).expr.HasType Γ (.numeric .vec4) := by
  have hwidth : v.type.width ≤ Numeric.vec4.width := by cases v.type <;> decide
  have htype : (v.widen (.numeric .vec4)).type = .vec4 := Numeric.wider_of_le hwidth
  have hwiden := hv.widen (.numeric .vec4)
  rwa [WellTyped, htype] at hwiden

end Typed

/-! A field is typed if it turns coordinates into values of its type. -/

namespace Field

def WellTyped (Γ : Context) (f : Field) : Prop :=
  ∀ e, Expr.HasType Γ e (.numeric .vec2) → (f.typedAt e).WellTyped Γ

variable {Γ : Context} {f : Field}

theorem wellTyped_identity : Field.identity.WellTyped Γ :=
  fun _ he => he

theorem WellTyped.compose (hf : f.WellTyped Γ) {t : Transform} {operand : Expr → Expr}
    (hoperand : t.category.hasOperand → ∀ e, Expr.HasType Γ e (.numeric .vec2) →
      (operand e).HasType Γ (.numeric .vec4))
    {args : List Expr} (hargs : Expr.HaveTypes Γ args (t.params.map Param.type)) :
    (f.compose t operand args).WellTyped Γ := by
  intro e he
  have hcolor : (f.colorAt e).HasType Γ (.numeric .vec4) := (hf e he).color
  unfold Field.compose
  cases hcategory : t.category with
  | source | vertex | raw =>
      have hcall := Expr.HasType.apply (congrArg Category.signature hcategory) (.cons he .nil) hargs
      exact hcall
  | coordinate =>
      have hcall := Expr.HasType.apply (congrArg Category.signature hcategory) (.cons he .nil) hargs
      exact hf _ hcall
  | color =>
      have hcall := Expr.HasType.apply (congrArg Category.signature hcategory) (.cons hcolor .nil)
        hargs
      exact hcall
  | combine =>
      have hsecond := hoperand (by rw [hcategory]; rfl) e he
      have hcall := Expr.HasType.apply (congrArg Category.signature hcategory)
        (.cons hcolor (.cons hsecond .nil)) hargs
      exact hcall
  | combineCoordinate =>
      have hsecond := hoperand (by rw [hcategory]; rfl) e he
      have hcall := Expr.HasType.apply (congrArg Category.signature hcategory)
        (.cons he (.cons hsecond .nil)) hargs
      exact hf _ hcall

end Field

end ShaderChain
