import ShaderChain.Proofs.Expr.Typing

/-! What occurs in an expression. Whatever occurs in a typed expression is typed itself. -/

namespace ShaderChain

namespace Expr

inductive OccursIn (s : Expr) : Expr → Prop
  | self : OccursIn s s
  | call {t : Transform} {args : List Expr} {e : Expr} (he : e ∈ args) (hs : OccursIn s e) :
      OccursIn s (.call t args)
  | vector {type : Numeric} {parts : List Expr} {e : Expr} (he : e ∈ parts) (hs : OccursIn s e) :
      OccursIn s (.vector type parts)
  | swizzle {value : Expr} {getter : Swizzle} (hs : OccursIn s value) :
      OccursIn s (.swizzle value getter)

theorem OccursIn.trans {s e whole : Expr} (hs : s.OccursIn e) (he : e.OccursIn whole) :
    s.OccursIn whole := by
  induction he with
  | self => exact hs
  | call harg _ ih => exact .call harg ih
  | vector hpart _ ih => exact .vector hpart ih
  | swizzle _ ih => exact .swizzle ih

variable {Γ : Context}

theorem HaveTypes.getElem? {es : List Expr} {types : List ValueType} (hes : HaveTypes Γ es types)
    {i : Nat} {e : Expr} (he : es[i]? = some e) :
    ∃ type, types[i]? = some type ∧ HasType Γ e type := by
  induction es generalizing types i with
  | nil => simp at he
  | cons first rest ih =>
      cases hes with
      | cons hfirst hrest =>
          cases i with
          | zero =>
              cases he
              exact ⟨_, rfl, hfirst⟩
          | succ i => exact ih hrest he

theorem HaveTypes.hasType_of_mem {es : List Expr} {types : List ValueType}
    (hes : HaveTypes Γ es types) {e : Expr} (he : e ∈ es) : ∃ type, HasType Γ e type := by
  obtain ⟨i, hi⟩ := List.mem_iff_getElem?.mp he
  obtain ⟨type, -, htype⟩ := hes.getElem? hi
  exact ⟨type, htype⟩

theorem HasType.subterm {s e : Expr} {type : ValueType} (he : HasType Γ e type)
    (hs : s.OccursIn e) : ∃ own, HasType Γ s own := by
  induction hs generalizing type with
  | self => exact ⟨type, he⟩
  | call harg _ ih =>
      cases he with
      | call hargs =>
          obtain ⟨own, hown⟩ := hargs.hasType_of_mem harg
          exact ih hown
  | vector hpart _ ih =>
      cases he with
      | vector hparts _ =>
          obtain ⟨own, hown⟩ := hparts.hasType_of_mem hpart
          exact ih hown
  | swizzle _ ih =>
      cases he with
      | swizzle hvalue _ _ => exact ih hvalue

/-- The only type that an expression may have, by its outermost part. -/
def apparent (Γ : Context) : Expr → Option ValueType
  | .literal _ => some (.numeric .float)
  | .name text => Γ text
  | .call t _ => some (.numeric t.category.signature.result)
  | .vector type _ => some (.numeric type)
  | .swizzle _ getter => some (.numeric getter.type)

theorem HasType.apparent_eq {e : Expr} {type : ValueType} (he : HasType Γ e type) :
    e.apparent Γ = some type := by
  cases he with
  | name hname => exact hname
  | _ => rfl

/-! Padding neither hides an expression nor adds a call. -/

theorem occursIn_pad (e : Expr) (source target : Numeric) (fill : Binary64) :
    e.OccursIn (e.pad source target fill) := by
  unfold pad
  split
  · exact .vector List.mem_cons_self .self
  · exact .self

theorem apparent_pad {e : Expr} {source : Numeric} (he : e.apparent Γ = some (.numeric source))
    (target : Numeric) (fill : Binary64) :
    (e.pad source target fill).apparent Γ = some (.numeric (source.wider target)) := by
  unfold pad Numeric.wider
  split
  · rfl
  · exact he

theorem OccursIn.call_of_pad {t : Transform} {args : List Expr} {e : Expr} {source target : Numeric}
    {fill : Binary64} (hcall : (Expr.call t args).OccursIn (e.pad source target fill)) :
    (Expr.call t args).OccursIn e := by
  unfold pad at hcall
  split at hcall
  · cases hcall with
    | vector hpart hs =>
        rcases List.mem_cons.mp hpart with rfl | hpart
        · exact hs
        · obtain ⟨value, rfl⟩ := literal_of_mem_padding hpart
          cases hs
  · exact hcall

end Expr

theorem Numeric.le_of_wider_eq {a b : Numeric} (hwider : a.wider b = b) : a.width ≤ b.width := by
  revert hwider
  cases a <;> cases b <;> decide

namespace Typed

variable {Γ : Context}

theorem occursIn_widen (v : Typed) (target : ValueType) :
    v.expr.OccursIn (v.widen target).expr := by
  cases target with
  | numeric target => exact Expr.occursIn_pad _ _ _ _
  | texture => exact .self

theorem occursIn_fit (v : Typed) (getter : Option Swizzle) (target : ValueType) :
    v.expr.OccursIn (v.fit getter target).expr := by
  cases getter with
  | some g => exact .trans (.swizzle .self) (occursIn_widen (v.select g) target)
  | none =>
      refine .trans ?_ (occursIn_widen (v.narrow target) target)
      cases target with
      | texture => exact .self
      | numeric target =>
          simp only [narrow]
          split
          · exact .swizzle .self
          · exact .self

theorem call_of_widen {t : Transform} {args : List Expr} {v : Typed} {target : ValueType}
    (hcall : (Expr.call t args).OccursIn (v.widen target).expr) :
    (Expr.call t args).OccursIn v.expr := by
  cases target with
  | numeric target => exact hcall.call_of_pad
  | texture => exact hcall

theorem call_of_finish {t : Transform} {args : List Expr} {v : Typed} {getter : Option Swizzle}
    {target : ValueType} (hcall : (Expr.call t args).OccursIn (v.finish getter target).expr) :
    (Expr.call t args).OccursIn v.expr := by
  cases getter with
  | none => exact call_of_widen hcall
  | some g =>
      cases call_of_widen hcall with
      | swizzle hs => exact hs

theorem occursIn_finish (v : Typed) (getter : Option Swizzle) (target : ValueType) :
    v.expr.OccursIn (v.finish getter target).expr := by
  cases getter with
  | some g => exact .trans (.swizzle .self) (occursIn_widen (v.select g) target)
  | none => exact occursIn_widen v target

theorem apparent_widen {v : Typed} (hv : v.expr.apparent Γ = some (.numeric v.type))
    (target : ValueType) :
    (v.widen target).expr.apparent Γ = some (.numeric (v.widen target).type) := by
  cases target with
  | numeric target => exact Expr.apparent_pad hv target _
  | texture => exact hv

theorem widen_widen (v : Typed) (target : ValueType) :
    (v.widen target).widen target = v.widen target := by
  cases target with
  | texture => rfl
  | numeric target =>
      have hwider : (v.type.wider target).wider target = v.type.wider target := by
        cases v.type <;> cases target <;> rfl
      have hwidth : ¬(v.type.wider target).width < target.width := by
        cases v.type <;> cases target <;> decide
      simp only [widen, hwider]
      exact congrArg (Typed.mk (v.type.wider target)) (if_neg hwidth)

theorem widen_fit (v : Typed) (getter : Option Swizzle) (target : ValueType) :
    (v.fit getter target).widen target = v.fit getter target := by
  cases getter <;> exact widen_widen _ target

end Typed

/-! What is shown by a field at every coordinate. -/

namespace Field

variable {Γ : Context} {f : Field}

def Uses (f : Field) : Prop :=
  ∀ q : Expr, q.OccursIn (f.value q)

theorem occursIn_colorAt (f : Field) (q : Expr) : (f.value q).OccursIn (f.colorAt q) :=
  Typed.occursIn_widen (f.typedAt q) _

theorem Uses.compose (hf : f.Uses) (t : Transform) (operand : Expr → Expr) (args : List Expr) :
    (f.compose t operand args).Uses := by
  intro q
  unfold Field.compose
  cases t.category with
  | source | vertex | raw => exact .call List.mem_cons_self .self
  | coordinate | combineCoordinate => exact .trans (.call List.mem_cons_self .self) (hf _)
  | color | combine =>
      exact .call List.mem_cons_self ((hf q).trans (f.occursIn_colorAt q))

/-- The value has the type of the field, as far as its outermost part tells. -/
def Apparent (Γ : Context) (f : Field) : Prop :=
  ∀ q : Expr, q.apparent Γ = some (.numeric .vec2) →
    (f.value q).apparent Γ = some (.numeric f.type)

theorem apparent_identity : Field.identity.Apparent Γ :=
  fun _ hq => hq

theorem Apparent.compose (hf : f.Apparent Γ) (t : Transform) (operand : Expr → Expr)
    (args : List Expr) : (f.compose t operand args).Apparent Γ := by
  intro q hq
  unfold Field.compose
  cases hcategory : t.category with
  | coordinate | combineCoordinate =>
      exact hf _ (by simp [Expr.apparent, hcategory, Category.signature])
  | _ => simp [Expr.apparent, hcategory, Category.signature]

/-- Something with the property occurs in the value, wherever it is taken. -/
def Shows (Γ : Context) (f : Field) (P : Expr → Prop) : Prop :=
  ∀ q : Expr, q.apparent Γ = some (.numeric .vec2) → ∃ s, P s ∧ s.OccursIn (f.value q)

theorem Shows.compose {P : Expr → Prop} (hf : f.Shows Γ P) {t : Transform}
    (hresets : ¬t.category.resets) (operand : Expr → Expr) (args : List Expr) :
    (f.compose t operand args).Shows Γ P := by
  intro q hq
  unfold Field.compose
  cases hcategory : t.category with
  | source | vertex | raw => simp [hcategory, Category.resets] at hresets
  | coordinate | combineCoordinate =>
      exact hf _ (by simp [Expr.apparent, hcategory, Category.signature])
  | color | combine =>
      obtain ⟨s, hs, hoccurs⟩ := hf q hq
      exact ⟨s, hs, .call List.mem_cons_self (hoccurs.trans (f.occursIn_colorAt q))⟩

end Field

end ShaderChain
