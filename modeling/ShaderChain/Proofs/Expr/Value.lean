import ShaderChain.Compile.Field

/-! The values of expressions, under an interpretation of the names in them. -/

namespace ShaderChain

/-- The components of a number or vector, or else a texture. -/
inductive Value (σ : Type) where
  | vector (components : List σ)
  | sampler (texture : String)

namespace Value

def components : Value σ → List σ
  | .vector components => components
  | .sampler _ => []

/-- A single number fills all components. Other parts stand one behind the other. -/
def construct (width : Nat) : List (Value σ) → Value σ
  | [.vector [x]] => .vector (List.replicate width x)
  | parts => .vector (parts.flatMap components)

def append (v : Value σ) (more : List σ) : Value σ :=
  .vector (v.components ++ more)

def take (v : Value σ) (width : Nat) : Value σ :=
  .vector (v.components.take width)

def select (v : Value σ) (getter : Swizzle) : Value σ :=
  .vector (getter.components.filterMap fun i => v.components[i.val]?)

theorem construct_of_two (width : Nat) (first second : Value σ) (rest : List (Value σ)) :
    construct width (first :: second :: rest) =
      first.append ((second :: rest).flatMap components) := by
  simp [construct, append]

theorem select_leading (v : Value σ) (type : Numeric) :
    v.select (.leading type) = v.take type.width := by
  unfold select take
  generalize v.components = xs
  apply congrArg Value.vector
  cases type with
  | float => rcases xs with _ | ⟨a, _⟩ <;> rfl
  | vec2 => rcases xs with _ | ⟨a, _ | ⟨b, _⟩⟩ <;> rfl
  | vec3 => rcases xs with _ | ⟨a, _ | ⟨b, _ | ⟨c, _⟩⟩⟩ <;> rfl
  | vec4 => rcases xs with _ | ⟨a, _ | ⟨b, _ | ⟨c, _ | ⟨d, _⟩⟩⟩⟩ <;> rfl

end Value

theorem Swizzle.type_leading (type : Numeric) : (leading type).type = type := by
  cases type <;> rfl

def Numeric.ofGlsl? : String → Option Numeric
  | "float" => some .float
  | "vec2" => some .vec2
  | "vec3" => some .vec3
  | "vec4" => some .vec4
  | _ => none

theorem Numeric.ofGlsl?_glsl (type : Numeric) : ofGlsl? type.glsl = some type := by
  cases type <;> rfl

/-- What the literals, uniforms and functions of a program stand for. -/
structure Interpretation (σ : Type) where
  number : String → σ
  uniform : String → Value σ
  function : String → List (Value σ) → Value σ

namespace Interpretation

/-- The value of a call. The names of types construct vectors, all others are functions. -/
def call (I : Interpretation σ) (symbol : String) (args : List (Value σ)) : Value σ :=
  match Numeric.ofGlsl? symbol with
  | some type => .construct type.width args
  | none => I.function symbol args

def literal (I : Interpretation σ) (value : Binary64) : Value σ :=
  .vector [I.number value.literal]

def zero (I : Interpretation σ) : σ :=
  I.number "0.0"

end Interpretation

theorem literal_zero : (0.0 : Binary64).literal = "0.0" := by
  decide +kernel

namespace Expr

mutual

/-- The value of an expression where the base coordinate has the value `base`. -/
def eval (I : Interpretation σ) (base : Value σ) : Expr → Value σ
  | .literal value => I.literal value
  | .name text => if text = "st" then base else I.uniform text
  | .call t args => I.call t.symbol (evalList I base args)
  | .vector type parts => .construct type.width (evalList I base parts)
  | .swizzle value getter => (eval I base value).select getter

def evalList (I : Interpretation σ) (base : Value σ) : List Expr → List (Value σ)
  | [] => []
  | e :: rest => eval I base e :: evalList I base rest

end

section Padding

variable (I : Interpretation σ) (base : Value σ)

theorem evalList_eq_map (args : List Expr) : evalList I base args = args.map (eval I base) := by
  induction args with
  | nil => rfl
  | cons e rest ih => rw [evalList, ih, List.map_cons]

theorem eval_zero : eval I base (.literal 0.0) = .vector [I.zero] := by
  rw [eval, Interpretation.literal, literal_zero, Interpretation.zero]

theorem flatMap_components_zeros (count : Nat) :
    ((List.replicate count (Expr.literal 0.0)).map (eval I base)).flatMap Value.components =
      List.replicate count I.zero := by
  induction count with
  | zero => rfl
  | succ count ih =>
      rw [List.replicate_succ, List.map_cons, List.flatMap_cons, ih, eval_zero,
        List.replicate_succ]
      rfl

/-- Padding with zero is padding with as many zeros as components are missing. -/
theorem padding_zero (width : Nat) (type : Numeric) (hwidth : width < type.width) :
    padding width type 0.0 = List.replicate (type.width - width) (.literal 0.0) := by
  cases type with
  | float => rfl
  | vec2 => rfl
  | vec3 => rfl
  | vec4 =>
      simp only [Numeric.width] at hwidth
      simp only [padding, Numeric.width]
      rw [← List.replicate_succ', show 3 - width + 1 = 4 - width by omega]

theorem eval_pad (e : Expr) (source target : Numeric) :
    eval I base (e.pad source target 0.0) =
      if source.width < target.width then
        (eval I base e).append (List.replicate (target.width - source.width) I.zero)
      else eval I base e := by
  unfold pad
  split
  · rename_i hwider
    obtain ⟨count, hcount⟩ : ∃ count, target.width - source.width = count + 1 :=
      ⟨target.width - source.width - 1, by omega⟩
    rw [padding_zero _ _ hwider, eval, evalList_eq_map, List.map_cons, hcount]
    rw [List.replicate_succ, List.map_cons, Value.construct_of_two, ← List.map_cons,
      ← List.replicate_succ, flatMap_components_zeros]
  · rfl

end Padding

end Expr

structure Sized (σ : Type) where
  type : Numeric
  value : Value σ

namespace Sized

def widen (I : Interpretation σ) (v : Sized σ) : ValueType → Sized σ
  | .numeric target =>
      if v.type.width < target.width then
        ⟨target, v.value.append (List.replicate (target.width - v.type.width) I.zero)⟩
      else v
  | .texture => v

def select (v : Sized σ) (getter : Swizzle) : Sized σ :=
  ⟨getter.type, v.value.select getter⟩

def narrow (v : Sized σ) : ValueType → Sized σ
  | .numeric target => if target.width < v.type.width then ⟨target, v.value.take target.width⟩ else v
  | .texture => v

def color (I : Interpretation σ) (v : Sized σ) : Value σ :=
  (v.widen I (.numeric .vec4)).value

/-- A getter selects, and without one a value that is too wide is narrowed. What is missing then
are zeros. -/
def fit (I : Interpretation σ) (v : Sized σ) (getter : Option Swizzle) (target : ValueType) :
    Sized σ :=
  match getter with
  | some getter => (v.select getter).widen I target
  | none => (v.narrow target).widen I target

/-- As `fit`, but nothing is dropped without a getter. -/
def finish (I : Interpretation σ) (v : Sized σ) (getter : Option Swizzle) (target : ValueType) :
    Sized σ :=
  match getter with
  | some getter => (v.select getter).widen I target
  | none => v.widen I target

end Sized

/-! Every operation on typed expressions does to the expression what its namesake does to the
value. -/

namespace Typed

def eval (I : Interpretation σ) (base : Value σ) (v : Typed) : Sized σ :=
  ⟨v.type, v.expr.eval I base⟩

variable (I : Interpretation σ) (base : Value σ) (v : Typed)

theorem eval_widen (target : ValueType) :
    (v.widen target).eval I base = (v.eval I base).widen I target := by
  cases target with
  | texture => rfl
  | numeric target =>
      by_cases hwider : v.type.width < target.width
      · simp [eval, widen, Sized.widen, Expr.eval_pad, Numeric.wider, hwider]
      · simp [eval, widen, Sized.widen, Expr.eval_pad, Numeric.wider, hwider]

theorem eval_expr : v.expr.eval I base = (v.eval I base).value := rfl

theorem eval_color :
    (v.widen (.numeric .vec4)).expr.eval I base = (v.eval I base).color I :=
  congrArg Sized.value (eval_widen I base v (.numeric .vec4))

theorem eval_narrow (target : ValueType) :
    (v.narrow target).eval I base = (v.eval I base).narrow target := by
  cases target with
  | texture => rfl
  | numeric target =>
      by_cases hnarrower : target.width < v.type.width
      · simp [eval, narrow, select, Sized.narrow, Expr.eval, Value.select_leading,
          Swizzle.type_leading, hnarrower]
      · simp [eval, narrow, Sized.narrow, hnarrower]

theorem eval_fit (getter : Option Swizzle) (target : ValueType) :
    (v.fit getter target).eval I base = (v.eval I base).fit I getter target := by
  cases getter with
  | some getter => exact eval_widen I base _ target
  | none => rw [fit, eval_widen, eval_narrow]; rfl

theorem eval_finish (getter : Option Swizzle) (target : ValueType) :
    (v.finish getter target).eval I base = (v.eval I base).finish I getter target := by
  cases getter with
  | some getter => exact eval_widen I base _ target
  | none => exact eval_widen I base v target

end Typed

end ShaderChain
