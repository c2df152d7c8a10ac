import ShaderChain.Proofs.Expr.Value
import ShaderChain.Proofs.Resolve.Follows

/-! What a chain means, independent of the expression it is compiled to: a value at every
coordinate. The nodes act on it from the first to the last. -/

namespace ShaderChain

/-- A value at every coordinate, with its type. -/
structure Meaning (σ : Type) where
  type : Numeric
  value : Value σ → Value σ

namespace Meaning

def identity : Meaning σ :=
  ⟨.vec2, id⟩

def sizedAt (m : Meaning σ) (q : Value σ) : Sized σ :=
  ⟨m.type, m.value q⟩

def colorAt (I : Interpretation σ) (m : Meaning σ) (q : Value σ) : Value σ :=
  (m.sizedAt q).color I

/-- The type that the node before the given ones is to give. -/
def expected (registry : Registry) (target : ValueType) : List Node → ValueType
  | [] => target
  | next :: _ =>
      match registry.find? next.name with
      | some t => (t.category.consumed?.map ValueType.numeric).getD target
      | none => target

def default (I : Interpretation σ) (p : Param) : Value σ :=
  ((Sized.mk .float (I.literal (p.kind.default?.getD 0.0))).widen I p.type).value

/-- Lets a transform act on `prior`. Sources replace it, transforms of the coordinate change where
it is taken, and transforms of the color change what it gives. -/
def act (I : Interpretation σ) (t : Transform) (prior : Meaning σ) (operand : Value σ → Value σ)
    (args : List (Value σ)) : Meaning σ :=
  match t.category with
  | .source | .vertex | .raw => ⟨.vec4, fun q => I.call t.symbol (q :: args)⟩
  | .coordinate => ⟨prior.type, fun q => prior.value (I.call t.symbol (q :: args))⟩
  | .color => ⟨.vec4, fun q => I.call t.symbol (prior.colorAt I q :: args)⟩
  | .combine => ⟨.vec4, fun q => I.call t.symbol (prior.colorAt I q :: operand q :: args)⟩
  | .combineCoordinate =>
      ⟨prior.type, fun q => prior.value (I.call t.symbol (q :: operand q :: args))⟩

mutual

/-- Lets nodes act on `prior` one after the other. Operands are taken at the coordinate of their
node, and chains that are bound to parameters always at `base`. -/
def ofNodes (I : Interpretation σ) (registry : Registry) (base : Value σ) (target : ValueType)
    (path : List Nat) (position : Nat) (prior : Meaning σ) : List Node → Meaning σ
  | [] => prior
  | node :: rest =>
      match registry.find? node.name with
      | none => ofNodes I registry base target path (position + 1) prior rest
      | some t =>
          let s : Site := ⟨t.name, position, path ++ [position]⟩
          let next := ofNode I registry base t s (expected registry target rest) prior node
          ofNodes I registry base target path (position + 1) next rest

def ofNode (I : Interpretation σ) (registry : Registry) (base : Value σ) (t : Transform)
    (s : Site) (expected : ValueType) (prior : Meaning σ) : Node → Meaning σ
  | ⟨_, _, [], _⟩ => prior.act I t id (t.params.map (default I))
  | ⟨_, _, b :: rest, _⟩ =>
      match t.category with
      | .combine =>
          prior.act I t (fun q => (boundAt I registry base s 0 (.numeric .vec4) b q).color I)
            (arguments I registry base s 1 t.params rest)
      | .combineCoordinate =>
          prior.act I t (fun q => (boundAt I registry base s 0 expected b q).color I)
            (arguments I registry base s 1 t.params rest)
      | _ => prior.act I t id (arguments I registry base s 0 t.params (b :: rest))

def arguments (I : Interpretation σ) (registry : Registry) (base : Value σ) (s : Site) (arg : Nat)
    (params : List Param) : List Binding → List (Value σ)
  | [] => params.map (default I)
  | b :: rest =>
      match params with
      | [] => []
      | p :: params =>
          (boundAt I registry base s arg p.type b base).value ::
            arguments I registry base s (arg + 1) params rest

/-- What is bound to a slot of the target type, at a coordinate. -/
def boundAt (I : Interpretation σ) (registry : Registry) (base : Value σ) (s : Site) (arg : Nat)
    (target : ValueType) : Binding → Value σ → Sized σ
  | .literal value, _ => (Sized.mk .float (I.literal value)).widen I target
  | .signal _, _ => (Sized.mk .float (I.uniform (s.uniformName arg))).widen I target
  | .texture _, _ => (Sized.mk .float (I.uniform (s.uniformName arg))).widen I target
  | .chain ⟨_, _, ns, getter⟩, q =>
      ((ofNodes I registry base target (s.path ++ [arg]) 0 identity ns).sizedAt q).fit I getter target

end

theorem ofNode_of_no_operand (I : Interpretation σ) (registry : Registry) (base : Value σ)
    {t : Transform} (hoperand : ¬t.category.hasOperand) (s : Site) (expected : ValueType)
    (prior : Meaning σ) (node : Node) :
    ofNode I registry base t s expected prior node =
      prior.act I t id (arguments I registry base s 0 t.params node.bindings) := by
  obtain ⟨name, category, bindings, chain⟩ := node
  cases bindings with
  | nil => rfl
  | cons b rest =>
      cases hcategory : t.category with
      | combine | combineCoordinate => exact absurd (by rw [hcategory]; rfl) hoperand
      | _ => simp only [ofNode, hcategory]

end Meaning

end ShaderChain
