import ShaderChain.Chain.Build

/-! Outlines: chains as documents write them down, by names and plain numbers. -/

namespace ShaderChain

namespace Outline

/-- A transform by its name, with its arguments. -/
structure OpOf (α : Type) where
  op : String
  args : List α

structure ChainOf (α : Type) where
  ops : List (OpOf α)
  getter : Option String

inductive Arg where
  | number (value : Binary64)
  /-- A uniform whose value does not change. -/
  | uniform (value : Binary64)
  | texture (name : String)
  | chain (outline : ChainOf Arg)

abbrev Op :=
  OpOf Arg

end Outline

abbrev Outline :=
  Outline.ChainOf Outline.Arg

/-- Why an outline is no chain, with the way to the place where it fails. -/
inductive OutlineError where
  | noOps
  | chain (cause : ChainError)
  | inOp (index : Nat) (op : String) (cause : OutlineError)
  | inArgument (index : Nat) (cause : OutlineError)
deriving DecidableEq

def OutlineError.message : OutlineError → String
  | .noOps => "chain has no ops"
  | .chain cause => cause.message
  | .inOp index op cause => s!"op #{index} '{op}': {cause.message}"
  | .inArgument index cause => s!"nested chain in argument {index}: {cause.message}"

/-- Computations that build chains from outlines. -/
abbrev Build :=
  Fresh OutlineError

def Build.ofExcept (x : Except ChainError α) : Build α :=
  liftM (x.mapError OutlineError.chain)

namespace Outline

def setGetter (c : Chain) : Option String → Build Chain
  | none => return c
  | some getter => .ofExcept (c.select getter)

/-! The chains in the arguments of an op are built before the op itself, and the getter of a
chain is looked at last. -/

mutual

def build (registry : Registry) : Outline → Build Chain
  | ⟨[], _⟩ => throw .noOps
  | ⟨⟨op, args⟩ :: rest, getter⟩ => do
      let args ← (bindings registry 0 args).adapt (.inOp 0 op)
      let first ← (Chain.root registry op args).adapt (.inOp 0 op ∘ .chain)
      let c ← appendOps registry first 1 rest
      setGetter c getter

def appendOps (registry : Registry) (c : Chain) (index : Nat) : List Op → Build Chain
  | [] => return c
  | ⟨op, args⟩ :: rest => do
      let args ← (bindings registry 0 args).adapt (.inOp index op)
      let next ← (Build.ofExcept (c.andThen op args)).adapt (.inOp index op)
      appendOps registry next (index + 1) rest

def bindings (registry : Registry) (index : Nat) : List Arg → Build (List Binding)
  | [] => return []
  | arg :: rest => do
      let b ← binding registry index arg
      return b :: (← bindings registry (index + 1) rest)

def binding (registry : Registry) (index : Nat) : Arg → Build Binding
  | .number value => return .literal value
  | .uniform value => return .signal (.constant value)
  | .texture name => return .texture name
  | .chain outline => return .chain (← (build registry outline).adapt (.inArgument index))

end

end Outline

end ShaderChain
