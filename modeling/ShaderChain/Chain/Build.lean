import ShaderChain.Chain.Basic

/-! The construction of chains, one transform at a time. -/

namespace ShaderChain

inductive ChainError where
  | unknownOperation (name : String)
  | notARoot (name : String) (category : Category)
  | invalidPosition (name : String) (category : Category)
      (predecessor : String) (predecessorCategory : Category) (position : Nat)
  | tooManyArguments (name : String) (expected got : Nat)
  | invalidSwizzle (text : String)
deriving DecidableEq

def ChainError.message : ChainError → String
  | .unknownOperation name => s!"unknown transform '{name}'"
  | .notARoot name category => s!"'{name}' ({category.name}) cannot start a chain"
  | .invalidPosition name category predecessor predecessorCategory position =>
      s!"'{name}' ({category.name}) can only start a chain; it cannot follow " ++
        s!"'{predecessor}' ({predecessorCategory.name}) at position {position}"
  | .tooManyArguments name expected got =>
      s!"'{name}' takes at most {expected} argument(s), got {got}"
  | .invalidSwizzle text => s!"invalid swizzle '{text}' (expected 1-4 of xyzw or rgba)"

/-- Numbers that are given out one after the other and never twice. They are taken as unbounded,
where counters of 64 bits would start again after `2 ^ 64` of them. -/
structure Counters where
  chain : ChainId := 1
  group : Nat := 0
deriving DecidableEq

/-- Computations that take such numbers. A failure does not give them back. -/
abbrev Fresh (ε : Type) :=
  Update ε Counters

def Fresh.chainId : Fresh ε ChainId :=
  modifyGet fun counters => (counters.chain, { counters with chain := counters.chain + 1 })

namespace Chain

/-! What is checked before a chain is changed. -/

def lookup (registry : Registry) (name : String) : Except ChainError Transform :=
  match registry.find? name with
  | some t => .ok t
  | none => .error (.unknownOperation name)

/-- A transform that can only start a chain follows no other. -/
def checkPosition (c : Chain) (t : Transform) (name : String) : Except ChainError Unit :=
  if t.category.isRootOnly then
    match c.nodes.getLast? with
    | some last =>
        .error (.invalidPosition name t.category last.name last.category c.nodes.length)
    | none => .ok ()
  else .ok ()

def checkCount (t : Transform) (name : String) (args : List Binding) : Except ChainError Unit :=
  if t.slots.length < args.length then
    .error (.tooManyArguments name t.slots.length args.length)
  else .ok ()

def parseGetter (getter : String) : Except ChainError Swizzle :=
  match Swizzle.parse? getter with
  | some swizzle => .ok swizzle
  | none => .error (.invalidSwizzle getter)

/-- Chains are changed in place. -/
abbrev Edit :=
  Update ChainError Chain

namespace Edit

/-- Appends a transform if the arguments are not too many. -/
def push (t : Transform) (name : String) (args : List Binding) : Edit Unit := do
  checkCount t name args
  modify fun c => { c with nodes := c.nodes ++ [⟨name, t.category, args, c.id⟩] }

/-- Appends a transform of the chain's own registry. -/
def andThen (name : String) (args : List Binding) : Edit Unit := do
  let c ← get
  let t ← lookup c.registry name
  c.checkPosition t name
  push t name args

/-- Sets the getter. -/
def select (getter : String) : Edit Unit := do
  let swizzle ← parseGetter getter
  modify fun c => { c with getter := some swizzle }

end Edit

/-! What comes of the changes if they do not fail. -/

def push (c : Chain) (t : Transform) (name : String) (args : List Binding) :
    Except ChainError Chain :=
  (Edit.push t name args).on c

/-- Starts a chain. A number is taken for it once the name is known to be that of a root. -/
def root (registry : Registry) (name : String) (args : List Binding) : Fresh ChainError Chain := do
  let t ← lookup registry name
  if !t.category.isRoot then throw (.notARoot name t.category)
  let id ← Fresh.chainId
  push ⟨id, registry, [], none⟩ t name args

def andThen (c : Chain) (name : String) (args : List Binding) : Except ChainError Chain :=
  (Edit.andThen name args).on c

def select (c : Chain) (getter : String) : Except ChainError Chain :=
  (Edit.select getter).on c

end Chain

end ShaderChain
