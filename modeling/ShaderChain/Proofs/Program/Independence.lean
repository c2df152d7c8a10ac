import ShaderChain.Proofs.Program.Stages

/-! Programs depend on the transforms that their chains name. What else there is in a registry makes
no difference, and neither does the registry that a chain was built in. -/

namespace ShaderChain

namespace Chain

/-! A chain without what it has kept of the registry it was built in: the registry itself, and the
categories of its nodes. -/

mutual

def bare : Chain → Chain
  | ⟨id, _, ns, getter⟩ => ⟨id, .empty, bareNodes ns, getter⟩

def bareNodes : List Node → List Node
  | [] => []
  | ⟨name, _, bindings, chain⟩ :: rest =>
      ⟨name, .source, bareBindings bindings, chain⟩ :: bareNodes rest

def bareBindings : List Binding → List Binding
  | [] => []
  | b :: rest => bareBinding b :: bareBindings rest

def bareBinding : Binding → Binding
  | .literal value => .literal value
  | .signal signal => .signal signal
  | .texture name => .texture name
  | .chain c => .chain (bare c)

end

@[simp] theorem length_bareBindings (bindings : List Binding) :
    (bareBindings bindings).length = bindings.length := by
  induction bindings with
  | nil => rfl
  | cons b rest ih => simp [bareBindings, ih]

/-- Two registries have the same transforms for the names in a chain and in all chains within it. -/
def Agree (r₁ r₂ : Registry) (c : Chain) : Prop :=
  ∀ d, c.Contains d → ∀ node ∈ d.nodes, r₁.find? node.name = r₂.find? node.name

end Chain

namespace Resolve

open Chain

variable {r₁ r₂ : Registry}

def NestedBare (r₁ r₂ : Registry) (c : Chain) : Prop :=
  ∀ path, nested r₁ path c = nested r₂ path (bare c)

theorem operand_bare (s : Site) (b : Binding)
    (hnested : ∀ c, b = .chain c → NestedBare r₁ r₂ c) :
    operand r₁ s b = operand r₂ s (bareBinding b) := by
  cases b with
  | chain c => exact hnested c rfl (s.path ++ [0])
  | _ => rfl

theorem argument_bare (s : Site) (arg : Nat) (p : Param) (b : Binding)
    (hnested : ∀ c, b = .chain c → NestedBare r₁ r₂ c) :
    argument r₁ s arg p b = argument r₂ s arg p (bareBinding b) := by
  cases b with
  | chain c =>
      simp only [argument, bareBinding]
      rw [hnested c rfl (s.path ++ [arg])]
      rfl
  | _ => rfl

theorem arguments_bare (s : Site) (arg : Nat) (params : List Param) (bindings : List Binding)
    (hnested : ∀ c, Binding.chain c ∈ bindings → NestedBare r₁ r₂ c) :
    arguments r₁ s arg params bindings = arguments r₂ s arg params (bareBindings bindings) := by
  induction bindings generalizing arg params with
  | nil => rfl
  | cons b rest ih =>
      cases params with
      | nil => rfl
      | cons p params =>
          have hfirst := argument_bare s arg p b fun c hc => hnested c (by simp [hc])
          have hrest := ih (arg + 1) params fun c hc => hnested c (by simp [hc])
          simp only [arguments, bareBindings, hfirst, hrest]

theorem layer_bare (t : Transform) (s : Site) (name : String) (category other : Category)
    (bindings : List Binding) (chain : ChainId)
    (hnested : ∀ c, Binding.chain c ∈ bindings → NestedBare r₁ r₂ c) :
    layer r₁ t s ⟨name, category, bindings, chain⟩ =
      layer r₂ t s ⟨name, other, bareBindings bindings, chain⟩ := by
  cases bindings with
  | nil => rfl
  | cons b rest =>
      have hoperand := operand_bare s b fun c hc => hnested c (by simp [hc])
      have hrest := arguments_bare s 1 t.params rest fun c hc => hnested c (by simp [hc])
      have hall := arguments_bare s 0 t.params (b :: rest) hnested
      simp only [bareBindings] at hall
      simp only [layer, bareBindings, hoperand, hrest, hall]

theorem nodes_bare (stage : Stage) (path : List Nat) (predecessor : String) (position : Nat)
    (ns : List Node)
    (hnested : ∀ node ∈ ns, ∀ c, Binding.chain c ∈ node.bindings → NestedBare r₁ r₂ c)
    (hfind : ∀ node ∈ ns, r₁.find? node.name = r₂.find? node.name) :
    nodes r₁ stage path predecessor position ns =
      nodes r₂ stage path predecessor position (bareNodes ns) := by
  induction ns generalizing predecessor position with
  | nil => rfl
  | cons node rest ih =>
      rw [List.forall_mem_cons] at hnested hfind
      obtain ⟨name, category, bindings, chain⟩ := node
      have hrest (predecessor : String) := ih predecessor (position + 1) hnested.2 hfind.2
      have hlayer (t : Transform) (s : Site) :=
        layer_bare t s name category .source bindings chain hnested.1
      simp only [nodes, bareNodes, lookup, hfind.1, checkNode, length_bareBindings, hrest, hlayer]

theorem nested_bare (c : Chain) (hagree : Agree r₁ r₂ c) : NestedBare r₁ r₂ c := by
  induction c using Chain.nestedInduction with
  | step c ih =>
      intro path
      have hnodes := nodes_bare .fragment path "" 0 c.nodes
        (fun node hnode d hd => ih node hnode d hd fun e he => hagree e (.of_nested hnode hd he))
        (hagree c .self)
      obtain ⟨id, own, ns, getter⟩ := c
      simp only [nested, bare]
      rw [hnodes]

end Resolve

namespace Chain

variable {r₁ r₂ : Registry} {c d : Chain}

theorem resolve_bare (hagree : Agree r₁ r₂ c) (stage : Stage) :
    c.resolve r₁ stage = c.bare.resolve r₂ stage := by
  have hnodes := Resolve.nodes_bare stage [] "" 0 c.nodes
    (fun node hnode d hd => Resolve.nested_bare d fun e he => hagree e (.of_nested hnode hd he))
    (hagree c .self)
  cases c
  simp only [resolve, bare, hnodes]

theorem checkNames_bare (position : Nat) (ns : List Node)
    (hfind : ∀ node ∈ ns, r₁.find? node.name = r₂.find? node.name) :
    checkNames r₁ position ns = checkNames r₂ position (bareNodes ns) := by
  induction ns generalizing position with
  | nil => rfl
  | cons node rest ih =>
      rw [List.forall_mem_cons] at hfind
      obtain ⟨name, category, bindings, chain⟩ := node
      simp only [checkNames, bareNodes, Resolve.lookup, hfind.1, ih (position + 1) hfind.2]

theorem compile_bare (hagree : Agree r₁ r₂ c) (target : ValueType) :
    c.compile r₁ target = c.bare.compile r₂ target := by
  have hresolve := resolve_bare hagree .fragment
  cases c
  simp only [compile, bare] at hresolve ⊢
  rw [hresolve]

theorem compileVertex_bare (hagree : Agree r₁ r₂ c) :
    c.compileVertex r₁ = c.bare.compileVertex r₂ := by
  have hresolve := resolve_bare hagree .vertex
  have hnames := checkNames_bare 0 c.nodes (hagree c .self)
  cases c
  simp only [compileVertex, bare] at hresolve hnames ⊢
  rw [hresolve, hnames]

end Chain

namespace Program

/-- All of a program but the number that tells it apart. -/
def contents (p : Program) : String × String × List Uniform :=
  (p.fragment, p.vertex, p.uniforms)

/-- A chain gives the same in one registry as another chain does in another registry. -/
structure Same (r₁ : Registry) (c : Chain) (r₂ : Registry) (d : Chain) : Prop where
  compile : ∀ target, c.compile r₁ target = d.compile r₂ target
  compileVertex : c.compileVertex r₁ = d.compileVertex r₂
  build : ∀ options (k₁ k₂ : Counters),
    ((build r₁ c options).run k₁).1.map contents = ((build r₂ d options).run k₂).1.map contents

theorem Same.of_compile {r₁ r₂ : Registry} {c d : Chain}
    (hcompile : ∀ target, c.compile r₁ target = d.compile r₂ target)
    (hvertex : c.compileVertex r₁ = d.compileVertex r₂) : Same r₁ c r₂ d := by
  refine ⟨hcompile, hvertex, fun options k₁ k₂ => ?_⟩
  have hsecond := hcompile (.numeric .vec4)
  cases hfirst : c.compile r₁ (.numeric .vec4) with
  | error e =>
      rw [run_build_error hfirst, run_build_error (hsecond.symm.trans hfirst)]
  | ok fragment =>
      obtain ⟨vertex, hout⟩ := Chain.exists_compileVertex hfirst
      rw [run_build_ok hfirst hout,
        run_build_ok (hsecond.symm.trans hfirst) (hvertex.symm.trans hout)]
      rfl

theorem same_of_agree {r₁ r₂ : Registry} {c d : Chain} (hbare : c.bare = d.bare)
    (hagree : c.Agree r₁ r₂) : Same r₁ c r₂ d := by
  have hown : d.Agree r₂ r₂ := fun _ _ _ _ => rfl
  refine .of_compile (fun target => ?_) ?_
  · rw [Chain.compile_bare hagree, hbare, ← Chain.compile_bare hown]
  · rw [Chain.compileVertex_bare hagree, hbare, ← Chain.compileVertex_bare hown]

/-- What a chain is compiled to and the program that is built from it depend on the transforms that
its names stand for, in it and in the chains within it. They do not change if others are
registered. -/
theorem build_depends_on_names {r₁ r₂ : Registry} {c d : Chain} (hbare : c.bare = d.bare)
    (hagree : c.Agree r₁ r₂) :
    Same r₁ c r₂ d ∧
      ∀ others : List Descriptor,
        (∀ e, c.Contains e → ∀ node ∈ e.nodes, ∀ other ∈ others, other.name ≠ node.name) →
          Same (r₁.extend others).2 c r₂ d := by
  refine ⟨same_of_agree hbare hagree, fun others hothers => same_of_agree hbare ?_⟩
  intro e he node hnode
  exact (Registry.find?_extend (hothers e he node hnode)).trans (hagree e he node hnode)

/-! The same transforms in another order, and a chain that keeps no registry. -/

def samplePaintReversed : Registry :=
  ⟨Registry.samplePaint.transforms.reverse⟩

def sampleLayered (own : Registry) : Chain :=
  ⟨2, own, [⟨"flat", .source, [.chain ⟨1, own, [⟨"tiles", .raw, [], 1⟩], none⟩], 2⟩], none⟩

theorem build_depends_on_names_sampleLayered :
    Same .samplePaint (sampleLayered .samplePaint) samplePaintReversed (sampleLayered .empty) ∧
      Same (Registry.samplePaint.extend Builtin.colors).2 (sampleLayered .samplePaint)
        samplePaintReversed (sampleLayered .empty) := by
  have hbare : (sampleLayered .samplePaint).bare = (sampleLayered .empty).bare := rfl
  have hagree : ∀ d, (sampleLayered .samplePaint).Contains d → ∀ node ∈ d.nodes,
      Registry.samplePaint.find? node.name = samplePaintReversed.find? node.name := by
    decide +kernel
  obtain ⟨hsame, hextended⟩ := build_depends_on_names hbare hagree
  exact ⟨hsame, hextended Builtin.colors (by decide +kernel)⟩

end Program

end ShaderChain
