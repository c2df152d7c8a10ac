import ShaderChain.Proofs.Program.Definitions

/-! The view of a chain in the vertex stage. It leaves out the mixing of colors, and with it the
types that mixing asks of the nodes before. -/

namespace ShaderChain

namespace Expr

/-! The color of an expression comes from a call at the bottom and goes through the first arguments
of calls, through paddings and through getters. -/

/-- The calls on the way of the color, the outermost first. -/
def colorCalls : Expr → List Transform
  | .swizzle value _ => colorCalls value
  | .vector _ (first :: _) => colorCalls first
  | .call t (first :: _) =>
      match t.category with
      | .color | .combine => t :: colorCalls first
      | .source | .vertex | .raw => [t]
      | .coordinate | .combineCoordinate => []
  | _ => []
termination_by structural e => e

/-- Puts the color itself in the place of every call on its way that mixes it with another. -/
def dropMixing : Expr → Expr
  | .swizzle value getter => .swizzle (dropMixing value) getter
  | .vector type (first :: rest) => .vector type (dropMixing first :: rest)
  | .call t (first :: rest) =>
      match t.category with
      | .combine => dropMixing first
      | .color => .call t (dropMixing first :: rest)
      | .source | .vertex | .raw | .coordinate | .combineCoordinate => .call t (first :: rest)
  | e => e
termination_by structural e => e

theorem colorCalls_pad (e : Expr) (source target : Numeric) (fill : Binary64) :
    (e.pad source target fill).colorCalls = e.colorCalls := by
  unfold pad
  split <;> rfl

theorem dropMixing_pad (e : Expr) (source target : Numeric) (fill : Binary64) :
    (e.pad source target fill).dropMixing = e.dropMixing.pad source target fill := by
  unfold pad
  split <;> rfl

end Expr

namespace Typed

theorem colorCalls_finish (v : Typed) (getter : Option Swizzle) (target : ValueType) :
    (v.finish getter target).expr.colorCalls = v.expr.colorCalls := by
  cases getter <;> cases target <;>
    simp [finish, select, widen, Expr.colorCalls_pad, Expr.colorCalls]

theorem dropMixing_finish (v : Typed) (getter : Option Swizzle) (target : ValueType) :
    (v.finish getter target).expr.dropMixing =
      ((Typed.mk v.type v.expr.dropMixing).finish getter target).expr := by
  cases getter <;> cases target <;>
    simp [finish, select, widen, Expr.dropMixing_pad, Expr.dropMixing]

end Typed

/-! What the stage keeps. -/

def Layer.kept (stage : Stage) (layer : Layer) : Bool :=
  Resolve.keeps stage layer.transform.category

theorem Layer.kept_vertex (layer : Layer) :
    layer.kept .vertex ↔ layer.transform.category ≠ .combine := by
  unfold Layer.kept
  cases layer.transform.category <;> simp [Resolve.keeps]

theorem Layer.filter_kept_fragment (layers : List Layer) :
    layers.filter (Layer.kept .fragment) = layers :=
  List.filter_eq_self.mpr fun _ _ => rfl

theorem Walk.layers_vertex (registry : Registry) (path : List Nat) (position : Nat)
    (ns : List Node) :
    layers registry .vertex path position ns =
      (layers registry .fragment path position ns).filter (Layer.kept .vertex) := by
  induction ns generalizing position with
  | nil => rfl
  | cons node rest ih =>
      cases hfind : registry.find? node.name with
      | none =>
          simp only [layers, hfind]
          exact ih (position + 1)
      | some t =>
          rw [layers_cons hfind, List.filter_cons]
          simp only [layers, hfind, Layer.kept, layer_transform]
          split
          · rw [ih (position + 1)]
          · exact ih (position + 1)

theorem Walk.transforms_layers (registry : Registry) (path : List Nat) (position : Nat)
    (ns : List Node) :
    (layers registry .fragment path position ns).map (·.transform) =
      ns.filterMap fun node => registry.find? node.name := by
  induction ns generalizing position with
  | nil => rfl
  | cons node rest ih =>
      cases hfind : registry.find? node.name with
      | none =>
          simp only [layers, hfind, List.filterMap_cons]
          exact ih (position + 1)
      | some t =>
          simp only [layers_cons hfind, hfind, List.filterMap_cons, List.map_cons, layer_transform,
            ih (position + 1)]

namespace Field

/-- Composes `prior` with all layers. An operand is of the type that the next layer takes which the
stage keeps. -/
def ofLayersFor (stage : Stage) (target : ValueType) (prior : Field) : List Layer → Field
  | [] => prior
  | layer :: rest =>
      let expected := Layer.expected target (rest.filter (Layer.kept stage))
      let operand := Input.operandAt (Layer.operandTarget layer.transform expected) layer.operand
      let args := Input.arguments layer.transform.params layer.args
      ofLayersFor stage target (prior.compose layer.transform operand args) rest

theorem ofLayersFor_fragment (target : ValueType) (f : Field) (layers : List Layer) :
    ofLayersFor .fragment target f layers = ofLayers target f layers := by
  induction layers generalizing f with
  | nil => rfl
  | cons layer rest ih =>
      rw [ofLayersFor, ofLayers_cons, Layer.filter_kept_fragment]
      exact ih _

theorem colorAt_of_vec4 {f : Field} (htype : f.type = .vec4) (q : Expr) :
    f.colorAt q = f.value q := by
  simp [colorAt, typedAt, Typed.widen, Expr.pad, htype]

/-! The way of the color through a field that gives one. -/

/-- A transform that gives a color for a coordinate is the first on its way, and one that moves the
coordinate does not stand on it. -/
def passThrough (path : List Transform) (t : Transform) : List Transform :=
  match t.category with
  | .source | .vertex | .raw => [t]
  | .color | .combine => t :: path
  | .coordinate | .combineCoordinate => path

structure Passes (f : Field) (path : List Transform) : Prop where
  type : f.type = .vec4
  calls : ∀ q, (f.value q).colorCalls = path

theorem passes_reset (f : Field) {t : Transform} (hresets : t.category.resets)
    (operand : Expr → Expr) (args : List Expr) (path : List Transform) :
    (f.compose t operand args).Passes (passThrough path t) := by
  unfold compose passThrough
  cases hcategory : t.category with
  | source | vertex | raw => exact ⟨rfl, fun q => by simp [Expr.colorCalls, hcategory]⟩
  | _ => simp [hcategory, Category.resets] at hresets

theorem Passes.compose {f : Field} {path : List Transform} (hf : f.Passes path) (t : Transform)
    (operand : Expr → Expr) (args : List Expr) :
    (f.compose t operand args).Passes (passThrough path t) := by
  by_cases hresets : t.category.resets
  · exact passes_reset f hresets operand args path
  · unfold Field.compose passThrough
    cases hcategory : t.category with
    | source | vertex | raw => simp [hcategory, Category.resets] at hresets
    | coordinate | combineCoordinate => exact ⟨hf.type, fun q => hf.calls _⟩
    | color | combine =>
        refine ⟨rfl, fun q => ?_⟩
        simp [Expr.colorCalls, hcategory, colorAt_of_vec4 hf.type, hf.calls q]

theorem Passes.ofLayers {f : Field} {path : List Transform} (hf : f.Passes path)
    (target : ValueType) (layers : List Layer) :
    (Field.ofLayers target f layers).Passes
      ((layers.map (·.transform)).foldl passThrough path) := by
  induction layers generalizing f path with
  | nil => exact hf
  | cons layer rest ih =>
      rw [ofLayers_cons]
      exact ih (hf.compose _ _ _)

/-! A field without the mixing of another. -/

structure Unmixed (f g : Field) : Prop where
  left : f.type = .vec4
  right : g.type = .vec4
  value : ∀ q, (f.value q).dropMixing = g.value q

theorem unmixed_reset (f g : Field) {t : Transform} (hresets : t.category.resets)
    (operand : Expr → Expr) (args : List Expr) :
    (f.compose t operand args).Unmixed (g.compose t operand args) := by
  unfold compose
  cases hcategory : t.category with
  | source | vertex | raw => exact ⟨rfl, rfl, fun q => by simp [Expr.dropMixing, hcategory]⟩
  | _ => simp [hcategory, Category.resets] at hresets

theorem Unmixed.compose {f g : Field} (hfg : f.Unmixed g) {t : Transform}
    (hkept : t.category ≠ .combine) (operand : Expr → Expr) (args : List Expr) :
    (f.compose t operand args).Unmixed (g.compose t operand args) := by
  by_cases hresets : t.category.resets
  · exact unmixed_reset f g hresets operand args
  · unfold Field.compose
    cases hcategory : t.category with
    | source | vertex | raw => simp [hcategory, Category.resets] at hresets
    | coordinate | combineCoordinate => exact ⟨hfg.left, hfg.right, fun q => hfg.value _⟩
    | color =>
        refine ⟨rfl, rfl, fun q => ?_⟩
        simp [Expr.dropMixing, hcategory, colorAt_of_vec4 hfg.left, colorAt_of_vec4 hfg.right,
          hfg.value q]
    | combine => exact absurd hcategory hkept

theorem Unmixed.combine {f g : Field} (hfg : f.Unmixed g) {t : Transform}
    (hcombine : t.category = .combine) (operand : Expr → Expr) (args : List Expr) :
    (f.compose t operand args).Unmixed g := by
  unfold Field.compose
  rw [hcombine]
  refine ⟨rfl, hfg.right, fun q => ?_⟩
  simp [Expr.dropMixing, hcombine, colorAt_of_vec4 hfg.left, hfg.value q]

theorem Unmixed.ofLayers {f g : Field} (hfg : f.Unmixed g) (target : ValueType)
    (layers : List Layer) :
    (ofLayersFor .vertex target f layers).Unmixed
      (Field.ofLayers target g (layers.filter (Layer.kept .vertex))) := by
  induction layers generalizing f g with
  | nil => exact hfg
  | cons layer rest ih =>
      rw [ofLayersFor]
      by_cases hkept : layer.kept .vertex
      · rw [List.filter_cons_of_pos hkept, ofLayers_cons]
        exact ih (hfg.compose (layer.kept_vertex.mp hkept) _ _)
      · have hcombine : layer.transform.category = .combine := by
          simpa [Layer.kept_vertex] using hkept
        rw [List.filter_cons_of_neg hkept]
        exact ih (hfg.combine hcombine _ _)

end Field

/-! The type that is asked of an operand is another one in the vertex stage if the layer stands
right before some that mix colors and the next one behind these takes a coordinate. -/

namespace Transform

/-- `later` are the transforms behind the one with the operand. -/
def Refitted : List Transform → Prop
  | [] => False
  | mix :: later => mix.category = .combine ∧
      ∃ next ∈ later.find? (·.category ≠ .combine), next.category.consumed? = some .vec2

/-- Some operand that moves the coordinate is fitted differently by the stages. -/
def Refits : List Transform → Prop
  | [] => False
  | t :: later => t.category = .combineCoordinate ∧ Refitted later ∨ Refits later

instance : (later : List Transform) → Decidable (Refitted later)
  | [] => isFalse id
  | mix :: later => inferInstanceAs (Decidable (mix.category = .combine ∧
      ∃ next ∈ later.find? (·.category ≠ .combine), next.category.consumed? = some .vec2))

instance decidableRefits : (ts : List Transform) → Decidable (Refits ts)
  | [] => isFalse id
  | t :: later =>
      have := decidableRefits later
      inferInstanceAs (Decidable (t.category = .combineCoordinate ∧ Refitted later ∨ Refits later))

end Transform

namespace Layer

/-- The next layer that is kept, if there is one, is the first whose transform mixes nothing. -/
theorem expected_kept (target : ValueType) (layers : List Layer) :
    expected target (layers.filter (kept .vertex)) =
      ((((layers.map (·.transform)).find? (·.category ≠ .combine)).bind
        (·.category.consumed?)).map ValueType.numeric).getD target := by
  induction layers with
  | nil => rfl
  | cons layer rest ih =>
      by_cases hcombine : layer.transform.category = .combine
      · have hkept : ¬layer.kept .vertex := by simp [kept_vertex, hcombine]
        rw [List.filter_cons_of_neg hkept, List.map_cons,
          List.find?_cons_of_neg (by simp [hcombine])]
        exact ih
      · rw [List.filter_cons_of_pos (layer.kept_vertex.mpr hcombine), List.map_cons,
          List.find?_cons_of_pos (by simp [hcombine])]
        unfold expected
        simp only [Option.bind_some]
        cases layer.transform.category.consumed? <;> rfl

theorem expected_combine {mix : Layer} (hmix : mix.transform.category = .combine)
    (target : ValueType) (rest : List Layer) : expected target (mix :: rest) = .numeric .vec4 := by
  simp [expected, hmix, Category.consumed?]

theorem expected_of_refitted {layers : List Layer}
    (hrefitted : Transform.Refitted (layers.map (·.transform))) (target : ValueType) :
    expected target layers = .numeric .vec4 ∧
      expected target (layers.filter (kept .vertex)) = .numeric .vec2 := by
  cases layers with
  | nil => cases hrefitted
  | cons mix rest =>
      obtain ⟨hmix, next, hnext, hconsumed⟩ := hrefitted
      refine ⟨expected_combine hmix target rest, ?_⟩
      rw [expected_kept, List.map_cons, List.find?_cons_of_neg (by simp [hmix]),
        Option.mem_def.mp hnext, Option.bind_some, hconsumed]
      rfl

theorem expected_of_not_refitted {layers : List Layer}
    (hrefitted : ¬Transform.Refitted (layers.map (·.transform))) :
    expected (.numeric .vec4) (layers.filter (kept .vertex)) = expected (.numeric .vec4) layers := by
  cases layers with
  | nil => rfl
  | cons mix rest =>
      by_cases hmix : mix.transform.category = .combine
      · rw [expected_combine hmix, expected_kept, List.map_cons,
          List.find?_cons_of_neg (by simp [hmix])]
        cases hnext : (rest.map (·.transform)).find? (·.category ≠ .combine) with
        | none => rfl
        | some next =>
            have hconsumed : next.category.consumed? ≠ some .vec2 :=
              fun hmoving => hrefitted ⟨hmix, next, hnext, hmoving⟩
            rw [Option.bind_some]
            cases hcategory : next.category <;> simp_all [Category.consumed?]
      · rw [List.filter_cons_of_pos (mix.kept_vertex.mpr hmix)]
        rfl

end Layer

theorem Field.ofLayersFor_vertex {layers : List Layer}
    (hrefits : ¬Transform.Refits (layers.map (·.transform))) (f : Field) :
    Field.ofLayersFor .vertex (.numeric .vec4) f layers =
      Field.ofLayersFor .fragment (.numeric .vec4) f layers := by
  induction layers generalizing f with
  | nil => rfl
  | cons layer rest ih =>
      have hrest : ¬Transform.Refits (rest.map (·.transform)) := fun h => hrefits (.inr h)
      have htarget : Layer.operandTarget layer.transform
          (Layer.expected (.numeric .vec4) (rest.filter (Layer.kept .vertex))) =
            Layer.operandTarget layer.transform (Layer.expected (.numeric .vec4) rest) := by
        unfold Layer.operandTarget
        split
        · rename_i hwarp
          exact Layer.expected_of_not_refitted fun h => hrefits (.inl ⟨hwarp, h⟩)
        · rfl
      rw [Field.ofLayersFor, Field.ofLayersFor, htarget, Layer.filter_kept_fragment]
      exact ih hrest _

namespace Chain

variable (registry : Registry) (c : Chain)

def transforms : List Transform :=
  c.nodes.filterMap fun node => registry.find? node.name

/-- The expression of a chain with all its nodes and with the operands of a stage. -/
def bodyFor (stage : Stage) : Expr :=
  (((Field.ofLayersFor stage (.numeric .vec4) .identity
    (c.layers registry .fragment)).typedAt baseCoordinate).finish c.getter (.numeric .vec4)).expr

variable {registry c}

theorem StartsAtVertex.exists_layers (hstarts : c.StartsAtVertex registry) :
    ∃ first rest, c.layers registry .fragment = first :: rest ∧
      first.transform.category = .vertex := by
  obtain ⟨node, hnode, t, hfind, hcategory⟩ := hstarts
  obtain ⟨ns, hnodes⟩ := List.head?_eq_some_iff.mp hnode
  refine ⟨_, _, by rw [layers, hnodes, Walk.layers_cons hfind], ?_⟩
  rw [Walk.layer_transform]
  exact hcategory

theorem StartsAtVertex.passes (hstarts : c.StartsAtVertex registry) :
    (Field.ofLayers (.numeric .vec4) .identity (c.layers registry .fragment)).Passes
      ((c.transforms registry).foldl Field.passThrough []) := by
  have htransforms : (c.layers registry .fragment).map (·.transform) = c.transforms registry :=
    Walk.transforms_layers registry [] 0 c.nodes
  obtain ⟨first, rest, hlayers, hvertex⟩ := hstarts.exists_layers
  rw [← htransforms, hlayers, Field.ofLayers_cons]
  refine Field.Passes.ofLayers (Field.passes_reset _ ?_ _ _ _) _ rest
  rw [hvertex]
  rfl

theorem StartsAtVertex.unmixed (hstarts : c.StartsAtVertex registry) :
    (Field.ofLayersFor .vertex (.numeric .vec4) .identity (c.layers registry .fragment)).Unmixed
      (Field.ofLayers (.numeric .vec4) .identity (c.layers registry .vertex)) := by
  obtain ⟨first, rest, hlayers, hvertex⟩ := hstarts.exists_layers
  have hfilter : c.layers registry .vertex =
      (c.layers registry .fragment).filter (Layer.kept .vertex) :=
    Walk.layers_vertex registry [] 0 c.nodes
  have hkept : first.kept .vertex := by
    rw [Layer.kept_vertex, hvertex]
    nofun
  rw [hfilter, hlayers, List.filter_cons_of_pos hkept, Field.ofLayersFor, Field.ofLayers_cons]
  refine Field.Unmixed.ofLayers (Field.unmixed_reset _ _ ?_ _ _) _ rest
  rw [hvertex]
  rfl

theorem StartsAtVertex.dropMixing_bodyFor (hstarts : c.StartsAtVertex registry)
    (resources : Resources) :
    (c.bodyFor registry .vertex).dropMixing =
      (Compiled.ofLayers c.getter (.numeric .vec4) (c.layers registry .vertex) resources).body := by
  have hunmixed := hstarts.unmixed
  rw [bodyFor, Typed.dropMixing_finish]
  simp only [Field.typedAt, hunmixed.value, hunmixed.left, Compiled.ofLayers, hunmixed.right]

theorem bodyFor_fragment (registry : Registry) (c : Chain) (resources : Resources) :
    c.bodyFor registry .fragment =
      (Compiled.ofLayers c.getter (.numeric .vec4) (c.layers registry .fragment)
        resources).body := by
  rw [bodyFor, Field.ofLayersFor_fragment]
  rfl

theorem bodyFor_vertex (hrefits : ¬Transform.Refits (c.transforms registry)) :
    c.bodyFor registry .vertex = c.bodyFor registry .fragment := by
  have htransforms : (c.layers registry .fragment).map (·.transform) = c.transforms registry :=
    Walk.transforms_layers registry [] 0 c.nodes
  rw [bodyFor, bodyFor, Field.ofLayersFor_vertex (htransforms ▸ hrefits)]

/-- The body for the vertex stage is that of the fragment stage without the calls of the chain's own
nodes that mix colors. Only an operand that is fitted for the next node that is left may differ. -/
theorem compileVertex_body (hstarts : c.StartsAtVertex registry) {fragment : Compiled}
    (hfragment : c.compile registry (.numeric .vec4) = .ok fragment) :
    ∃ vertex, c.compileVertex registry = .ok vertex ∧
      fragment.body.colorCalls = (c.transforms registry).foldl Field.passThrough [] ∧
      fragment.body = c.bodyFor registry .fragment ∧
      vertex.body = (c.bodyFor registry .vertex).dropMixing ∧
      (¬Transform.Refits (c.transforms registry) → vertex.body = fragment.body.dropMixing) ∧
      ∀ later : List Layer,
        (Transform.Refitted (later.map (·.transform)) →
          Layer.expected (.numeric .vec4) later = .numeric .vec4 ∧
            Layer.expected (.numeric .vec4) (later.filter (Layer.kept .vertex)) =
              .numeric .vec2) ∧
        (¬Transform.Refitted (later.map (·.transform)) →
          Layer.expected (.numeric .vec4) (later.filter (Layer.kept .vertex)) =
            Layer.expected (.numeric .vec4) later) := by
  obtain ⟨vertex, hvertex⟩ := exists_compileVertex hfragment
  obtain ⟨-, rfl⟩ := compile_eq_ok hfragment
  have hfragmentBody := bodyFor_fragment registry c (c.resources registry .fragment)
  have hvertexBody : vertex.body = (c.bodyFor registry .vertex).dropMixing := by
    rw [hstarts.dropMixing_bodyFor, compileVertex_eq_ok hvertex]
  refine ⟨vertex, hvertex, ?_, hfragmentBody.symm, hvertexBody, fun hrefits => ?_, fun later =>
    ⟨fun hrefitted => Layer.expected_of_refitted hrefitted _, Layer.expected_of_not_refitted⟩⟩
  · rw [Compiled.ofLayers, Typed.colorCalls_finish]
    exact hstarts.passes.calls baseCoordinate
  · rw [hvertexBody, bodyFor_vertex hrefits, hfragmentBody]

/-! A node that moves the coordinate, one that mixes colors and one that moves the coordinate
again. -/

def sampleSource : Chain :=
  ⟨1, .sample, [⟨"osc", .source, [], 1⟩], none⟩

def sampleWarped : Chain :=
  ⟨2, .sample,
    [⟨"displaceTexture", .vertex, [.texture "noise"], 2⟩,
      ⟨"modulate", .combineCoordinate, [.chain sampleSource], 2⟩,
      ⟨"add", .combine, [.chain sampleSource], 2⟩,
      ⟨"rotate", .coordinate, [], 2⟩],
    none⟩

theorem sampleWarped_differs :
    sampleWarped.StartsAtVertex .sample ∧ ∃ fragment vertex,
      sampleWarped.compile .sample (.numeric .vec4) = .ok fragment ∧
        sampleWarped.compileVertex .sample = .ok vertex ∧
        vertex.body.render ≠ fragment.body.dropMixing.render := by
  refine ⟨⟨_, rfl, _, rfl, rfl⟩, ?_⟩
  have hnone : sampleWarped.firstError? .sample .fragment = none := by decide +kernel
  obtain ⟨fragment, hfragment⟩ := exists_compile hnone (.numeric .vec4)
  obtain ⟨vertex, hvertex⟩ := exists_compileVertex hfragment
  refine ⟨fragment, vertex, hfragment, hvertex, ?_⟩
  rw [compileVertex_eq_ok hvertex, (compile_eq_ok hfragment).2]
  decide +kernel

theorem compileVertex_body_sample :
    sample.StartsAtVertex .sample ∧ ∃ fragment vertex,
      sample.compile .sample (.numeric .vec4) = .ok fragment ∧
        sample.compileVertex .sample = .ok vertex ∧
        fragment.body.colorCalls.map (·.name) = ["add", "displaceTexture"] ∧
        vertex.body = fragment.body.dropMixing := by
  have hstarts : sample.StartsAtVertex .sample := ⟨_, rfl, _, rfl, rfl⟩
  obtain ⟨fragment, hfragment⟩ := compile_sample (.numeric .vec4)
  obtain ⟨vertex, hvertex, hcalls, -, -, hbody, -⟩ := compileVertex_body hstarts hfragment
  refine ⟨hstarts, fragment, vertex, hfragment, hvertex, ?_, hbody ?_⟩
  · rw [hcalls]
    decide +kernel
  · decide +kernel

end Chain

end ShaderChain
