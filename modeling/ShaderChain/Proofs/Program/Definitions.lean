import ShaderChain.Proofs.Compile.Resources
import ShaderChain.Proofs.Expr.Typing
import ShaderChain.Proofs.Glsl.Helper
import ShaderChain.Proofs.Program.Stages

/-! The definitions in a program. Transforms may share a symbol; a call is then answered by the
first of them that the chain applies. -/

namespace ShaderChain

inductive Definition where
  | helper (shared : Helper)
  | transform (t : Transform)

namespace Definition

def symbol : Definition → String
  | .helper shared => shared.name
  | .transform t => t.symbol

def text (stage : Stage) (version : Version) : Definition → String
  | .helper shared => shared.text
  | .transform t => t.texts.select stage version

def transform? : Definition → Option Transform
  | .helper _ => none
  | .transform t => some t

end Definition

def Compiled.definitions (out : Compiled) (stage : Stage) (version : Version) : List Definition :=
  (Helper.needed (out.functionTexts stage version)).map .helper ++
    (Transform.firstOfSymbols [] out.functions).map .transform

def Compiled.definitionTexts (out : Compiled) (stage : Stage) (version : Version) : String :=
  String.join ((out.definitions stage version).map (·.text stage version ++ "\n"))

theorem Compiled.functionBlock_eq (out : Compiled) (stage : Stage) (version : Version) :
    out.functionBlock stage version = out.definitionTexts stage version := by
  simp [functionBlock, definitionTexts, definitions, functionTexts, Definition.text,
    Function.comp_def]

/-! Of the transforms with a symbol the first one is defined, and no other. -/

namespace Transform

theorem filter_firstOfSymbols_of_taken {taken : List String} {symbol : String}
    (htaken : symbol ∈ taken) (ts : List Transform) :
    (firstOfSymbols taken ts).filter (·.symbol == symbol) = [] := by
  induction ts generalizing taken with
  | nil => rfl
  | cons t rest ih =>
      unfold firstOfSymbols
      split
      · exact ih htaken
      · rename_i hnew
        have hne : t.symbol ≠ symbol := fun heq => hnew (heq ▸ htaken)
        rw [List.filter_cons_of_neg (by simpa using hne)]
        exact ih (List.mem_cons_of_mem _ htaken)

theorem filter_firstOfSymbols {taken : List String} {symbol : String} (hnew : symbol ∉ taken)
    (ts : List Transform) :
    (firstOfSymbols taken ts).filter (·.symbol == symbol) =
      (ts.find? (·.symbol == symbol)).toList := by
  induction ts generalizing taken with
  | nil => rfl
  | cons t rest ih =>
      unfold firstOfSymbols
      by_cases hsymbol : t.symbol = symbol
      · subst hsymbol
        rw [if_neg hnew, List.filter_cons_of_pos (by simp), List.find?_cons_of_pos (by simp),
          filter_firstOfSymbols_of_taken List.mem_cons_self]
        rfl
      · rw [List.find?_cons_of_neg (by simpa using hsymbol)]
        split
        · exact ih hnew
        · rw [List.filter_cons_of_neg (by simpa using hsymbol)]
          exact ih (by simpa using ⟨Ne.symm hsymbol, hnew⟩)

/-- Whether calls of two transforms take the same types to the same type. -/
def SameSignature (t u : Transform) : Prop :=
  t.category.signature.result = u.category.signature.result ∧ t.argumentTypes = u.argumentTypes
deriving Decidable

end Transform

namespace Compiled

variable (out : Compiled) (stage : Stage) (version : Version) (symbol : String)

theorem transforms_definitions :
    (out.definitions stage version).filterMap Definition.transform? =
      Transform.firstOfSymbols [] out.functions := by
  simp [definitions, List.filterMap_append, List.filterMap_map, Function.comp_def,
    Definition.transform?]

theorem filter_transforms_definitions :
    ((out.definitions stage version).filterMap Definition.transform?).filter
        (·.symbol == symbol) =
      (out.functions.find? (·.symbol == symbol)).toList := by
  rw [transforms_definitions]
  exact Transform.filter_firstOfSymbols List.not_mem_nil out.functions

theorem filter_definitions {symbol : String} (hhelper : symbol ∉ Helper.table.map Helper.name) :
    (out.definitions stage version).filter (·.symbol == symbol) =
      (out.functions.find? (·.symbol == symbol)).toList.map .transform := by
  have hnone : ((Helper.needed (out.functionTexts stage version)).map Definition.helper).filter
      (·.symbol == symbol) = [] := by
    simp only [List.filter_eq_nil_iff, List.mem_map]
    rintro d ⟨shared, hshared, rfl⟩ heq
    have hmem := List.mem_map_of_mem (f := Helper.name) ((Helper.neededIn_sublist _ _).subset hshared)
    exact hhelper (LawfulBEq.eq_of_beq heq ▸ hmem)
  rw [definitions, List.filter_append, hnone, List.nil_append, List.filter_map,
    ← Transform.filter_firstOfSymbols List.not_mem_nil out.functions]
  rfl

/-- How a call of `t` is defined, by a transform `u` that has its symbol. -/
structure Answers (t u : Transform) : Prop where
  first : out.functions.find? (·.symbol == t.symbol) = some u
  unique : ((out.definitions stage version).filterMap Definition.transform?).filter
    (·.symbol == t.symbol) = [u]
  alone : t.symbol ∉ Helper.table.map Helper.name →
    (out.definitions stage version).filter (·.symbol == t.symbol) = [.transform u]
  signature : (∀ other ∈ out.functions, other.symbol = t.symbol → other.SameSignature t) →
    u.SameSignature t

theorem exists_answers {t : Transform} (ht : t ∈ out.functions) :
    ∃ u, out.Answers stage version t u := by
  obtain ⟨u, hu⟩ : ∃ u, out.functions.find? (·.symbol == t.symbol) = some u := by
    rw [← Option.isSome_iff_exists, List.find?_isSome]
    exact ⟨t, ht, by simp⟩
  refine ⟨u, hu, ?_, fun hhelper => ?_, fun hsame => ?_⟩
  · rw [filter_transforms_definitions, hu]
    rfl
  · rw [filter_definitions out stage version hhelper, hu]
    rfl
  · exact hsame u (List.mem_of_find?_eq_some hu) (by simpa using List.find?_some hu)

/-- A text that has the definitions of the functions, and later the expression. -/
def Within (text : String) : Prop :=
  ∃ before middle fill after,
    text = before ++ out.definitionTexts stage version ++ middle ++ out.padded fill ++ after

theorem fragmentText_within (options : Options) :
    out.Within .fragment options.version (out.fragmentText options) := by
  have hpieces (varyings output : String) : out.Within .fragment options.version
      (options.header ++ out.uniformBlock ++ frameUniforms ++ varyings ++ "\n" ++
        out.functionBlock .fragment options.version ++
        "void main () \x7b\n  vec2 st = vUv;\n  " ++ output ++ " = " ++ out.padded 1.0 ++
        ";\n\x7d\n") := by
    rw [functionBlock_eq]
    exact ⟨options.header ++ out.uniformBlock ++ frameUniforms ++ varyings ++ "\n",
      "void main () \x7b\n  vec2 st = vUv;\n  " ++ output ++ " = ", 1.0, ";\n\x7d\n", by
        simp only [String.append_assoc]⟩
  exact hpieces _ _

theorem vertexText_within {out : Compiled} (hstage : out.vertexStage) (options : Options) :
    out.Within .vertex options.version (out.vertexText options) := by
  unfold vertexText
  simp only [hstage, if_true, functionBlock_eq]
  refine ⟨options.header ++ vertexInterface options.version ++ matrices ++ out.uniformBlock ++
      frameUniforms ++ vertexVaryings options.version ++ "\n",
    "void main () \x7b\n  vUv = uv;\n  vec2 st = uv;\n  vec4 displacement = ", 0.0,
    ";\n  gl_Position = projectionMatrix * modelViewMatrix * " ++
      "vec4(position + displacement.xyz, 1.0);\n\x7d\n", ?_⟩
  simp only [String.append_assoc]

end Compiled

namespace Chain

def StartsAtVertex (registry : Registry) (c : Chain) : Prop :=
  ∃ first ∈ c.nodes.head?, ∃ t ∈ registry.find? first.name, t.category = .vertex

variable {registry : Registry} {c : Chain}

theorem StartsAtVertex.vertexStage (hc : c.StartsAtVertex registry) {vertex : Compiled}
    (hvertex : c.compileVertex registry = .ok vertex) : vertex.vertexStage := by
  obtain ⟨first, hfirst, t, hfind, hcategory⟩ := hc
  obtain ⟨rest, hnodes⟩ := List.head?_eq_some_iff.mp hfirst
  have hlayers : c.layers registry .vertex =
      Walk.layer registry t ⟨t.name, 0, [0]⟩ first :: Walk.layers registry .vertex [] 1 rest := by
    rw [layers, hnodes, Walk.layers, Option.mem_def.mp hfind]
    simp only [hcategory, Resolve.keeps, if_true]
    rfl
  rw [compileVertex_eq_ok hvertex]
  simp [Compiled.ofLayers, hlayers, Compiled.startsAtVertex, hcategory]

end Chain

namespace Program

variable {registry : Registry} {c : Chain}

/-- In a program, every transform that is called has one definition among those of transforms, that
of the first one with its symbol. If no helper has the symbol there is no other definition, and if
all transforms with the symbol have one signature it is that of the call. -/
theorem build_answers_calls {fragment : Compiled}
    (hfragment : c.compile registry (.numeric .vec4) = .ok fragment) (options : Options)
    (counters : Counters) :
    ∃ program vertex, ((build registry c options).run counters).1 = .ok program ∧
      c.compileVertex registry = .ok vertex ∧
      fragment.Within .fragment options.version program.fragment ∧
      (∀ t ∈ fragment.body.calls, ∃ u, fragment.Answers .fragment options.version t u) ∧
      (c.StartsAtVertex registry →
        vertex.Within .vertex options.version program.vertex ∧
          ∀ t ∈ vertex.body.calls, ∃ u, vertex.Answers .vertex options.version t u) := by
  obtain ⟨vertex, hvertex⟩ := Chain.exists_compileVertex hfragment
  obtain ⟨hclean, hfragment'⟩ := Chain.compile_eq_ok hfragment
  have hvertex' := Chain.compileVertex_eq_ok hvertex
  have hchecked := Chain.allChecked_of_clean hclean
  refine ⟨_, vertex, congrArg Prod.fst (run_build_ok hfragment hvertex options counters), hvertex,
    fragment.fragmentText_within options, fun t ht => ?_, fun hstarts => ⟨?_, fun t ht => ?_⟩⟩
  · subst hfragment'
    exact Compiled.exists_answers _ _ _ (Chain.calls_subset_functions hchecked .fragment _ _ ht)
  · exact Compiled.vertexText_within (hstarts.vertexStage hvertex) options
  · subst hvertex'
    exact Compiled.exists_answers _ _ _ (Chain.calls_subset_functions hchecked .vertex _ _ ht)

theorem build_answers_calls_sample :
    ∃ vertex, Chain.sample.compileVertex .sample = .ok vertex ∧
      Chain.sample.StartsAtVertex .sample ∧
      ∀ t ∈ vertex.body.calls, ∃ u, vertex.Answers .vertex .es300 t u := by
  obtain ⟨fragment, hfragment⟩ := Chain.compile_sample (.numeric .vec4)
  obtain ⟨program, vertex, -, hvertex, -, -, hcalls⟩ := build_answers_calls hfragment {} {}
  have hstarts : Chain.sample.StartsAtVertex .sample := ⟨_, rfl, _, rfl, rfl⟩
  exact ⟨vertex, hvertex, hstarts, (hcalls hstarts).2⟩

end Program

/-! Without these conditions a call may be answered by a transform with another signature, or by a
helper besides the transform. -/

namespace Compiled

/-- Every call has one definition, of a transform that has the same signature. -/
def CallsAnswered (out : Compiled) (stage : Stage) (version : Version) : Prop :=
  ∀ t ∈ out.body.calls, ∃ u,
    (out.definitions stage version).filter (·.symbol == t.symbol) = [.transform u] ∧
      u.SameSignature t

variable {out : Compiled} {stage : Stage} {version : Version}

theorem CallsAnswered.sameSignature (hout : out.CallsAnswered stage version) {t u : Transform}
    (ht : t ∈ out.body.calls) (hhelper : t.symbol ∉ Helper.table.map Helper.name)
    (hu : out.functions.find? (·.symbol == t.symbol) = some u) : u.SameSignature t := by
  obtain ⟨v, hdefinitions, hsame⟩ := hout t ht
  rw [filter_definitions out stage version hhelper, hu] at hdefinitions
  cases hdefinitions
  exact hsame

theorem CallsAnswered.length_definitions (hout : out.CallsAnswered stage version) {t : Transform}
    (ht : t ∈ out.body.calls) :
    ((out.definitions stage version).filter (·.symbol == t.symbol)).length = 1 := by
  obtain ⟨u, hdefinitions, -⟩ := hout t ht
  rw [hdefinitions]
  rfl

end Compiled

/-- A transform that has the symbol of a helper. -/
def Registry.sampleShuffle : Registry :=
  .ofDescriptors [
    { name := "shuffle"
      category := "src"
      sources := { main := .text "return vec4(1.0);" }
      symbol := some "permute" }]

def Chain.sampleShuffled : Chain :=
  ⟨1, .sampleShuffle, [⟨"shuffle", .source, [], 1⟩], none⟩

theorem Chain.not_callsAnswered :
    (Registry.samplePaint.Built ∧ ∃ out,
      samplePainted.compile .samplePaint (.numeric .vec4) = .ok out ∧
        ¬out.CallsAnswered .fragment .es300) ∧
    Registry.sampleShuffle.Built ∧ ∃ out,
      sampleShuffled.compile .sampleShuffle (.numeric .vec4) = .ok out ∧
        ¬out.CallsAnswered .fragment .es300 := by
  refine ⟨⟨Registry.built_samplePaint, ?_⟩, Registry.Built.empty.extend _, ?_⟩
  · obtain ⟨out, hout⟩ := compile_samplePainted (.numeric .vec4)
    obtain ⟨-, heq⟩ := compile_eq_ok hout
    refine ⟨out, hout, fun hanswered => ?_⟩
    have hother : ∃ t ∈ out.body.calls, t.symbol ∉ Helper.table.map Helper.name ∧
        ∃ u ∈ out.functions.find? (·.symbol == t.symbol), ¬u.SameSignature t := by
      rw [heq]
      decide +kernel
    obtain ⟨t, ht, hhelper, u, hu, hdiffers⟩ := hother
    exact hdiffers (hanswered.sameSignature ht hhelper hu)
  · have hnone : sampleShuffled.firstError? .sampleShuffle .fragment = none := by decide +kernel
    obtain ⟨out, hout⟩ := exists_compile hnone (.numeric .vec4)
    obtain ⟨-, heq⟩ := compile_eq_ok hout
    refine ⟨out, hout, fun hanswered => ?_⟩
    have htwice : ∃ t ∈ out.body.calls,
        ((out.definitions .fragment .es300).filter (·.symbol == t.symbol)).length = 2 := by
      rw [heq]
      decide +kernel
    obtain ⟨t, ht, hlength⟩ := htwice
    simp [hanswered.length_definitions ht] at hlength

end ShaderChain
