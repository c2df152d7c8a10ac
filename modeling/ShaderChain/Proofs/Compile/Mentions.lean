import ShaderChain.Proofs.Compile.Spelling
import ShaderChain.Proofs.Compile.Uniforms
import ShaderChain.Proofs.Expr.Mention

/-! What a compiled chain mentions: the transforms and uniforms of its live parts, all of which are
among the resources that are reported with it. -/

namespace ShaderChain

namespace Part

theorem name_ne_st {part : Part} {u : Uniform} (huniform : part.uniform? = some u) :
    u.name ≠ "st" := by
  unfold uniform? at huniform
  split at huniform
  · cases huniform; exact Uniform.nameOf_ne_st _
  · cases huniform; exact Uniform.nameOf_ne_st _
  · cases huniform

def transform? (registry : Registry) : Part → Option Transform
  | .node applied => registry.find? applied.name
  | .binding .. => none

/-- What a part of a chain is mentioned by. -/
def mention? (registry : Registry) : Part → Option Mention
  | .node applied => (registry.find? applied.name).map .call
  | .binding path b => (uniform? (.binding path b)).map (.name ·.name)

def mentions (registry : Registry) (parts : List Part) : List Mention :=
  parts.filterMap (mention? registry)

@[simp] theorem mentions_nil (registry : Registry) : mentions registry [] = [] := rfl

@[simp] theorem mentions_append (registry : Registry) (first second : List Part) :
    mentions registry (first ++ second) = mentions registry first ++ mentions registry second :=
  List.filterMap_append

theorem mem_mentions_cons {registry : Registry} {m : Mention} {part : Part} {parts : List Part} :
    m ∈ mentions registry (part :: parts) ↔
      part.mention? registry = some m ∨ m ∈ mentions registry parts := by
  cases hmention : part.mention? registry <;> simp [mentions, hmention, eq_comm]

theorem mem_mentions_call {registry : Registry} {t : Transform} {parts : List Part} :
    .call t ∈ mentions registry parts ↔ t ∈ parts.filterMap (transform? registry) := by
  simp only [mentions, List.mem_filterMap]
  refine exists_congr fun part => and_congr_right fun _ => ?_
  cases part <;> simp [mention?, transform?]

theorem mem_mentions_name {registry : Registry} {n : String} {parts : List Part} :
    .name n ∈ mentions registry parts ↔ n ∈ (parts.filterMap uniform?).map Uniform.name := by
  simp only [mentions, List.mem_filterMap, List.map_filterMap]
  refine exists_congr fun part => and_congr_right fun _ => ?_
  cases part <;> simp [mention?, uniform?]

theorem not_mem_mentions_vector {registry : Registry} {type : Numeric} {parts : List Part} :
    .vector type ∉ mentions registry parts := by
  simp only [mentions, List.mem_filterMap]
  rintro ⟨part, -, hmention⟩
  cases part <;> simp [mention?] at hmention

end Part

section Nested

open Chain

variable {registry : Registry} {m : Mention}

/-- What is live in a chain, if it is bound to something at the path. -/
def nestedMentions (registry : Registry) (path : List Nat) (c : Chain) : List Mention :=
  Part.mentions registry (nodesParts (actsBefore registry) path 0 c.nodes)

def NestedAdds (registry : Registry) (m : Mention) (c : Chain) : Prop :=
  ∀ path target,
    (Field.ofLayers target .identity (Walk.layers registry .fragment path 0 c.nodes)).Adds m
      (m ∈ nestedMentions registry path c)

theorem not_mentions_baseCoordinate (hm : m.Proper) : ¬baseCoordinate.Mentions m := by
  rw [baseCoordinate, Expr.mentions_name]
  rintro rfl
  exact hm rfl

/-- What is bound to an argument, and what is bound to something inside it. -/
def boundMentions (registry : Registry) (path : List Nat) (b : Binding) : List Mention :=
  Part.mentions registry (.binding path b :: bindingParts (actsBefore registry) path b)

theorem boundMentions_chain (registry : Registry) (path : List Nat) (c : Chain) :
    boundMentions registry path (.chain c) = nestedMentions registry path c := by
  cases c
  rfl

theorem mentions_uniform (s : Site) (arg : Nat) :
    (Expr.name (s.uniformName arg)).Mentions m ↔
      m ∈ [Mention.name (Uniform.nameOf (s.path ++ [arg]))] := by
  rw [Expr.mentions_name, List.mem_singleton, Site.uniformName_eq]

/-- An operand is taken at the coordinate, which it may mention. -/
theorem mentions_operandAt (hm : m.Proper) (s : Site) (target : ValueType) (b : Binding)
    (hnested : ∀ c, b = .chain c → NestedAdds registry m c) (e : Expr) :
    (Input.operandAt target (some (Walk.input registry s 0 b)) e).Mentions m ∨ e.Mentions m ↔
      e.Mentions m ∨ m ∈ boundMentions registry (s.path ++ [0]) b := by
  rw [or_comm]
  refine or_congr_right' fun he => ?_
  cases b with
  | literal value =>
      simp only [Walk.input, Input.operandAt, Typed.mentions_widen hm]
      exact iff_of_false (Expr.mentions_literal value) List.not_mem_nil
  | signal signal =>
      simp only [Walk.input, Input.operandAt, Typed.mentions_widen hm]
      exact mentions_uniform s 0
  | texture name =>
      simp only [Walk.input, Input.operandAt, Typed.mentions_widen hm]
      exact mentions_uniform s 0
  | chain c =>
      simp only [Walk.input, Input.operandAt, Typed.mentions_widen hm, Typed.mentions_fit hm,
        boundMentions_chain]
      exact (hnested c rfl (s.path ++ [0]) target e).trans (or_iff_right he)

theorem mentions_argument (hm : m.Proper) (s : Site) (arg : Nat) (target : ValueType) (b : Binding)
    (hnested : ∀ c, b = .chain c → NestedAdds registry m c) :
    (Input.argument target (Walk.input registry s arg b)).Mentions m ↔
      m ∈ boundMentions registry (s.path ++ [arg]) b := by
  cases b with
  | literal value =>
      simp only [Walk.input, Input.argument, Typed.mentions_widen hm]
      exact iff_of_false (Expr.mentions_literal value) List.not_mem_nil
  | signal signal =>
      simp only [Walk.input, Input.argument, Typed.mentions_widen hm]
      exact mentions_uniform s arg
  | texture name =>
      simp only [Walk.input, Input.argument, Typed.mentions_widen hm]
      exact mentions_uniform s arg
  | chain c =>
      simp only [Walk.input, Input.argument, Typed.mentions_fit hm, boundMentions_chain]
      exact (hnested c rfl (s.path ++ [arg]) target baseCoordinate).trans
        (or_iff_right (not_mentions_baseCoordinate hm))

theorem not_mentions_defaults (hm : m.Proper) (params : List Param) :
    ¬∃ e ∈ Input.arguments params ((params.map Param.slot).map Walk.defaultInput),
      e.Mentions m := by
  induction params with
  | nil => simp [Input.arguments]
  | cons p params ih =>
      simp only [List.map_cons, Input.arguments, List.mem_cons, exists_eq_or_imp]
      rintro (hfirst | hrest)
      · simp only [Walk.defaultInput, Input.argument, Typed.mentions_widen hm] at hfirst
        exact Expr.mentions_literal _ hfirst
      · exact ih hrest

theorem mentions_arguments (hm : m.Proper) (s : Site) (arg : Nat) (params : List Param)
    (bindings : List Binding)
    (hnested : ∀ c, Binding.chain c ∈ bindings → NestedAdds registry m c)
    (hcount : bindings.length ≤ params.length) :
    (∃ e ∈ Input.arguments params
        (Walk.inputs registry s arg (params.map Param.slot) bindings), e.Mentions m) ↔
      m ∈ Part.mentions registry (bindingsParts (actsBefore registry) s.path arg bindings) := by
  induction bindings generalizing arg params with
  | nil => exact iff_of_false (not_mentions_defaults hm params) List.not_mem_nil
  | cons b rest ih =>
      cases params with
      | nil => simp at hcount
      | cons p params =>
          have hfirst := mentions_argument hm s arg p.type b fun c hc => hnested c (by simp [hc])
          have hrest := ih (arg + 1) params (fun c hc => hnested c (by simp [hc]))
            (Nat.le_of_succ_le_succ hcount)
          simp only [List.map_cons, Walk.inputs, Input.arguments, List.mem_cons, exists_eq_or_imp,
            hfirst, hrest, bindingsParts]
          rw [← List.cons_append, Part.mentions_append, List.mem_append]
          rfl

theorem adds_node {f : Field} {before : Prop} (hm : m.Proper) (hf : f.Adds m before)
    (t : Transform) (s : Site) (target : ValueType) (node : Node)
    (hnested : ∀ c, Binding.chain c ∈ node.bindings → NestedAdds registry m c)
    (hcount : node.bindings.length ≤ t.slots.length) :
    (f.compose t (Input.operandAt target (Walk.layer registry t s node).operand)
      (Input.arguments t.params (Walk.layer registry t s node).args)).Adds m
        ((before ∧ ¬t.category.resets) ∨ m = .call t ∨
          m ∈ Part.mentions registry
            (bindingsParts (actsBefore registry) s.path 0 node.bindings)) := by
  obtain ⟨name, category, bindings, chain⟩ := node
  by_cases hoperand : t.category.hasOperand
  · rw [Walk.slots_of_operand hoperand] at hcount
    cases bindings with
    | nil =>
        -- A node without its operand is refused, but it would not mention anything else.
        have hdefault (e : Expr) : (Input.operandAt target
            (Walk.layer registry t s ⟨name, category, [], chain⟩).operand e).Mentions m ∨
              e.Mentions m ↔ e.Mentions m ∨ False := by
          simp [Walk.layer, Walk.layerOf, Walk.inputs, Walk.slots_of_operand hoperand, hoperand,
            Walk.defaultInput, Input.operandAt, Typed.mentions_widen hm]
        have hargs : (∃ e ∈ Input.arguments t.params
            (Walk.layer registry t s ⟨name, category, [], chain⟩).args, e.Mentions m) ↔ False := by
          simpa [Walk.layer, Walk.layerOf, Walk.inputs, Walk.slots_of_operand hoperand, hoperand]
            using not_mentions_defaults hm t.params
        have hadds := hf.compose hm t (fun _ => hdefault) hargs
        simpa [hoperand, bindingsParts] using hadds
    | cons b rest =>
        rw [Walk.layer_of_operand hoperand]
        have hfirst := mentions_operandAt hm s target b fun c hc => hnested c (by simp [hc])
        have hrest := mentions_arguments hm s 1 t.params rest
          (fun c hc => hnested c (by simp [hc])) (by simpa using hcount)
        have hadds := hf.compose hm t (fun _ => hfirst) hrest
        simp only [hoperand, true_and] at hadds
        rwa [bindingsParts, ← List.cons_append, Part.mentions_append, List.mem_append]
  · rw [Walk.slots_of_no_operand hoperand] at hcount
    rw [Walk.layer_of_no_operand hoperand]
    have hargs := mentions_arguments hm s 0 t.params bindings hnested (by simpa using hcount)
    have hnone : t.category.hasOperand → ∀ e,
        (Input.operandAt target none e).Mentions m ∨ e.Mentions m ↔ e.Mentions m ∨ False :=
      fun h => absurd h hoperand
    have hadds := hf.compose hm t hnone hargs
    simpa only [and_false, false_or] using hadds

theorem adds_nodes {f : Field} {before : Prop} (hm : m.Proper) (hf : f.Adds m before)
    (path : List Nat) (position : Nat) (target : ValueType) (ns : List Node)
    (hnested : ∀ node ∈ ns, ∀ c, Binding.chain c ∈ node.bindings → NestedAdds registry m c)
    (hknown : ∀ node ∈ ns, ∃ t, registry.find? node.name = some t ∧
      node.bindings.length ≤ t.slots.length) :
    (Field.ofLayers target f (Walk.layers registry .fragment path position ns)).Adds m
      ((before ∧ actsBefore registry ns) ∨
        m ∈ Part.mentions registry (nodesParts (actsBefore registry) path position ns)) := by
  -- `before` is what the nodes so far have added, and stays only if none of the rest resets.
  induction ns generalizing f before position with
  | nil => simpa [Walk.layers, Field.ofLayers, nodesParts, actsBefore] using hf
  | cons node rest ih =>
      rw [List.forall_mem_cons] at hnested hknown
      obtain ⟨⟨t, hfind, hcount⟩, hknown⟩ := hknown
      rw [Walk.layers_cons hfind, Field.ofLayers_cons, Walk.layer_transform]
      have hnode := adds_node hm hf t ⟨t.name, position, path ++ [position]⟩
        (Layer.operandTarget t (Layer.expected target
          (Walk.layers registry .fragment path (position + 1) rest))) node hnested.1 hcount
      have hrest := ih hnode (position + 1) hnested.2 hknown
      have hmention : Part.mention? registry (.node node) = some m ↔ m = .call t := by
        simp [Part.mention?, hfind, eq_comm]
      intro e
      rw [hrest e, nodesParts_cons, Part.mentions_append, List.mem_append,
        actsBefore_cons hfind]
      split
      · rename_i hlive
        rw [Part.mem_mentions_cons, hmention]
        simp only [hlive, and_true]
        grind
      · rename_i hdead
        simp only [hdead, Part.mentions_nil, List.not_mem_nil]
        grind

theorem nested_adds (hm : m.Proper) (c : Chain) (hc : c.AllChecked registry) :
    NestedAdds registry m c := by
  induction c using Chain.nestedInduction with
  | step c ih =>
      intro path target
      have hnodes := adds_nodes hm Field.adds_identity path 0 target c.nodes
        (fun node hnode d hd => ih node hnode d hd (hc.nested hnode hd))
        fun node hnode => hc.find? hnode
      rw [false_and, false_or] at hnodes
      exact hnodes

end Nested

namespace Chain

variable {registry : Registry} {c : Chain}

theorem mentions_body {m : Mention} (hm : m.Proper) (hc : c.AllChecked registry)
    (target : ValueType) (resources : Resources) :
    (Compiled.ofLayers c.getter target (c.layers registry .fragment) resources).body.Mentions m ↔
      m ∈ Part.mentions registry (c.liveParts registry) :=
  (Typed.mentions_finish hm _ _ _).trans <|
    (nested_adds hm c hc [] target baseCoordinate).trans <|
      or_iff_right (not_mentions_baseCoordinate hm)

end Chain

/-! Whichever stage a chain is compiled for, it calls only transforms that are visited for that
stage. -/

section Visited

open Chain

variable {registry : Registry} {t : Transform}

theorem function?_of_part? {s : Site} {slots : List Slot} {bindings : List Binding} {v : Visit}
    {applied : Node} (hv : v ∈ Walk.slots registry s 0 slots bindings)
    (hpart : v.part? = some (.node applied)) : v.function? = registry.find? applied.name := by
  obtain ⟨arg, slot, -, rfl | ⟨b, -, hinner⟩⟩ := Walk.mem_slots.mp hv
  · simp [Visit.part?] at hpart
  · cases b with
    | chain d =>
        obtain ⟨e, -, hown⟩ := Walk.exists_own_of_mem hinner
        cases hown with
        | node => cases hpart; rfl
        | slot => simp [Visit.part?] at hpart
    | _ => simp [Walk.ofBinding] at hinner

theorem exists_visit_of_binding (s : Site) (slots : List Slot) {bindings : List Binding}
    (hchecked : ∀ c, Binding.chain c ∈ bindings → AllChecked registry c)
    (hcount : bindings.length ≤ slots.length)
    (ht : .call t ∈
      Part.mentions registry (bindingsParts (actsBefore registry) s.path 0 bindings)) :
    ∃ v ∈ Walk.slots registry s 0 slots bindings, v.function? = some t := by
  rw [Part.mem_mentions_call, List.mem_filterMap] at ht
  obtain ⟨part, hlive, hfind⟩ := ht
  have hpart : part ∈ bindingsParts allAct s.path 0 bindings :=
    mem_bindingsParts_of_nested
      (fun d path _ hinner => nodesParts_subset (fun _ _ _ _ => rfl) path hinner) hlive
  have hnested := fun c hc => Walk.nested_parts c (hchecked c hc)
  rw [← Walk.parts_slots s 0 slots bindings hnested hcount, List.mem_filterMap] at hpart
  obtain ⟨v, hv, hvisit⟩ := hpart
  cases part with
  | node applied => exact ⟨v, hv, (function?_of_part? hv hvisit).trans hfind⟩
  | binding => cases hfind

theorem exists_visit_of_calls {f : Field} {before : Prop} (hf : f.Adds (.call t) before)
    (stage : Stage) (path : List Nat) (predecessor : String) (position : Nat)
    (target : ValueType) (ns : List Node)
    (hchecked : ∀ node ∈ ns, ∀ c, Binding.chain c ∈ node.bindings → AllChecked registry c)
    (hknown : ∀ node ∈ ns, ∃ u, registry.find? node.name = some u ∧
      node.bindings.length ≤ u.slots.length) {e : Expr}
    (ht : ((Field.ofLayers target f (Walk.layers registry stage path position ns)).value e).Mentions
      (.call t)) :
    e.Mentions (.call t) ∨ before ∨
      ∃ v ∈ Walk.nodes registry stage path predecessor position ns, v.function? = some t := by
  induction ns generalizing f before predecessor position with
  | nil => exact ((hf e).mp ht).imp_right .inl
  | cons node rest ih =>
      rw [List.forall_mem_cons] at hchecked hknown
      obtain ⟨⟨u, hfind, hcount⟩, hknown⟩ := hknown
      simp only [Walk.layers, Walk.nodes, hfind] at ht ⊢
      cases hkeeps : Resolve.keeps stage u.category with
      | false =>
          rw [hkeeps] at ht
          exact ih hf predecessor (position + 1) hchecked.2 hknown ht
      | true =>
          rw [hkeeps, if_pos rfl, Field.ofLayers_cons, Walk.layer_transform] at ht
          rw [if_pos rfl]
          have hproper : (Mention.call t).Proper := trivial
          have hnode := adds_node hproper hf u ⟨u.name, position, path ++ [position]⟩
            (Layer.operandTarget u (Layer.expected target
              (Walk.layers registry stage path (position + 1) rest))) node
            (fun c hc => nested_adds hproper c (hchecked.1 c hc)) hcount
          simp only [List.mem_cons, List.mem_append, Walk.ofNode_eq]
          rcases ih hnode node.name (position + 1) hchecked.2 hknown ht with
            he | (⟨hbefore, -⟩ | hsame | hbinding) | ⟨v, hv, hfunction⟩
          · exact .inl he
          · exact .inr (.inl hbefore)
          · cases hsame
            exact .inr (.inr ⟨_, .inl rfl, rfl⟩)
          · obtain ⟨v, hv, hfunction⟩ :=
              exists_visit_of_binding _ u.slots hchecked.1 hcount hbinding
            exact .inr (.inr ⟨v, .inr (.inl hv), hfunction⟩)
          · exact .inr (.inr ⟨v, .inr (.inr hv), hfunction⟩)

theorem Chain.calls_subset_functions {c : Chain} (hc : AllChecked registry c) (stage : Stage)
    (target : ValueType) (resources : Resources) :
    (Compiled.ofLayers c.getter target (c.layers registry stage) resources).body.calls ⊆
      (c.resources registry stage).functions := by
  intro t ht
  have hbody := (Typed.mentions_finish (m := .call t) trivial _ _ _).mp ht
  have hvisit := exists_visit_of_calls Field.adds_identity stage [] "" 0 target c.nodes
    (fun node hnode d hd => hc.nested hnode hd) (fun node hnode => hc.find? hnode) hbody
  rcases hvisit with hbase | hnone | hvisit
  · exact absurd hbase (not_mentions_baseCoordinate trivial)
  · exact hnone.elim
  · exact mem_functions_resources.mpr hvisit

end Visited

end ShaderChain
