import ShaderChain.Proofs.Chain.Builder
import ShaderChain.Proofs.Script.Sites

/-! The construction of chains from outlines. It makes all checks of an outline in order, and stops
at the first that fails. -/

namespace ShaderChain

/-! The outline of a chain. A chain with a live signal has none. -/

namespace Chain

open Outline (Op Arg)

mutual

def outline? : Chain → Option Outline
  | ⟨_, _, nodes, getter⟩ => do return ⟨← nodesOps? nodes, getter.map Swizzle.text⟩

def nodesOps? : List Node → Option (List Op)
  | [] => some []
  | ⟨name, _, bindings, _⟩ :: rest => do
      let args ← bindingsArgs? bindings
      return ⟨name, args⟩ :: (← nodesOps? rest)

def bindingsArgs? : List Binding → Option (List Arg)
  | [] => some []
  | b :: rest => do
      let arg ← bindingArg? b
      return arg :: (← bindingsArgs? rest)

def bindingArg? : Binding → Option Arg
  | .literal value => some (.number value)
  | .signal (.constant value) => some (.uniform value)
  | .signal (.live _) => none
  | .texture name => some (.texture name)
  | .chain c => (outline? c).map .chain

end

theorem outline?_eq (c : Chain) :
    c.outline? = (nodesOps? c.nodes).map fun ops => ⟨ops, c.getter.map Swizzle.text⟩ := by
  cases c
  rw [outline?]
  cases nodesOps? _ <;> rfl

theorem bindingsArgs?_cons_eq_some {b : Binding} {rest : List Binding} {args : List Arg} :
    bindingsArgs? (b :: rest) = some args ↔ ∃ arg others, bindingArg? b = some arg ∧
      bindingsArgs? rest = some others ∧ args = arg :: others := by
  rw [bindingsArgs?]
  cases bindingArg? b <;> cases bindingsArgs? rest <;> simp [eq_comm]

theorem nodesOps?_cons_eq_some {node : Node} {rest : List Node} {ops : List Op} :
    nodesOps? (node :: rest) = some ops ↔ ∃ args others, bindingsArgs? node.bindings = some args ∧
      nodesOps? rest = some others ∧ ops = ⟨node.name, args⟩ :: others := by
  rw [nodesOps?]
  cases bindingsArgs? node.bindings <;> cases nodesOps? rest <;> simp [eq_comm]

theorem length_of_bindingsArgs? {bindings : List Binding} {args : List Arg}
    (hargs : bindingsArgs? bindings = some args) : bindings.length = args.length := by
  induction bindings generalizing args with
  | nil =>
      rw [bindingsArgs?] at hargs
      cases hargs
      rfl
  | cons b rest ih =>
      obtain ⟨arg, others, -, hothers, rfl⟩ := bindingsArgs?_cons_eq_some.mp hargs
      rw [List.length_cons, List.length_cons, ih hothers]

theorem nodesOps?_concat {nodes : List Node} {ops : List Op} {node : Node} {args : List Arg}
    (hnodes : nodesOps? nodes = some ops) (hargs : bindingsArgs? node.bindings = some args) :
    nodesOps? (nodes ++ [node]) = some (ops ++ [⟨node.name, args⟩]) := by
  induction nodes generalizing ops with
  | nil =>
      rw [nodesOps?] at hnodes
      cases hnodes
      exact nodesOps?_cons_eq_some.mpr ⟨args, [], hargs, by rw [nodesOps?], rfl⟩
  | cons first rest ih =>
      obtain ⟨firstArgs, others, hfirst, hothers, rfl⟩ := nodesOps?_cons_eq_some.mp hnodes
      exact nodesOps?_cons_eq_some.mpr ⟨firstArgs, _, hfirst, ih hothers, rfl⟩

theorem names_of_nodesOps? {nodes : List Node} {ops : List Op}
    (hnodes : nodesOps? nodes = some ops) : nodes.map (·.name) = ops.map (·.op) := by
  induction nodes generalizing ops with
  | nil =>
      rw [nodesOps?] at hnodes
      cases hnodes
      rfl
  | cons first rest ih =>
      obtain ⟨args, others, -, hothers, rfl⟩ := nodesOps?_cons_eq_some.mp hnodes
      rw [List.map_cons, List.map_cons, ih hothers]

/-! How a chain is started if its name is not that of a root. -/

theorem run_root_of_unknown {registry : Registry} {name : String}
    (hfind : registry.find? name = none) (args : List Binding) (counters : Counters) :
    (root registry name args).run counters = (.error (.unknownOperation name), counters) := by
  unfold root lookup
  rw [hfind]
  rfl

theorem run_root_of_not_isRoot {registry : Registry} {name : String} {t : Transform}
    (hfind : registry.find? name = some t) (hroot : ¬t.category.isRoot) (args : List Binding)
    (counters : Counters) :
    (root registry name args).run counters = (.error (.notARoot name t.category), counters) := by
  unfold root lookup
  simp only [hfind, Update.lift_ok_bind, hroot]
  rfl

theorem Built.exists_nodeBuilt {registry : Registry} {c : Chain} (hc : Built registry c)
    {node : Node} (hnode : node ∈ c.nodes) : ∃ t, NodeBuilt registry c.id node t := by
  obtain ⟨first, rest, t, hnodes, hfirst, -⟩ := hc.first
  have hlater := hc.later
  rw [hnodes, List.tail_cons] at hlater
  rw [hnodes, List.mem_cons] at hnode
  rcases hnode with rfl | hnode
  · exact ⟨t, hfirst⟩
  · obtain ⟨u, hu, -⟩ := hlater node hnode
    exact ⟨u, hu⟩

end Chain

namespace Outline

/-- An answer of a computation that makes these checks, one after the other. -/
inductive Outcome (registry : Registry) (sites : List Site) (P : α → Prop) :
    Except OutlineError α → Prop
  | ok {a : α} (hsites : ∀ site ∈ sites, site.check.Holds registry) (ha : P a) :
      Outcome registry sites P (.ok a)
  | error {before after : List Site} {site : Site} {cause : OutlineError}
      (hsites : sites = before ++ site :: after)
      (hbefore : ∀ s ∈ before, s.check.Holds registry)
      (hreports : site.check.Reports registry cause) :
      Outcome registry sites P (.error (site.locate cause))

def Checks (registry : Registry) (sites : List Site) (P : α → Prop) (x : Build α) : Prop :=
  ∀ counters, Outcome registry sites P (x.run counters).1

section Checks

variable {registry : Registry} {sites rest : List Site} {P : α → Prop} {Q : β → Prop}

theorem Outcome.single_ok {site : Site} {a : α} (hsite : site.check.Holds registry) (ha : P a) :
    Outcome registry [site] P (.ok a) :=
  .ok (fun _ hs => List.mem_singleton.mp hs ▸ hsite) ha

theorem Outcome.single_error {site : Site} {cause : OutlineError}
    (hreports : site.check.Reports registry cause) :
    Outcome registry [site] P (.error (site.locate cause)) :=
  .error (List.nil_append [site]).symm nofun hreports

theorem checks_pure {a : α} (ha : P a) : Checks registry [] P (pure a) :=
  fun _ => .ok nofun ha

theorem run_bind (x : Build α) (f : α → Build β) (counters : Counters) :
    (x >>= f).run counters = ExceptT.bindCont f (x.run counters).1 (x.run counters).2 := rfl

theorem Checks.bind {x : Build α} {f : α → Build β} (hx : Checks registry sites P x)
    (hf : ∀ a, P a → Checks registry rest Q (f a)) :
    Checks registry (sites ++ rest) Q (x >>= f) := by
  intro counters
  have houtcome := hx counters
  rw [run_bind]
  generalize (x.run counters).1 = answer at houtcome
  cases houtcome with
  | @ok a hsites ha =>
      have hnext := hf a ha (x.run counters).2
      change Outcome registry (sites ++ rest) Q ((f a).run (x.run counters).2).1
      generalize ((f a).run (x.run counters).2).1 = answer at hnext
      cases hnext with
      | ok hrest hb =>
          refine .ok ?_ hb
          intro site hsite
          rcases List.mem_append.mp hsite with hsite | hsite
          · exact hsites site hsite
          · exact hrest site hsite
      | @error before after site cause hrest hbefore hreports =>
          have hsplit : sites ++ rest = (sites ++ before) ++ site :: after := by
            rw [hrest, List.append_assoc]
          refine .error hsplit ?_ hreports
          intro s hs
          rcases List.mem_append.mp hs with hs | hs
          · exact hsites s hs
          · exact hbefore s hs
  | @error before after site cause hsites hbefore hreports =>
      have hsplit : sites ++ rest = before ++ site :: (after ++ rest) := by
        rw [hsites, List.append_assoc, List.cons_append]
      exact .error hsplit hbefore hreports

theorem run_adapt {ε : Type} (x : Fresh ε α) (f : ε → OutlineError) (counters : Counters) :
    (x.adapt f).run counters = ((x.run counters).1.mapError f, (x.run counters).2) := rfl

/-- What is checked within an op or an argument has one more step on its way. -/
theorem Checks.adapt {x : Build α} (hx : Checks registry sites P x) (step : Step) :
    Checks registry (sites.map (.under step)) P (x.adapt step.wrap) := by
  intro counters
  have houtcome := hx counters
  rw [run_adapt]
  generalize (x.run counters).1 = answer at houtcome
  cases houtcome with
  | ok hsites ha =>
      refine .ok ?_ ha
      intro site hsite
      obtain ⟨s, hs, rfl⟩ := List.mem_map.mp hsite
      exact hsites s hs
  | @error before after site cause hsites hbefore hreports =>
      have hsplit : sites.map (.under step) =
          before.map (.under step) ++ site.under step :: after.map (.under step) := by
        rw [hsites, List.map_append, List.map_cons]
      refine Outcome.error hsplit ?_ hreports
      intro s hs
      obtain ⟨t, ht, rfl⟩ := List.mem_map.mp hs
      exact hbefore t ht

theorem Checks.cons {site : Site} {x : Build α} (hsite : site.check.Holds registry)
    (hx : Checks registry sites P x) : Checks registry (site :: sites) P x := by
  have hhead : Checks registry [site] (fun _ : Unit => True) (pure ()) :=
    fun _ => .single_ok hsite trivial
  exact hhead.bind (f := fun _ => x) fun _ _ => hx

end Checks

/-- A chain on its way: it has nodes for these ops, and no getter yet. -/
structure Mirrors (registry : Registry) (ops : List Op) (c : Chain) : Prop where
  built : c.Built registry
  nodes : Chain.nodesOps? c.nodes = some ops
  getter : c.getter = none

theorem Mirrors.exists_last {registry : Registry} {ops : List Op} {c : Chain}
    (hc : Mirrors registry ops c) :
    ∃ before previous last u, ops = before ++ [previous] ∧ c.nodes.getLast? = some last ∧
      c.nodes.length = before.length + 1 ∧ last.name = previous.op ∧ last.category = u.category ∧
      registry.find? previous.op = some u := by
  have hnames := Chain.names_of_nodesOps? hc.nodes
  have hlast := List.getLast?_eq_some_getLast hc.built.nonempty
  obtain ⟨u, hu⟩ := hc.built.exists_nodeBuilt (List.mem_of_getLast? hlast)
  obtain ⟨init, hnodes⟩ := List.getLast?_eq_some_iff.mp hlast
  rw [hnodes, List.map_append, eq_comm, List.map_eq_append_iff] at hnames
  obtain ⟨before, final, hops, hbefore, hfinal⟩ := hnames
  obtain ⟨previous, rfl, hname⟩ := List.map_eq_singleton_iff.mp hfinal
  have hlength := congrArg List.length hbefore
  rw [List.length_map, List.length_map] at hlength
  refine ⟨before, previous, _, u, hops, hlast, ?_, hname.symm, hu.category, hname ▸ hu.found⟩
  rw [hnodes, List.length_append, hlength, List.length_singleton]

theorem checks_root {registry : Registry} {op : Op} {bindings : List Binding}
    (hargs : Chain.bindingsArgs? bindings = some op.args) :
    Checks registry [⟨[.op 0 op.op], .placed [] op⟩] (Mirrors registry [op])
      ((Chain.root registry op.op bindings).adapt (.inOp 0 op.op ∘ .chain)) := by
  have hlength := Chain.length_of_bindingsArgs? hargs
  intro counters
  rw [run_adapt]
  cases hfind : registry.find? op.op with
  | none =>
      rw [Chain.run_root_of_unknown hfind]
      exact .single_error (.unknown hfind)
  | some t =>
      by_cases hroot : t.category.isRoot
      · rw [Chain.run_root hfind hroot]
        rcases Nat.lt_or_ge t.slots.length bindings.length with hcount | hcount
        · rw [Chain.push_of_lt hcount, hlength]
          exact .single_error (.count hfind hroot (hlength ▸ hcount))
        · have hrun := Chain.run_root hfind hroot bindings counters
          rw [Chain.push_of_le hcount] at hrun ⊢
          refine .single_ok ⟨t, hfind, hroot, hlength ▸ hcount⟩ ⟨Chain.built_root hrun, ?_, rfl⟩
          exact Chain.nodesOps?_cons_eq_some.mpr ⟨op.args, [], hargs, by rw [Chain.nodesOps?], rfl⟩
      · rw [Chain.run_root_of_not_isRoot hfind hroot]
        exact .single_error (.notARoot hfind hroot)

theorem run_ofExcept (x : Except ChainError α) (counters : Counters) :
    (Build.ofExcept x).run counters = (x.mapError .chain, counters) := by
  cases x <;> rfl

theorem fits_of_ne_nil {before : List Op} (hne : before ≠ []) (t : Transform) :
    Fits t before ↔ ¬(t.category = .source ∨ t.category = .vertex) := by
  cases before with
  | nil => exact absurd rfl hne
  | cons => exact Iff.rfl

theorem checks_andThen {registry : Registry} {before : List Op} {c : Chain}
    (hc : Mirrors registry before c) {op : Op} {bindings : List Binding}
    (hargs : Chain.bindingsArgs? bindings = some op.args) :
    Checks registry [⟨[.op before.length op.op], .placed before op⟩]
      (Mirrors registry (before ++ [op]))
      ((Build.ofExcept (c.andThen op.op bindings)).adapt (.inOp before.length op.op)) := by
  have hlength := Chain.length_of_bindingsArgs? hargs
  have hanswers := hc.built.answers op.op bindings
  obtain ⟨init, previous, last, u, rfl, hlast, hcount, hname, hcategory, hprevious⟩ :=
    hc.exists_last
  have hfits := fits_of_ne_nil (List.append_ne_nil_of_right_ne_nil init (List.cons_ne_nil previous []))
  intro counters
  rw [run_adapt, run_ofExcept]
  cases hfind : registry.find? op.op with
  | none =>
      rw [hanswers.unknown hfind]
      exact .single_error (.unknown hfind)
  | some t =>
      by_cases hposition : t.category = .source ∨ t.category = .vertex
      · obtain ⟨last', hlast', herror⟩ := hanswers.position t hfind hposition
        cases hlast.symm.trans hlast'
        rw [herror, hname, hcategory, hcount]
        exact .single_error (.position hfind hposition hprevious)
      · rcases Nat.lt_or_ge t.slots.length bindings.length with hcount | hcount
        · rw [hanswers.count t hfind hposition hcount, hlength]
          exact .single_error (.count hfind ((hfits t).mpr hposition) (hlength ▸ hcount))
        · have hnext := hanswers.accepted t hfind hposition hcount
          rw [hnext]
          have hcall : (Chain.Call.andThen op.op bindings).apply c = .ok _ := hnext
          refine .single_ok ⟨t, hfind, (hfits t).mpr hposition, hlength ▸ hcount⟩ ?_
          exact ⟨hc.built.apply hcall, Chain.nodesOps?_concat hc.nodes hargs, hc.getter⟩

theorem checks_setGetter {registry : Registry} {ops : List Op} {c : Chain}
    (hc : Mirrors registry ops c) (getter : Option String) :
    Checks registry (getterSites getter) (fun c => c.outline? = some ⟨ops, getter⟩)
      (setGetter c getter) := by
  cases getter with
  | none =>
      apply checks_pure
      rw [Chain.outline?_eq, hc.nodes, hc.getter]
      rfl
  | some getter =>
      intro counters
      rw [setGetter, run_ofExcept]
      cases hparse : Swizzle.parse? getter with
      | none =>
          rw [Chain.select_of_none hparse]
          refine .single_error (.swizzle ?_)
          intro hselects
          obtain ⟨s, hs⟩ := (Swizzle.selects_iff getter).mp hselects
          cases hparse.symm.trans hs
      | some s =>
          rw [Chain.select_of_some hparse]
          refine .single_ok ((Swizzle.selects_iff getter).mpr ⟨s, hparse⟩) ?_
          rw [Chain.outline?_eq, hc.nodes, ← Swizzle.parse?_eq_some_iff.mp hparse]
          rfl

/-- The checks of an outline are made, and a chain is built that has this outline. -/
def Builds (registry : Registry) (o : Outline) : Prop :=
  Checks registry o.sites (fun c => c.outline? = some o) (build registry o)

theorem checks_binding {registry : Registry} (arg : Arg)
    (hnested : ∀ inner, arg = .chain inner → Builds registry inner) (index : Nat) :
    Checks registry (argSites index arg) (fun b => Chain.bindingArg? b = some arg)
      (binding registry index arg) := by
  cases arg with
  | number value =>
      rw [argSites, binding]
      exact checks_pure (by rw [Chain.bindingArg?])
  | uniform value =>
      rw [argSites, binding]
      exact checks_pure (by rw [Chain.bindingArg?])
  | texture name =>
      rw [argSites, binding]
      exact checks_pure (by rw [Chain.bindingArg?])
  | chain inner =>
      rw [argSites, binding, ← List.append_nil (List.map ..)]
      refine ((hnested inner rfl).adapt (.argument index)).bind fun c hc => checks_pure ?_
      rw [Chain.bindingArg?, hc]
      rfl

theorem checks_bindings {registry : Registry} {args : List Arg}
    (hnested : ∀ inner, .chain inner ∈ args → Builds registry inner) (index : Nat) :
    Checks registry (argsSites index args) (fun bs => Chain.bindingsArgs? bs = some args)
      (bindings registry index args) := by
  induction args generalizing index with
  | nil =>
      rw [argsSites, bindings]
      exact checks_pure (by rw [Chain.bindingsArgs?])
  | cons arg rest ih =>
      rw [argsSites, bindings, ← List.append_nil (argsSites ..)]
      have harg := checks_binding arg (fun inner h => hnested inner (by simp [h])) index
      have hrest := ih (fun inner h => hnested inner (List.mem_cons_of_mem _ h)) (index + 1)
      refine harg.bind fun b hb => hrest.bind fun bs hbs => checks_pure ?_
      exact Chain.bindingsArgs?_cons_eq_some.mpr ⟨arg, rest, hb, hbs, rfl⟩

theorem checks_appendOps {registry : Registry} {ops : List Op}
    (hnested : ∀ op ∈ ops, ∀ inner, .chain inner ∈ op.args → Builds registry inner)
    {before : List Op} {c : Chain} (hc : Mirrors registry before c) :
    Checks registry (opsSites before ops) (Mirrors registry (before ++ ops))
      (appendOps registry c before.length ops) := by
  induction ops generalizing before c with
  | nil =>
      rw [opsSites, appendOps, List.append_nil]
      exact checks_pure hc
  | cons op rest ih =>
      have hop := checks_bindings (hnested op (List.mem_cons_self ..)) 0
      have hlength : before.length + 1 = (before ++ [op]).length := by simp
      rw [opsSites, appendOps, List.map_append, List.append_assoc]
      refine (hop.adapt (.op before.length op.op)).bind fun bs hbs => ?_
      refine (checks_andThen hc hbs).bind fun next hnext => ?_
      have hrest := ih (fun op hop => hnested op (List.mem_cons_of_mem _ hop)) hnext
      rwa [List.append_assoc, ← hlength] at hrest

theorem builds (registry : Registry) (o : Outline) : Builds registry o := by
  induction o using nestedInduction with
  | step o ih =>
      obtain ⟨ops, getter⟩ := o
      unfold Builds
      rw [sites_eq]
      cases ops with
      | nil =>
          intro counters
          rw [build]
          exact .error (List.nil_append _).symm nofun .noOps
      | cons op rest =>
          have hop := checks_bindings (ih op (List.mem_cons_self ..)) 0
          rw [build, opsSites, List.map_append, List.append_assoc, List.append_assoc]
          refine Checks.cons (List.cons_ne_nil op rest) ?_
          refine (hop.adapt (.op 0 op.op)).bind fun bs hbs => ?_
          refine (checks_root hbs).bind fun first hfirst => ?_
          have hrest := checks_appendOps
            (fun op hop => ih op (List.mem_cons_of_mem _ hop)) hfirst
          exact hrest.bind fun c hc => checks_setGetter hc getter

/-- What is built from an outline: a chain with this outline, if all chains in the outline are
well formed, and otherwise the error of the first check that fails. It names the way to there. -/
structure Answered (registry : Registry) (o : Outline) (answer : Except OutlineError Chain) :
    Prop where
  accepted : (∃ c, answer = .ok c) ↔ ∀ path d, o.LeadsTo path d → d.WellFormed registry
  outline : ∀ c, answer = .ok c → c.outline? = some o
  located : ∀ e, answer = .error e → ∃ before site after cause,
    o.sites = before ++ site :: after ∧ (∀ s ∈ before, s.check.Holds registry) ∧
      ¬site.check.Holds registry ∧ o.HasSite site ∧ site.check.Reports registry cause ∧
      e = site.locate cause ∧
      e.message = ": ".intercalate (site.path.map Step.text ++ [cause.message])

theorem build_answered (registry : Registry) (o : Outline) (counters : Counters) :
    Answered registry o ((build registry o).run counters).1 := by
  have houtcome := builds registry o counters
  generalize ((build registry o).run counters).1 = answer at houtcome
  cases houtcome with
  | @ok c hsites hc =>
      refine ⟨⟨fun _ => holds_sites_iff.mp hsites, fun _ => ⟨c, rfl⟩⟩, fun d hd => ?_, nofun⟩
      cases hd
      exact hc
  | @error before after site cause hsites hbefore hreports =>
      have hsite : site ∈ o.sites := by simp [hsites]
      refine ⟨⟨nofun, fun hformed => ?_⟩, nofun, fun e he => ?_⟩
      · exact absurd (holds_sites_iff.mpr hformed site hsite) hreports.not_holds
      · cases he
        exact ⟨before, site, after, cause, hsites, hbefore, hreports.not_holds,
          mem_sites.mp hsite, hreports, rfl, message_locate site cause⟩

-- The nested chain is looked at before the op that takes it, whose name is not known either.
example :
    ((build .sample ⟨[⟨"osc", []⟩, ⟨"twist", [.number 1.0, .chain ⟨[⟨"osc", []⟩], some "xg"⟩]⟩],
        none⟩).run {}).1 =
      .error (.inOp 1 "twist" (.inArgument 1 (.chain (.invalidSwizzle "xg")))) := rfl

end Outline

end ShaderChain
