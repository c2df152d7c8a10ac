import ShaderChain.Proofs.Chain.Numbering
import ShaderChain.Proofs.Script.Construction

/-! The numbers that are taken when a chain is built from an outline. A number is taken wherever a
chain is started, whether or not the construction goes on from there. -/

namespace ShaderChain

namespace Outline

mutual

/-- How many chains an outline holds, itself included. -/
def chainCount : Outline → Nat
  | ⟨ops, _⟩ => opsChainCount ops + 1

def opsChainCount : List Op → Nat
  | [] => 0
  | ⟨_, args⟩ :: rest => argsChainCount args + opsChainCount rest

def argsChainCount : List Arg → Nat
  | [] => 0
  | arg :: rest => argChainCount arg + argsChainCount rest

def argChainCount : Arg → Nat
  | .number _ => 0
  | .uniform _ => 0
  | .texture _ => 0
  | .chain outline => chainCount outline

end

/-- Whether a chain is started at a site: an op without others before it has the name of a root. How
many arguments it has is looked at later. -/
def Site.starts (registry : Registry) (site : Site) : Bool :=
  match site.check with
  | .placed [] op => (registry.find? op.op).any (·.category.isRoot)
  | _ => false

def started (registry : Registry) (sites : List Site) : Nat :=
  sites.countP (Site.starts registry)

section Started

variable (registry : Registry)

theorem started_nil : started registry [] = 0 := rfl

theorem started_append (front back : List Site) :
    started registry (front ++ back) = started registry front + started registry back :=
  List.countP_append

theorem started_cons (site : Site) (rest : List Site) :
    started registry (site :: rest) = started registry [site] + started registry rest :=
  started_append registry [site] rest

theorem started_map_under (step : Step) (sites : List Site) :
    started registry (sites.map (.under step)) = started registry sites :=
  List.countP_map

theorem started_nonempty (path : List Step) (ops : List Op) :
    started registry [⟨path, .nonempty ops⟩] = 0 := rfl

theorem started_getterSites (getter : Option String) :
    started registry (getterSites getter) = 0 := by
  cases getter <;> rfl

theorem started_later (path : List Step) {before : List Op} (hne : before ≠ []) (op : Op) :
    started registry [⟨path, .placed before op⟩] = 0 := by
  cases before with
  | nil => exact absurd rfl hne
  | cons => rfl

theorem started_first (path : List Step) (op : Op) :
    started registry [⟨path, .placed [] op⟩] =
      if (registry.find? op.op).any (·.category.isRoot) then 1 else 0 := by
  rw [started, List.countP_singleton]
  rfl

theorem opsSites_cons (before : List Op) (op : Op) (rest : List Op) :
    opsSites before (op :: rest) = (argsSites 0 op.args).map (.under (.op before.length op.op)) ++
      ([⟨[.op before.length op.op], .placed before op⟩] ++ opsSites (before ++ [op]) rest) := by
  rw [opsSites, List.map_append, List.append_assoc]
  rfl

theorem started_opsSites_cons (before : List Op) (op : Op) (rest : List Op) :
    started registry (opsSites before (op :: rest)) = started registry (argsSites 0 op.args) +
      started registry [⟨[.op before.length op.op], .placed before op⟩] +
        started registry (opsSites (before ++ [op]) rest) := by
  rw [opsSites_cons, started_append, started_append, started_map_under, Nat.add_assoc]

end Started

/-- How a computation that makes these checks takes numbers from `n` on: one wherever a chain is
started, up to the first check that fails. -/
structure Takes (registry : Registry) (sites : List Site) (n : ChainId) (Q : α → Prop)
    (x : Build α) : Prop where
  ok : ∀ group a after, x.run ⟨n, group⟩ = (.ok a, after) →
    after = ⟨n + started registry sites, group⟩ ∧ Q a
  error : ∀ group before site rest, sites = before ++ site :: rest →
    (∀ s ∈ before, s.check.Holds registry) → ¬site.check.Holds registry →
    (x.run ⟨n, group⟩).2 = ⟨n + started registry (before ++ [site]), group⟩

section Takes

variable {registry : Registry} {sites rest : List Site} {n : ChainId} {P Q : α → Prop}
  {R : β → Prop}

theorem takes_pure {a : α} (ha : Q a) : Takes registry [] n Q (pure a) where
  ok := by
    intro group b after hrun
    obtain ⟨hb, rfl⟩ := Prod.mk.inj hrun
    cases hb
    exact ⟨rfl, ha⟩
  error := by
    intro group before site rest hsites
    simp at hsites

/-- A single check leaves the counters the same whether it holds or not. -/
theorem takes_single {site : Site} {x : Build α}
    (hstate : ∀ group, (x.run ⟨n, group⟩).2 = ⟨n + started registry [site], group⟩)
    (hok : ∀ group a after, x.run ⟨n, group⟩ = (.ok a, after) → Q a) :
    Takes registry [site] n Q x where
  ok := by
    intro group a after hrun
    have hafter := hstate group
    rw [hrun] at hafter
    exact ⟨hafter, hok group a after hrun⟩
  error := by
    intro group before s rest hsites _ _
    obtain ⟨rfl, rfl, rfl⟩ : before = [] ∧ s = site ∧ rest = [] := by
      cases before <;> simp_all
    exact hstate group

/-- A site in two lists of sites is in the first or in the second. -/
theorem split_append {before later : List Site} {site : Site}
    (hsplit : sites ++ rest = before ++ site :: later) :
    (∃ more, sites = before ++ site :: more) ∨
      ∃ front, before = sites ++ front ∧ rest = front ++ site :: later := by
  rcases List.append_eq_append_iff.mp hsplit with ⟨front, hbefore, hrest⟩ | ⟨more, hsites, hlater⟩
  · exact .inr ⟨front, hbefore, hrest⟩
  · cases more with
    | nil => exact .inr ⟨[], by simpa using hsites.symm, by simpa using hlater.symm⟩
    | cons first more =>
        obtain ⟨rfl, -⟩ := List.cons.inj hlater
        exact .inl ⟨more, hsites⟩

theorem Takes.bind {x : Build α} {f : α → Build β} (hx : Takes registry sites n Q x)
    (hchecks : Checks registry sites P x)
    (hf : ∀ a, P a → Q a → Takes registry rest (n + started registry sites) R (f a)) :
    Takes registry (sites ++ rest) n R (x >>= f) where
  ok := by
    intro group b after hrun
    have houtcome := hchecks ⟨n, group⟩
    rw [run_bind] at hrun
    cases hx' : x.run ⟨n, group⟩ with
    | mk answer middle =>
        rw [hx'] at hrun houtcome
        cases houtcome with
        | error => cases hrun
        | @ok a _ ha =>
            obtain ⟨rfl, hq⟩ := hx.ok group a middle hx'
            rw [started_append, ← Nat.add_assoc]
            exact (hf a ha hq).ok group b after hrun
  error := by
    intro group before site later hsplit hbefore hsite
    have houtcome := hchecks ⟨n, group⟩
    rw [run_bind]
    cases hx' : x.run ⟨n, group⟩ with
    | mk answer middle =>
        rw [hx'] at houtcome
        rcases split_append hsplit with ⟨more, hsites⟩ | ⟨front, rfl, hrest⟩
        · have hmiddle := hx.error group before site more hsites hbefore hsite
          rw [hx'] at hmiddle
          cases houtcome with
          | ok hholds _ => exact absurd (hholds site (by simp [hsites])) hsite
          | error => exact hmiddle
        · cases houtcome with
          | @error _ _ s _ hfailed _ hreports =>
              exact absurd (hbefore s (by simp [hfailed])) hreports.not_holds
          | @ok a hholds ha =>
              obtain ⟨rfl, hq⟩ := hx.ok group a middle hx'
              rw [List.append_assoc, started_append, ← Nat.add_assoc]
              refine (hf a ha hq).error group front site later hrest (fun s hs => ?_) hsite
              exact hbefore s (List.mem_append_right sites hs)

theorem Takes.adapt {x : Build α} (hx : Takes registry sites n Q x) (step : Step) :
    Takes registry (sites.map (.under step)) n Q (x.adapt step.wrap) where
  ok := by
    intro group a after hrun
    rw [run_adapt] at hrun
    cases hx' : x.run ⟨n, group⟩ with
    | mk answer middle =>
        rw [hx'] at hrun
        cases answer with
        | error => cases hrun
        | ok =>
            cases hrun
            rw [started_map_under]
            exact hx.ok group _ _ hx'
  error := by
    intro group before site rest hsplit hbefore hsite
    obtain ⟨front, back, hsites, rfl, hback⟩ := List.map_eq_append_iff.mp hsplit
    obtain ⟨s, more, rfl, rfl, -⟩ := List.map_eq_cons_iff.mp hback
    have hfront : ∀ t ∈ front, t.check.Holds registry :=
      fun t ht => hbefore (t.under step) (List.mem_map_of_mem ht)
    have hstarted : front.map (.under step) ++ [s.under step] =
        (front ++ [s]).map (.under step) := by rw [List.map_append, List.map_singleton]
    rw [run_adapt, hstarted, started_map_under]
    exact hx.error group front s more hsites hfront hsite

theorem Takes.cons {site : Site} {x : Build α} (hsite : site.check.Holds registry)
    (hstarted : started registry [site] = 0) (hx : Takes registry sites n Q x) :
    Takes registry (site :: sites) n Q x where
  ok := by
    rw [started_cons, hstarted, Nat.zero_add]
    exact hx.ok
  error := by
    intro group before s rest hsites hbefore hfails
    cases before with
    | nil =>
        obtain ⟨rfl, -⟩ := List.cons.inj hsites
        exact absurd hsite hfails
    | cons first before =>
        obtain ⟨rfl, hrest⟩ := List.cons.inj hsites
        rw [List.cons_append, started_cons, hstarted, Nat.zero_add]
        exact hx.error group before s rest hrest (fun t ht => hbefore t (List.mem_cons_of_mem _ ht))
          hfails

theorem takes_throw {site : Site} {e : OutlineError} (hsite : ¬site.check.Holds registry)
    (hstarted : started registry [site] = 0) :
    Takes registry (site :: sites) n Q (throw e : Build α) where
  ok := nofun
  error := by
    intro group before s rest hsites hbefore _
    cases before with
    | nil =>
        obtain ⟨rfl, -⟩ := List.cons.inj hsites
        rw [List.nil_append, hstarted]
        rfl
    | cons first before =>
        obtain ⟨rfl, -⟩ := List.cons.inj hsites
        exact absurd (hbefore site List.mem_cons_self) hsite

end Takes

/-! The numbers of a chain on its way are the first ones taken for it. -/

structure Numbered (first count : Nat) (c : Chain) : Prop where
  ids : c.ids = List.range' first count
  labelled : c.Labelled

/-- The bindings of an op, before it is appended. -/
structure BindingsNumbered (first count : Nat) (bindings : List Binding) : Prop where
  ids : Chain.bindingsIds bindings = List.range' first count
  labelled : ∀ d, .chain d ∈ bindings → Chain.Labelled d

section Numbered

variable {first count more : Nat} {c : Chain} {bindings : List Binding}

theorem numbered_root (hbindings : BindingsNumbered first count bindings) (registry : Registry)
    (name : String) (category : Category) :
    Numbered first (count + 1) ⟨first + count, registry,
      [⟨name, category, bindings, first + count⟩], none⟩ := by
  constructor
  · rw [Chain.ids, Chain.nodesIds, hbindings.ids, List.range'_1_concat]
  · refine Chain.labelled_iff.mpr ⟨?_, ?_⟩
    · intro node hnode
      cases List.mem_singleton.mp hnode
      rfl
    · intro node hnode
      cases List.mem_singleton.mp hnode
      exact hbindings.labelled

theorem Numbered.push (hc : Numbered first count c) (hne : c.nodes ≠ [])
    (hbindings : BindingsNumbered (first + count) more bindings) (name : String)
    (category : Category) :
    Numbered first (count + more)
      { c with nodes := c.nodes ++ [⟨name, category, bindings, c.id⟩] } := by
  obtain ⟨hid, hlabelled⟩ := hc
  obtain ⟨hown, hnested⟩ := Chain.labelled_iff.mp hlabelled
  constructor
  · obtain ⟨node, rest, hnodes⟩ := List.exists_cons_of_ne_nil hne
    rw [Chain.ids_eq, hnodes] at hid ⊢
    rw [← List.range'_append_1, ← hid, ← hbindings.ids]
    simp [Chain.nodesIds_append, Chain.nodesIds_singleton]
  · refine Chain.labelled_iff.mpr ⟨?_, ?_⟩
    · intro node hnode
      rcases List.mem_append.mp hnode with hnode | hnode
      · exact hown node hnode
      · cases List.mem_singleton.mp hnode
        rfl
    · intro node hnode
      rcases List.mem_append.mp hnode with hnode | hnode
      · exact hnested node hnode
      · cases List.mem_singleton.mp hnode
        exact hbindings.labelled

theorem Numbered.withGetter (hc : Numbered first count c) (getter : Option Swizzle) :
    Numbered first count { c with getter } := by
  constructor
  · rw [← hc.ids, Chain.ids_eq, Chain.ids_eq]
  · obtain ⟨hown, hnested⟩ := Chain.labelled_iff.mp hc.labelled
    exact Chain.labelled_iff.mpr ⟨hown, hnested⟩

theorem bindingsNumbered_plain {b : Binding} (hb : ∀ d, b ≠ .chain d) (first : Nat) :
    BindingsNumbered first 0 [b] := by
  constructor
  · cases b with
    | chain d => exact absurd rfl (hb d)
    | literal | signal | texture =>
        rw [Chain.bindingsIds, Chain.bindingIds, Chain.bindingsIds]
        rfl
  · intro d hd
    exact absurd (List.mem_singleton.mp hd).symm (hb d)

theorem bindingsNumbered_chain (hc : Numbered first count c) :
    BindingsNumbered first count [.chain c] := by
  constructor
  · rw [Chain.bindingsIds, Chain.bindingIds, Chain.bindingsIds, List.append_nil, hc.ids]
  · intro d hd
    cases List.mem_singleton.mp hd
    exact hc.labelled

theorem BindingsNumbered.cons {b : Binding} (hb : BindingsNumbered first count [b])
    (hbindings : BindingsNumbered (first + count) more bindings) :
    BindingsNumbered first (count + more) (b :: bindings) := by
  have hids := hb.ids
  rw [Chain.bindingsIds, Chain.bindingsIds, List.append_nil] at hids
  constructor
  · rw [Chain.bindingsIds, hids, hbindings.ids, List.range'_append_1]
  · intro d hd
    rcases List.mem_cons.mp hd with rfl | hd
    · exact hb.labelled d List.mem_cons_self
    · exact hbindings.labelled d hd

end Numbered

/-! The numbers taken by each step of the construction. -/

section Build

variable {registry : Registry} {first count : Nat}

theorem Mirrors.ne_nil {ops : List Op} {c : Chain} (hc : Mirrors registry ops c) : ops ≠ [] := by
  obtain ⟨init, previous, _, _, rfl, _⟩ := hc.exists_last
  exact List.append_ne_nil_of_right_ne_nil init (List.cons_ne_nil previous [])

theorem takes_root {op : Op} {bindings : List Binding}
    (hbindings : BindingsNumbered first count bindings) :
    Takes registry [⟨[.op 0 op.op], .placed [] op⟩] (first + count)
      (Numbered first (count + started registry [⟨[.op 0 op.op], .placed [] op⟩]))
      ((Chain.root registry op.op bindings).adapt (.inOp 0 op.op ∘ .chain)) := by
  rw [started_first]
  apply takes_single
  · intro group
    rw [run_adapt, started_first]
    cases hfind : registry.find? op.op with
    | none =>
        rw [Chain.run_root_of_unknown hfind]
        rfl
    | some t =>
        by_cases hroot : t.category.isRoot
        · rw [Chain.run_root hfind hroot, Option.any_some, if_pos hroot]
        · rw [Chain.run_root_of_not_isRoot hfind hroot, Option.any_some, if_neg hroot]
          rfl
  · intro group c after hrun
    rw [run_adapt] at hrun
    cases hx : (Chain.root registry op.op bindings).run ⟨first + count, group⟩ with
    | mk answer middle =>
        rw [hx] at hrun
        cases answer with
        | error => cases hrun
        | ok =>
            cases hrun
            obtain ⟨t, hfind, hroot, -, rfl⟩ := Chain.root_eq_ok_started hx
            rw [hfind, Option.any_some, if_pos hroot]
            exact numbered_root hbindings registry op.op t.category

theorem takes_andThen {before : List Op} {c : Chain} (hmirrors : Mirrors registry before c)
    (hc : Numbered first count c) {op : Op} {bindings : List Binding} {more : Nat}
    (hbindings : BindingsNumbered (first + count) more bindings) :
    Takes registry [⟨[.op before.length op.op], .placed before op⟩] (first + count + more)
      (Numbered first (count + more))
      ((Build.ofExcept (c.andThen op.op bindings)).adapt (.inOp before.length op.op)) := by
  apply takes_single
  · intro group
    rw [started_later registry _ hmirrors.ne_nil, run_adapt, run_ofExcept]
    rfl
  · intro group next after hrun
    rw [run_adapt, run_ofExcept] at hrun
    cases hnext : c.andThen op.op bindings with
    | error =>
        rw [hnext] at hrun
        cases hrun
    | ok d =>
        rw [hnext] at hrun
        cases hrun
        obtain ⟨t, -, -, hpush⟩ := Chain.andThen_eq_ok hnext
        obtain ⟨-, rfl⟩ := Chain.push_eq_ok hpush
        exact hc.push hmirrors.built.nonempty hbindings op.op t.category

theorem takes_setGetter {c : Chain} (hc : Numbered first count c) (getter : Option String)
    (n : ChainId) :
    Takes registry (getterSites getter) n (Numbered first count) (setGetter c getter) := by
  cases getter with
  | none => exact takes_pure hc
  | some getter =>
      apply takes_single
      · intro group
        rw [setGetter, run_ofExcept]
        rfl
      · intro group next after hrun
        rw [setGetter, run_ofExcept] at hrun
        cases hparse : Swizzle.parse? getter with
        | none =>
            rw [Chain.select_of_none hparse] at hrun
            cases hrun
        | some s =>
            rw [Chain.select_of_some hparse] at hrun
            cases hrun
            exact hc.withGetter (some s)

/-- The chains of an outline take their numbers one after the other. -/
def Numbers (registry : Registry) (o : Outline) : Prop :=
  ∀ n, Takes registry o.sites n (Numbered n (started registry o.sites)) (build registry o)

theorem takes_binding (arg : Arg) (hnested : ∀ inner, arg = .chain inner → Numbers registry inner)
    (index : Nat) (n : ChainId) :
    Takes registry (argSites index arg) n
      (fun b => BindingsNumbered n (started registry (argSites index arg)) [b])
      (binding registry index arg) := by
  cases arg with
  | number | uniform | texture =>
      rw [argSites, binding]
      refine takes_pure (bindingsNumbered_plain (fun d hd => ?_) n)
      cases hd
  | chain inner =>
      rw [argSites, binding, ← List.append_nil (List.map ..)]
      refine ((hnested inner rfl n).adapt (.argument index)).bind
        ((builds registry inner).adapt (.argument index)) fun c _ hc => takes_pure ?_
      rw [List.append_nil, started_map_under]
      exact bindingsNumbered_chain hc

theorem takes_bindings {args : List Arg}
    (hnested : ∀ inner, .chain inner ∈ args → Numbers registry inner) (index : Nat)
    (n : ChainId) :
    Takes registry (argsSites index args) n
      (BindingsNumbered n (started registry (argsSites index args)))
      (bindings registry index args) := by
  induction args generalizing index n with
  | nil =>
      rw [argsSites, bindings]
      exact takes_pure ⟨by rw [Chain.bindingsIds]; rfl, fun _ hd => absurd hd List.not_mem_nil⟩
  | cons arg rest ih =>
      have hchecks := checks_binding arg (fun inner _ => builds registry inner) index
      have hrestChecks := @checks_bindings registry rest (fun inner _ => builds registry inner)
        (index + 1)
      have harg := takes_binding arg (fun inner h => hnested inner (by simp [h])) index n
      have hrest := ih (fun inner h => hnested inner (List.mem_cons_of_mem _ h)) (index + 1)
      rw [argsSites, bindings, started_append, ← List.append_nil (argsSites ..)]
      refine harg.bind hchecks fun b _ hb => (hrest _).bind hrestChecks fun bs _ hbs => ?_
      exact takes_pure (hb.cons (by rwa [List.append_nil]))

theorem takes_appendOps {ops : List Op}
    (hnested : ∀ op ∈ ops, ∀ inner, .chain inner ∈ op.args → Numbers registry inner)
    {before : List Op} {c : Chain} (hmirrors : Mirrors registry before c)
    (hc : Numbered first count c) :
    Takes registry (opsSites before ops) (first + count)
      (Numbered first (count + started registry (opsSites before ops)))
      (appendOps registry c before.length ops) := by
  induction ops generalizing before c count with
  | nil =>
      rw [opsSites, appendOps]
      exact takes_pure hc
  | cons op rest ih =>
      have hchecks := checks_bindings (fun inner (_ : _ ∈ op.args) => builds registry inner) 0
      have hop := takes_bindings (hnested op List.mem_cons_self) 0 (first + count)
      have hlength : before.length + 1 = (before ++ [op]).length := by simp
      have hplaced := started_later registry [.op before.length op.op] hmirrors.ne_nil op
      rw [started_opsSites_cons, opsSites_cons, appendOps, hlength]
      refine (hop.adapt (.op before.length op.op)).bind (hchecks.adapt (.op before.length op.op))
        fun bs hargs hbs => ?_
      rw [started_map_under]
      refine (takes_andThen hmirrors hc hbs).bind (checks_andThen hmirrors hargs)
        fun next hnext hnumbered => ?_
      have hrest := ih (fun op hop => hnested op (List.mem_cons_of_mem _ hop)) hnext hnumbered
      rw [hplaced, Nat.add_zero, Nat.add_zero, Nat.add_assoc first, ← Nat.add_assoc count]
      exact hrest

theorem numbers (registry : Registry) (o : Outline) : Numbers registry o := by
  induction o using nestedInduction with
  | step o ih =>
      obtain ⟨ops, getter⟩ := o
      intro n
      rw [sites_eq, started_cons, started_nonempty, Nat.zero_add, started_append,
        started_getterSites, Nat.add_zero]
      cases ops with
      | nil =>
          rw [build]
          exact takes_throw (fun hne => hne rfl) (started_nonempty registry [] [])
      | cons op rest =>
          have hchecks := checks_bindings (fun inner (_ : _ ∈ op.args) => builds registry inner) 0
          have hop := takes_bindings (ih op List.mem_cons_self) 0 n
          refine Takes.cons (List.cons_ne_nil op rest) (started_nonempty registry [] _) ?_
          rw [started_opsSites_cons, opsSites_cons, build, List.append_assoc, List.append_assoc]
          refine (hop.adapt (.op 0 op.op)).bind (hchecks.adapt (.op 0 op.op)) fun bs hargs hbs => ?_
          rw [started_map_under]
          refine (takes_root hbs).bind (checks_root hargs) fun c hmirrors hc => ?_
          have hrest := takes_appendOps (fun op hop => ih op (List.mem_cons_of_mem _ hop))
            hmirrors hc
          have hrestChecks := checks_appendOps (fun op (_ : op ∈ rest) inner _ =>
            builds registry inner) hmirrors
          rw [Nat.add_assoc n]
          refine hrest.bind hrestChecks fun d _ hd => ?_
          exact takes_setGetter hd getter _

/-! If all checks hold, a number is taken for each chain of the outline. -/

def StartsAll (registry : Registry) (o : Outline) : Prop :=
  (∀ site ∈ o.sites, site.check.Holds registry) → started registry o.sites = o.chainCount

theorem started_argsSites {args : List Arg}
    (hnested : ∀ inner, .chain inner ∈ args → StartsAll registry inner) {index : Nat}
    (hholds : ∀ site ∈ argsSites index args, site.check.Holds registry) :
    started registry (argsSites index args) = argsChainCount args := by
  induction args generalizing index with
  | nil => rw [argsSites, argsChainCount, started_nil]
  | cons arg rest ih =>
      rw [argsSites] at hholds
      have hrest := ih (fun inner h => hnested inner (List.mem_cons_of_mem _ h))
        fun site hsite => hholds site (List.mem_append_right _ hsite)
      rw [argsSites, argsChainCount, started_append, hrest]
      congr 1
      cases arg with
      | number | uniform | texture => rw [argSites, argChainCount, started_nil]
      | chain inner =>
          rw [argSites] at hholds
          rw [argSites, argChainCount, started_map_under]
          refine hnested inner List.mem_cons_self fun site hsite => ?_
          exact hholds (site.under _) (List.mem_append_left _ (List.mem_map_of_mem hsite))

theorem started_argsSites_of_opsSites {before rest : List Op} {op : Op}
    (hnested : ∀ inner, .chain inner ∈ op.args → StartsAll registry inner)
    (hholds : ∀ site ∈ opsSites before (op :: rest), site.check.Holds registry) :
    started registry (argsSites 0 op.args) = argsChainCount op.args := by
  rw [opsSites_cons] at hholds
  refine started_argsSites hnested fun site hsite => ?_
  exact hholds (site.under _) (List.mem_append_left _ (List.mem_map_of_mem hsite))

theorem started_opsSites {ops : List Op}
    (hnested : ∀ op ∈ ops, ∀ inner, .chain inner ∈ op.args → StartsAll registry inner)
    {before : List Op} (hne : before ≠ [])
    (hholds : ∀ site ∈ opsSites before ops, site.check.Holds registry) :
    started registry (opsSites before ops) = opsChainCount ops := by
  induction ops generalizing before with
  | nil => rw [opsSites, opsChainCount, started_nil]
  | cons op rest ih =>
      have hargs := started_argsSites_of_opsSites (hnested op List.mem_cons_self) hholds
      have hrest := ih (fun op hop => hnested op (List.mem_cons_of_mem _ hop))
        (List.append_ne_nil_of_left_ne_nil hne [op]) (fun site hsite => hholds site (by
          rw [opsSites_cons]
          exact List.mem_append_right _ (List.mem_append_right _ hsite)))
      rw [started_opsSites_cons, started_later registry _ hne, hargs, hrest, opsChainCount,
        Nat.add_zero]

theorem startsAll (registry : Registry) (o : Outline) : StartsAll registry o := by
  induction o using nestedInduction with
  | step o ih =>
      obtain ⟨ops, getter⟩ := o
      intro hholds
      rw [sites_eq] at hholds
      rw [sites_eq, started_cons, started_nonempty, Nat.zero_add, started_append,
        started_getterSites, Nat.add_zero, chainCount]
      cases ops with
      | nil => exact absurd rfl (hholds _ List.mem_cons_self)
      | cons op rest =>
          have hops : ∀ site ∈ opsSites [] (op :: rest), site.check.Holds registry :=
            fun site hsite => hholds site (List.mem_cons_of_mem _ (List.mem_append_left _ hsite))
          have hargs := started_argsSites_of_opsSites (ih op List.mem_cons_self) hops
          rw [opsSites_cons] at hops
          have hrest := started_opsSites (fun op hop => ih op (List.mem_cons_of_mem _ hop))
            (List.cons_ne_nil op []) fun site hsite =>
              hops site (List.mem_append_right _ (List.mem_append_right _ hsite))
          obtain ⟨t, hfind, hfits, -⟩ := hops ⟨[.op 0 op.op], .placed [] op⟩ (by simp)
          have hroot : t.category.isRoot := hfits
          rw [started_opsSites_cons, started_first, hfind, Option.any_some, if_pos hroot, hargs,
            List.nil_append, hrest, opsChainCount, Nat.add_right_comm]

end Build

/-- What numbers are taken to build a chain: as many as there are chains in the outline, and if the
construction fails, one wherever a chain was started before, or at the check that failed. -/
structure TakesNumbers (registry : Registry) (o : Outline) (counters : Counters)
    (answer : Except OutlineError Chain) (after : Counters) : Prop where
  accepted : ∀ c, answer = .ok c →
    after = { counters with chain := counters.chain + o.chainCount } ∧
      (c.subchains.map (·.id)).Perm (List.range' counters.chain o.chainCount) ∧
      c.Labelled ∧ ∀ d, c.Contains d → d.Between
  failed : ∀ e, answer = .error e → ∃ before site rest cause, o.sites = before ++ site :: rest ∧
    (∀ s ∈ before, s.check.Holds registry) ∧ site.check.Reports registry cause ∧
      e = site.locate cause ∧
      after = { counters with chain := counters.chain + started registry (before ++ [site]) }

theorem build_takesNumbers (registry : Registry) (o : Outline) (counters : Counters) :
    TakesNumbers registry o counters ((build registry o).run counters).1
      ((build registry o).run counters).2 := by
  obtain ⟨n, group⟩ := counters
  have houtcome := builds registry o ⟨n, group⟩
  have htakes := numbers registry o n
  cases hrun : (build registry o).run ⟨n, group⟩ with
  | mk answer after =>
      rw [hrun] at houtcome
      cases houtcome with
      | @ok c hholds _ =>
          obtain ⟨hafter, hc⟩ := htakes.ok group c after hrun
          rw [startsAll registry o hholds] at hafter hc
          refine ⟨fun d hd => ?_, nofun⟩
          cases hd
          have hsorted : c.ids.Pairwise (· < ·) := hc.ids ▸ List.pairwise_lt_range'
          refine ⟨hafter, ?_, hc.labelled, fun d => Chain.between_of_pairwise hsorted⟩
          exact hc.ids ▸ Chain.perm_ids c
      | @error before rest site cause hsites hbefore hreports =>
          refine ⟨nofun, fun e he => ?_⟩
          cases he
          have hafter := htakes.error group before site rest hsites hbefore hreports.not_holds
          rw [hrun] at hafter
          exact ⟨before, site, rest, cause, hsites, hbefore, hreports, rfl, hafter⟩

-- The nested chain is the first, and the outer one uses up the second number although it fails.
example :
    (build .sample ⟨[⟨"osc", [.chain ⟨[⟨"osc", []⟩], none⟩, .number 1.0, .number 1.0,
        .number 1.0]⟩], none⟩).run {} =
      (.error (.inOp 0 "osc" (.chain (.tooManyArguments "osc" 3 4))), ⟨3, 0⟩) := rfl

end Outline

end ShaderChain
