import ShaderChain.Proofs.Glsl.Swizzle
import ShaderChain.Script.Outline

/-! The places of an outline where something is checked, in the order in which it is checked, and
what the checks ask for. -/

namespace ShaderChain

namespace Outline

/-- A step from a chain to one of its ops, or from an op to a chain that it takes. -/
inductive Step where
  | op (index : Nat) (name : String)
  | argument (index : Nat)

def Step.text : Step → String
  | .op index name => s!"op #{index} '{name}'"
  | .argument index => s!"nested chain in argument {index}"

def Step.wrap : Step → OutlineError → OutlineError
  | .op index name => .inOp index name
  | .argument index => .inArgument index

inductive Check where
  | nonempty (ops : List Op)
  /-- That an op may come after those before it. -/
  | placed (before : List Op) (op : Op)
  | selects (getter : String)

structure Site where
  path : List Step
  check : Check

namespace Site

def under (step : Step) (site : Site) : Site :=
  { site with path := step :: site.path }

/-- An error with the way to the place where it arises. -/
def locate (site : Site) (cause : OutlineError) : OutlineError :=
  site.path.foldr Step.wrap cause

end Site

theorem message_wrap (step : Step) (cause : OutlineError) :
    (step.wrap cause).message = step.text ++ ": " ++ cause.message := by
  cases step with
  | op index name =>
      have hquote : "': " = "'" ++ ": " := rfl
      calc
        (OutlineError.inOp index name cause).message =
            "op #" ++ toString index ++ " '" ++ name ++ "': " ++ cause.message := rfl
        _ = "op #" ++ toString index ++ " '" ++ name ++ ("'" ++ ": ") ++ cause.message := by
            rw [hquote]
        _ = s!"op #{index} '{name}'" ++ ": " ++ cause.message := by
            rw [← String.append_assoc]
            rfl
  | argument index => rfl

theorem message_locate (site : Site) (cause : OutlineError) :
    (site.locate cause).message =
      ": ".intercalate (site.path.map Step.text ++ [cause.message]) := by
  obtain ⟨path, check⟩ := site
  induction path with
  | nil => rfl
  | cons step path ih =>
      have hne : path.map Step.text ++ [cause.message] ≠ [] := by simp
      rw [List.map_cons, List.cons_append, String.intercalate_cons_of_ne_nil hne, ← ih]
      exact message_wrap step _

/-! The chains in the arguments of an op are looked at before the op itself, and the getter of a
chain is looked at last. -/

def getterSites : Option String → List Site
  | none => []
  | some getter => [⟨[], .selects getter⟩]

mutual

def sites : Outline → List Site
  | ⟨ops, getter⟩ => ⟨[], .nonempty ops⟩ :: (opsSites [] ops ++ getterSites getter)

def opsSites (before : List Op) : List Op → List Site
  | [] => []
  | ⟨op, args⟩ :: rest =>
      (argsSites 0 args ++ [(⟨[], .placed before ⟨op, args⟩⟩ : Site)]).map
          (.under (.op before.length op)) ++
        opsSites (before ++ [⟨op, args⟩]) rest

def argsSites (index : Nat) : List Arg → List Site
  | [] => []
  | arg :: rest => argSites index arg ++ argsSites (index + 1) rest

def argSites (index : Nat) : Arg → List Site
  | .number _ => []
  | .uniform _ => []
  | .texture _ => []
  | .chain outline => (sites outline).map (.under (.argument index))

end

/-- Whether a transform may stand behind these ops. -/
def Fits (t : Transform) : List Op → Prop
  | [] => t.category.isRoot
  | _ :: _ => ¬(t.category = .source ∨ t.category = .vertex)

namespace Check

def Holds (registry : Registry) : Check → Prop
  | .nonempty ops => ops ≠ []
  | .placed before op => ∃ t, registry.find? op.op = some t ∧ Fits t before ∧
      op.args.length ≤ t.slots.length
  | .selects getter => Swizzle.Selects getter

/-- The errors of the checks. An op has the first of its three that applies. -/
inductive Reports (registry : Registry) : Check → OutlineError → Prop
  | noOps : Reports registry (.nonempty []) .noOps
  | unknown {before : List Op} {op : Op} (hfind : registry.find? op.op = none) :
      Reports registry (.placed before op) (.chain (.unknownOperation op.op))
  | notARoot {op : Op} {t : Transform} (hfind : registry.find? op.op = some t)
      (hroot : ¬t.category.isRoot) :
      Reports registry (.placed [] op) (.chain (.notARoot op.op t.category))
  | position {before : List Op} {previous op : Op} {t u : Transform}
      (hfind : registry.find? op.op = some t)
      (hposition : t.category = .source ∨ t.category = .vertex)
      (hprevious : registry.find? previous.op = some u) :
      Reports registry (.placed (before ++ [previous]) op)
        (.chain (.invalidPosition op.op t.category previous.op u.category (before.length + 1)))
  | count {before : List Op} {op : Op} {t : Transform} (hfind : registry.find? op.op = some t)
      (hfits : Fits t before) (hcount : t.slots.length < op.args.length) :
      Reports registry (.placed before op)
        (.chain (.tooManyArguments op.op t.slots.length op.args.length))
  | swizzle {getter : String} (hgetter : ¬Swizzle.Selects getter) :
      Reports registry (.selects getter) (.chain (.invalidSwizzle getter))

theorem Reports.not_holds {registry : Registry} {check : Check} {e : OutlineError}
    (hreports : check.Reports registry e) : ¬check.Holds registry := by
  cases hreports with
  | noOps => exact fun hne => hne rfl
  | unknown hfind =>
      intro ⟨t, ht, _⟩
      cases hfind.symm.trans ht
  | notARoot hfind hroot =>
      intro ⟨t, ht, hfits, _⟩
      cases hfind.symm.trans ht
      exact hroot hfits
  | @position before previous _ _ _ hfind hposition _ =>
      intro ⟨t, ht, hfits, _⟩
      cases hfind.symm.trans ht
      cases before <;> exact hfits hposition
  | count hfind _ hcount =>
      intro ⟨t, ht, _, hle⟩
      cases hfind.symm.trans ht
      exact Nat.not_lt.mpr hle hcount
  | swizzle hgetter => exact hgetter

end Check

/-! Which chains an outline holds, and what is asked of each of them. -/

/-- The way to a chain, from the outside in. -/
inductive LeadsTo : Outline → List Step → Outline → Prop
  | here (o : Outline) : LeadsTo o [] o
  | nested {o inner d : Outline} {before after : List Op} {op : Op} {earlier later : List Arg}
      {path : List Step} (hop : o.ops = before ++ op :: after)
      (harg : op.args = earlier ++ .chain inner :: later) (hinner : LeadsTo inner path d) :
      LeadsTo o (.op before.length op.op :: .argument earlier.length :: path) d

/-- A site belongs to one of the chains: to the chain as a whole, to one of its ops, or to its
getter. -/
inductive HasSite (o : Outline) : Site → Prop
  | nonempty {path : List Step} {d : Outline} (hleads : o.LeadsTo path d) :
      HasSite o ⟨path, .nonempty d.ops⟩
  | placed {path : List Step} {d : Outline} {before after : List Op} {op : Op}
      (hleads : o.LeadsTo path d) (hop : d.ops = before ++ op :: after) :
      HasSite o ⟨path ++ [.op before.length op.op], .placed before op⟩
  | selects {path : List Step} {d : Outline} {getter : String} (hleads : o.LeadsTo path d)
      (hgetter : d.getter = some getter) : HasSite o ⟨path, .selects getter⟩

structure WellFormed (registry : Registry) (o : Outline) : Prop where
  nonempty : o.ops ≠ []
  registered : ∀ op ∈ o.ops, ∃ t, registry.find? op.op = some t
  first : ∀ op ∈ o.ops.head?, ∀ t, registry.find? op.op = some t → t.category.isRoot
  later : ∀ op ∈ o.ops.tail, ∀ t, registry.find? op.op = some t →
    ¬(t.category = .source ∨ t.category = .vertex)
  counts : ∀ op ∈ o.ops, ∀ t, registry.find? op.op = some t → op.args.length ≤ t.slots.length
  getter : ∀ getter ∈ o.getter, Swizzle.Selects getter

theorem sizeOf_nested {o inner : Outline} {op : Op} (hop : op ∈ o.ops)
    (harg : .chain inner ∈ op.args) : sizeOf inner < sizeOf o := by
  obtain ⟨ops, getter⟩ := o
  obtain ⟨name, args⟩ := op
  have hopSize := List.sizeOf_lt_of_mem hop
  have hargSize := List.sizeOf_lt_of_mem harg
  simp only [OpOf.mk.sizeOf_spec, Arg.chain.sizeOf_spec] at hopSize hargSize
  simp only [ChainOf.mk.sizeOf_spec]
  omega

@[elab_as_elim]
theorem nestedInduction {motive : Outline → Prop}
    (step : ∀ o : Outline, (∀ op ∈ o.ops, ∀ inner, .chain inner ∈ op.args → motive inner) →
      motive o)
    (o : Outline) : motive o :=
  step o fun _ hop inner harg =>
    have := sizeOf_nested hop harg
    nestedInduction step inner
termination_by sizeOf o

theorem sites_eq (o : Outline) :
    o.sites = ⟨[], .nonempty o.ops⟩ :: (opsSites [] o.ops ++ getterSites o.getter) := by
  cases o
  rw [sites]

theorem mem_argsSites {index : Nat} {args : List Arg} {site : Site} :
    site ∈ argsSites index args ↔ ∃ earlier inner later, args = earlier ++ .chain inner :: later ∧
      ∃ s ∈ sites inner, s.under (.argument (index + earlier.length)) = site := by
  induction args generalizing index with
  | nil => simp [argsSites]
  | cons arg rest ih =>
      rw [argsSites, List.mem_append, ih]
      constructor
      · rintro (harg | ⟨earlier, inner, later, rfl, s, hs, rfl⟩)
        · cases arg with
          | chain inner =>
              rw [argSites, List.mem_map] at harg
              obtain ⟨s, hs, rfl⟩ := harg
              exact ⟨[], inner, rest, rfl, s, hs, rfl⟩
          | number | uniform | texture =>
              rw [argSites] at harg
              cases harg
        · refine ⟨arg :: earlier, inner, later, rfl, s, hs, ?_⟩
          rw [List.length_cons, Nat.add_right_comm, Nat.add_assoc]
      · rintro ⟨_ | ⟨first, earlier⟩, inner, later, hargs, s, hs, rfl⟩
        · obtain ⟨rfl, -⟩ := List.cons.inj hargs
          rw [argSites]
          exact .inl (List.mem_map_of_mem hs)
        · obtain ⟨rfl, rfl⟩ := List.cons.inj hargs
          refine .inr ⟨earlier, inner, later, rfl, s, hs, ?_⟩
          rw [List.length_cons, Nat.add_right_comm, Nat.add_assoc]

theorem mem_opsSites {done ops : List Op} {site : Site} :
    site ∈ opsSites done ops ↔ ∃ before op after, ops = before ++ op :: after ∧
      ∃ s, (s ∈ argsSites 0 op.args ∨ s = ⟨[], .placed (done ++ before) op⟩) ∧
        s.under (.op (done.length + before.length) op.op) = site := by
  induction ops generalizing done with
  | nil => simp [opsSites]
  | cons op rest ih =>
      have hlength (before : List Op) :
          (done ++ [op]).length + before.length = done.length + (op :: before).length := by
        simp only [List.length_append, List.length_cons, List.length_nil]
        omega
      rw [opsSites, List.mem_append, ih, List.mem_map]
      constructor
      · rintro (⟨s, hs, rfl⟩ | ⟨before, op', after, rfl, s, hs, rfl⟩)
        · refine ⟨[], op, rest, rfl, s, ?_, rfl⟩
          simpa using hs
        · refine ⟨op :: before, op', after, rfl, s, ?_, ?_⟩
          · simpa using hs
          · rw [← hlength]
      · rintro ⟨_ | ⟨first, before⟩, op', after, hops, s, hs, rfl⟩
        · obtain ⟨rfl, rfl⟩ := List.cons.inj hops
          exact .inl ⟨s, by simpa using hs, rfl⟩
        · obtain ⟨rfl, rfl⟩ := List.cons.inj hops
          refine .inr ⟨before, op', after, rfl, s, ?_, ?_⟩
          · simpa using hs
          · rw [← hlength]

theorem HasSite.of_nested {o inner : Outline} {before after : List Op} {op : Op}
    {earlier later : List Arg} (hop : o.ops = before ++ op :: after)
    (harg : op.args = earlier ++ .chain inner :: later) {site : Site}
    (hsite : inner.HasSite site) :
    o.HasSite ((site.under (.argument earlier.length)).under (.op before.length op.op)) := by
  cases hsite with
  | nonempty hleads => exact .nonempty (.nested hop harg hleads)
  | placed hleads hop' => exact .placed (.nested hop harg hleads) hop'
  | selects hleads hgetter => exact .selects (.nested hop harg hleads) hgetter

theorem LeadsTo.mem_sites {o d : Outline} {path own : List Step} {check : Check}
    (hleads : o.LeadsTo path d) (hown : ⟨own, check⟩ ∈ d.sites) :
    ⟨path ++ own, check⟩ ∈ o.sites := by
  induction hleads with
  | here => exact hown
  | @nested o inner d before after op earlier later path hop harg _ ih =>
      have hargs : ⟨.argument earlier.length :: (path ++ own), check⟩ ∈ argsSites 0 op.args := by
        rw [mem_argsSites]
        refine ⟨earlier, inner, later, harg, _, ih hown, ?_⟩
        rw [Nat.zero_add]
        rfl
      rw [sites_eq, List.mem_cons, List.mem_append, mem_opsSites]
      refine .inr (.inl ⟨before, op, after, hop, _, .inl hargs, ?_⟩)
      rw [List.length_nil, Nat.zero_add]
      rfl

theorem mem_sites {o : Outline} {site : Site} : site ∈ o.sites ↔ o.HasSite site := by
  constructor
  · intro hsite
    induction o using nestedInduction generalizing site with
    | step o ih =>
        rw [sites_eq, List.mem_cons, List.mem_append, mem_opsSites] at hsite
        rcases hsite with rfl | ⟨before, op, after, hop, s, hs | rfl, rfl⟩ | hgetter
        · exact .nonempty (.here o)
        · obtain ⟨earlier, inner, later, harg, s, hinner, rfl⟩ := mem_argsSites.mp hs
          rw [List.length_nil, Nat.zero_add, Nat.zero_add]
          exact (ih op (by simp [hop]) inner (by simp [harg]) hinner).of_nested hop harg
        · rw [List.length_nil, Nat.zero_add, List.nil_append]
          exact .placed (.here o) hop
        · cases h : o.getter with
          | none =>
              rw [h] at hgetter
              cases hgetter
          | some getter =>
              rw [h] at hgetter
              cases List.mem_singleton.mp hgetter
              exact .selects (.here o) h
  · intro hsite
    cases hsite with
    | @nonempty path d hleads =>
        have hown : ⟨[], .nonempty d.ops⟩ ∈ d.sites := by simp [sites_eq]
        simpa using hleads.mem_sites hown
    | @placed path d before after op hleads hop =>
        refine hleads.mem_sites ?_
        rw [sites_eq, List.mem_cons, List.mem_append, mem_opsSites]
        refine .inr (.inl ⟨before, op, after, hop, _, .inr rfl, ?_⟩)
        rw [List.length_nil, Nat.zero_add]
        rfl
    | @selects path d getter hleads hgetter =>
        have hown : ⟨[], .selects getter⟩ ∈ d.sites := by simp [sites_eq, hgetter, getterSites]
        simpa using hleads.mem_sites hown

theorem wellFormed_iff {registry : Registry} {o : Outline} :
    o.WellFormed registry ↔ o.ops ≠ [] ∧
      (∀ before op after, o.ops = before ++ op :: after →
        (Check.placed before op).Holds registry) ∧
      ∀ getter, o.getter = some getter → Swizzle.Selects getter := by
  constructor
  · intro ho
    refine ⟨ho.nonempty, fun before op after hop => ?_, ho.getter⟩
    have hmem : op ∈ o.ops := by simp [hop]
    obtain ⟨t, hfind⟩ := ho.registered op hmem
    refine ⟨t, hfind, ?_, ho.counts op hmem t hfind⟩
    cases before with
    | nil => exact ho.first op (by simp [hop]) t hfind
    | cons first before => exact ho.later op (by simp [hop]) t hfind
  · intro ⟨hne, hplaced, hgetter⟩
    have hholds : ∀ op ∈ o.ops, ∃ before, (Check.placed before op).Holds registry := by
      intro op hop
      obtain ⟨before, after, hop⟩ := List.append_of_mem hop
      exact ⟨before, hplaced before op after hop⟩
    refine ⟨hne, fun op hop => ?_, fun op hop t hfind => ?_, fun op hop t hfind => ?_,
      fun op hop t hfind => ?_, hgetter⟩
    · obtain ⟨_, t, hfind, -⟩ := hholds op hop
      exact ⟨t, hfind⟩
    · obtain ⟨rest, hrest⟩ := List.head?_eq_some_iff.mp hop
      obtain ⟨u, hu, hfits, -⟩ := hplaced [] op rest hrest
      cases hfind.symm.trans hu
      exact hfits
    · obtain ⟨first, rest, hrest⟩ := List.exists_cons_of_ne_nil hne
      rw [hrest, List.tail_cons] at hop
      obtain ⟨before, after, rfl⟩ := List.append_of_mem hop
      obtain ⟨u, hu, hfits, -⟩ := hplaced (first :: before) op after hrest
      cases hfind.symm.trans hu
      exact hfits
    · obtain ⟨_, u, hu, -, hcount⟩ := hholds op hop
      cases hfind.symm.trans hu
      exact hcount

theorem holds_sites_iff {registry : Registry} {o : Outline} :
    (∀ site ∈ o.sites, site.check.Holds registry) ↔
      ∀ path d, o.LeadsTo path d → d.WellFormed registry := by
  simp only [mem_sites, wellFormed_iff]
  constructor
  · intro hholds path d hleads
    exact ⟨hholds _ (.nonempty hleads), fun _ _ _ hop => hholds _ (.placed hleads hop),
      fun _ hgetter => hholds _ (.selects hleads hgetter)⟩
  · intro hformed site hsite
    cases hsite with
    | nonempty hleads => exact (hformed _ _ hleads).1
    | placed hleads hop => exact (hformed _ _ hleads).2.1 _ _ _ hop
    | selects hleads hgetter => exact (hformed _ _ hleads).2.2 _ hgetter

end Outline

end ShaderChain
