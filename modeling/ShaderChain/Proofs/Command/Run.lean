import ShaderChain.Command.Run
import ShaderChain.Proofs.Command.Volume
import ShaderChain.Proofs.Update

/-! Commands up to their output. Each is refused for what its documents say, or lists transforms,
or has a program, and until then nothing is changed or printed. -/

namespace ShaderChain

/-! What comes of the documents that a command names. -/

namespace Command

/-- The transforms that a command starts from. -/
inductive Base (c : Command) (v : Volume) : Registry → Prop
  | builtin (hcatalog : c.catalog = none) : Base c v .builtin
  | catalog {path text : String} {descriptors : List Descriptor} (hcatalog : c.catalog = some path)
      (hread : v.readText path = .ok text) (hparse : Catalog.parse? text = some descriptors) :
      Base c v (.ofDescriptors descriptors)

/-- The script that a command is to compile. The options that the command sets replace those of the
document. -/
inductive Loads (c : Command) (v : Volume) : String → Script → Prop
  | mk {path text : String} {script : Script} (hlist : c.list = false)
      (hscript : c.script = some path) (hread : v.readText path = .ok text)
      (hparse : Script.parse? text = some script) :
      Loads c v path { script with
        options := {
          version := c.version.getD script.options.version
          precision := c.precision.getD script.options.precision } }

/-- Why a command has no output: a document cannot be read or says nothing, there is no script,
one of its transforms cannot be registered, its chain cannot be built, or the chain does not
compile. -/
inductive Refuses (c : Command) (v : Volume) : CommandError → Prop
  | unreadableCatalog {path : String} {cause : FileError} (hcatalog : c.catalog = some path)
      (hread : v.readText path = .error cause) : Refuses c v (.unreadableCatalog path cause)
  | malformedCatalog {path text : String} (hcatalog : c.catalog = some path)
      (hread : v.readText path = .ok text) (hparse : Catalog.parse? text = none) :
      Refuses c v (.malformedCatalog path)
  | nothingToDo {base : Registry} (hbase : Base c v base) (hlist : c.list = false)
      (hscript : c.script = none) : Refuses c v .nothingToDo
  | unreadableScript {base : Registry} {path : String} {cause : FileError} (hbase : Base c v base)
      (hlist : c.list = false) (hscript : c.script = some path)
      (hread : v.readText path = .error cause) : Refuses c v (.unreadableScript path cause)
  | malformedScript {base : Registry} {path text : String} (hbase : Base c v base)
      (hlist : c.list = false) (hscript : c.script = some path)
      (hread : v.readText path = .ok text) (hparse : Script.parse? text = none) :
      Refuses c v (.malformedScript path)
  | transforms {base : Registry} {path : String} {script : Script} (hbase : Base c v base)
      (hload : Loads c v path script) (herrors : (base.extend script.transforms).1 ≠ []) :
      Refuses c v (.script (.transforms (base.extend script.transforms).1))
  | chain {base registry : Registry} {path : String} {script : Script} {cause : OutlineError}
      (hbase : Base c v base) (hload : Loads c v path script)
      (hextend : base.extend script.transforms = ([], registry))
      (hbuild : ((script.chain.build registry).run {}).1 = .error cause) :
      Refuses c v (.script (.chain cause))
  | compile {base registry : Registry} {path : String} {script : Script} {chain : Chain}
      {counters : Counters} {cause : CompileError} (hbase : Base c v base)
      (hload : Loads c v path script) (hextend : base.extend script.transforms = ([], registry))
      (hbuild : (script.chain.build registry).run {} = (.ok chain, counters))
      (hcompile : ((Program.build registry chain script.options).run counters).1 = .error cause) :
      Refuses c v (.script (.compile chain.id cause))

/-- The program that a command compiles, and the path of its script. -/
inductive Compiles (c : Command) (v : Volume) : String → Program → Prop
  | mk {base : Registry} {path : String} {script : Script} {program : Program}
      (hbase : Base c v base) (hload : Loads c v path script)
      (hcompile : ((script.compile base).run {}).1 = .ok program) : Compiles c v path program

/-! Running a command step by step. -/

/-- A step of a command, on files in memory. -/
abbrev Task (α : Type) :=
  ExceptT CommandError (StateM Volume) α

def Task.on (x : Task α) (v : Volume) : Except CommandError α × Volume :=
  x.run.run v

def runOn (c : Command) (v : Volume) : Except CommandError Unit × Volume :=
  Task.on c.run v

theorem on_bind_ok {x : Task α} {f : α → Task β} {v w : Volume} {a : α}
    (hx : x.on v = (.ok a, w)) : (x >>= f).on v = (f a).on w :=
  Update.run_bind_ok hx f

theorem on_bind_error {x : Task α} {v w : Volume} {e : CommandError}
    (hx : x.on v = (.error e, w)) (f : α → Task β) : (x >>= f).on v = (.error e, w) :=
  Update.run_bind_error hx f

theorem on_orError (wrap : FileError → CommandError) (x : StateM Volume (Except FileError α))
    (v : Volume) : Task.on (orError wrap x) v = ((x.run v).1.mapError wrap, (x.run v).2) := by
  have hlift : Task.on (liftM x : Task (Except FileError α)) v = (.ok (x.run v).1, (x.run v).2) :=
    rfl
  refine (on_bind_ok hlift).trans ?_
  cases (x.run v).1 <;> rfl

theorem on_print (text : String) (v : Volume) :
    Task.on (print text) v = (.ok (), v.printing text) := rfl

theorem on_lift (x : Except CommandError α) (v : Volume) :
    Task.on (liftM x : Task α) v = (x, v) := by
  cases x <;> rfl

end Command

/-! Compiling a script. -/

namespace Script

theorem run_compile_of_errors {base : Registry} {script : Script}
    (herrors : (base.extend script.transforms).1 ≠ []) :
    ((script.compile base).run {}).1 =
      .error (.transforms (base.extend script.transforms).1) := by
  have hregistry : script.registry base =
      .error (.transforms (base.extend script.transforms).1) := by
    unfold registry
    split
    · rename_i hextend
      exact absurd (congrArg Prod.fst hextend) herrors
    · rename_i hextend
      rw [hextend]
  unfold compile
  rw [hregistry]
  rfl

theorem run_compile_of_extend {base registry : Registry} {script : Script}
    (hextend : base.extend script.transforms = ([], registry)) :
    ((script.compile base).run {}).1 =
      match (script.chain.build registry).run {} with
      | (.error cause, _) => .error (.chain cause)
      | (.ok chain, counters) =>
          ((Program.build registry chain script.options).run counters).1.mapError
            (.compile chain.id) := by
  have hregistry : script.registry base = .ok registry := by
    unfold Script.registry
    rw [hextend]
  have hrun : (script.compile base).run {} =
      (ExceptT.bindCont (fun chain =>
        (Program.build registry chain script.options).adapt (ScriptError.compile chain.id))
        (((script.chain.build registry).run {}).1.mapError .chain)).run
          ((script.chain.build registry).run {}).2 := by
    unfold compile
    rw [hregistry]
    rfl
  rw [hrun]
  rcases (script.chain.build registry).run {} with ⟨result, counters⟩
  cases result <;> rfl

end Script

/-! Up to its output, a command changes nothing. -/

namespace Command

variable {c : Command} {v : Volume} {base : Registry} {path : String} {script : Script}

theorem on_readText_ok {wrap : FileError → CommandError} {text : String}
    (hread : v.readText path = .ok text) :
    Task.on (orError wrap (Files.readText path)) v = (.ok text, v) := by
  rw [on_orError]
  exact congrArg (fun result => (Except.mapError wrap result, v)) hread

theorem on_readText_error {wrap : FileError → CommandError} {cause : FileError}
    (hread : v.readText path = .error cause) :
    Task.on (orError wrap (Files.readText path)) v = (.error (wrap cause), v) := by
  rw [on_orError]
  exact congrArg (fun result => (Except.mapError wrap result, v)) hread

theorem Base.on_baseRegistry (hbase : Base c v base) :
    Task.on c.baseRegistry v = (.ok base, v) := by
  unfold baseRegistry
  cases hbase with
  | builtin hcatalog =>
      rw [hcatalog]
      rfl
  | catalog hcatalog hread hparse =>
      rw [hcatalog]
      refine (on_bind_ok (on_readText_ok hread)).trans ?_
      rw [hparse]
      rfl

theorem Loads.on_loadScript (hload : Loads c v path script) :
    Task.on (c.loadScript path) v = (.ok script, v) := by
  obtain ⟨-, -, hread, hparse⟩ := hload
  refine (on_bind_ok (on_readText_ok hread)).trans ?_
  rw [hparse]
  rfl

theorem runOn_of_base (hbase : Base c v base) (hlist : c.list = false) :
    c.runOn v = Task.on (match c.script with
      | none => throw .nothingToDo
      | some path => do
          let script ← c.loadScript path
          let program ← compileScript base script
          c.emit path program) v := by
  refine (on_bind_ok hbase.on_baseRegistry).trans ?_
  rw [hlist]
  rfl

theorem runOn_of_loads (hbase : Base c v base) (hload : Loads c v path script) :
    c.runOn v = Task.on (do
      let program ← compileScript base script
      c.emit path program) v := by
  have hon := hload.on_loadScript
  obtain ⟨hlist, hscript, -, -⟩ := hload
  rw [runOn_of_base hbase hlist, hscript]
  exact on_bind_ok hon

theorem compileScript_eq (base : Registry) (script : Script) :
    compileScript base script = ((script.compile base).run {}).1.mapError .script := rfl

theorem runOn_of_compile_error {cause : ScriptError} (hbase : Base c v base)
    (hload : Loads c v path script) (hcompile : ((script.compile base).run {}).1 = .error cause) :
    c.runOn v = (.error (.script cause), v) := by
  rw [runOn_of_loads hbase hload, compileScript_eq, hcompile]
  exact on_bind_error (on_lift _ v) _

theorem runOn_of_compiles {program : Program} (hcompiles : Compiles c v path program) :
    c.runOn v = Task.on (c.emit path program) v := by
  obtain ⟨hbase, hload, hcompile⟩ := hcompiles
  rw [runOn_of_loads hbase hload, compileScript_eq, hcompile]
  exact on_bind_ok (on_lift _ v)

theorem runOn_of_refuses {e : CommandError} (hrefuses : Refuses c v e) :
    c.runOn v = (.error e, v) := by
  cases hrefuses with
  | unreadableCatalog hcatalog hread =>
      apply on_bind_error
      unfold baseRegistry
      rw [hcatalog]
      exact on_bind_error (on_readText_error hread) _
  | malformedCatalog hcatalog hread hparse =>
      apply on_bind_error
      unfold baseRegistry
      rw [hcatalog]
      refine (on_bind_ok (on_readText_ok hread)).trans ?_
      rw [hparse]
      rfl
  | nothingToDo hbase hlist hscript =>
      rw [runOn_of_base hbase hlist, hscript]
      rfl
  | unreadableScript hbase hlist hscript hread =>
      rw [runOn_of_base hbase hlist, hscript]
      exact on_bind_error (on_bind_error (on_readText_error hread) _) _
  | malformedScript hbase hlist hscript hread hparse =>
      rw [runOn_of_base hbase hlist, hscript]
      refine on_bind_error ((on_bind_ok (on_readText_ok hread)).trans ?_) _
      rw [hparse]
      rfl
  | transforms hbase hload herrors =>
      exact runOn_of_compile_error hbase hload (Script.run_compile_of_errors herrors)
  | chain hbase hload hextend hbuild =>
      apply runOn_of_compile_error hbase hload
      rw [Script.run_compile_of_extend hextend]
      generalize (Outline.build _ _).run {} = built at hbuild ⊢
      obtain ⟨result, counters⟩ := built
      cases hbuild
      rfl
  | compile hbase hload hextend hbuild hcompile =>
      apply runOn_of_compile_error hbase hload
      rw [Script.run_compile_of_extend hextend, hbuild]
      dsimp only
      rw [hcompile]
      rfl

theorem runOn_list (hlist : c.list = true) (hbase : Base c v base) :
    c.runOn v = (.ok (), v.printing base.listing) := by
  refine (on_bind_ok hbase.on_baseRegistry).trans ?_
  rw [hlist]
  rfl

/-! Every command is refused, or lists transforms, or has a program. -/

theorem base_or_refuses (c : Command) (v : Volume) :
    (∃ base, Base c v base) ∨ ∃ e, Refuses c v e := by
  cases hcatalog : c.catalog with
  | none => exact .inl ⟨_, .builtin hcatalog⟩
  | some path =>
      cases hread : v.readText path with
      | error cause => exact .inr ⟨_, .unreadableCatalog hcatalog hread⟩
      | ok text =>
          cases hparse : Catalog.parse? text with
          | none => exact .inr ⟨_, .malformedCatalog hcatalog hread hparse⟩
          | some descriptors => exact .inl ⟨_, .catalog hcatalog hread hparse⟩

theorem loads_or_refuses (hbase : Base c v base) (hlist : c.list = false) :
    (∃ path script, Loads c v path script) ∨ ∃ e, Refuses c v e := by
  cases hscript : c.script with
  | none => exact .inr ⟨_, .nothingToDo hbase hlist hscript⟩
  | some path =>
      cases hread : v.readText path with
      | error cause => exact .inr ⟨_, .unreadableScript hbase hlist hscript hread⟩
      | ok text =>
          cases hparse : Script.parse? text with
          | none => exact .inr ⟨_, .malformedScript hbase hlist hscript hread hparse⟩
          | some script => exact .inl ⟨path, _, .mk hlist hscript hread hparse⟩

theorem compiles_or_refuses (hbase : Base c v base) (hload : Loads c v path script) :
    (∃ program, Compiles c v path program) ∨ ∃ e, Refuses c v e := by
  rcases hextend : base.extend script.transforms with ⟨errors, registry⟩
  by_cases herrors : errors = []
  · subst herrors
    have hrun := Script.run_compile_of_extend hextend
    rcases hbuild : (script.chain.build registry).run {} with ⟨built, counters⟩
    rw [hbuild] at hrun
    cases built with
    | error cause => exact .inr ⟨_, .chain hbase hload hextend (congrArg Prod.fst hbuild)⟩
    | ok chain =>
        cases hcompile : ((Program.build registry chain script.options).run counters).1 with
        | error cause => exact .inr ⟨_, .compile hbase hload hextend hbuild hcompile⟩
        | ok program =>
            dsimp only at hrun
            rw [hcompile] at hrun
            exact .inl ⟨program, .mk hbase hload hrun⟩
  · refine .inr ⟨_, .transforms hbase hload ?_⟩
    rwa [hextend]

theorem refuses_or_lists_or_compiles (c : Command) (v : Volume) :
    (∃ e, Refuses c v e) ∨ (c.list = true ∧ ∃ base, Base c v base) ∨
      ∃ path program, Compiles c v path program := by
  rcases base_or_refuses c v with ⟨base, hbase⟩ | hrefuses
  · cases hlist : c.list with
    | true => exact .inr (.inl ⟨rfl, base, hbase⟩)
    | false =>
        rcases loads_or_refuses hbase hlist with ⟨path, script, hload⟩ | hrefuses
        · rcases compiles_or_refuses hbase hload with ⟨program, hcompiles⟩ | hrefuses
          · exact .inr (.inr ⟨path, program, hcompiles⟩)
          · exact .inl hrefuses
        · exact .inl hrefuses
  · exact .inl hrefuses

end Command

end ShaderChain
