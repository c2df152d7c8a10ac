import ShaderChain.Command.Arguments

/-! Command lines. Each is a sequence of settings, up to the first argument that is at fault, and
what it asks for is what each setting says last. So command lines compose: one behind another is
laid over it. -/

namespace ShaderChain.Command

/-- One command on top of another, which keeps what the upper one does not set. -/
def overlay (lower upper : Command) : Command where
  script := upper.script.or lower.script
  outDir := upper.outDir.or lower.outDir
  catalog := upper.catalog.or lower.catalog
  version := upper.version.or lower.version
  precision := upper.precision.or lower.precision
  list := lower.list || upper.list

@[simp] theorem overlay_empty (c : Command) : c.overlay {} = c := by
  simp [overlay]

@[simp] theorem empty_overlay (c : Command) : overlay {} c = c := by
  simp [overlay]

theorem overlay_assoc (c d e : Command) : (c.overlay d).overlay e = c.overlay (d.overlay e) := by
  simp [overlay, Option.or_assoc, Bool.or_assoc]

/-! What a command line says, without regard to how it is read. -/

/-- One thing that a command line asks for. -/
inductive Setting where
  | list
  | script (path : String)
  | outDir (path : String)
  | catalog (path : String)
  | version (version : Version)
  | precision (precision : Precision)
deriving DecidableEq

/-- The names that a value has to follow. -/
def valueNames : List String :=
  ["--script", "--out-dir", "--output-dir", "--catalog", "--glsl-version", "--precision"]

namespace Setting

/-- The arguments that make a setting. What stands for a value may be any text that has the right
form, that of a name among them. -/
inductive Writes : Setting → List String → Prop
  | list : Writes .list ["--list"]
  | script (path : String) : Writes (.script path) ["--script", path]
  | outDir (path : String) : Writes (.outDir path) ["--out-dir", path]
  | outputDir (path : String) : Writes (.outDir path) ["--output-dir", path]
  | catalog (path : String) : Writes (.catalog path) ["--catalog", path]
  | version {text : String} {version : Version} (hversion : Version.parse text = .ok version) :
      Writes (.version version) ["--glsl-version", text]
  | precision {text : String} {precision : Precision}
      (hprecision : Precision.parse text = .ok precision) :
      Writes (.precision precision) ["--precision", text]

def script? : Setting → Option String
  | .script path => some path
  | _ => none

def outDir? : Setting → Option String
  | .outDir path => some path
  | _ => none

def catalog? : Setting → Option String
  | .catalog path => some path
  | _ => none

def version? : Setting → Option Version
  | .version v => some v
  | _ => none

def precision? : Setting → Option Precision
  | .precision p => some p
  | _ => none

/-- The command of one setting. -/
def command : Setting → Command
  | .list => { list := true }
  | .script path => { script := some path }
  | .outDir path => { outDir := some path }
  | .catalog path => { catalog := some path }
  | .version v => { version := some v }
  | .precision p => { precision := some p }

end Setting

/-- What some settings ask for. The last of a kind counts. -/
def ofSettings (settings : List Setting) : Command where
  script := (settings.filterMap Setting.script?).getLast?
  outDir := (settings.filterMap Setting.outDir?).getLast?
  catalog := (settings.filterMap Setting.catalog?).getLast?
  version := (settings.filterMap Setting.version?).getLast?
  precision := (settings.filterMap Setting.precision?).getLast?
  list := settings.contains .list

/-- A command line that is a sequence of settings. -/
inductive Reads : List String → List Setting → Prop
  | nil : Reads [] []
  | cons {setting : Setting} {words rest : List String} {settings : List Setting}
      (hsetting : setting.Writes words) (hrest : Reads rest settings) :
      Reads (words ++ rest) (setting :: settings)

/-- A command line that goes wrong at its first argument. -/
inductive Fault : List String → UsageError → Prop
  | missingValue {arg : String} (harg : arg ∈ valueNames) : Fault [arg] (.missingValue arg)
  | unknownArgument {arg : String} (rest : List String) (hlist : arg ≠ "--list")
      (harg : arg ∉ valueNames) : Fault (arg :: rest) (.unknownArgument arg)
  | version {text : String} {cause : OptionsError} (rest : List String)
      (hversion : Version.parse text = .error cause) :
      Fault ("--glsl-version" :: text :: rest) (.options cause)
  | precision {text : String} {cause : OptionsError} (rest : List String)
      (hprecision : Precision.parse text = .error cause) :
      Fault ("--precision" :: text :: rest) (.options cause)

/-! A command line is read setting by setting. -/

theorem ofSettings_cons (setting : Setting) (settings : List Setting) :
    ofSettings (setting :: settings) = setting.command.overlay (ofSettings settings) := by
  cases setting <;>
    simp [ofSettings, overlay, Setting.command, Setting.script?, Setting.outDir?,
      Setting.catalog?, Setting.version?, Setting.precision?, List.getLast?_cons]

theorem parseFrom_list (c : Command) (rest : List String) :
    parseFrom c ("--list" :: rest) = parseFrom { c with list := true } rest := by
  cases rest with
  | nil => rw [parseFrom, parseFrom, if_pos rfl]
  | cons value rest => rw [parseFrom, if_pos rfl]

theorem parseFrom_value (c : Command) {arg : String} {flag : Flag}
    (hflag : Flag.ofText? arg = some flag) (value : String) (rest : List String) :
    parseFrom c (arg :: value :: rest) =
      (c.set value flag).bind fun next => parseFrom next rest := by
  have hlist : arg ≠ "--list" := by
    rintro rfl
    cases hflag
  simp only [parseFrom, if_neg hlist, hflag]
  cases c.set value flag <;> rfl

theorem parseFrom_of_set {c next : Command} {arg value : String} {flag : Flag}
    (hflag : Flag.ofText? arg = some flag) (hset : c.set value flag = .ok next)
    (rest : List String) : parseFrom c (arg :: value :: rest) = parseFrom next rest := by
  rw [parseFrom_value c hflag, hset]
  rfl

theorem parseFrom_of_set_error {c : Command} {arg value : String} {flag : Flag} {e : UsageError}
    (hflag : Flag.ofText? arg = some flag) (hset : c.set value flag = .error e)
    (rest : List String) : parseFrom c (arg :: value :: rest) = .error e := by
  rw [parseFrom_value c hflag, hset]
  rfl

theorem set_version (c : Command) (text : String) :
    c.set text .version =
      match Version.parse text with
      | .ok v => .ok { c with version := some v }
      | .error cause => .error (.options cause) := by
  unfold set
  cases Version.parse text <;> rfl

theorem set_precision (c : Command) (text : String) :
    c.set text .precision =
      match Precision.parse text with
      | .ok p => .ok { c with precision := some p }
      | .error cause => .error (.options cause) := by
  unfold set
  cases Precision.parse text <;> rfl

theorem overlay_command (c : Command) (setting : Setting) :
    c.overlay setting.command =
      match setting with
      | .list => { c with list := true }
      | .script path => { c with script := some path }
      | .outDir path => { c with outDir := some path }
      | .catalog path => { c with catalog := some path }
      | .version v => { c with version := some v }
      | .precision p => { c with precision := some p } := by
  cases setting <;> simp [overlay, Setting.command]

/-- A setting is read in one step, whatever follows it. -/
theorem Setting.Writes.parseFrom_append {setting : Setting} {words : List String}
    (hsetting : setting.Writes words) (c : Command) (rest : List String) :
    parseFrom c (words ++ rest) = parseFrom (c.overlay setting.command) rest := by
  rw [overlay_command]
  cases hsetting with
  | list => exact parseFrom_list c rest
  | script path => exact parseFrom_of_set (by rfl) (by rfl) rest
  | outDir path => exact parseFrom_of_set (by rfl) (by rfl) rest
  | outputDir path => exact parseFrom_of_set (by rfl) (by rfl) rest
  | catalog path => exact parseFrom_of_set (by rfl) (by rfl) rest
  | version hversion => exact parseFrom_of_set (by rfl) (by rw [set_version, hversion]) rest
  | precision hprecision =>
      exact parseFrom_of_set (by rfl) (by rw [set_precision, hprecision]) rest

theorem Setting.Writes.parse_eq {setting : Setting} {words : List String}
    (hsetting : setting.Writes words) : parse words = .ok setting.command := by
  have hrest := hsetting.parseFrom_append {} []
  rwa [List.append_nil, empty_overlay, parseFrom] at hrest

theorem Reads.parseFrom_append {args : List String} {settings : List Setting}
    (hargs : Reads args settings) (c : Command) (rest : List String) :
    parseFrom c (args ++ rest) = parseFrom (c.overlay (ofSettings settings)) rest := by
  induction hargs generalizing c with
  | nil => exact congrArg (parseFrom · rest) (overlay_empty c).symm
  | @cons setting words more settings hsetting _ ih =>
      rw [List.append_assoc, hsetting.parseFrom_append, ih, ofSettings_cons, overlay_assoc]

theorem Reads.parseFrom_eq {args : List String} {settings : List Setting}
    (hargs : Reads args settings) (c : Command) :
    parseFrom c args = .ok (c.overlay (ofSettings settings)) := by
  have hrest := hargs.parseFrom_append c []
  rwa [List.append_nil, parseFrom] at hrest

/-! Faults do not depend on what was read before. -/

theorem ofText?_eq_none {arg : String} (harg : arg ∉ valueNames) : Flag.ofText? arg = none := by
  -- The text would have to be one of the names that are listed.
  rw [Flag.ofText?] <;> exact fun heq => harg (heq ▸ by decide)

theorem exists_ofText? {arg : String} (harg : arg ∈ valueNames) :
    ∃ flag, Flag.ofText? arg = some flag := by
  simp only [valueNames, List.mem_cons, List.not_mem_nil, or_false] at harg
  rcases harg with rfl | rfl | rfl | rfl | rfl | rfl <;> exact ⟨_, rfl⟩

theorem Fault.parseFrom_eq {rest : List String} {e : UsageError} (hfault : Fault rest e)
    (c : Command) : parseFrom c rest = .error e := by
  cases hfault with
  | @missingValue arg harg =>
      obtain ⟨flag, hflag⟩ := exists_ofText? harg
      have hlist : arg ≠ "--list" := by
        rintro rfl
        cases hflag
      simp only [parseFrom, if_neg hlist, hflag]
  | @unknownArgument arg rest hlist harg =>
      cases rest <;> simp only [parseFrom, if_neg hlist, ofText?_eq_none harg]
  | version rest hversion =>
      exact parseFrom_of_set_error (by rfl) (by rw [set_version, hversion]) rest
  | precision rest hprecision =>
      exact parseFrom_of_set_error (by rfl) (by rw [set_precision, hprecision]) rest

/-- Only a missing value can be made good by what follows. -/
theorem Fault.append {rest : List String} {e : UsageError} (hfault : Fault rest e)
    (he : ∀ arg, e ≠ .missingValue arg) (more : List String) : Fault (rest ++ more) e := by
  cases hfault with
  | missingValue harg => exact absurd rfl (he _)
  | unknownArgument rest hlist harg => exact .unknownArgument _ hlist harg
  | version rest hversion => exact .version _ hversion
  | precision rest hprecision => exact .precision _ hprecision

/-! Every command line is read to its end or to its first fault. -/

inductive FaultIn : List String → UsageError → Prop
  | here {args : List String} {e : UsageError} (hfault : Fault args e) : FaultIn args e
  | later {setting : Setting} {words rest : List String} {e : UsageError}
      (hsetting : setting.Writes words) (hrest : FaultIn rest e) : FaultIn (words ++ rest) e

theorem exists_writes_or_fault {arg : String} (harg : arg ∈ valueNames) (value : String) :
    (∃ setting, Setting.Writes setting [arg, value]) ∨
      ∃ cause, ∀ rest, Fault (arg :: value :: rest) (.options cause) := by
  simp only [valueNames, List.mem_cons, List.not_mem_nil, or_false] at harg
  rcases harg with rfl | rfl | rfl | rfl | rfl | rfl
  · exact .inl ⟨_, .script value⟩
  · exact .inl ⟨_, .outDir value⟩
  · exact .inl ⟨_, .outputDir value⟩
  · exact .inl ⟨_, .catalog value⟩
  · cases hversion : Version.parse value with
    | ok v => exact .inl ⟨_, .version hversion⟩
    | error cause => exact .inr ⟨cause, fun rest => .version rest hversion⟩
  · cases hprecision : Precision.parse value with
    | ok p => exact .inl ⟨_, .precision hprecision⟩
    | error cause => exact .inr ⟨cause, fun rest => .precision rest hprecision⟩

theorem reads_or_faultIn_append {setting : Setting} {words rest : List String}
    (hsetting : setting.Writes words)
    (hrest : (∃ settings, Reads rest settings) ∨ ∃ e, FaultIn rest e) :
    (∃ settings, Reads (words ++ rest) settings) ∨ ∃ e, FaultIn (words ++ rest) e := by
  rcases hrest with ⟨settings, hreads⟩ | ⟨e, hfault⟩
  · exact .inl ⟨setting :: settings, .cons hsetting hreads⟩
  · exact .inr ⟨e, .later hsetting hfault⟩

theorem reads_or_faultIn : (args : List String) →
    (∃ settings, Reads args settings) ∨ ∃ e, FaultIn args e
  | [] => .inl ⟨[], .nil⟩
  | arg :: rest => by
      by_cases hlist : arg = "--list"
      · subst hlist
        exact reads_or_faultIn_append .list (reads_or_faultIn rest)
      · by_cases harg : arg ∈ valueNames
        · cases rest with
          | nil => exact .inr ⟨_, .here (.missingValue harg)⟩
          | cons value more =>
              rcases exists_writes_or_fault harg value with ⟨setting, hsetting⟩ | ⟨cause, hfault⟩
              · exact reads_or_faultIn_append hsetting (reads_or_faultIn more)
              · exact .inr ⟨_, .here (hfault more)⟩
        · exact .inr ⟨_, .here (.unknownArgument rest hlist harg)⟩

theorem FaultIn.parseFrom_eq {args : List String} {e : UsageError} (hargs : FaultIn args e)
    (c : Command) : parseFrom c args = .error e := by
  induction hargs generalizing c with
  | here hfault => exact hfault.parseFrom_eq c
  | later hsetting _ ih => rw [hsetting.parseFrom_append, ih]

theorem FaultIn.append {args : List String} {e : UsageError} (hargs : FaultIn args e)
    (he : ∀ arg, e ≠ .missingValue arg) (more : List String) : FaultIn (args ++ more) e := by
  induction hargs with
  | here hfault => exact .here (hfault.append he more)
  | later hsetting _ ih =>
      rw [List.append_assoc]
      exact .later hsetting (ih he)

theorem parse_eq_ok {args : List String} {c : Command} :
    parse args = .ok c ↔ ∃ settings, Reads args settings ∧ c = ofSettings settings := by
  constructor
  · intro hparse
    rcases reads_or_faultIn args with ⟨settings, hreads⟩ | ⟨e, hfault⟩
    · rw [parse, hreads.parseFrom_eq, empty_overlay] at hparse
      exact ⟨settings, hreads, (Except.ok.inj hparse).symm⟩
    · rw [parse, hfault.parseFrom_eq] at hparse
      cases hparse
  · rintro ⟨settings, hreads, rfl⟩
    rw [parse, hreads.parseFrom_eq, empty_overlay]

theorem parse_eq_error {args : List String} {e : UsageError} :
    parse args = .error e ↔ FaultIn args e := by
  constructor
  · intro hparse
    rcases reads_or_faultIn args with ⟨settings, hreads⟩ | ⟨other, hfault⟩
    · rw [parse, hreads.parseFrom_eq] at hparse
      cases hparse
    · rw [parse, hfault.parseFrom_eq] at hparse
      cases hparse
      exact hfault
  · intro hfault
    exact hfault.parseFrom_eq {}

theorem parseFrom_eq (c : Command) (args : List String) :
    parseFrom c args = (parse args).map c.overlay := by
  cases hparse : parse args with
  | ok d =>
      obtain ⟨settings, hreads, rfl⟩ := parse_eq_ok.mp hparse
      exact hreads.parseFrom_eq c
  | error e => exact (parse_eq_error.mp hparse).parseFrom_eq c

theorem parse_append_of_ok {front : List String} {c : Command} (hfront : parse front = .ok c)
    (rest : List String) : parse (front ++ rest) = (parse rest).map c.overlay := by
  obtain ⟨settings, hreads, rfl⟩ := parse_eq_ok.mp hfront
  rw [parse, hreads.parseFrom_append, empty_overlay, parseFrom_eq]

/-! A value is missing only at the end. -/

theorem faultIn_missingValue_iff {args : List String} {arg : String} :
    FaultIn args (.missingValue arg) ↔
      arg ∈ valueNames ∧ ∃ front settings, args = front ++ [arg] ∧ Reads front settings := by
  constructor
  · intro hargs
    generalize he : UsageError.missingValue arg = e at hargs
    induction hargs with
    | here hfault =>
        cases hfault with
        | missingValue harg =>
            cases he
            exact ⟨harg, [], [], rfl, .nil⟩
        | _ => cases he
    | @later setting words rest e hsetting _ ih =>
        obtain ⟨harg, front, settings, rfl, hreads⟩ := ih he
        exact ⟨harg, words ++ front, setting :: settings, (List.append_assoc ..).symm,
          .cons hsetting hreads⟩
  · rintro ⟨harg, front, settings, rfl, hreads⟩
    induction hreads with
    | nil => exact .here (.missingValue harg)
    | cons hsetting _ ih =>
        rw [List.append_assoc]
        exact .later hsetting ih

/-! A command line is read in one way only. -/

theorem Setting.Writes.unique {setting other : Setting} {words others rest more : List String}
    (hsetting : setting.Writes words) (hother : other.Writes others)
    (hsame : words ++ rest = others ++ more) : setting = other ∧ rest = more := by
  cases hsetting <;> cases hother <;> simp_all

theorem Reads.unique {args : List String} {settings others : List Setting}
    (hargs : Reads args settings) (hothers : Reads args others) : others = settings := by
  induction hargs generalizing others with
  | nil =>
      generalize hempty : ([] : List String) = args at hothers
      cases hothers with
      | nil => rfl
      | cons hother _ => cases hother <;> cases hempty
  | @cons setting words rest settings hsetting hrest ih =>
      generalize hsame : words ++ rest = args at hothers
      cases hothers with
      | nil => cases hsetting <;> cases hsame
      | cons hother hmore =>
          obtain ⟨rfl, rfl⟩ := hsetting.unique hother hsame
          rw [ih hmore]

/-- Command lines compose. Behind one that is read to its end, another is laid over it, or fails as
it does alone; a fault stays the first one whatever follows, unless it is the lack of a value for
the last argument. The last of several settings of a kind counts, and what stands for a value is
only ever taken as one. -/
theorem parse_composes (a b : List String) :
    (∀ x, parse a = .ok x → parse (a ++ b) = (parse b).map x.overlay) ∧
    (∀ e, parse a = .error e → (∀ arg, e ≠ .missingValue arg) → parse (a ++ b) = .error e) ∧
    (∀ arg, parse a = .error (.missingValue arg) ↔
      arg ∈ valueNames ∧ ∃ front x, a = front ++ [arg] ∧ parse front = .ok x) ∧
    (∀ x, parse a = .ok x ↔ ∃ settings,
      (∀ others, Reads a others ↔ others = settings) ∧ x = ofSettings settings) ∧
    ∀ x arg value, parse a = .ok x → arg ∈ valueNames →
      (∃ setting, Setting.Writes setting [arg, value] ∧
        parse (a ++ arg :: value :: b) = (parse b).map (x.overlay setting.command).overlay) ∨
      ∃ cause, parse (a ++ arg :: value :: b) = .error (.options cause) := by
  refine ⟨fun x hx => parse_append_of_ok hx b, ?_, ?_, ?_, ?_⟩
  · intro e herror he
    exact parse_eq_error.mpr ((parse_eq_error.mp herror).append he b)
  · intro arg
    rw [parse_eq_error, faultIn_missingValue_iff]
    constructor
    · rintro ⟨harg, front, settings, hfront, hreads⟩
      exact ⟨harg, front, _, hfront, parse_eq_ok.mpr ⟨settings, hreads, rfl⟩⟩
    · rintro ⟨harg, front, x, hfront, hx⟩
      obtain ⟨settings, hreads, -⟩ := parse_eq_ok.mp hx
      exact ⟨harg, front, settings, hfront, hreads⟩
  · intro x
    rw [parse_eq_ok]
    constructor
    · rintro ⟨settings, hreads, rfl⟩
      exact ⟨settings, fun others => ⟨hreads.unique, fun h => h ▸ hreads⟩, rfl⟩
    · rintro ⟨settings, hreads, rfl⟩
      exact ⟨settings, (hreads settings).mpr rfl, rfl⟩
  · intro x arg value hx harg
    rcases exists_writes_or_fault harg value with ⟨setting, hsetting⟩ | ⟨cause, hfault⟩
    · refine .inl ⟨setting, hsetting, ?_⟩
      have hfront : parse (a ++ [arg, value]) = .ok (x.overlay setting.command) := by
        rw [parse_append_of_ok hx, hsetting.parse_eq]
        rfl
      rw [← parse_append_of_ok hfront b, List.append_assoc]
      rfl
    · refine .inr ⟨cause, ?_⟩
      rw [parse_append_of_ok hx, parse_eq_error.mpr (.here (hfault b))]
      rfl

example : parse ["--script", "--list", "--catalog", "a.json", "--script", "b.json"] =
    .ok { script := some "b.json", catalog := some "a.json" } := rfl

end ShaderChain.Command
