import ShaderChain.Proofs.Command.Path
import ShaderChain.Proofs.Command.Run

/-! The output of commands. What is only printed changes no file. A program that is saved is in two
files afterwards, and nothing else has changed but that the directories they need are there. -/

namespace ShaderChain

namespace Command

variable {c : Command} {v : Volume} {path : String}

theorem stem?_of_compiles {program : Program} (hcompiles : Compiles c v path program) :
    ∃ stem, Path.stem? path = some stem ∧ '/' ∉ stem.toList := by
  obtain ⟨-, ⟨-, -, hread, -⟩, -⟩ := hcompiles
  obtain ⟨⟨place, hfollow⟩, -⟩ := Volume.readText_eq_ok.mp hread
  obtain ⟨⟨-, -, hlast, hname, -⟩, -⟩ := Volume.follow_eq_named.mp hfollow
  exact Path.stem?_of_name hlast hname

theorem on_emit_none (houtDir : c.outDir = none) (program : Program) :
    Task.on (c.emit path program) v =
      (.ok (), v.printing ("// fragment\n" ++ program.fragment ++ "\n" ++
        ("// vertex\n" ++ program.vertex ++ "\n"))) := by
  unfold emit
  rw [houtDir]
  refine (on_bind_ok (on_print _ v)).trans ?_
  rw [on_print]
  simp [Volume.printing, String.append_assoc]

/-- What is said of a file that was saved. -/
def savedLine (path : String) : String :=
  "saved: " ++ path ++ "\n"

theorem on_writeText (wrap : FileError → CommandError) (path text : String) (v : Volume) :
    Task.on (orError wrap (Files.writeText path text)) v =
      match v.writeText path text with
      | .ok w => (.ok (), w)
      | .error cause => (.error (wrap cause), v) := by
  have hrun : (Files.writeText path text : Volume.Operation).run v = _ :=
    Volume.run_update (·.writeText path text) v
  rw [on_orError, hrun]
  cases v.writeText path text <;> rfl

theorem on_save_ok {dir name text file : String} {w : Volume}
    (hwrite : v.writeText file text = .ok w) (hfile : file = Path.join dir name) :
    Task.on (save dir name text) v = (.ok (), w.printing (savedLine file)) := by
  subst hfile
  apply on_bind_ok
  rw [on_writeText, hwrite]

theorem on_save_error {dir name text file : String} {cause : FileError}
    (hwrite : v.writeText file text = .error cause) (hfile : file = Path.join dir name) :
    Task.on (save dir name text) v = (.error (.write file cause), v) := by
  subst hfile
  apply on_bind_error
  rw [on_writeText, hwrite]

def fragmentPath (dir stem : String) : String :=
  Path.join dir (stem ++ ".frag")

def vertexPath (dir stem : String) : String :=
  Path.join dir (stem ++ ".vert")

/-- What has become of a volume in which a program was saved: the two files hold its texts, and but
for directories on the way to them nothing else has changed. -/
structure Saved (dir stem : String) (program : Program) (v w : Volume) : Prop where
  fragment : w.readText (fragmentPath dir stem) = .ok program.fragment
  vertex : w.readText (vertexPath dir stem) = .ok program.vertex
  changes : Volume.Changes (Path.ancestry dir)
    [(fragmentPath dir stem, program.fragment), (vertexPath dir stem, program.vertex)]
    (savedLine (fragmentPath dir stem) ++ savedLine (vertexPath dir stem)) v w

/-- How saving a program ends. It fails only where an operation on files does. -/
inductive Saves (dir stem : String) (program : Program) (v : Volume) :
    Except CommandError Unit × Volume → Prop
  | saved {made first second w : Volume}
      (hmake : v.makeDirs dir = (.ok (), made))
      (hfragment : made.writeText (fragmentPath dir stem) program.fragment = .ok first)
      (hvertex : (first.printing (savedLine (fragmentPath dir stem))).writeText
        (vertexPath dir stem) program.vertex = .ok second)
      (hsaved : Saved dir stem program v w) : Saves dir stem program v (.ok (), w)
  | noDirectory {made : Volume} {cause : FileError}
      (hmake : v.makeDirs dir = (.error cause, made))
      (hchanges : Volume.Changes (Path.ancestry dir) [] "" v made) :
      Saves dir stem program v (.error (.makeDirs dir cause), made)
  | noFragment {made : Volume} {cause : FileError}
      (hmake : v.makeDirs dir = (.ok (), made))
      (hfragment : made.writeText (fragmentPath dir stem) program.fragment = .error cause)
      (hchanges : Volume.Changes (Path.ancestry dir) [] "" v made) :
      Saves dir stem program v (.error (.write (fragmentPath dir stem) cause), made)
  | noVertex {made first : Volume} {cause : FileError}
      (hmake : v.makeDirs dir = (.ok (), made))
      (hfragment : made.writeText (fragmentPath dir stem) program.fragment = .ok first)
      (hvertex : (first.printing (savedLine (fragmentPath dir stem))).writeText
        (vertexPath dir stem) program.vertex = .error cause)
      (hchanges : Volume.Changes (Path.ancestry dir)
        [(fragmentPath dir stem, program.fragment)] (savedLine (fragmentPath dir stem)) v
        (first.printing (savedLine (fragmentPath dir stem)))) :
      Saves dir stem program v (.error (.write (vertexPath dir stem) cause),
        first.printing (savedLine (fragmentPath dir stem)))

theorem on_emit_some {dir stem : String} (houtDir : c.outDir = some dir)
    (hstem : Path.stem? path = some stem) (program : Program) :
    Task.on (c.emit path program) v =
      Task.on (do
        orError (.makeDirs dir) (Files.makeDirs dir)
        save dir (stem ++ ".frag") program.fragment
        save dir (stem ++ ".vert") program.vertex) v := by
  unfold emit
  rw [houtDir, hstem]
  rfl

theorem changes_save {dirs : List String} {files : List (String × String)} {before : String}
    {made first : Volume} {file text : String}
    (hmade : Volume.Changes dirs files before v made)
    (hwrite : made.writeText file text = .ok first) :
    Volume.Changes dirs (files ++ [(file, text)]) (before ++ savedLine file) v
      (first.printing (savedLine file)) := by
  have hboth := (hmade.trans (Volume.changes_writeText hwrite)).trans
    (first.changes_printing (savedLine file))
  simpa using hboth

theorem getLast?_steps_join {dir stem : String} (hstem : '/' ∉ stem.toList) {extension : String}
    (hslash : '/' ∉ extension.toList) (hne : extension ≠ "") :
    (Path.steps (Path.join dir (stem ++ extension))).getLast? = some (stem ++ extension) := by
  rw [Path.steps_join dir (by simp [hstem, hslash]) (by simp [hne]), List.getLast?_concat]

theorem fragmentPath_apart {stem : String} (hstem : '/' ∉ stem.toList) (dir : String) :
    (Path.steps (fragmentPath dir stem)).getLast? ≠
      (Path.steps (vertexPath dir stem)).getLast? := by
  rw [fragmentPath, vertexPath, getLast?_steps_join hstem (by decide) (by decide),
    getLast?_steps_join hstem (by decide) (by decide)]
  intro hsame
  have hnames := congrArg String.toList (Option.some.inj hsame)
  rw [String.toList_append, String.toList_append, List.append_cancel_left_eq] at hnames
  exact absurd hnames (by decide)

theorem saves_emit {dir stem : String} {program : Program} (houtDir : c.outDir = some dir)
    (hstem : Path.stem? path = some stem) (hslash : '/' ∉ stem.toList) :
    Saves dir stem program v (Task.on (c.emit path program) v) := by
  rw [on_emit_some houtDir hstem]
  have hmade := v.changes_makeDirs dir
  have hmake : Task.on (orError (.makeDirs dir) (Files.makeDirs dir)) v =
      ((v.makeDirs dir).1.mapError (.makeDirs dir), (v.makeDirs dir).2) := on_orError ..
  rcases hrun : v.makeDirs dir with ⟨result, made⟩
  rw [hrun] at hmade hmake
  cases result with
  | error cause =>
      rw [on_bind_error hmake]
      exact .noDirectory hrun hmade
  | ok u =>
      rw [on_bind_ok hmake]
      cases hfragment : made.writeText (fragmentPath dir stem) program.fragment with
      | error cause =>
          rw [on_bind_error (on_save_error hfragment rfl)]
          exact .noFragment hrun hfragment hmade
      | ok first =>
          have hfirst := changes_save hmade hfragment
          rw [on_bind_ok (on_save_ok hfragment rfl)]
          cases hvertex : (first.printing (savedLine (fragmentPath dir stem))).writeText
              (vertexPath dir stem) program.vertex with
          | error cause =>
              rw [on_save_error hvertex rfl]
              exact .noVertex hrun hfragment hvertex (by simpa using hfirst)
          | ok second =>
              rw [on_save_ok hvertex rfl]
              have hread : (first.printing (savedLine (fragmentPath dir stem))).readText
                  (fragmentPath dir stem) = .ok program.fragment := by
                rw [Volume.readText_printing, Volume.readText_of_writeText hfragment]
              have hsecond := changes_save hfirst hvertex
              refine .saved hrun hfragment hvertex ⟨?_, ?_, by simpa using hsecond⟩
              · rw [Volume.readText_printing]
                exact Volume.readText_writeText_of_ne hread hvertex (fragmentPath_apart hslash dir)
              · rw [Volume.readText_printing, Volume.readText_of_writeText hvertex]

/-- A command touches files only with a program to save. If it is refused, or has a list to print,
or a program and no directory for it, all files stay as they are, and nothing is printed but the
list or the texts of the program. With a directory, the program is in two files at the end, and
nothing else has changed, unless an operation on files fails. -/
theorem runOn_touches_output_only (c : Command) (v : Volume) :
    (∀ e, Refuses c v e → c.runOn v = (.error e, v)) ∧
    (∀ base, c.list = true → Base c v base → c.runOn v = (.ok (), v.printing base.listing)) ∧
    (∀ path program, Compiles c v path program →
      (c.outDir = none → c.runOn v =
        (.ok (), v.printing ("// fragment\n" ++ program.fragment ++ "\n" ++
          ("// vertex\n" ++ program.vertex ++ "\n")))) ∧
      ∀ dir, c.outDir = some dir →
        ∃ stem, Path.stem? path = some stem ∧ Saves dir stem program v (c.runOn v)) ∧
    ((∃ e, Refuses c v e) ∨ (c.list = true ∧ ∃ base, Base c v base) ∨
      ∃ path program, Compiles c v path program) := by
  refine ⟨fun e => runOn_of_refuses, fun base => runOn_list, ?_, refuses_or_lists_or_compiles c v⟩
  intro path program hcompiles
  rw [runOn_of_compiles hcompiles]
  refine ⟨fun houtDir => on_emit_none houtDir program, fun dir houtDir => ?_⟩
  obtain ⟨stem, hstem, hslash⟩ := stem?_of_compiles hcompiles
  exact ⟨stem, hstem, saves_emit houtDir hstem hslash⟩

example :
    let files := [("t.json", "[[\"flat\", \"src\", [], \"\"]]"),
      ("s.json", "[null, [], [], [[[\"flat\"]]]]")]
    let c : Command := { script := some "s.json", catalog := some "t.json", outDir := some "a/b" }
    (c.runOn (.ofFiles files)).2.printed = "saved: a/b/s.frag\nsaved: a/b/s.vert\n" := by
  decide +kernel

end Command

end ShaderChain
