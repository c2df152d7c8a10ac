import ShaderChain.Command.Volume

/-! What operations do to a volume. A path that leads to a place leads there as long as all
directories stay, and no operation takes one away. -/

namespace ShaderChain.Volume

theorem get?_put_of_ne (v : Volume) {place other : Place} (entry : Entry) (h : place ≠ other) :
    (v.put other entry).get? place = v.get? place := by
  by_cases hempty : place.names = #[]
  · simp [get?, hempty]
  · rw [get?_put v other entry hempty, if_neg h]

/-! Following a path. -/

theorem bind_eq_ok {x : Except FileError α} {f : α → Except FileError β} {b : β} :
    x >>= f = .ok b ↔ ∃ a, x = .ok a ∧ f a = .ok b := by
  cases x with
  | error e => exact ⟨nofun, fun ⟨_, h, _⟩ => nomatch h⟩
  | ok a =>
      constructor
      · intro h
        exact ⟨a, rfl, h⟩
      · rintro ⟨_, hok, h⟩
        cases hok
        exact h

/-- Every directory of a volume is one in the other, too. -/
def KeepsDirectories (v w : Volume) : Prop :=
  ∀ place, v.get? place = some .directory → w.get? place = some .directory

theorem find_eq_ok {v : Volume} {dir : Place} {name : String} {found : Option Entry} :
    v.find dir name = .ok found ↔
      name.utf8ByteSize ≤ maxName ∧ found = v.get? (dir.child name) := by
  unfold find
  by_cases hlength : maxName < name.utf8ByteSize
  · rw [if_pos hlength]
    exact ⟨nofun, fun h => absurd h.1 (Nat.not_le_of_lt hlength)⟩
  · rw [if_neg hlength, Except.ok.injEq, eq_comm, and_iff_right (Nat.le_of_not_lt hlength)]

theorem enter_eq_ok {v : Volume} {dir next : Place} {name : String}
    (hname : name ≠ "." ∧ name ≠ "..") :
    v.enter dir name = .ok next ↔
      v.find dir name = .ok (some .directory) ∧ next = dir.child name := by
  unfold enter
  split
  · exact absurd rfl hname.1
  · exact absurd rfl hname.2
  · cases v.find dir name with
    | error e => exact ⟨nofun, fun h => nomatch h.1⟩
    | ok found =>
        cases found with
        | none => exact ⟨nofun, fun h => nomatch h.1⟩
        | some entry =>
            cases entry with
            | file text => exact ⟨nofun, fun h => nomatch h.1⟩
            | directory =>
                constructor
                · intro henter
                  cases henter
                  exact ⟨rfl, rfl⟩
                · rintro ⟨-, rfl⟩
                  rfl

theorem KeepsDirectories.enter {v w : Volume} (hkeeps : v.KeepsDirectories w) {dir next : Place}
    {step : String} (henter : v.enter dir step = .ok next) : w.enter dir step = .ok next := by
  by_cases hdot : step = "."
  · subst hdot
    exact henter
  · by_cases hdots : step = ".."
    · subst hdots
      exact henter
    · rw [enter_eq_ok ⟨hdot, hdots⟩, find_eq_ok] at henter ⊢
      obtain ⟨⟨hlength, hdirectory⟩, hnext⟩ := henter
      exact ⟨⟨hlength, (hkeeps _ hdirectory.symm).symm⟩, hnext⟩

theorem KeepsDirectories.foldlM {v w : Volume} (hkeeps : v.KeepsDirectories w)
    {steps : List String} {dir last : Place} (hsteps : steps.foldlM v.enter dir = .ok last) :
    steps.foldlM w.enter dir = .ok last := by
  induction steps generalizing dir with
  | nil => exact hsteps
  | cons step steps ih =>
      rw [List.foldlM_cons, bind_eq_ok] at hsteps ⊢
      obtain ⟨next, henter, hrest⟩ := hsteps
      exact ⟨next, hkeeps.enter henter, ih hrest⟩

/-- A path with a name at its end leads to the place that has this name, whether anything is there
or not. -/
inductive Leads (v : Volume) (path : String) : Place → Prop
  | mk {dir : Place} {name : String} (hpath : checkPath path = .ok ())
      (hdir : (Path.steps path).dropLast.foldlM v.enter (start path) = .ok dir)
      (hlast : (Path.steps path).getLast? = some name) (hname : name ≠ "." ∧ name ≠ "..")
      (hlength : name.utf8ByteSize ≤ maxName) : Leads v path (dir.child name)

theorem follow_eq_named {v : Volume} {path : String} {place : Place} {entry : Option Entry} :
    v.follow path = .ok (.named place entry) ↔ v.Leads path place ∧ entry = v.get? place := by
  simp only [follow, bind_eq_ok]
  constructor
  · rintro ⟨_, hpath, dir, hdir, hfollow⟩
    split at hfollow
    · cases hfollow
    · cases hfollow
    · cases hfollow
    · rename_i name hdot hdots hlast
      obtain ⟨found, hfind, hnamed⟩ := bind_eq_ok.mp hfollow
      cases hnamed
      obtain ⟨hlength, rfl⟩ := find_eq_ok.mp hfind
      exact ⟨.mk hpath hdir hlast ⟨hdot, hdots⟩ hlength, rfl⟩
  · rintro ⟨⟨hpath, hdir, hlast, hname, hlength⟩, rfl⟩
    refine ⟨(), hpath, _, hdir, ?_⟩
    rw [hlast]
    split
    · rename_i hnone
      cases hnone
    · rename_i hdot
      exact absurd (Option.some.inj hdot) hname.1
    · rename_i hdots
      exact absurd (Option.some.inj hdots) hname.2
    · rename_i other _ _ hother
      cases hother
      exact bind_eq_ok.mpr ⟨_, find_eq_ok.mpr ⟨hlength, rfl⟩, rfl⟩

theorem get?_of_follow {v : Volume} {path : String} {place : Place} {entry : Option Entry}
    (hfollow : v.follow path = .ok (.named place entry)) : v.get? place = entry :=
  (follow_eq_named.mp hfollow).2.symm

theorem Leads.of_keeps {v w : Volume} (hkeeps : v.KeepsDirectories w) {path : String}
    {place : Place} (hleads : v.Leads path place) : w.Leads path place := by
  obtain ⟨hpath, hdir, hlast, hname, hlength⟩ := hleads
  exact .mk hpath (hkeeps.foldlM hdir) hlast hname hlength

theorem Leads.back?_names {v : Volume} {path : String} {place : Place}
    (hleads : v.Leads path place) : place.names.back? = (Path.steps path).getLast? := by
  obtain ⟨-, -, hlast, -, -⟩ := hleads
  rw [hlast, Place.child, Array.back?_push]

theorem Leads.names {v : Volume} {path : String} {place : Place} (hleads : v.Leads path place) :
    place.names ≠ #[] := by
  obtain ⟨-, -, -, -, -⟩ := hleads
  simp [Place.child]

/-- An entry may be put anywhere but in the place of a directory, unless it is one. -/
theorem keeps_put {v : Volume} {place : Place} {entry : Entry}
    (hentry : v.get? place = some .directory → entry = .directory) (hnames : place.names ≠ #[]) :
    v.KeepsDirectories (v.put place entry) := by
  intro other hother
  by_cases hplace : other = place
  · subst hplace
    rw [get?_put v other entry hnames, if_pos rfl, hentry hother]
  · rw [get?_put_of_ne v entry hplace, hother]

theorem Leads.follow_put {v : Volume} {path : String} {place : Place} {entry : Entry}
    (hleads : v.Leads path place)
    (hentry : v.get? place = some .directory → entry = .directory) :
    (v.put place entry).follow path = .ok (.named place (some entry)) := by
  refine follow_eq_named.mpr ⟨hleads.of_keeps (keeps_put hentry hleads.names), ?_⟩
  rw [get?_put v place entry hleads.names, if_pos rfl]

/-! What each operation does if it succeeds. -/

theorem readText_eq_ok {v : Volume} {path text : String} :
    v.readText path = .ok text ↔
      (∃ place, v.follow path = .ok (.named place (some (.file text)))) ∧
        endsInSlash path = false := by
  simp only [readText, bind_eq_ok]
  constructor
  · rintro ⟨target, hfollow, hresult⟩
    split at hresult
    · cases hresult
    · cases hresult
    · split at hresult
      · cases hresult
      · rename_i hslash
        cases hresult
        exact ⟨⟨_, hfollow⟩, Bool.not_eq_true _ ▸ hslash⟩
    · cases hresult
  · rintro ⟨⟨place, hfollow⟩, hslash⟩
    refine ⟨_, hfollow, ?_⟩
    simp only [hslash]
    rfl

theorem exists_of_writeText {v w : Volume} {path text : String}
    (hwrite : v.writeText path text = .ok w) :
    ∃ place entry, v.follow path = .ok (.named place entry) ∧ entry ≠ some .directory ∧
      endsInSlash path = false ∧ w = v.put place (.file text) := by
  simp only [writeText, bind_eq_ok] at hwrite
  obtain ⟨target, hfollow, hresult⟩ := hwrite
  split at hresult
  · cases hresult
  · cases hresult
  · rename_i place entry hentry
    split at hresult
    · cases hresult
    · rename_i hslash
      cases hresult
      refine ⟨place, entry, hfollow, ?_, Bool.not_eq_true _ ▸ hslash, rfl⟩
      rintro rfl
      exact hentry rfl

theorem exists_of_makeDir {v w : Volume} {path : String} (hmake : v.makeDir path = .ok w) :
    ∃ place, v.follow path = .ok (.named place none) ∧ w = v.put place .directory := by
  simp only [makeDir, bind_eq_ok] at hmake
  obtain ⟨target, hfollow, hresult⟩ := hmake
  split at hresult
  · cases hresult
  · cases hresult
  · cases hresult
    exact ⟨_, hfollow, rfl⟩

/-! A text that was written can be read, also after another was written under another name. -/

theorem readText_of_writeText {v w : Volume} {path text : String}
    (hwrite : v.writeText path text = .ok w) : w.readText path = .ok text := by
  obtain ⟨place, entry, hfollow, hentry, hslash, rfl⟩ := exists_of_writeText hwrite
  obtain ⟨hleads, rfl⟩ := follow_eq_named.mp hfollow
  exact readText_eq_ok.mpr ⟨⟨place, hleads.follow_put (absurd · hentry)⟩, hslash⟩

theorem readText_writeText_of_ne {v w : Volume} {path other text more : String}
    (hread : v.readText path = .ok text) (hwrite : v.writeText other more = .ok w)
    (hne : (Path.steps path).getLast? ≠ (Path.steps other).getLast?) :
    w.readText path = .ok text := by
  obtain ⟨⟨place, hfollow⟩, hslash⟩ := readText_eq_ok.mp hread
  obtain ⟨otherPlace, entry, hotherFollow, hentry, -, rfl⟩ := exists_of_writeText hwrite
  obtain ⟨hleads, hplace⟩ := follow_eq_named.mp hfollow
  obtain ⟨hotherLeads, rfl⟩ := follow_eq_named.mp hotherFollow
  have hkeeps : v.KeepsDirectories (v.put otherPlace (.file more)) :=
    keeps_put (absurd · hentry) hotherLeads.names
  have happart : place ≠ otherPlace := by
    rintro rfl
    exact hne (hleads.back?_names.symm.trans hotherLeads.back?_names)
  refine readText_eq_ok.mpr ⟨⟨place, ?_⟩, hslash⟩
  exact follow_eq_named.mpr
    ⟨hleads.of_keeps hkeeps, hplace.trans (get?_put_of_ne v _ happart).symm⟩

/-! All that operations did, taken together. -/

def printing (v : Volume) (text : String) : Volume :=
  { v with printed := v.printed ++ text }

/-- The second volume is the first one but for directories that were not there and that some paths
lead to, for files that others lead to, and for what has been printed. -/
structure Changes (dirs : List String) (files : List (String × String)) (text : String)
    (v w : Volume) : Prop where
  keeps : v.KeepsDirectories w
  only : ∀ place, w.get? place = v.get? place ∨
    (v.get? place = none ∧
      ∃ path ∈ dirs, w.follow path = .ok (.named place (some .directory))) ∨
    ∃ file ∈ files, w.follow file.1 = .ok (.named place (some (.file file.2)))
  printed : w.printed = v.printed ++ text

theorem readText_printing (v : Volume) (text path : String) :
    (v.printing text).readText path = v.readText path := rfl

theorem Changes.refl (v : Volume) : Changes [] [] "" v v :=
  ⟨fun _ h => h, fun _ => .inl rfl, String.append_empty.symm⟩

theorem changes_printing (v : Volume) (text : String) : Changes [] [] text v (v.printing text) :=
  ⟨fun _ h => h, fun _ => .inl rfl, rfl⟩

theorem changes_makeDir {v w : Volume} {path : String} (hmake : v.makeDir path = .ok w) :
    Changes [path] [] "" v w := by
  obtain ⟨place, hfollow, rfl⟩ := exists_of_makeDir hmake
  obtain ⟨hleads, hnone⟩ := follow_eq_named.mp hfollow
  refine ⟨keeps_put (fun _ => rfl) hleads.names, fun other => ?_, String.append_empty.symm⟩
  by_cases hplace : other = place
  · subst hplace
    exact .inr (.inl ⟨hnone.symm, path, List.mem_singleton_self path,
      hleads.follow_put fun _ => rfl⟩)
  · exact .inl (get?_put_of_ne v _ hplace)

theorem changes_writeText {v w : Volume} {path text : String}
    (hwrite : v.writeText path text = .ok w) : Changes [] [(path, text)] "" v w := by
  obtain ⟨place, entry, hfollow, hentry, -, rfl⟩ := exists_of_writeText hwrite
  obtain ⟨hleads, rfl⟩ := follow_eq_named.mp hfollow
  refine ⟨keeps_put (absurd · hentry) hleads.names, fun other => ?_, String.append_empty.symm⟩
  by_cases hplace : other = place
  · subst hplace
    exact .inr (.inr ⟨_, List.mem_singleton_self _, hleads.follow_put (absurd · hentry)⟩)
  · exact .inl (get?_put_of_ne v _ hplace)

theorem Changes.mono {dirs others : List String} {files : List (String × String)} {text : String}
    {v w : Volume} (hchanges : Changes dirs files text v w) (hdirs : dirs ⊆ others) :
    Changes others files text v w := by
  refine ⟨hchanges.keeps, fun place => ?_, hchanges.printed⟩
  rcases hchanges.only place with hsame | ⟨hnone, path, hpath, hfollow⟩ | hfile
  · exact .inl hsame
  · exact .inr (.inl ⟨hnone, path, hdirs hpath, hfollow⟩)
  · exact .inr (.inr hfile)

/-- A path to a place still leads there after changes, to whatever is there then. -/
theorem Changes.follow {dirs : List String} {files : List (String × String)} {text : String}
    {v w : Volume} (hchanges : Changes dirs files text v w) {path : String} {place : Place}
    {entry : Option Entry} (hfollow : v.follow path = .ok (.named place entry)) :
    w.follow path = .ok (.named place (w.get? place)) :=
  follow_eq_named.mpr ⟨(follow_eq_named.mp hfollow).1.of_keeps hchanges.keeps, rfl⟩

theorem Changes.trans {dirs others : List String} {files more : List (String × String)}
    {text later : String} {v w x : Volume} (hfirst : Changes dirs files text v w)
    (hsecond : Changes others more later w x) :
    Changes (dirs ++ others) (files ++ more) (text ++ later) v x := by
  refine ⟨fun place h => hsecond.keeps place (hfirst.keeps place h), fun place => ?_, ?_⟩
  · rcases hsecond.only place with hsame | ⟨hnone, path, hpath, hfollow⟩ | ⟨file, hfile, hfollow⟩
    · -- What the second changes leave alone is as the first ones left it.
      rcases hfirst.only place with hbefore | ⟨hnone, path, hpath, hfollow⟩ | ⟨file, hfile, hfollow⟩
      · exact .inl (hsame.trans hbefore)
      · have hlater := hsecond.follow hfollow
        rw [hsame, get?_of_follow hfollow] at hlater
        exact .inr (.inl ⟨hnone, path, List.mem_append_left others hpath, hlater⟩)
      · have hlater := hsecond.follow hfollow
        rw [hsame, get?_of_follow hfollow] at hlater
        exact .inr (.inr ⟨file, List.mem_append_left more hfile, hlater⟩)
    · -- Where there was nothing in between, there was nothing at first.
      rcases hfirst.only place with hbefore | ⟨-, _, -, hmade⟩ | ⟨_, -, hmade⟩
      · refine .inr (.inl ⟨hbefore ▸ hnone, path, List.mem_append_right dirs hpath, hfollow⟩)
      · rw [get?_of_follow hmade] at hnone
        cases hnone
      · rw [get?_of_follow hmade] at hnone
        cases hnone
    · exact .inr (.inr ⟨file, List.mem_append_right files hfile, hfollow⟩)
  · rw [hsecond.printed, hfirst.printed, String.append_assoc]

/-! Making directories. Whether all of them can be made or not, nothing else changes. -/

/-- An operation that answers whether it succeeded. -/
abbrev Operation :=
  StateM Volume (Except FileError Unit)

theorem run_bind (x : StateM Volume α) (f : α → StateM Volume β) (v : Volume) :
    (x >>= f).run v = (f (x.run v).1).run (x.run v).2 := rfl

theorem run_update (f : Volume → Except FileError Volume) (v : Volume) :
    (update f).run v =
      match f v with
      | .ok w => (.ok (), w)
      | .error e => (.error e, v) := by
  have hrun : (update f).run v = (match f v with
      | .ok w => (do set w; return .ok ())
      | .error e => return .error e : Operation).run v := rfl
  rw [hrun]
  cases f v <;> rfl

theorem run_isDirectory (v : Volume) (path : String) :
    ((Files.isDirectory path : StateM Volume Bool).run v).2 = v := by
  unfold Files.isDirectory
  rw [run_bind]
  split <;> rfl

theorem run_orPresent (v : Volume) (path : String) (result : Except FileError Unit) :
    ((Files.orPresent path result : Operation).run v).2 = v := by
  cases result with
  | ok u => rfl
  | error e => exact run_isDirectory v path

theorem changes_run_makeDir (v : Volume) (path : String) :
    Changes [path] [] "" v ((Files.makeDir path : Operation).run v).2 := by
  have hrun : (Files.makeDir path : Operation).run v = _ :=
    run_update (·.makeDir path) v
  rw [hrun]
  cases hmake : v.makeDir path with
  | ok w => exact changes_makeDir hmake
  | error e => exact (Changes.refl v).mono (List.nil_subset _)

theorem changes_makeDirsAlong (v : Volume) (paths : List String) :
    Changes paths [] "" v ((Files.makeDirsAlong paths : Operation).run v).2 := by
  induction paths generalizing v with
  | nil => exact Changes.refl v
  | cons target above ih =>
      have htarget : [target] ⊆ target :: above := by simp
      have habove : above ⊆ target :: above := List.subset_cons_self target above
      rw [Files.makeDirsAlong, run_bind]
      have hfirst := (changes_run_makeDir v target).mono htarget
      generalize (Files.makeDir target : Operation).run v = first at hfirst ⊢
      split
      · rw [run_bind]
        have hrest := (ih first.2).mono habove
        generalize (Files.makeDirsAlong above : Operation).run first.2 = rest at hrest ⊢
        have hboth : Changes (target :: above) [] "" v rest.2 := by
          simpa using (hfirst.trans hrest).mono (by simp)
        split
        · rw [run_bind, run_orPresent]
          have hlast := (changes_run_makeDir rest.2 target).mono htarget
          simpa using (hboth.trans hlast).mono (by simp)
        · exact hboth
      · rw [run_orPresent]
        exact hfirst

/-- What making a directory, and those above it, answers and leaves. -/
def makeDirs (v : Volume) (path : String) : Except FileError Unit × Volume :=
  (Files.makeDirs path : Operation).run v

theorem changes_makeDirs (v : Volume) (path : String) :
    Changes (Path.ancestry path) [] "" v (v.makeDirs path).2 := by
  unfold makeDirs Files.makeDirs
  split
  · exact (Changes.refl v).mono (List.nil_subset _)
  · exact changes_makeDirsAlong v (Path.ancestry path)

end ShaderChain.Volume
