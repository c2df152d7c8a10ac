import ShaderChain.Update

/-! Updates and the states that they leave behind. Where all checks come before the first change, a
failure leaves the state as it was. -/

namespace ShaderChain.Update

/-! Updates one after the other. -/

theorem run_bind_ok {m : Update ε σ α} {s t : σ} {a : α} (hm : m.run s = (.ok a, t))
    (f : α → Update ε σ β) : (m >>= f).run s = (f a).run t := by
  change (m.run >>= ExceptT.bindCont f) s = _
  simp only [bind, StateT.bind, hm]
  rfl

theorem run_bind_error {m : Update ε σ α} {s t : σ} {e : ε} (hm : m.run s = (.error e, t))
    (f : α → Update ε σ β) : (m >>= f).run s = (.error e, t) := by
  change (m.run >>= ExceptT.bindCont f) s = _
  simp only [bind, StateT.bind, hm]
  rfl

theorem lift_ok_bind (a : α) (f : α → Update ε σ β) :
    (liftM (Except.ok a : Except ε α) >>= f) = f a := rfl

theorem on_get_bind (f : σ → Update ε σ α) (s : σ) : (get >>= f).on s = (f s).on s := rfl

/-- A check comes before what follows it. -/
theorem on_lift_bind (x : Except ε α) (f : α → Update ε σ β) (s : σ) :
    (liftM x >>= f : Update ε σ β).on s = x >>= fun a => (f a).on s := by
  cases x <;> rfl

theorem run_collect_ok {update : δ → Update ε σ α} {d : δ} {s t : σ} {a : α}
    (hd : (update d).run s = (.ok a, t)) (ds : List δ) :
    (collect update (d :: ds)).run s = (collect update ds).run t := by
  simp only [collect, StateT.run, bind, StateT.bind, hd]

theorem run_collect_error {update : δ → Update ε σ α} {d : δ} {s t : σ} {e : ε}
    (hd : (update d).run s = (.error e, t)) (ds : List δ) :
    (collect update (d :: ds)).run s =
      (e :: ((collect update ds).run t).1, ((collect update ds).run t).2) := by
  simp only [collect, StateT.run, bind, StateT.bind, hd]
  rfl

/-! The same calls on two states. -/

/-- Updates of two states that answer alike and keep the states related. -/
def Simulates (R : σ → τ → Prop) (first : Update ε σ α) (second : Update ε τ α) : Prop :=
  ∀ s t, R s t → (first.run s).1 = (second.run t).1 ∧ R (first.run s).2 (second.run t).2

theorem simulates_collect {R : σ → τ → Prop} {first : δ → Update ε σ α}
    {second : δ → Update ε τ α} (hupdate : ∀ d, Simulates R (first d) (second d)) (ds : List δ)
    {s : σ} {t : τ} (hst : R s t) :
    ((collect first ds).run s).1 = ((collect second ds).run t).1 ∧
      R ((collect first ds).run s).2 ((collect second ds).run t).2 := by
  induction ds generalizing s t with
  | nil => exact ⟨rfl, hst⟩
  | cons d ds ih =>
      obtain ⟨hanswer, hnext⟩ := hupdate d s t hst
      rcases hfirst : (first d).run s with ⟨answer, s'⟩
      rcases hsecond : (second d).run t with ⟨answer', t'⟩
      rw [hfirst, hsecond] at hanswer hnext
      subst hanswer
      cases answer with
      | ok a =>
          rw [run_collect_ok hfirst, run_collect_ok hsecond]
          exact ih hnext
      | error e =>
          obtain ⟨herrors, hstates⟩ := ih hnext
          rw [run_collect_error hfirst, run_collect_error hsecond]
          exact ⟨congrArg (e :: ·) herrors, hstates⟩

/-! The state behind a single update, by its outcome. -/

theorem state_of_ok {update : Update ε σ α} {s next : σ} (hnext : update.on s = .ok next) :
    (update.run s).2 = next := by
  unfold on at hnext
  split at hnext
  · rename_i hrun
    rw [hrun]
    exact Except.ok.inj hnext
  · cases hnext

/-- Whatever comes of it, the state is as it was. -/
def ReadOnly (update : Update ε σ α) : Prop :=
  ∀ s, (update.run s).2 = s

/-- A failure leaves the state as it was. -/
def Atomic (update : Update ε σ α) : Prop :=
  ∀ s e t, update.run s = (.error e, t) → t = s

theorem Atomic.state_of_error {update : Update ε σ α} (hupdate : update.Atomic) {s : σ} {e : ε}
    (herror : update.on s = .error e) : (update.run s).2 = s := by
  unfold on at herror
  split at herror
  · cases herror
  · rename_i hrun
    rw [hrun]
    exact hupdate s _ _ hrun

theorem readOnly_get : ReadOnly (get : Update ε σ σ) :=
  fun _ => rfl

theorem readOnly_lift (x : Except ε α) : ReadOnly (liftM x : Update ε σ α) := by
  intro s
  cases x <;> rfl

theorem atomic_modify (f : σ → σ) : Atomic (modify f : Update ε σ Unit) := by
  intro s e t hrun
  cases hrun

theorem ReadOnly.atomic_bind {m : Update ε σ α} (hm : m.ReadOnly) {f : α → Update ε σ β}
    (hf : ∀ a, (f a).Atomic) : (m >>= f).Atomic := by
  intro s e t hrun
  have hsame := hm s
  rcases hfirst : m.run s with ⟨result, after⟩
  rw [hfirst] at hsame
  subst hsame
  cases result with
  | error d =>
      rw [run_bind_error hfirst] at hrun
      exact (congrArg Prod.snd hrun).symm
  | ok a =>
      rw [run_bind_ok hfirst] at hrun
      exact hf a _ e t hrun

end ShaderChain.Update
