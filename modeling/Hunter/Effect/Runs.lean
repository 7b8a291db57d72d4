import Hunter.Effect.Replay
set_option autoImplicit false

namespace Hunter.Effect

universe u

variable {C : Type → Type u} {ε ε' σ α β : Type}

/-- A whole run of a program that nothing interrupts: how it ends, and the state it leaves. -/
inductive Runs (step : {β : Type} → C β → σ → β → σ → Prop) :
    Prog C ε α → σ → Except ε α → σ → Prop
  | done {a : α} {s : σ} : Runs step (.done a) s (.ok a) s
  | fail {e : ε} {s : σ} : Runs step (.fail e) s (.error e) s
  | call {γ : Type} {c : C γ} {k : γ → Prog C ε α} {b : γ} {s t u : σ} {r : Except ε α} :
      step c s b t → Runs step (k b) t r u → Runs step (.call c k) s r u

namespace Runs
variable {step : {β : Type} → C β → σ → β → σ → Prop} {s t u : σ}

theorem bind {p : Prog C ε α} {f : α → Prog C ε β} {x : α} {r : Except ε β}
    (hp : Runs step p s (.ok x) t) (hf : Runs step (f x) t r u) : Runs step (p >>= f) s r u := by
  induction p generalizing s with
  | done a =>
    cases hp
    exact hf
  | fail e => cases hp
  | call c k ih =>
    cases hp with
    | call hstep hrest => exact .call hstep (ih _ hrest)

theorem bind_error {p : Prog C ε α} {f : α → Prog C ε β} {e : ε}
    (hp : Runs step p s (.error e) t) : Runs step (p >>= f) s (.error e) t := by
  induction p generalizing s with
  | done a => cases hp
  | fail e' =>
    cases hp
    exact .fail
  | call c k ih =>
    cases hp with
    | call hstep hrest => exact .call hstep (ih _ hrest)

/-- A run of `p >>= f` is a run of `p` and one of `f`, or one of `p` that fails. -/
theorem of_bind {p : Prog C ε α} {f : α → Prog C ε β} {r : Except ε β}
    (h : Runs step (p >>= f) s r u) :
    (∃ x t, Runs step p s (.ok x) t ∧ Runs step (f x) t r u) ∨
      ∃ e, r = .error e ∧ Runs step p s (.error e) u := by
  induction p generalizing s with
  | done a => exact Or.inl ⟨a, s, .done, h⟩
  | fail e =>
    cases h
    exact Or.inr ⟨e, rfl, .fail⟩
  | call c k ih =>
    cases h with
    | call hstep hrest =>
      rcases ih _ hrest with ⟨x, t, hp, hf⟩ | ⟨e, hr, hp⟩
      · exact Or.inl ⟨x, t, .call hstep hp, hf⟩
      · exact Or.inr ⟨e, hr, .call hstep hp⟩

theorem of_bind_ok {p : Prog C ε α} {f : α → Prog C ε β} {b : β}
    (h : Runs step (p >>= f) s (.ok b) u) :
    ∃ x t, Runs step p s (.ok x) t ∧ Runs step (f x) t (.ok b) u := by
  rcases h.of_bind with h | ⟨e, he, -⟩
  · exact h
  · cases he

theorem attempt {p : Prog C ε α} {r : Except ε α} (h : Runs step p s r t) :
    Runs step (p.attempt : Prog C ε' (Except ε α)) s (.ok r) t := by
  induction h with
  | done => exact .done
  | fail => exact .done
  | call hstep _ ih => exact .call hstep ih

theorem of_attempt {p : Prog C ε α} {r : Except ε' (Except ε α)}
    (h : Runs step (p.attempt : Prog C ε' (Except ε α)) s r t) :
    ∃ r', r = .ok r' ∧ Runs step p s r' t := by
  induction p generalizing s with
  | done a =>
    cases h
    exact ⟨_, rfl, .done⟩
  | fail e =>
    cases h
    exact ⟨_, rfl, .fail⟩
  | call c k ih =>
    cases h with
    | call hstep hrest =>
      obtain ⟨r', hr, hp⟩ := ih _ hrest
      exact ⟨r', hr, .call hstep hp⟩

theorem of_attempt_bind {p : Prog C ε α} {f : Except ε α → Prog C ε' β} {r : Except ε' β}
    (h : Runs step ((p.attempt : Prog C ε' (Except ε α)) >>= f) s r u) :
    ∃ r' t, Runs step p s r' t ∧ Runs step (f r') t r u := by
  rcases h.of_bind with ⟨x, t, hp, hf⟩ | ⟨e, -, hp⟩
  · obtain ⟨r', hr, hp⟩ := hp.of_attempt
    cases hr
    exact ⟨_, t, hp, hf⟩
  · obtain ⟨r', hr, -⟩ := hp.of_attempt
    cases hr

end Runs

/-- However the program's run from `s` ends, it ends in `Q`. -/
def Post (step : {β : Type} → C β → σ → β → σ → Prop) (p : Prog C ε α) (s : σ)
    (Q : Except ε α → σ → Prop) : Prop :=
  ∀ r t, Runs step p s r t → Q r t

section
variable {step : {β : Type} → C β → σ → β → σ → Prop} {s : σ} {Q : Except ε β → σ → Prop}

theorem post_done {x : β} (h : Q (.ok x) s) : Post step (.done x) s Q := by
  intro r t hrun
  cases hrun
  exact h

theorem post_fail {e : ε} (h : Q (.error e) s) : Post step (.fail e) s Q := by
  intro r t hrun
  cases hrun
  exact h

theorem post_call {γ : Type} {c : C γ} {k : γ → Prog C ε β}
    (h : ∀ b t, step c s b t → Post step (k b) t Q) : Post step (.call c k) s Q := by
  intro r u hrun
  cases hrun with
  | call hstep hrest => exact h _ _ hstep r u hrest

theorem post_bind {p : Prog C ε α} {f : α → Prog C ε β}
    (h : Post step p s (onOk (fun x t => Post step (f x) t Q) Q)) : Post step (p >>= f) s Q := by
  intro r u hrun
  rcases Runs.of_bind hrun with ⟨x, t, hp, hf⟩ | ⟨e, rfl, hp⟩
  · exact h _ _ hp r u hf
  · exact h _ _ hp

theorem post_attempt {p : Prog C ε α} {Q : Except ε' (Except ε α) → σ → Prop}
    (h : Post step p s fun r t => Q (.ok r) t) : Post step (p.attempt : Prog C ε' _) s Q := by
  induction p generalizing s with
  | done a => exact post_done (h _ _ .done)
  | fail e => exact post_done (h _ _ .fail)
  | call c k ih => exact post_call fun b t hstep => ih b fun r u hrun => h r u (.call hstep hrun)

end

/-- Every call of the program is one of `ok`. -/
def Only (ok : {β : Type} → C β → Prop) : Prog C ε α → Prop
  | .done _ | .fail _ => True
  | .call c k => ok c ∧ ∀ b, Only ok (k b)

section
variable {ok : {β : Type} → C β → Prop}

theorem only_bind {p : Prog C ε α} {f : α → Prog C ε β} (hp : Only ok p)
    (hf : ∀ x, Only ok (f x)) : Only ok (p >>= f) := by
  induction p with
  | done x => exact hf x
  | fail e => trivial
  | call c k ih => exact ⟨hp.1, fun b => ih b (hp.2 b)⟩

theorem only_attempt {p : Prog C ε α} (hp : Only ok p) :
    Only ok (p.attempt : Prog C ε' (Except ε α)) := by
  induction p with
  | done x => trivial
  | fail e => trivial
  | call c k ih => exact ⟨hp.1, fun b => ih b (hp.2 b)⟩

/-- What each of its calls keeps, a run of the program keeps. -/
theorem Runs.keeps {step : {β : Type} → C β → σ → β → σ → Prop} {R : σ → σ → Prop}
    {p : Prog C ε α} {s t : σ} {r : Except ε α} (h : Runs step p s r t)
    (hrefl : ∀ s, R s s) (htrans : ∀ s t u, R s t → R t u → R s u)
    (hstep : ∀ {γ : Type} (c : C γ) (s : σ) (b : γ) (t : σ), ok c → step c s b t → R s t)
    (hp : Only ok p) : R s t := by
  induction h with
  | done => exact hrefl _
  | fail => exact hrefl _
  | call hs _ ih => exact htrans _ _ _ (hstep _ _ _ _ hp.1 hs) (ih (hp.2 _))

end

theorem Machine.Reachable.runs {M : Machine C ε σ} {p : Prog C ε M.Phase} {phase : M.Phase}
    {s t : σ} (h : M.Reachable ⟨p, s⟩) (hrun : Runs M.step p s (.ok phase) t) :
    M.Reachable ⟨M.body phase, t⟩ := by
  induction p generalizing s with
  | done a =>
    cases hrun
    exact h.step .finish
  | fail e => cases hrun
  | call c k ih =>
    cases hrun with
    | call hstep hrest => exact ih _ (h.step (.call hstep)) hrest

/-- What a machine's steps keep, the run of a program that follows its protocol keeps. -/
theorem Machine.Invariant.runs {A : Type} {P : Protocol C A} {M : Machine C ε σ}
    {F : M.Follower P} {I : A → σ → Prop} (hI : M.Invariant F I) {a : A} {p : Prog C ε α} {s t : σ}
    {r : Except ε α} {Q : Except ε α → A → Prop} (hrun : Runs M.step p s r t)
    (hp : Follows P a p Q) (hs : I a s) : ∃ a', Q r a' ∧ I a' t := by
  induction hrun generalizing a with
  | done => exact ⟨a, hp, hs⟩
  | fail => exact ⟨a, hp, hs⟩
  | call hstep _ ih => exact ih (hp.2 _ (F.answers _ _ _ _ hstep)) (hI.call _ _ _ _ _ hp.1 hs hstep)

theorem Runs.watch {γ : Type} {M : Machine C ε σ} {R : γ → γ → Prop} {p : Prog C ε α} {s t : σ}
    {r : Except ε α} (hrun : Runs M.step p s r t) (start : γ)
    (seen : {β : Type} → C β → σ → β → σ → γ → γ) (heard : σ → σ → γ → γ) (notes : γ)
    (hrefl : ∀ n, R n n) (htrans : ∀ n m l, R n m → R m l → R n l)
    (hseen : ∀ {β : Type} (c : C β) (s : σ) (b : β) (t : σ) (n : γ), R n (seen c s b t n)) :
    ∃ notes', Runs (M.watch start seen heard).step p (s, notes) r (t, notes') ∧ R notes notes' := by
  induction hrun generalizing notes with
  | done => exact ⟨notes, .done, hrefl _⟩
  | fail => exact ⟨notes, .fail, hrefl _⟩
  | @call β c k b s t u r hstep _ ih =>
    obtain ⟨notes', hrest, hR⟩ := ih (seen c s b t notes)
    exact ⟨notes', .call ⟨hstep, rfl⟩ hrest, htrans _ _ _ (hseen c s b t notes) hR⟩

theorem Runs.mono {step step' : {β : Type} → C β → σ → β → σ → Prop} {p : Prog C ε α} {s t : σ}
    {r : Except ε α} (hrun : Runs step p s r t)
    (hstep : ∀ {β : Type} (c : C β) (s : σ) (b : β) (t : σ), step c s b t → step' c s b t) :
    Runs step' p s r t := by
  induction hrun with
  | done => exact .done
  | fail => exact .fail
  | call hs _ ih => exact .call (hstep _ _ _ _ hs) ih

/-- A replay to the program's end is a run of it. -/
theorem runs_replay {step : {β : Type} → C β → σ → β → σ → Prop} {reply : Machine.Reply C σ}
    (hreply : ∀ {β : Type} (c : C β) (s : σ) (b : β) (t : σ),
      reply.answer c s = some (b, t) → step c s b t) {p : Prog C ε α} {s : σ} {x : α}
    (h : (Machine.replay reply p s).1 = .done x) :
    Runs step p s (.ok x) (Machine.replay reply p s).2 := by
  induction p generalizing s with
  | done a =>
    obtain rfl : a = x := by simpa [Machine.replay] using h
    exact .done
  | fail e => simp [Machine.replay] at h
  | call c k ih =>
    unfold Machine.replay at h ⊢
    split at h
    · rename_i r hr
      exact .call (hreply c s r.1 r.2 hr) (ih r.1 h)
    · cases h

end Hunter.Effect
