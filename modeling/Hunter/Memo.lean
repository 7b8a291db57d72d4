import Mathlib.Data.List.Nodup
set_option autoImplicit false

/-! A question that may fail, put at most once for each key: an answer is kept, a failure ends the
run. -/

structure Memo (κ β : Type) where
  known : List (κ × β) := []
  asked : List κ := []

namespace Memo

/-- A run that asks; what it asked is there however it ends. -/
abbrev Asking (κ β ε : Type) := ExceptT ε (StateM (Memo κ β))

variable {κ β ε α γ : Type}

def run (m : Asking κ β ε α) (s : Memo κ β) : Except ε α × Memo κ β := StateT.run (ExceptT.run m) s

section
variable {m : Asking κ β ε α} {s : Memo κ β}

@[simp] theorem run_pure (a : α) : run (pure a : Asking κ β ε α) s = (.ok a, s) := rfl

theorem run_bind (f : α → Asking κ β ε γ) :
    run (m >>= f) s = match (run m s).1 with
      | .ok a => run (f a) (run m s).2
      | .error e => (.error e, (run m s).2) := by
  have hbind : run (m >>= f) s = ExceptT.bindCont f (run m s).1 (run m s).2 := rfl
  rw [hbind]
  cases (run m s).1 <;> rfl

theorem run_get (f : Memo κ β → Asking κ β ε γ) : run (get >>= f) s = run (f s) s := rfl

@[simp] theorem run_lift (r : Except ε α) : run (liftExcept r : Asking κ β ε α) s = (r, s) := by
  cases r <;> rfl

end

variable [DecidableEq κ]

def query (ask : κ → Except ε β) (k : κ) : Asking κ β ε β := do
  match (← get).known.lookup k with
  | some b => pure b
  | none =>
    modify fun s => { s with asked := s.asked ++ [k] }
    let b ← liftExcept (ask k)
    modify fun s => { s with known := (k, b) :: s.known }
    pure b

/-- No key has been asked twice; those asked have their answers kept. -/
structure Sound (ask : κ → Except ε β) (s : Memo κ β) : Prop where
  answers : ∀ k b, s.known.lookup k = some b → ask k = .ok b
  kept : ∀ k ∈ s.asked, (s.known.lookup k).isSome
  once : s.asked.Nodup

/-- The outcome is that of asking each time anew, and no key is asked twice. -/
structure Follows (ask : κ → Except ε β) (m : Asking κ β ε α) (r : Except ε α) : Prop where
  outcome : ∀ s, Sound ask s → (run m s).1 = r
  once : ∀ s, Sound ask s → (run m s).2.asked.Nodup
  sound : ∀ s, Sound ask s → ∀ a, r = .ok a → Sound ask (run m s).2

section
variable {ask : κ → Except ε β} {m : Asking κ β ε α} {r : Except ε α} {s : Memo κ β} {k : κ} {b : β}

theorem sound_start : Sound ask {} := ⟨by simp, by simp, List.nodup_nil⟩

theorem run_query : run (query ask k) s = match s.known.lookup k with
    | some b => (.ok b, s)
    | none => match ask k with
      | .ok b => (.ok b, { known := (k, b) :: s.known, asked := s.asked ++ [k] })
      | .error e => (.error e, { s with asked := s.asked ++ [k] }) := by
  rw [query, run_get]
  cases s.known.lookup k with
  | some b => rfl
  | none => cases ask k <;> rfl

theorem Sound.fresh (h : Sound ask s) (hk : s.known.lookup k = none) : k ∉ s.asked := by
  intro hasked
  simpa [hk] using h.kept k hasked

theorem Sound.nodup_ask (h : Sound ask s) (hk : s.known.lookup k = none) :
    (s.asked ++ [k]).Nodup :=
  h.once.append (List.nodup_singleton k) (by simpa using h.fresh hk)

theorem Sound.answered (h : Sound ask s) (hk : s.known.lookup k = none) (hb : ask k = .ok b) :
    Sound ask { known := (k, b) :: s.known, asked := s.asked ++ [k] } where
  answers := by
    intro k' b' hlookup
    by_cases hk' : k' = k
    · subst hk'
      simp only [List.lookup_cons_self, Option.some.injEq] at hlookup
      rw [← hlookup, hb]
    · have hne : (k' == k) = false := by simpa using hk'
      simp only [List.lookup_cons, hne] at hlookup
      exact h.answers k' b' hlookup
  kept := by
    intro k' hk'
    by_cases hself : k' = k
    · simp [hself]
    · have hne : (k' == k) = false := by simpa using hself
      simp only [List.lookup_cons, hne]
      exact h.kept k' (by simpa [hself] using hk')
  once := h.nodup_ask hk

theorem follows_pure (a : α) : Follows ask (pure a) (.ok a) where
  outcome := by simp
  once := fun s hs => by simpa using hs.once
  sound := fun s hs a' _ => by simpa using hs

theorem follows_lift (r : Except ε α) : Follows ask (liftExcept r) r where
  outcome := by simp
  once := fun s hs => by simpa using hs.once
  sound := fun s hs a _ => by simpa using hs

theorem follows_query : Follows ask (query ask k) (ask k) where
  outcome := by
    intro s hs
    rw [run_query]
    cases hk : s.known.lookup k with
    | some b => exact (hs.answers k b hk).symm
    | none => cases ask k <;> rfl
  once := by
    intro s hs
    rw [run_query]
    cases hk : s.known.lookup k with
    | some b => exact hs.once
    | none => cases ask k <;> exact hs.nodup_ask hk
  sound := by
    intro s hs b hb
    rw [run_query]
    cases hk : s.known.lookup k with
    | some b => exact hs
    | none =>
      simp only [hb]
      exact hs.answered hk hb

theorem follows_bind {f : α → Asking κ β ε γ} {g : α → Except ε γ} (hm : Follows ask m r)
    (hf : ∀ a, r = .ok a → Follows ask (f a) (g a)) : Follows ask (m >>= f) (r >>= g) := by
  cases r with
  | error e =>
    have hrun : ∀ s, Sound ask s → run (m >>= f) s = (.error e, (run m s).2) := by
      intro s hs
      rw [run_bind, hm.outcome s hs]
    exact
      { outcome := fun s hs => by rw [hrun s hs]; rfl
        once := fun s hs => by rw [hrun s hs]; exact hm.once s hs
        sound := fun s hs a ha => by cases ha }
  | ok a =>
    have hrun : ∀ s, Sound ask s → run (m >>= f) s = run (f a) (run m s).2 := by
      intro s hs
      rw [run_bind, hm.outcome s hs]
    have hnext : ∀ s, Sound ask s → Sound ask (run m s).2 := fun s hs => hm.sound s hs a rfl
    exact
      { outcome := fun s hs => by rw [hrun s hs]; exact (hf a rfl).outcome _ (hnext s hs)
        once := fun s hs => by rw [hrun s hs]; exact (hf a rfl).once _ (hnext s hs)
        sound := fun s hs => by rw [hrun s hs]; exact (hf a rfl).sound _ (hnext s hs) }

theorem follows_filterMapM {f : γ → Asking κ β ε (Option α)} {g : γ → Except ε (Option α)}
    (hf : ∀ x, Follows ask (f x) (g x)) (xs : List γ) :
    Follows ask (xs.filterMapM f) (xs.filterMapM g) := by
  induction xs with
  | nil => exact follows_pure []
  | cons x xs ih =>
    rw [List.filterMapM_cons, List.filterMapM_cons]
    refine follows_bind (hf x) fun y _ => ?_
    cases y with
    | none => exact ih
    | some y => exact follows_bind ih fun ys _ => follows_pure (y :: ys)

end

/-- The lists differ only in elements of `P`. -/
inductive DifferIn (P : γ → Prop) : List γ → List γ → Prop
  | nil : DifferIn P [] []
  | same {x : γ} {xs ys : List γ} : DifferIn P xs ys → DifferIn P (x :: xs) (x :: ys)
  | left {x : γ} {xs ys : List γ} : P x → DifferIn P xs ys → DifferIn P (x :: xs) ys
  | right {y : γ} {xs ys : List γ} : P y → DifferIn P xs ys → DifferIn P xs (y :: ys)

section
variable {P : γ → Prop} {g : γ → Except ε (Option α)} {pick : γ → Option α} {xs ys : List γ}

theorem filterMapM_differIn (hg : ∀ x, P x → g x = .ok none) (h : DifferIn P xs ys) :
    xs.filterMapM g = ys.filterMapM g := by
  induction h with
  | nil => rfl
  | same _ ih => rw [List.filterMapM_cons, List.filterMapM_cons, ih]
  | left hx _ ih => rw [List.filterMapM_cons, hg _ hx, ← ih]; rfl
  | right hy _ ih => rw [List.filterMapM_cons, hg _ hy, ih]; rfl

theorem filterMapM_eq_ok {kept : List α} (hg : ∀ x y, g x = .ok y ↔ P x ∧ pick x = y) :
    xs.filterMapM g = .ok kept ↔ (∀ x ∈ xs, P x) ∧ xs.filterMap pick = kept := by
  induction xs generalizing kept with
  | nil => simp [pure, Except.pure]
  | cons x xs ih =>
    rw [List.filterMapM_cons, List.forall_mem_cons]
    cases hx : g x with
    | error e =>
      have hP : ¬ P x := by
        intro hP
        simpa [hx] using (hg x (pick x)).mpr ⟨hP, rfl⟩
      simp [bind, Except.bind, hP]
    | ok y =>
      obtain ⟨hP, hy⟩ := (hg x y).mp hx
      cases y with
      | none => simpa [bind, Except.bind, hP, List.filterMap_cons_none hy] using ih
      | some y =>
        rw [List.filterMap_cons_some hy]
        cases hrest : xs.filterMapM g with
        | error e =>
          have hnone : ∀ kept, ¬ ((∀ x ∈ xs, P x) ∧ xs.filterMap pick = kept) := by
            intro kept hall
            simpa [hrest] using ih.mpr hall
          have hP' : ¬ ∀ x ∈ xs, P x := fun hall => hnone _ ⟨hall, rfl⟩
          simp [bind, Except.bind, hP']
        | ok rest =>
          obtain ⟨hall, hrest⟩ := ih.mp hrest
          simpa [bind, Except.bind, pure, Except.pure, hP, hrest] using fun _ => hall

end

end Memo
