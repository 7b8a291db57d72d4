import Hunter.Changes.Requests
import Hunter.Replay
set_option autoImplicit false

namespace Hunter

/-- The PR number a finding's row carried when its harvest stamp, and when its harvest attempts
were last written. -/
structure HarvestNotes where
  stamped : Nat → Option Int
  counted : Nat → Option Int

def Store.prNumber (s : Store) (f : Nat) : Option Int := (s.prRow f).bind PrState.prNumber

/-- The notes once a statement has run on `s`. -/
def HarvestNotes.after (notes : HarvestNotes) (s : Store) : {β : Type} → StoreCall β → HarvestNotes
  | _, .markPrHarvested f _ | _, .recordClosedHarvest f _ _ _ _ =>
    { notes with stamped := Function.update notes.stamped f (s.prNumber f) }
  | _, .setHarvestAttempts f _ _ =>
    { notes with counted := Function.update notes.counted f (s.prNumber f) }
  | _, _ => notes

/-- Statements and requests in any order, from any database. -/
inductive Recorded : Store → HarvestNotes → Prop
  | start (s : Store) : Recorded s ⟨s.prNumber, s.prNumber⟩
  | statement {β : Type} {c : StoreCall β} {s s' : Store} {b : β} {notes : HarvestNotes} :
      Recorded s notes → c.apply s = some (b, s') → Recorded s' (notes.after s c)
  | request {r : Request} {s s' : Store} {notes : HarvestNotes} :
      Recorded s notes → Accepts s r s' → Recorded s' notes

/-- A record made for `noted` is about the PR `current`; an unknown number was filled in. -/
def Describes (noted current : Option Int) : Prop := noted = none ∨ noted = current

/-- What the row says of its harvest, it says of its own PR. -/
def HarvestNotes.Describe (notes : HarvestNotes) (f : Nat) (p : PrState) : Prop :=
  (p.harvestedAt.isSome → Describes (notes.stamped f) p.prNumber) ∧
    (0 < p.harvestAttempts → Describes (notes.counted f) p.prNumber)

/-- The number an upsert of the finding's `pr_state` row records. -/
def StoreCall.upserts (f : Nat) : {β : Type} → StoreCall β → Option Int
  | _, .markPrMerged g n _ | _, .markPrClosed g n _ | _, .setPrNumber g n =>
    if g = f then some n else none
  | _, .syncPrOpen g d => if g = f then some d.prNumber else none
  | _, _ => none

/-- What an upsert makes of the row's harvest bookkeeping. -/
structure Renumbers (p p' : PrState) (n : Int) : Prop where
  number : p'.prNumber = some n
  other : ∀ m, p.prNumber = some m → m ≠ n →
    p'.harvestedAt = none ∧ p'.harvestAttempts = 0 ∧ p'.lastHarvestFailure = none
  same : (∀ m, p.prNumber = some m → m = n) → p'.harvestedAt = p.harvestedAt ∧
    p'.harvestAttempts = p.harvestAttempts ∧ p'.lastHarvestFailure = p.lastHarvestFailure

theorem renumbers_forNumber (p : PrState) (n : Int) : Renumbers p (p.forNumber n) n := by
  unfold PrState.forNumber
  cases hp : p.prNumber with
  | none =>
    refine ⟨by simp, fun m hm => ?_, fun _ => by simp⟩
    rw [hp] at hm
    cases hm
  | some m =>
    by_cases hmn : m = n
    · subst hmn
      refine ⟨by simp, fun k hk hne => ?_, fun _ => by simp⟩
      rw [hp] at hk
      cases hk
      exact absurd rfl hne
    · refine ⟨by simp [hmn], fun _ _ _ => by simp [hmn], fun h => ?_⟩
      exact absurd (h m hp) hmn

theorem Renumbers.of_eq {p q q' : PrState} {n : Int} (h : Renumbers p q n)
    (hnumber : q'.prNumber = q.prNumber) (hstamp : q'.harvestedAt = q.harvestedAt)
    (hcount : q'.harvestAttempts = q.harvestAttempts)
    (hfailure : q'.lastHarvestFailure = q.lastHarvestFailure) : Renumbers p q' n := by
  obtain ⟨hn, hother, hsame⟩ := h
  rw [← hnumber] at hn
  rw [← hstamp, ← hcount, ← hfailure] at hother hsame
  exact ⟨hn, hother, hsame⟩

theorem renumbers_ended (p : PrState) (state : PrPhase) (n t : Int) :
    Renumbers p (p.ended state n t) n :=
  (renumbers_forNumber p n).of_eq rfl rfl rfl rfl

theorem renumbers_synced (p : PrState) (d : SyncPrData) :
    Renumbers p (p.synced d) d.prNumber := by
  refine (renumbers_forNumber p d.prNumber).of_eq ?_ ?_ ?_ ?_
  all_goals
    unfold PrState.synced
    split <;> rfl

variable {β : Type} {c : StoreCall β} {s s' : Store} {b : β} {f : Nat}

theorem StoreCall.renumbers {p : PrState} {n : Int} (h : c.apply s = some (b, s'))
    (hp : s.prRow f = some p) (hn : c.upserts f = some n) :
    ∃ p', s'.prRow f = some p' ∧ Renumbers p p' n := by
  have hrow : ∀ {g : Nat} {u : PrState → PrState}, g = f → Renumbers p (u p) n →
      ∃ p', (s.modifyFinding g (Finding.upsertPr u)).prRow f = some p' ∧ Renumbers p p' n := by
    intro g u hg hu
    subst hg
    refine ⟨u p, ?_, hu⟩
    unfold Store.prRow at hp ⊢
    rw [Store.finding?_modifyFinding, if_pos rfl]
    cases hx : s.finding? g with
    | none =>
      rw [hx] at hp
      cases hp
    | some x =>
      rw [hx] at hp
      simp only [Option.bind_some] at hp
      simp [Finding.upsertPr, hp]
  cases c with
  | markPrMerged g m t | markPrClosed g m t =>
    cases h
    simp only [upserts] at hn
    split at hn
    · rename_i hg
      cases hn
      exact hrow hg (renumbers_ended p _ n t)
    · cases hn
  | setPrNumber g m =>
    cases h
    simp only [upserts] at hn
    split at hn
    · rename_i hg
      cases hn
      exact hrow hg (renumbers_forNumber p n)
    · cases hn
  | syncPrOpen g d =>
    cases h
    simp only [upserts] at hn
    split at hn
    · rename_i hg
      cases hn
      exact hrow hg (renumbers_synced p d)
    · cases hn
  | _ => cases hn

theorem describe_renumbered {notes : HarvestNotes} {p p' : PrState} {n : Int}
    (h : notes.Describe f p) (hrule : Renumbers p p' n) : notes.Describe f p' := by
  by_cases hsame : ∀ m, p.prNumber = some m → m = n
  · obtain ⟨hstamp, hcount, -⟩ := hrule.same hsame
    have hkeep : ∀ {noted}, Describes noted p.prNumber → Describes noted p'.prNumber := by
      intro noted hnoted
      rcases hnoted with rfl | rfl
      · exact Or.inl rfl
      · cases hp : p.prNumber with
        | none => exact Or.inl rfl
        | some m =>
          rw [hrule.number, hsame m hp]
          exact Or.inr rfl
    exact ⟨fun hs => hkeep (h.1 (hstamp ▸ hs)), fun hc => hkeep (h.2 (hcount ▸ hc))⟩
  · obtain ⟨m, hm, hne⟩ : ∃ m, p.prNumber = some m ∧ m ≠ n := by
      by_contra hnone
      refine hsame fun m hm => ?_
      by_contra hne
      exact hnone ⟨m, hm, hne⟩
    obtain ⟨hstamp, hcount, -⟩ := hrule.other m hm hne
    refine ⟨fun hs => ?_, fun hc => ?_⟩
    · rw [hstamp] at hs
      cases hs
    · omega

theorem describe_first {notes : HarvestNotes} {n : Int} {p' : PrState}
    (hrule : Renumbers {} p' n) : notes.Describe f p' := by
  obtain ⟨hstamp, hcount, -⟩ := hrule.same (by simp)
  refine ⟨fun hs => ?_, fun hc => ?_⟩
  · rw [hstamp] at hs
    cases hs
  · rw [hcount] at hc
    exact absurd hc (by decide)

theorem prNumber_eq {p : PrState} (h : s.prRow f = some p) : s.prNumber f = p.prNumber := by
  simp [Store.prNumber, h]

/-- What a statement writes of a harvest is noted under the number it finds. -/
theorem describe_after {notes : HarvestNotes} {p' : PrState} (h : c.apply s = some (b, s'))
    (hnotes : ∀ p, s.prRow f = some p → notes.Describe f p) (hp' : s'.prRow f = some p') :
    (notes.after s c).Describe f p' := by
  -- a row the statement leaves alone
  have hkept : s.prRow f = some p' → (notes.after s c).Describe f p' := by
    intro hp
    have hnumber := prNumber_eq hp
    obtain ⟨hstamp, hcount⟩ := hnotes p' hp
    have hupdate : ∀ {g : Nat} {noted : Nat → Option Int}, Describes (noted f) p'.prNumber →
        Describes (Function.update noted g (s.prNumber g) f) p'.prNumber := by
      intro g noted hnoted
      by_cases hg : f = g
      · subst hg
        rw [Function.update_self]
        exact Or.inr hnumber
      · rw [Function.update_of_ne hg]
        exact hnoted
    cases c with
    | markPrHarvested | recordClosedHarvest => exact ⟨fun hs => hupdate (hstamp hs), hcount⟩
    | setHarvestAttempts => exact ⟨hstamp, fun hc => hupdate (hcount hc)⟩
    | _ => exact ⟨hstamp, hcount⟩
  have hrow : ∀ {u : PrState → PrState}, some p' = (s.prRow f).map u →
      ∃ p, s.prRow f = some p ∧ p' = u p := by
    intro u hu
    cases hp : s.prRow f with
    | none =>
      rw [hp] at hu
      cases hu
    | some p =>
      rw [hp] at hu
      exact ⟨p, rfl, Option.some.inj hu⟩
  have hupsert : ∀ (u : PrState → PrState) {n : Int}, (∀ p, Renumbers p (u p) n) →
      some p' = some (u ((s.prRow f).getD {})) → notes.Describe f p' := by
    intro u n hrule hu
    cases Option.some.inj hu
    cases hp : s.prRow f with
    | none => exact describe_first (hrule {})
    | some p => exact describe_renumbered (hnotes p hp) (hrule p)
  rcases StoreCall.prRow_cases h f with hsame | hedits
  · exact hkept (hsame ▸ hp')
  · rw [hp'] at hedits
    cases c with
    | markPrMerged g n t =>
      exact hupsert _ (fun p => renumbers_ended p .merged n t) hedits.2
    | markPrClosed g n t =>
      exact hupsert _ (fun p => renumbers_ended p .closed n t) hedits.2
    | syncPrOpen g d => exact hupsert _ (fun p => renumbers_synced p d) hedits.2
    | setPrNumber g n => exact hupsert _ (fun p => renumbers_forNumber p n) hedits.2
    | markPrEngaged | setAttentionAside =>
      obtain ⟨p, hp, rfl⟩ := hrow hedits.2
      exact hnotes p hp
    | setHarvestAttempts g attempts failure =>
      obtain ⟨rfl, hedits⟩ := hedits
      obtain ⟨p, hp, rfl⟩ := hrow hedits
      have hnumber := prNumber_eq hp
      exact ⟨(hnotes p hp).1, fun _ => Or.inr ((Function.update_self ..).trans hnumber)⟩
    | markPrHarvested g t | recordClosedHarvest g status reason anchor t =>
      obtain ⟨rfl, hedits⟩ := hedits
      obtain ⟨p, hp, rfl⟩ := hrow hedits
      have hnumber := prNumber_eq hp
      exact ⟨fun _ => Or.inr ((Function.update_self ..).trans hnumber), (hnotes p hp).2⟩
    | _ => exact hedits.elim

theorem describe_recorded {notes : HarvestNotes} (h : Recorded s notes) :
    ∀ f p, s.prRow f = some p → notes.Describe f p := by
  induction h with
  | start s =>
    intro f p hp
    have hnumber := prNumber_eq hp
    exact ⟨fun _ => Or.inr hnumber, fun _ => Or.inr hnumber⟩
  | statement _ happly ih => exact fun f p hp => describe_after happly (ih f) hp
  | request _ haccept ih => exact fun f p hp => ih f p (haccept.prRow f ▸ hp)

theorem recorded_reachable {x : Effect.Config daemon} (h : daemon.Reachable x) :
    ∃ notes, Recorded x.state.store notes := by
  induction h with
  | @start w => exact ⟨_, .start w.store⟩
  | step _ hstep ih =>
    obtain ⟨notes, ih⟩ := ih
    cases hstep with
    | call hcall =>
      cases hcall with
      | store happly => exact ⟨_, ih.statement happly⟩
      | _ => exact ⟨notes, ih⟩
    | env henv =>
      cases henv with
      | request haccept => exact ⟨notes, ih.request haccept⟩
      | treeLost => exact ⟨notes, ih⟩
    | _ => exact ⟨notes, ih⟩

/-- The harvest bookkeeping is about the row's PR: another number starts it over, the same one or
a first one leaves it. -/
theorem harvest_recorded_for_pr {notes : HarvestNotes} (h : Recorded s notes) (f : Nat)
    (p : PrState) (hp : s.prRow f = some p) :
    notes.Describe f p ∧
      ∀ {β : Type} (c : StoreCall β) (b : β) (s' : Store) (n : Int),
        c.apply s = some (b, s') → c.upserts f = some n →
        ∃ p', s'.prRow f = some p' ∧ Renumbers p p' n :=
  ⟨describe_recorded h f p hp, fun _ _ _ _ happly hn => StoreCall.renumbers happly hp hn⟩

def harvestedStore : Store where
  repos := [some sampleRepo]
  findings := [{
    type := .bug
    repoId := 0
    report := sampleInsert
    status := .prOpen
    prState := some { prNumber := some 5, harvestedAt := some 8, harvestAttempts := 2 } }]
  jobs := []

theorem harvest_recorded_for_second_pr :
    ∃ p', (harvestedStore.markPrMerged 0 6 9).prRow 0 = some p' ∧
      Renumbers { prNumber := some 5, harvestedAt := some 8, harvestAttempts := 2 } p' 6 :=
  (harvest_recorded_for_pr (.start harvestedStore) 0 _ rfl).2 (.markPrMerged 0 6 9) () _ 6 rfl rfl

end Hunter
