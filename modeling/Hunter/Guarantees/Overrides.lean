import Hunter.Changes.Requests
import Hunter.Knowledge
import Hunter.Replay
set_option autoImplicit false

namespace Hunter
open Effect

/-! The daemon takes back only one-shot overrides, and only ones it has read as such. -/

def Store.overrideOf (s : Store) (f : Nat) : Option BudgetOverride :=
  (s.finding? f).bind Finding.budgetOverride

/-- The answer shows finding `f` with a one-shot override. -/
def StoreCall.showsOnce (f : Nat) : {β : Type} → StoreCall β → β → Prop
  | _, .getFinding g, b => g = f ∧ ∃ x, b = some x ∧ x.budgetOverride = some .once
  | _, _, _ => False

def Call.showsOnce (f : Nat) : {β : Type} → Call β → β → Prop
  | _, .store c, .ok b => c.showsOnce f b
  | _, _, _ => False

/-- What is left of a run may take back finding `f`'s override, whatever it reads from now on. -/
inductive Spends (f : Nat) {α : Type} : Act α → Prop
  | clear {mode : Option BudgetOverride} {k : Except Text Unit → Act α} :
      Spends f (.call (.store (.setBudgetOverride f mode)) k)
  | later {β : Type} {c : Call β} {k : β → Act α} {b : β} :
      c.answers b → ¬ c.showsOnce f b → Spends f (k b) → Spends f (.call c k)

section
variable {α β : Type} {a : Memory} {f : Nat}

theorem showsOnce_of_learns {c : Call β} {b : β} (h : c.learns a b (.oneShot f)) :
    c.showsOnce f b := by
  cases c with
  | ask q => exact h.elim
  | tree c => cases TreeCall.learns_told h
  | store c =>
    cases b with
    | error e => exact h.elim
    | ok b =>
      change c.learns a b (.oneShot f) at h
      cases c with
      | getFinding g =>
        obtain ⟨finding, rfl, hx | ⟨-, hx⟩ | ⟨honce, hx⟩⟩ := h
        · cases hx
        · cases hx
        · cases hx
          exact ⟨rfl, finding, rfl, honce⟩
      | findingsWithStatus =>
        obtain ⟨row, -, h⟩ := h
        cases tells_listed h
      | listResumableJobs =>
        obtain ⟨row, -, h⟩ := h
        cases offerTells_listed h
      | _ => simp_all [StoreCall.learns]

theorem oneShot_of_spends {p : Act α} {Q : Except Text α → Memory → Prop} (hs : Spends f p)
    (h : Follows protocol a p Q) : Fact.oneShot f ∈ a := by
  induction hs generalizing a with
  | clear => exact h.1.2
  | later hanswer hshows _ ih =>
    rcases ih (h.2 _ hanswer) with ⟨hin, -⟩ | hlearn
    · exact hin
    · exact absurd (showsOnce_of_learns hlearn) hshows

theorem not_known_oneShot {phase : Phase} : Fact.oneShot f ∉ phase.known :=
  fun h => by cases Phase.known_handedOver h

theorem not_spends_runPhase (phase : Phase) : ¬ Spends f (runPhase phase) :=
  fun h => not_known_oneShot (oneShot_of_spends h (follower.follows phase))

end

theorem overrideOf_cases {β : Type} {c : StoreCall β} {s s' : Store} {b : β}
    (h : c.apply s = some (b, s')) (f : Nat) :
    s'.overrideOf f = s.overrideOf f ∨ c.overrides f (s.overrideOf f) (s'.overrideOf f) := by
  simp only [Store.overrideOf]
  cases hx : s.finding? f with
  | some x =>
    obtain ⟨x', hx', hchange⟩ := StoreCall.edits h f x hx
    simpa [hx'] using hchange.override
  | none =>
    cases hx' : s'.finding? f with
    | none => exact Or.inl rfl
    | some x' =>
      rcases StoreCall.finding_cases h hx' with ⟨x, hx2, -⟩ | ⟨-, hfiled⟩
      · cases hx.symm.trans hx2
      · cases c <;> first | (cases hfiled; exact Or.inl rfl) | cases hfiled

open Store in
theorem Accepts.overrides {s s' : Store} {r : Request} (h : Accepts s r s') :
    Edits (fun f x x' => x'.budgetOverride = x.budgetOverride ∨ x'.budgetOverride = none ∨
      r = .override f x'.budgetOverride) s s' := by
  cases h with
  | verdict =>
    unfold applyVerdict
    split
    · exact edits_updateFindingIf (fun _ _ => Or.inl rfl) fun _ _ => Or.inl rfl
    · exact edits_updateFindingIf (fun _ _ => Or.inl rfl) fun _ _ => Or.inl rfl
  | recheck | unqueue =>
    exact edits_updateFindingIf (fun _ _ => Or.inl rfl) fun _ _ => Or.inl rfl
  | override =>
    exact edits_modifyFinding (fun _ _ => Or.inl rfl) fun _ _ => Or.inr (Or.inr rfl)
  | clearOverrides => exact edits_map _ fun _ _ => Or.inr (Or.inl rfl)
  | addRepo | updateRepo | fullHunt => exact edits_sameFindings (fun _ _ => Or.inl rfl) rfl
  | deleteRepo => exact edits_sameFindings (fun _ _ => Or.inl rfl) findings_softDeleteRepo
  | reapRepo => exact edits_sameFindings (fun _ _ => Or.inl rfl) findings_forgetDeletedRepo

theorem Accepts.exempt {s s' : Store} {r : Request} {f : Nat} (h : Accepts s r s')
    (hexempt : s'.overrideOf f = some .exempt) :
    s.overrideOf f = some .exempt ∨ r = .override f (some .exempt) := by
  obtain ⟨x', hx', hmode⟩ := Option.bind_eq_some_iff.1 hexempt
  obtain ⟨x, hx, -⟩ := h.finding hx'
  rcases h.overrides.status hx hx' with hsame | hnone | hset
  · exact Or.inl (Option.bind_eq_some_iff.2 ⟨x, hx, hsame.symm.trans hmode⟩)
  · cases hnone.symm.trans hmode
  · exact Or.inr (by rw [hset, hmode])

/-- No operator makes a finding exempt while the daemon may still take back the one-shot
override it read before. -/
def Considerate (rest : Act Phase) (w w' : World) : Prop :=
  ∀ f, Spends f rest → w'.store.overrideOf f = some .exempt → w.store.overrideOf f = some .exempt

/-- The run keeps to the protocol, and may take back no exempt override. -/
def Thrifty (x : Config daemon) : Prop :=
  (∃ a, Follows protocol a x.rest (Machine.Ending Ready Calm)) ∧
    ∀ f, Spends f x.rest → x.state.store.overrideOf f ≠ some .exempt

theorem thrifty_runPhase (phase : Phase) (w : World) : Thrifty ⟨runPhase phase, w⟩ :=
  ⟨⟨_, follower.follows phase⟩, fun _ h => absurd h (not_spends_runPhase phase)⟩

namespace Thrifty
variable {β : Type} {c : Call β} {k : β → Act Phase} {w w' : World} {b : β} {f : Nat}

theorem keeps (h : Thrifty ⟨.call c k, w⟩) (hstep : CallStep c w b w')
    (hexempt : w.store.overrideOf f = some .exempt) : w'.store.overrideOf f = some .exempt := by
  cases c with
  | ask q => rwa [show w' = w from hstep.leaves]
  | tree c => rwa [show w'.store = w.store from hstep.leaves]
  | store c =>
    rcases hstep.leaves with ⟨b', s', rfl, happly, rfl⟩ | ⟨-, rfl⟩
    · rcases overrideOf_cases happly f with hsame | hover
      · exact hsame.trans hexempt
      · cases c with
        | setBudgetOverride g mode =>
          obtain ⟨rfl, -⟩ := hover
          exact absurd hexempt (h.2 g .clear)
        | handOverQueuedDepUpdates => exact hover.2 hexempt
        | _ => exact hover.elim
    · exact hexempt

/-- What the run's next call takes back is one-shot, and the run has read it so. -/
theorem clears (h : Thrifty ⟨.call c k, w⟩) (hstep : CallStep c w b w')
    (hsome : (w.store.overrideOf f).isSome = true) (hnone : w'.store.overrideOf f = none) :
    w.store.overrideOf f = some .once ∧ Spends f (.call c k) := by
  have hkept : w'.store.overrideOf f ≠ w.store.overrideOf f := by
    intro hsame
    rw [← hsame, hnone] at hsome
    cases hsome
  cases c with
  | ask q => exact absurd (by rw [show w' = w from hstep.leaves]) hkept
  | tree c => exact absurd (by rw [show w'.store = w.store from hstep.leaves]) hkept
  | store c =>
    rcases hstep.leaves with ⟨b', s', rfl, happly, rfl⟩ | ⟨-, rfl⟩
    · rcases overrideOf_cases happly f with hsame | hover
      · exact absurd hsame hkept
      · cases c with
        | setBudgetOverride g mode =>
          obtain ⟨rfl, -⟩ := hover
          have hspends : Spends g (.call (.store (.setBudgetOverride g mode)) k) := .clear
          refine ⟨?_, hspends⟩
          have hnot := h.2 g hspends
          cases hmode : w.store.overrideOf g with
          | none => simp [hmode] at hsome
          | some mode =>
            cases mode with
            | once => rfl
            | exempt => exact absurd hmode hnot
        | handOverQueuedDepUpdates =>
          have := hover.1 hsome
          rw [show s'.overrideOf f = none from hnone] at this
          cases this
        | _ => exact hover.elim
    · exact absurd rfl hkept

theorem call (h : Thrifty ⟨.call c k, w⟩) (hstep : CallStep c w b w') : Thrifty ⟨k b, w'⟩ := by
  obtain ⟨⟨a, hfollows⟩, hnot⟩ := h
  have hanswer := answers_of_callStep hstep
  have hrest := hfollows.2 b hanswer
  refine ⟨⟨_, hrest⟩, fun f hs hexempt => ?_⟩
  by_cases hshows : c.showsOnce f b
  · cases c with
    | ask | tree => exact hshows
    | store c =>
      rcases hstep.leaves with ⟨b', s', rfl, happly, rfl⟩ | ⟨⟨e, rfl⟩, -⟩
      · cases c with
        | getFinding g =>
          obtain ⟨rfl, x, rfl, honce⟩ := hshows
          simp only [StoreCall.apply, Option.some.injEq, Prod.mk.injEq] at happly
          obtain ⟨hx, rfl⟩ := happly
          simp [Store.overrideOf, hx, honce] at hexempt
        | _ => exact hshows
      · exact hshows
  · have hbefore := hnot f (.later hanswer hshows hs)
    cases c with
    | ask q =>
      rw [show w' = w from hstep.leaves] at hexempt
      exact hbefore hexempt
    | tree c =>
      rw [show w'.store = w.store from hstep.leaves] at hexempt
      exact hbefore hexempt
    | store c =>
      rcases hstep.leaves with ⟨b', s', rfl, happly, rfl⟩ | ⟨-, rfl⟩
      · rcases overrideOf_cases happly f with hsame | hover
        · exact hbefore (hsame.symm.trans hexempt)
        · cases c with
          | setBudgetOverride g mode =>
            obtain ⟨rfl, hmode⟩ := hover
            rw [hfollows.1.1] at hmode
            cases hmode.symm.trans hexempt
          | handOverQueuedDepUpdates =>
            rcases oneShot_of_spends hs hrest with ⟨-, hkeep⟩ | hlearn
            · exact hkeep rfl
            · exact hlearn
          | _ => exact hover
      · exact hbefore hexempt

end Thrifty

theorem thrifty_reachable {x : Config daemon} (hx : daemon.ReachableBeside Considerate x) :
    Thrifty x := by
  induction hx with
  | start => exact thrifty_runPhase .startup _
  | call _ hstep ih => exact ih.call hstep
  | finish => exact thrifty_runPhase _ _
  | abort => exact thrifty_runPhase .reconcile _
  | crash => exact thrifty_runPhase .startup _
  | env _ _ hok ih => exact ⟨ih.1, fun f hs hexempt => ih.2 f hs (hok f hs hexempt)⟩

/-- Beside considerate operators, no phase takes an override back but one it has read as
one-shot, which then still is, and every step keeps an exempt one. -/
theorem exemptOverride_kept {x : Config daemon} (hx : daemon.ReachableBeside Considerate x)
    {β : Type}
    {c : Call β} {k : β → Act Phase} {b : β} {w' : World} (hrest : x.rest = .call c k)
    (hstep : CallStep c x.state b w') (f : Nat) :
    (x.state.store.overrideOf f = some .exempt → w'.store.overrideOf f = some .exempt) ∧
      ((x.state.store.overrideOf f).isSome = true → w'.store.overrideOf f = none →
        x.state.store.overrideOf f = some .once ∧ Spends f x.rest) ∧
      ∀ phase, ¬ Spends f (runPhase phase) := by
  have hthrifty := thrifty_reachable hx
  obtain ⟨rest, w⟩ := x
  subst hrest
  exact ⟨hthrifty.keeps hstep, hthrifty.clears hstep, not_spends_runPhase⟩

def isClear : {β : Type} → Call β → Bool
  | _, .store (.setBudgetOverride f mode) => f = 0 && mode = none
  | _, _ => false

theorem clear_of_next {p : Act Phase} (h : Machine.nextIs isClear p = true) :
    ∃ k, p = .call (.store (.setBudgetOverride 0 none)) k := by
  obtain ⟨β, c, k, rfl, hclear⟩ := Machine.exists_next h
  cases c with
  | ask | tree => cases hclear
  | store c =>
    cases c with
    | setBudgetOverride f mode =>
      simp only [isClear, Bool.and_eq_true, decide_eq_true_eq] at hclear
      obtain ⟨rfl, rfl⟩ := hclear
      exact ⟨k, rfl⟩
    | _ => cases hclear

theorem overrideOf_cleared (s : Store) : (s.setBudgetOverride 0 none).overrideOf 0 = none := by
  cases hf : s.finding? 0 <;>
    simp [Store.overrideOf, Store.setBudgetOverride, Store.finding?_modifyFinding, hf]

def setOverride (mode : Option BudgetOverride) (s : Store) : Store := s.setBudgetOverride 0 mode

/-- The fix of a finding with a one-shot override, about to take it back. -/
def spendingFix : Config daemon :=
  playDaemon (List.replicate 4 { routine with stops := isClear })
    (requested (setOverride (some .once)) queuedFinding)

theorem beside_requested {x : Config daemon} {r : Request} {s : Store → Store}
    (h : daemon.ReachableBeside Considerate x) (hr : Accepts x.state.store r (s x.state.store))
    (hnot : ∀ f, r ≠ .override f (some .exempt)) :
    daemon.ReachableBeside Considerate (requested s x) :=
  h.env (.request hr) fun f _ hexempt => (hr.exempt hexempt).resolve_right (hnot f)

theorem beside_spendingFix : daemon.ReachableBeside Considerate spendingFix := by
  have hplay : ∀ script x, daemon.ReachableBeside Considerate x →
      daemon.ReachableBeside Considerate (playDaemon script x) := fun _ _ =>
    closed_play Machine.closed_reachableBeside Outside.faithful_reply
  have hbooted : daemon.ReachableBeside Considerate booted :=
    beside_requested (r := .addRepo ['r'] ['m']) (.start rfl) .addRepo nofun
  have hqueued : daemon.ReachableBeside Considerate queuedFinding :=
    beside_requested (r := .verdict 0 .queued none) (hplay _ _ hbooted)
      (.verdict rfl rfl (by decide) (by decide)) nofun
  exact hplay _ _ (beside_requested hqueued .override nofun)

/-- The fix takes back an override that is still one-shot, and that it has read. -/
theorem spendingFix_clears : spendingFix.state.store.overrideOf 0 = some .once ∧
    Spends 0 spendingFix.rest := by
  have hnext : Machine.nextIs isClear spendingFix.rest = true := by decide +kernel
  have hsome : (spendingFix.state.store.overrideOf 0).isSome = true := by decide +kernel
  obtain ⟨k, hrest⟩ := clear_of_next hnext
  exact (exemptOverride_kept beside_spendingFix hrest (.store rfl rfl) 0).2.1 hsome
    (overrideOf_cleared _)

/-- Made exempt while its fix is under way, a finding is so no longer after the fix. -/
theorem exemptOverride_lost : ¬ ∀ (x : Config daemon), daemon.Reachable x →
    ∀ {β : Type} (c : Call β) (k : β → Act Phase) (b : β) (w' : World), x.rest = .call c k →
      CallStep c x.state b w' → ∀ f, x.state.store.overrideOf f = some .exempt →
        w'.store.overrideOf f = some .exempt := by
  intro h
  have hnext : Machine.nextIs isClear spendingFix.rest = true := by decide +kernel
  have hexempt : ((setOverride (some .exempt) spendingFix.state.store).overrideOf 0 =
      some .exempt) := by decide +kernel
  obtain ⟨k, hrest⟩ := clear_of_next hnext
  have hspending : daemon.Reachable spendingFix :=
    reachable_playDaemon (reachable_requested reachable_queuedFinding .override)
  generalize spendingFix = x at *
  have hreachable : daemon.Reachable (requested (setOverride (some .exempt)) x) :=
    reachable_requested hspending .override
  have hkept := h _ hreachable _ k (.ok ()) _ hrest (.store rfl rfl) 0 hexempt
  cases (overrideOf_cleared _).symm.trans hkept

end Hunter
