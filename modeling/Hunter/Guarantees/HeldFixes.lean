import Hunter.Guarantees.Chains
import Hunter.Guarantees.Strandings
set_option autoImplicit false

namespace Hunter
open Effect

/-! A blocked finding has one suspended fix to requeue, and it says what it is blocked on. -/

namespace Store
variable {s : Store}

/-- The rows `held_fix_blockers` reads, in job order. -/
def heldFixRows (s : Store) : List (Nat × Text) :=
  (rows s.jobs).filterMap fun row =>
    match row.val.findingId, row.val.blocker with
    | some f, some blocker =>
      if s.statusOf (some f) = some .blocked && row.val.state = .suspended
          && row.val.kind = .finding .fix && !s.hasSuccessor row.id
        then some (f, blocker)
        else none
    | _, _ => none

/-- The map collected from them: of one finding's rows it keeps the last. -/
def heldFixBlockers (s : Store) (f : Nat) : Option Text :=
  ((s.heldFixRows.filter fun row => row.1 = f).getLast?).map Prod.snd

/-- Job `id` is a suspended fix of the finding that nothing goes on with. -/
def HeldFix (s : Store) (f id : Nat) (j : Job) : Prop :=
  s.job? id = some j ∧ j.kind = .finding .fix ∧ j.findingId = some f ∧
    s.openSuspension id j = true

theorem mem_heldFixRows {f : Nat} {blocker : Text} : (f, blocker) ∈ s.heldFixRows ↔
    s.statusOf (some f) = some .blocked ∧ ∃ id j, s.HeldFix f id j ∧ j.blocker = some blocker := by
  simp only [heldFixRows, List.mem_filterMap, mem_rows]
  constructor
  · rintro ⟨row, hrow, hmatch⟩
    split at hmatch
    · rename_i g report hf hblocker
      split at hmatch
      · rename_i hheld
        cases hmatch
        simp only [Bool.and_eq_true, decide_eq_true_eq, Bool.not_eq_true'] at hheld
        obtain ⟨⟨⟨hstatus, hsuspended⟩, hkind⟩, hopen⟩ := hheld
        exact ⟨hstatus, row.id, row.val,
          ⟨hrow, hkind, hf, openSuspension_iff.2 ⟨hsuspended, hopen⟩⟩, hblocker⟩
      · cases hmatch
    · cases hmatch
  · rintro ⟨hstatus, id, j, ⟨hj, hkind, hf, hopen⟩, hblocker⟩
    obtain ⟨hsuspended, hsucc⟩ := openSuspension_iff.1 hopen
    refine ⟨⟨id, j⟩, hj, ?_⟩
    simp [hf, hblocker, hstatus, hsuspended, hkind, hsucc]

theorem heldFixBlockers_eq {f id : Nat} {j : Job} {blocker : Text}
    (hstatus : s.statusOf (some f) = some .blocked) (hj : s.HeldFix f id j)
    (hblocker : j.blocker = some blocker) (hone : ∀ id' j', s.HeldFix f id' j' → id' = id) :
    s.heldFixBlockers f = some blocker := by
  have hmem : (f, blocker) ∈ s.heldFixRows.filter fun row => row.1 = f := by
    rw [List.mem_filter]
    exact ⟨mem_heldFixRows.2 ⟨hstatus, id, j, hj, hblocker⟩, decide_eq_true rfl⟩
  obtain ⟨last, hlast⟩ := Option.ne_none_iff_exists'.1
    (mt List.getLast?_eq_none_iff.1 (List.ne_nil_of_mem hmem))
  obtain ⟨hrow, hf⟩ := List.mem_filter.1 (List.mem_of_getLast? hlast)
  obtain ⟨g, report⟩ := last
  obtain rfl : g = f := of_decide_eq_true hf
  obtain ⟨-, id', j', hj', hreport⟩ := mem_heldFixRows.1 hrow
  obtain rfl := hone id' j' hj'
  cases hj.1.symm.trans hj'.1
  rw [heldFixBlockers, hlast]
  exact hreport.symm.trans hblocker

/-- Every blocked finding has a held fix that carries a blocker. -/
def BlockedHeld (s : Store) : Prop :=
  ∀ f x, s.finding? f = some x → x.status = .blocked →
    ∃ id j, s.HeldFix f id j ∧ j.blocker.isSome = true

end Store

section
variable {β : Type} {c : StoreCall β} {s s' : Store} {b : β} {a : Memory} {f id : Nat}
  {x : Finding} {j : Job}

theorem heldFix_open (h : c.apply s = some (b, s')) (hallow : c.allowed a)
    (hknown : ∀ y ∈ a, y.holds s) (hx : s.finding? f = some x) (hblocked : x.status = .blocked)
    (hj : s.HeldFix f id j) : s'.hasSuccessor id = false := by
  obtain ⟨hjob, hkind, hf, hopen⟩ := hj
  rw [Store.openSuspension_iff] at hopen
  by_contra hsucc
  rcases StoreCall.successor h (fair_of_allowed hallow) (by simpa using hsucc) with hold | hfrom
  · rw [hopen.2] at hold
    cases hold
  · cases c with
    | createJob kind repoId findingId state resumedFrom =>
      have hmay := hallow.2
      rcases hmay.continues id hfrom with ⟨g, hoffered, -, hof⟩ | ⟨-, g, -, hengaged, -⟩
      · obtain ⟨k, hk, hkkind, rfl, -⟩ := hknown _ hoffered
        cases hjob.symm.trans hk
        rw [hkind] at hkkind
        subst hkkind
        exact unheld_created hmay hknown rfl (hof.symm.trans hf) hx hblocked
      · obtain ⟨k, hk, hengage, -⟩ := hknown _ hengaged
        cases hjob.symm.trans hk
        rw [hkind] at hengage
        cases hengage
    | _ => cases hfrom

theorem heldFix_suspended {j' : Job} (h : c.apply s = some (b, s')) (hallow : c.allowed a)
    (hknown : ∀ y ∈ a, y.holds s) (hx : s.finding? f = some x) (hblocked : x.status = .blocked)
    (hj : s.HeldFix f id j) (hj' : s'.job? id = some j') (hchange : JobChange c id j j') :
    j'.state = .suspended := by
  obtain ⟨hjob, hkind, hf, hopen⟩ := hj
  have hsuspended := (Store.openSuspension_iff.1 hopen).1
  have hnot := not_running_of_suspended hknown hjob hsuspended
  rcases hchange.state with hsame | hmoves
  · exact hsame.trans hsuspended
  · cases c with
    | createJob kind repoId findingId state resumedFrom =>
      obtain rfl := hmoves.1
      simp only [StoreCall.apply] at h
      split at h
      · rename_i hcreate
        cases h
        have hkept := Store.job?_createJob_fresh hcreate hjob
        rw [if_neg] at hkept
        · cases hj'.symm.trans hkept
          exact hsuspended
        · intro hold
          simp only [Store.supersededBy, Bool.and_eq_true, decide_eq_true_eq, hkind] at hold
          obtain ⟨⟨⟨-, rfl⟩, hof⟩, -⟩ := hold
          simp only [JobKind.isFinding, if_true, Bool.and_eq_true, decide_eq_true_eq] at hof
          exact unheld_created hallow.2 hknown rfl (hof.2.symm.trans hf) hx hblocked
      · cases h
        cases hj'.symm.trans hjob
        exact hsuspended
    | failUnstartedJob | orphanJob =>
      obtain ⟨rfl, -⟩ := hmoves
      exact absurd hallow hnot
    | completeJob | suspendOrphan =>
      obtain ⟨rfl, -⟩ := hmoves
      exact absurd hallow.1 hnot
    | failJob k =>
      obtain ⟨rfl, -⟩ := hmoves
      obtain ⟨g, hengaged⟩ := hallow
      obtain ⟨i, hi, hengage, -⟩ := hknown _ hengaged
      cases hjob.symm.trans hi
      rw [hkind] at hengage
      cases hengage
    | retireSuspendedJob k state why =>
      obtain ⟨rfl, -⟩ := hmoves
      rcases hallow.2.2 with hunheld | hcontinued
      · obtain ⟨i, hi, hnothing⟩ := hknown _ hunheld
        cases hjob.symm.trans hi
        exact absurd hblocked (hnothing hkind f x hf hx)
      · have hsucc : s.hasSuccessor k = true := hknown _ hcontinued
        rw [(Store.openSuspension_iff.1 hopen).2] at hsucc
        cases hsucc
    | retireStrandedSuspensions =>
      cases h
      have hkept := @Store.job?_retireStrandedSuspensions s id
      rw [hjob, Option.map_some, if_neg] at hkept
      · cases hj'.symm.trans hkept
        exact hsuspended
      · simp [Store.stranded, hkind, hf, Store.statusOf, hx, hblocked, FindingJobKind.keptAt]
    | blockFixJob => exact hmoves.2.2.2
    | _ => exact hmoves.elim

theorem heldFix_kept (h : c.apply s = some (b, s')) (hallow : c.allowed a)
    (hknown : ∀ y ∈ a, y.holds s) (hx : s.finding? f = some x) (hblocked : x.status = .blocked)
    (hj : s.HeldFix f id j) (hblocker : j.blocker.isSome = true) :
    ∃ j', s'.HeldFix f id j' ∧ j'.blocker.isSome = true := by
  obtain ⟨j', hj', hchange⟩ := StoreCall.jobEdits h (fair_of_allowed hallow) hj.1
  refine ⟨j', ⟨hj', hchange.kind.trans hj.2.1, hchange.findingId.trans hj.2.2.1,
    Store.openSuspension_iff.2 ⟨?_, ?_⟩⟩, ?_⟩
  · exact heldFix_suspended h hallow hknown hx hblocked hj hj' hchange
  · exact heldFix_open h hallow hknown hx hblocked hj
  · rcases hchange.blocker with hsame | ⟨-, hsome⟩
    · rw [hsame]
      exact hblocker
    · exact hsome

/-- A hold leaves a held fix with its blocker. -/
theorem heldFix_held (h : c.apply s = some (b, s')) (hallow : c.allowed a)
    (hknown : ∀ y ∈ a, y.holds s) (hholds : c.holdsFix f id) :
    ∃ j, s'.HeldFix f id j ∧ j.blocker.isSome = true := by
  have hsucc := @StoreCall.successor _ _ _ _ _ id h (fair_of_allowed hallow)
  have hkept : ∀ {j}, s.job? id = some j → ∃ j', s'.job? id = some j' := fun hj =>
    (StoreCall.jobEdits h (fair_of_allowed hallow) hj).imp fun _ => And.left
  cases c with
  | blockFixJob g k reason =>
    obtain ⟨rfl, rfl⟩ := hholds
    have hopen : s.hasSuccessor k = false := by
      rcases hallow.2.2 with hsole | ⟨g, hoffered⟩
      · exact hknown _ hsole
      · obtain ⟨-, -, -, -, -, hopen⟩ := hknown _ hoffered
        exact hopen
    have hopen' : s'.hasSuccessor k = false := by
      by_contra hnot
      rcases hsucc (by simpa using hnot) with hold | hfrom
      · rw [hopen] at hold
        cases hold
      · cases hfrom
    simp only [StoreCall.apply, Option.map_eq_some_iff] at h
    obtain ⟨t, ht, hts⟩ := h
    cases hts
    obtain ⟨j, x, hj, -, hf, hkind, rfl⟩ := Store.blockFixJob_spec ht
    obtain ⟨j', hj'⟩ := hkept hj
    have hrow := hj'
    rw [Store.job?_modifyFinding, Store.job?_modifyJob, if_pos rfl, hj] at hrow
    obtain rfl := Option.some.inj hrow
    exact ⟨_, ⟨hj', hkind, hf, Store.openSuspension_iff.2 ⟨rfl, hopen'⟩⟩, rfl⟩
  | _ => exact hholds.elim

theorem blockedHeld_step (h : c.apply s = some (b, s')) (hallow : c.allowed a)
    (hknown : ∀ y ∈ a, y.holds s) (hheld : s.BlockedHeld) : s'.BlockedHeld := by
  intro f x' hx' hblocked
  rcases StoreCall.finding_cases h hx' with ⟨x, hx, hchange⟩ | ⟨-, hfiled⟩
  · rcases hchange.status with hsame | hmoves
    · have hwas := hsame.symm.trans hblocked
      obtain ⟨id, j, hj, hblocker⟩ := hheld f x hx hwas
      exact ⟨id, heldFix_kept h hallow hknown hx hwas hj hblocker⟩
    · rw [hblocked] at hmoves
      obtain ⟨id, hholds⟩ := holdsFix_of_moves hallow hmoves
      exact ⟨id, heldFix_held h hallow hknown hholds⟩
  · cases c with
    | upsertFinding =>
      cases hfiled
      cases hblocked
    | _ => cases hfiled

end

theorem blockedHeld_request {s s' : Store} {r : Request} (h : Accepts s r s')
    (hheld : s.BlockedHeld) : s'.BlockedHeld := by
  intro f x' hx' hblocked
  obtain ⟨x, hx, hchange⟩ := h.finding hx'
  have hwas : x.status = .blocked := by
    refine hchange.status.elim (fun hsame => hsame.symm.trans hblocked) ?_
    rw [hblocked]
    rintro (⟨-, h⟩ | ⟨-, h⟩ | ⟨-, h⟩) <;> cases h
  obtain ⟨id, j, ⟨hj, hkind, hf, hopen⟩, hblocker⟩ := hheld f x hx hwas
  refine ⟨id, j, ⟨?_, hkind, hf, ?_⟩, hblocker⟩
  · rw [Store.job?, h.jobs]
    exact hj
  · rw [Store.openSuspension, Store.hasSuccessor, h.jobs]
    exact hopen

theorem blockedHeld_invariant :
    Machine.InvariantUnder daemon follower Known fun _ w => w.store.BlockedHeld where
  init w hw := by
    cases hw
    exact fun f x hx => by simp [Store.finding?] at hx
  call a c w b w' hallow hknown hheld h _ := by
    cases c with
    | ask q =>
      rw [show w' = w from h.leaves]
      exact hheld
    | tree c =>
      rw [show w'.store = w.store from h.leaves]
      exact hheld
    | store c =>
      rcases h.leaves with ⟨b', s', rfl, happly, rfl⟩ | ⟨-, rfl⟩
      · exact blockedHeld_step happly hallow hknown.facts hheld
      · exact hheld
  finish _ _ _ _ _ hheld := hheld
  abort _ _ _ _ hheld := hheld
  crash _ _ _ _ _ _ hheld := hheld
  env a w w' _ hheld henv := by
    cases henv with
    | treeLost => exact hheld
    | request haccept => exact blockedHeld_request haccept hheld

/-- In every run a blocked finding has exactly one suspended fix without a successor, which
carries the blocker that is reported for it; no finding ever has two. -/
theorem blockedFinding_held {x : Config daemon} (hx : daemon.Reachable x) :
    (∀ f y, x.state.store.finding? f = some y → y.status = .blocked →
      ∃ id j blocker, x.state.store.HeldFix f id j ∧ j.blocker = some blocker ∧
        (∀ id' j', x.state.store.HeldFix f id' j' → id' = id) ∧
        x.state.store.heldFixBlockers f = some blocker) ∧
    ∀ f id id' j j', x.state.store.HeldFix f id j → x.state.store.HeldFix f id' j' → id = id' := by
  obtain ⟨a, -, hknown, hchains⟩ := (known_invariant.and chains_invariant).reachable hx
  obtain ⟨-, -, -, hheld⟩ := (known_invariant.and blockedHeld_invariant).reachable hx
  have hone : ∀ f id id' j j', x.state.store.HeldFix f id j → x.state.store.HeldFix f id' j' →
      id = id' := by
    rintro f id id' j j' ⟨hj, hkind, hf, hopen⟩ ⟨hj', hkind', hf', hopen'⟩
    refine hchains.alone id id' j j' hj hj' (by rw [hkind]; simp)
      (Store.live_iff.2 (Or.inr (Store.openSuspension_iff.1 hopen)))
      (Store.live_iff.2 (Or.inr (Store.openSuspension_iff.1 hopen'))) ⟨hkind.trans hkind'.symm, ?_⟩
    rw [if_pos (by rw [hkind]; rfl)]
    exact hf.trans hf'.symm
  refine ⟨fun f y hy hblocked => ?_, hone⟩
  obtain ⟨id, j, hj, hblocker⟩ := hheld f y hy hblocked
  obtain ⟨blocker, hblocker⟩ := Option.isSome_iff_exists.1 hblocker
  have halone : ∀ id' j', x.state.store.HeldFix f id' j' → id' = id :=
    fun id' j' hj' => hone f id' id j' j hj' hj
  refine ⟨id, j, blocker, hj, hblocker, halone, Store.heldFixBlockers_eq ?_ hj hblocker halone⟩
  simp [Store.statusOf, hy, hblocked]

def heldFix : Config daemon :=
  playDaemon (List.replicate 4 { run := cappedRun, report := some (.blocked ['b']) }) queuedFinding

theorem reachable_heldFix : daemon.Reachable heldFix :=
  reachable_playDaemon reachable_queuedFinding

theorem blockedFinding_held_reported : (heldFix.state.store.heldFixBlockers 0).isSome = true := by
  have hblocked : (heldFix.state.store.finding? 0).any (fun y => y.status = .blocked) = true := by
    decide +kernel
  obtain ⟨y, hy, hstatus⟩ := (Option.any_eq_true _ _).1 hblocked
  obtain ⟨-, -, blocker, -, -, -, hreport⟩ :=
    (blockedFinding_held reachable_heldFix).1 0 y hy (of_decide_eq_true hstatus)
  rw [hreport]
  rfl

end Hunter
