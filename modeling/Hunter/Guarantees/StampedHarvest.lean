import Hunter.Knowledge
import Hunter.Replay
set_option autoImplicit false

namespace Hunter
open Effect

/-! A harvest that is recorded, or given up, is not started or continued again. -/

namespace Store

def stamped (s : Store) (f : Nat) : Bool := (s.prRow f).any fun p => p.harvestedAt.isSome

/-- The finding's current pull request is `n`. -/
def hasPr (s : Store) (f : Nat) (n : Int) : Bool := (s.prRow f).any fun p => p.prNumber = some n

/-- A harvest of the finding runs, or is suspended and continued by nothing. -/
def harvesting (s : Store) (f : Nat) : Bool :=
  (rows s.jobs).any fun row =>
    row.val.kind = .finding .harvest && row.val.findingId = some f && s.live row.id row.val

def engageJob (s : Store) (p : Nat) : Bool :=
  (s.job? p).any fun j => j.kind = .finding .engage

theorem stamped_iff {s : Store} {f : Nat} : s.stamped f = true ↔
    ∃ p, s.prRow f = some p ∧ p.harvestedAt.isSome = true := by
  simp [stamped, Option.any_eq_true]

theorem harvesting_iff {s : Store} {f : Nat} : s.harvesting f = true ↔
    ∃ id j, s.job? id = some j ∧ j.kind = .finding .harvest ∧ j.findingId = some f ∧
      s.live id j = true := by
  simp only [harvesting, List.any_eq_true, mem_rows, Bool.and_eq_true, decide_eq_true_eq]
  constructor
  · rintro ⟨row, hrow, ⟨hkind, hf⟩, hlive⟩
    exact ⟨row.id, row.val, hrow, hkind, hf, hlive⟩
  · rintro ⟨id, j, hj, hkind, hf, hlive⟩
    exact ⟨⟨id, j⟩, hj, ⟨hkind, hf⟩, hlive⟩

end Store

/-- The finding whose harvest a selection tier starts or continues. A withdrawing engage's
session goes on outside the tiers. -/
def StoreCall.harvests (s : Store) : {β : Type} → StoreCall β → Option Nat
  | _, .createJob kind _ findingId _ resumedFrom =>
    if kind = .finding .harvest ∧ resumedFrom.any s.engageJob = false then findingId else none
  | _, _ => none

/-- Whether the daemon is about to start or continue the finding's harvest. -/
def startsHarvest (f : Nat) {α : Type} (s : Store) : Act α → Bool
  | .call (.store c) _ => c.harvests s = some f
  | _ => false

/-- A stamp finds no harvest of its finding running or suspended, and a withdrawn pull
request that goes on into its harvest is not stamped yet. -/
def StoreCall.harvestsIdle (s : Store) : {β : Type} → StoreCall β → Bool
  | _, .markPrHarvested f _ | _, .recordClosedHarvest f _ _ _ _ => !s.harvesting f
  | _, .createJob kind _ findingId _ resumedFrom =>
    !(kind = .finding .harvest && resumedFrom.any s.engageJob && findingId.any s.stamped)
  | _, _ => true

def Call.harvestsIdle (w : World) : {β : Type} → Call β → Bool
  | _, .store c => c.harvestsIdle w.store
  | _, _ => true

/-- The runs whose stamps are all set while no harvest of the finding is left. -/
def idleStamps : Machine Call Text World :=
  daemon.restrict (fun c w _ _ => c.harvestsIdle w = true) (fun _ _ => True) fun _ _ => True

section
variable {β : Type} {c : StoreCall β} {s s' : Store} {b : β} {f : Nat}

def StoreCall.stamps (f : Nat) : {β : Type} → StoreCall β → Prop
  | _, .markPrHarvested g _ | _, .recordClosedHarvest g _ _ _ _ => g = f
  | _, _ => False

theorem PrState.forNumber_harvestedAt {p : PrState} {n : Int}
    (h : (p.forNumber n).harvestedAt.isSome = true) : p.harvestedAt.isSome = true := by
  unfold PrState.forNumber at h
  split at h
  · cases h
  · exact h

theorem harvestedAt_of_edits {p p' : Option PrState} {q : PrState} (h : c.editsPr f p p')
    (hq : p' = some q) (hstamp : q.harvestedAt.isSome = true) :
    c.stamps f ∨ ∃ r, p = some r ∧ r.harvestedAt.isSome = true := by
  subst hq
  have hupsert : ∀ {n : Int}, ((p.getD {}).forNumber n).harvestedAt.isSome = true →
      ∃ r, p = some r ∧ r.harvestedAt.isSome = true := by
    intro n hn
    have hget := PrState.forNumber_harvestedAt hn
    cases p with
    | none => cases hget
    | some r => exact ⟨r, rfl, hget⟩
  have hkeep : ∀ {u : PrState → PrState}, some q = p.map u →
      (∀ r, (u r).harvestedAt = r.harvestedAt) → ∃ r, p = some r ∧ r.harvestedAt.isSome = true := by
    intro u hu hsame
    obtain ⟨r, hr, rfl⟩ := Option.map_eq_some_iff.1 hu.symm
    exact ⟨r, hr, by rw [← hsame r]; exact hstamp⟩
  cases c with
  | markPrHarvested | recordClosedHarvest => exact Or.inl h.1
  | markPrMerged | markPrClosed | setPrNumber =>
    cases h.2
    exact Or.inr (hupsert hstamp)
  | syncPrOpen g d =>
    cases h.2
    refine Or.inr (hupsert (n := d.prNumber) ?_)
    unfold PrState.synced at hstamp
    split at hstamp <;> exact hstamp
  | setHarvestAttempts | markPrEngaged | setAttentionAside =>
    exact Or.inr (hkeep h.2 fun _ => rfl)
  | _ => exact h.elim

theorem stamped_back (h : c.apply s = some (b, s')) (hstamped : s'.stamped f = true) :
    s.stamped f = true ∨ c.stamps f := by
  obtain ⟨p', hp', hstamp⟩ := Store.stamped_iff.1 hstamped
  rcases StoreCall.prRow_cases h f with hsame | hedits
  · exact Or.inl (Store.stamped_iff.2 ⟨p', hsame.symm.trans hp', hstamp⟩)
  · rcases harvestedAt_of_edits hedits hp' hstamp with hstamps | ⟨r, hr, hrstamp⟩
    · exact Or.inr hstamps
    · exact Or.inl (Store.stamped_iff.2 ⟨r, hr, hrstamp⟩)

/-- A harvest is live after a statement if it was before, or has just been created. -/
theorem harvesting_back {a : Memory} (h : c.apply s = some (b, s')) (hallow : c.allowed a)
    (hknown : ∀ y ∈ a, y.holds s) (hlive : s'.harvesting f = true) :
    s.harvesting f = true ∨ c.creates (.finding .harvest) (some f) := by
  obtain ⟨id, j', hj', hkind, hf, hlive⟩ := Store.harvesting_iff.1 hlive
  rcases StoreCall.job_cases h (fair_of_allowed hallow) hj' with ⟨j, hj, hchange⟩ | hinsert
  · rw [hchange.kind] at hkind
    rcases live_back h hallow hknown hj hchange hlive with hlive | ⟨-, hfix⟩
    · exact Or.inl (Store.harvesting_iff.2
        ⟨id, j, hj, hkind, hchange.findingId.symm.trans hf, hlive⟩)
    · cases hkind.symm.trans hfix
  · have hcreates := StoreCall.inserts_creates hinsert
    rw [hkind, hf] at hcreates
    exact Or.inr hcreates

/-- A finding known to be due, or at work, is not stamped. -/
structure Unstamped (a : Memory) (w : World) : Prop where
  due : ∀ f, Fact.harvestable f ∈ a → w.store.stamped f = false
  live : ∀ f, w.store.harvesting f = true → w.store.stamped f = false

theorem unstamped_listed {row : Row Finding} (h : row ∈ s.listPendingHarvest) :
    s.stamped row.id = false := by
  simp only [Store.listPendingHarvest, List.mem_insertionSort, List.mem_reverse, List.mem_filter,
    mem_rows] at h
  obtain ⟨hrow, hpending⟩ := h
  obtain ⟨p, hp, hopen⟩ := (Option.any_eq_true _ _).1 hpending
  simp only [Bool.and_eq_true, Option.isNone_iff_eq_none] at hopen
  change s.finding? row.id = some row.val at hrow
  simp [Store.stamped, Store.prRow, hrow, hp, hopen.1]

theorem harvesting_offered {row : Row Job} (h : row ∈ s.listResumableJobs)
    (hkind : row.val.kind = .finding .harvest) (hf : row.val.findingId = some f) :
    s.harvesting f = true := by
  obtain ⟨hrow, hresumable⟩ := mem_listResumableJobs.1 h
  simp only [Store.resumable, Bool.and_eq_true, Store.openSuspension_iff] at hresumable
  exact Store.harvesting_iff.2
    ⟨row.id, row.val, hrow, hkind, hf, Store.live_iff.2 (Or.inr hresumable.1.1.1)⟩

theorem unstamped_learned {a : Memory} {w : World} (h : c.apply w.store = some (b, s'))
    (hinv : Unstamped a w) (hlearn : c.learns a b (.harvestable f)) :
    w.store.stamped f = false ∧ s' = w.store := by
  cases c with
  | listPendingHarvest =>
    cases h
    obtain ⟨row, hrow, heq⟩ := hlearn
    cases heq
    exact ⟨unstamped_listed hrow, rfl⟩
  | listResumableJobs =>
    cases h
    obtain ⟨row, hrow, heq | heq | heq | ⟨file, -, heq⟩ | ⟨k, g, hkind, hg, heq⟩⟩ := hlearn
    · cases heq
    · cases heq
    · cases heq
    · cases heq
    · cases k with
      | harvest =>
        cases heq
        exact ⟨hinv.live _ (harvesting_offered hrow hkind hg), rfl⟩
      | _ => cases heq
  | findingsWithStatus status =>
    obtain ⟨row, -, ⟨-, heq⟩ | ⟨-, heq⟩ | ⟨-, heq⟩⟩ := hlearn
    · cases heq
    · cases heq
    · split at heq <;> cases heq
  | _ => simp_all [StoreCall.learns]

theorem stamped_false_of {p : Prop} (h : s.stamped f = true → p) (hp : ¬ p) :
    s.stamped f = false := by
  cases hs : s.stamped f with
  | false => rfl
  | true => exact absurd (h hs) hp

/-- A harvest is created for a finding listed for it, or goes on with an engage's session. -/
theorem harvest_due {a : Memory} {repoId f : Nat} {resumedFrom : Option Nat}
    (h : a.MayCreate (.finding .harvest) repoId (some f) resumedFrom) :
    Fact.harvestable f ∈ a ∨ ∃ p, resumedFrom = some p ∧ Fact.engaged p f ∈ a := by
  obtain ⟨g, finding, hg, -, -, hwork⟩ := h.work
  cases hg
  exact hwork

theorem unstamped_creates {a : Memory} {w : World} (hallow : c.allowed a) (hknown : Known a w)
    (hinv : Unstamped a w) (hidle : c.harvestsIdle w.store = true)
    (hcreates : c.creates (.finding .harvest) (some f)) : w.store.stamped f = false := by
  cases c with
  | createJob kind repoId findingId state resumedFrom =>
    obtain ⟨rfl, rfl⟩ := hcreates
    rcases harvest_due hallow.2 with hdue | ⟨p, hfrom, hengaged⟩
    · exact hinv.due f hdue
    · obtain ⟨j, hj, hkind, -⟩ := hknown.facts _ hengaged
      simpa [StoreCall.harvestsIdle, hfrom, Store.engageJob, hj, hkind] using hidle
  | _ => exact hcreates.elim

theorem unstamped_apply {a : Memory} {w : World} (h : c.apply w.store = some (b, s'))
    (hallow : c.allowed a) (hknown : Known a w) (hinv : Unstamped a w)
    (hidle : c.harvestsIdle w.store = true) :
    Unstamped (a.next (.store c) (.ok b)) { w with store := s' } where
  due f hdue := by
    rcases hdue with ⟨hdue, hforget⟩ | hlearn
    · refine stamped_false_of (stamped_back h) ?_
      rintro (hstamped | hstamps)
      · simp [hinv.due f hdue] at hstamped
      · refine hforget ?_
        cases c <;> first | (cases hstamps; first | rfl | exact Or.inl rfl) | exact hstamps.elim
    · obtain ⟨hunstamped, rfl⟩ := unstamped_learned h hinv hlearn
      exact hunstamped
  live f hlive := by
    refine stamped_false_of (stamped_back h) ?_
    rcases harvesting_back h hallow hknown.facts hlive with hlive | hcreates
    · rintro (hstamped | hstamps)
      · simp [hinv.live f hlive] at hstamped
      · cases c with
        | markPrHarvested | recordClosedHarvest =>
          cases hstamps
          simp [StoreCall.harvestsIdle, hlive] at hidle
        | _ => exact hstamps.elim
    · rintro (hstamped | hstamps)
      · simp [unstamped_creates hallow hknown hinv hidle hcreates] at hstamped
      · cases c <;> first | exact hcreates.elim | exact hstamps.elim

end

theorem stamped_request {s s' : Store} {r : Request} (h : Accepts s r s') (f : Nat) :
    s'.stamped f = s.stamped f := by
  rw [Store.stamped, h.prRow, Store.stamped]

theorem harvesting_request {s s' : Store} {r : Request} (h : Accepts s r s') (f : Nat) :
    s'.harvesting f = s.harvesting f := by
  simp only [Store.harvesting, Store.live, Store.hasSuccessor, h.jobs]

theorem unstamped_call {β : Type} {a : Memory} {c : Call β} {w w' : World} {b : β}
    (hallow : c.allowed a) (hknown : Known a w) (hinv : Unstamped a w)
    (hidle : c.harvestsIdle w = true)
    (h : CallStep c w b w') : Unstamped (a.next c b) w' := by
  cases c with
  | ask q =>
    obtain rfl := h.leaves
    rw [next_ask]
    exact hinv
  | tree c =>
    have hstore : w'.store = w.store := h.leaves
    refine ⟨fun f hf => ?_, fun f hf => ?_⟩
    · rw [hstore]
      rcases hf with hf | hf
      · exact hinv.due f hf.1
      · cases TreeCall.learns_told hf
    · rw [hstore] at hf ⊢
      exact hinv.live f hf
  | store c =>
    rcases h.leaves with ⟨b', s', rfl, happly, rfl⟩ | ⟨⟨e, rfl⟩, rfl⟩
    · exact unstamped_apply happly hallow hknown hinv hidle
    · exact ⟨fun f hf => hinv.due f (hf.resolve_right id).1, hinv.live⟩

theorem unstamped_invariant :
    Machine.InvariantUnder idleStamps (follower.restrict _ _ _) Known Unstamped where
  init w hw := by
    cases hw
    exact ⟨fun f hf => hf.elim, fun f hf => by cases hf⟩
  call a c w b w' hallow hknown hinv hstep _ := unstamped_call hallow hknown hinv hstep.2 hstep.1
  finish a phase w hready _ hinv := 
    ⟨fun f hf => hinv.due f ((hready.2 _ hf).resolve_left (by simp)), hinv.live⟩
  abort a w _ _ hinv := ⟨fun f hf => hf.elim, hinv.live⟩
  crash a p w _ _ _ hinv := ⟨fun f hf => hf.elim, hinv.live⟩
  env a w w' _ hinv henv := by
    cases henv.1 with
    | treeLost => exact ⟨hinv.due, hinv.live⟩
    | request haccept =>
      refine ⟨fun f hf => ?_, fun f hf => ?_⟩
      · rw [stamped_request haccept]
        exact hinv.due f hf
      · rw [harvesting_request haccept] at hf
        rw [stamped_request haccept]
        exact hinv.live f hf

theorem unstamped_starts {x : Config idleStamps} {f : Nat} (hx : idleStamps.Reachable x)
    (hstarts : startsHarvest f x.state.store x.rest = true) : x.state.store.stamped f = false := by
  obtain ⟨a, hrest, hknown, hinv⟩ :=
    ((known_invariant.restrict _ _ _).and unstamped_invariant).reachable hx
  obtain ⟨rest, w⟩ := x
  cases rest with
  | done phase => cases hstarts
  | fail e => cases hstarts
  | call c k =>
    have hallow : c.allowed a := hrest.1
    cases c with
    | ask q => cases hstarts
    | tree c => cases hstarts
    | store c =>
      have hharvests : c.harvests w.store = some f := of_decide_eq_true hstarts
      cases c with
      | createJob kind repoId findingId state resumedFrom =>
        simp only [StoreCall.harvests] at hharvests
        split at hharvests
        · rename_i hharvest
          obtain ⟨rfl, hengage⟩ := hharvest
          subst hharvests
          rcases harvest_due hallow.2 with hdue | ⟨p, hfrom, hengaged⟩
          · exact hinv.due f hdue
          · obtain ⟨j, hj, hkind, -⟩ := hknown.facts _ hengaged
            simp [hfrom, Store.engageJob, hj, hkind] at hengage
        · cases hharvests
      | _ => cases hharvests

/-- The harvest of the finding's pull request `n` is recorded. -/
def Store.stampedFor (s : Store) (f : Nat) (n : Int) : Bool :=
  (s.prRow f).any fun p => p.prNumber = some n && p.harvestedAt.isSome

theorem stampedFor_iff {s : Store} {f : Nat} {n : Int} : s.stampedFor f n = true ↔
    ∃ p, s.prRow f = some p ∧ p.prNumber = some n ∧ p.harvestedAt.isSome = true := by
  simp [Store.stampedFor, Option.any_eq_true]

theorem stampedFor_edits {β : Type} {c : StoreCall β} {f : Nat} {n : Int} {p : PrState}
    {p' : Option PrState} (h : c.editsPr f (some p) p') (hn : p.prNumber = some n)
    (hstamp : p.harvestedAt.isSome = true)
    (hn' : p'.any (fun q => q.prNumber = some n) = true) :
    ∃ q, p' = some q ∧ q.prNumber = some n ∧ q.harvestedAt.isSome = true := by
  have hnumber : ∀ {m : Int}, (p.forNumber m).prNumber = some n →
      (p.forNumber m).harvestedAt.isSome = true := by
    intro m hm
    unfold PrState.forNumber at hm ⊢
    split
    · rename_i hother
      split at hm <;> simp_all
    · exact hstamp
  cases c with
  | markPrMerged | markPrClosed | setPrNumber =>
    obtain ⟨rfl, rfl⟩ := h
    have hm := of_decide_eq_true hn'
    exact ⟨_, rfl, hm, hnumber hm⟩
  | syncPrOpen g d =>
    obtain ⟨rfl, rfl⟩ := h
    have hm := of_decide_eq_true hn'
    refine ⟨_, rfl, hm, ?_⟩
    have hm' : (p.forNumber d.prNumber).prNumber = some n := by
      simp only [PrState.synced, Option.getD_some] at hm
      split at hm <;> exact hm
    simp only [PrState.synced, Option.getD_some]
    split <;> exact hnumber hm'
  | setHarvestAttempts | markPrEngaged | setAttentionAside =>
    obtain ⟨rfl, rfl⟩ := h
    exact ⟨_, rfl, hn, hstamp⟩
  | markPrHarvested | recordClosedHarvest =>
    obtain ⟨rfl, rfl⟩ := h
    exact ⟨_, rfl, hn, rfl⟩
  | _ => exact h.elim

theorem stampedFor_step {x y : Config idleStamps} {f : Nat} {n : Int}
    (hstep : idleStamps.Step x y) (h : x.state.store.stampedFor f n = true)
    (hpr : y.state.store.hasPr f n = true) : y.state.store.stampedFor f n = true := by
  cases hstep with
  | finish => exact h
  | abort => exact h
  | crash => exact h
  | env henv =>
    cases henv.1 with
    | treeLost => exact h
    | request haccept =>
      rw [Store.stampedFor, haccept.prRow]
      exact h
  | call hcall =>
    rename_i β c k w w' b
    have hleaves := hcall.1.leaves
    cases c with
    | ask q =>
      cases hleaves
      exact h
    | tree c =>
      rw [show w'.store = w.store from hleaves]
      exact h
    | store c =>
      rcases hleaves with ⟨b', s', rfl, happly, rfl⟩ | ⟨-, rfl⟩
      · obtain ⟨p, hp, hn, hstamp⟩ := stampedFor_iff.1 h
        refine stampedFor_iff.2 ?_
        rcases StoreCall.prRow_cases happly f with hsame | hedits
        · exact ⟨p, hsame.trans hp, hn, hstamp⟩
        · rw [hp] at hedits
          exact stampedFor_edits hedits hn hstamp hpr
      · exact h

/-- Once the harvest of a finding's pull request is stamped, no selection tier starts or
continues a harvest of the finding until it has another pull request. -/
theorem stampedHarvest_final {x y : Config idleStamps} {f : Nat} {n : Int}
    (hx : idleStamps.Reachable x) (hstamped : x.state.store.stampedFor f n = true)
    (hrun : idleStamps.Leads (fun w => w.store.hasPr f n = true) x y) :
    startsHarvest f y.state.store y.rest = false := by
  have hlater := hrun.keeps (P := fun w => w.store.stampedFor f n = true) hstamped
    fun _ _ hstep h hpr => stampedFor_step hstep h hpr
  obtain ⟨p, hp, -, hstamp⟩ := stampedFor_iff.1 hlater
  cases hstarts : startsHarvest f y.state.store y.rest with
  | false => rfl
  | true =>
    have hunstamped := unstamped_starts (hrun.reachable hx) hstarts
    rw [Store.stamped_iff.2 ⟨p, hp, hstamp⟩] at hunstamped
    cases hunstamped

def idleReply (o : Outside) : Machine.Reply Call World :=
  o.reply.within fun c w _ _ => c.harvestsIdle w

theorem faithful_idleReply (o : Outside) : idleStamps.Faithful (idleReply o) :=
  Machine.Faithful.within o.faithful_reply fun _ _ _ _ h => h

theorem reachable_idleRequested {x : Config idleStamps} {r : Request} {s : Store → Store}
    (h : idleStamps.Reachable x) (hr : Accepts x.state.store r (s x.state.store)) :
    idleStamps.Reachable (requested s x) :=
  h.step (.env ⟨.request hr, trivial⟩)

def idleQueued : Config idleStamps :=
  requested queueVerdict (play idleReply (List.replicate 5 hunting)
    (requested addSampleRepo ⟨idleStamps.body idleStamps.boot, emptyWorld⟩))

theorem reachable_idleQueued : idleStamps.Reachable idleQueued :=
  reachable_idleRequested (r := .verdict 0 .queued none)
    (reachable_play faithful_idleReply
      (reachable_idleRequested (r := .addRepo ['r'] ['m']) (.start rfl) .addRepo))
    (.verdict rfl rfl (by decide) (by decide))

def idleHarvested : Config idleStamps :=
  play idleReply (List.replicate 5 routine ++ List.replicate 4 mergedView) idleQueued

def stampedSteps : Machine Call Text World :=
  idleStamps.restrict (fun _ _ _ w => w.store.hasPr 0 1 = true) (fun _ _ => True) fun _ _ => True

def stampedReply (o : Outside) : Machine.Reply Call World :=
  (idleReply o).within fun _ _ _ w => w.store.hasPr 0 1

def isCreate : {β : Type} → Call β → Bool
  | _, .store (.createJob _ _ _ _ _) => true
  | _, _ => false

def idleLater : Config stampedSteps :=
  play stampedReply (List.replicate 4 { mergedView with rotation := some (.hunt, 0) } ++
      List.replicate 4 { hunting with tip := ['b'], stops := isCreate })
    ⟨idleHarvested.rest, idleHarvested.state⟩

theorem leads_idleLater : idleStamps.Leads (fun w => w.store.hasPr 0 1 = true) idleHarvested
    ⟨idleLater.rest, idleLater.state⟩ := by
  have hclosed : stampedSteps.Closed fun y => y.state.store.hasPr 0 1 = true ∧
      idleStamps.Leads (fun w => w.store.hasPr 0 1 = true) idleHarvested ⟨y.rest, y.state⟩ :=
    Machine.closed_leads
  have hfaithful : ∀ o, stampedSteps.Faithful (stampedReply o) := fun o =>
    Machine.Faithful.within (faithful_idleReply o) fun _ _ _ _ h => h
  have hhas : idleHarvested.state.store.hasPr 0 1 = true := by decide +kernel
  unfold idleLater
  generalize idleHarvested = x at *
  exact (closed_play hclosed hfaithful ⟨hhas, .refl⟩).2

theorem stampedHarvest_final_later : Machine.nextIs isCreate idleLater.rest = true ∧
    startsHarvest 0 idleLater.state.store idleLater.rest = false := by
  have hnext : Machine.nextIs isCreate idleLater.rest = true := by decide +kernel
  have hstamped : idleHarvested.state.store.stampedFor 0 1 = true := by decide +kernel
  have hreach : idleStamps.Reachable idleHarvested :=
    reachable_play faithful_idleReply reachable_idleQueued
  have hleads := leads_idleLater
  generalize idleLater = y at *
  generalize idleHarvested = x at *
  exact ⟨hnext, stampedHarvest_final hreach hstamped hleads⟩

def givenUpHarvest : Config daemon :=
  playDaemon ([routine, mergedView, routine, { mergedView with run := cappedRun }] ++
    List.replicate 12 routine) shippedFinding

def harvestedAgain : Config daemon :=
  playDaemon [routine, routine, routine, {
    view := .ok (endedView .merged)
    stops := fun | .store (.createJob _ _ _ _ _) => true | _ => false }] givenUpHarvest

theorem reachable_harvestedAgain : daemon.Reachable harvestedAgain :=
  reachable_playDaemon (reachable_playDaemon reachable_shippedFinding)

/-- The harvest of a finding given up as harvested is continued by the resume tier. -/
theorem stampedHarvest_continued : ¬ ∀ (x y : Config daemon) (f : Nat) (n : Int),
    daemon.Reachable x → x.state.store.stampedFor f n = true →
    daemon.Leads (fun w => w.store.hasPr f n = true) x y →
    startsHarvest f y.state.store y.rest = false := by
  intro h
  have hfinal := h harvestedAgain harvestedAgain 0 1 reachable_harvestedAgain
    (by decide +kernel) .refl
  exact absurd hfinal (by decide +kernel)

end Hunter
