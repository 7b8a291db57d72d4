import Hunter.Changes.Repos
import Hunter.Conformance.Loop
set_option autoImplicit false

namespace Hunter
open Effect

/-- The statuses of findings that no fix has been taken up for. -/
def FindingStatus.unclaimed : FindingStatus → Bool
  | fixing | blocked | prOpen | merged | closed => false
  | _ => true

/-- The job whose file the findings of job `id` go to. -/
def Store.outJob (s : Store) (id : Nat) : Nat :=
  ((s.job? id).bind Job.resumedFrom).elim id s.resumeOriginJob

def Fact.holds (s : Store) : Fact → Prop
  | held f status => status.isHeld ∧ ∃ x, s.finding? f = some x ∧ x.status = status
  | queued f => ∃ x, s.finding? f = some x ∧ x.status.unclaimed
  | row f finding => ∃ x, s.finding? f = some x ∧ x.repoId = finding.repoId ∧
      x.type = finding.type ∧ x.report = finding.report
  | urlless f => ∃ x, s.finding? f = some x ∧ x.url = none
  | linked f => ∃ x, s.finding? f = some x ∧ x.url.isSome
  | closedRow f => ∃ x p, s.finding? f = some x ∧ x.prState = some p ∧ p.state = some .closed
  | merging f => ∃ x, s.finding? f = some x ∧ x.status = .merged
  | offered p kind f => ∃ j, s.job? p = some j ∧ j.kind = kind ∧ j.findingId = f ∧
      j.state = .suspended ∧ s.hasSuccessor p = false
  | placed p repoId => ∃ j, s.job? p = some j ∧ j.repoId = repoId
  | unheld p => ∃ j, s.job? p = some j ∧ (j.kind = .finding .fix → ∀ f x, j.findingId = some f →
      s.finding? f = some x → x.status ≠ .blocked)
  | continued p => s.hasSuccessor p = true
  | sole p => s.hasSuccessor p = false
  | running p => ∃ j, s.job? p = some j ∧ j.state = .running
  | runningIn jobs => ∀ p j, s.job? p = some j → j.state = .running → p ∈ jobs
  | engaged p f => ∃ j, s.job? p = some j ∧ j.kind = .finding .engage ∧ j.findingId = some f ∧
      s.hasSuccessor p = false
  | fresh p _ => ∃ j, s.job? p = some j ∧ j.resumedFrom = none
  | treeAt p _ _ => ∃ j, s.job? p = some j ∧ j.resumedFrom = none
  | pinned p sha => ∃ j, s.job? p = some j ∧ j.pinnedSha = some sha
  | marked p full => ∃ j, s.job? p = some j ∧ j.fullHistory = full
  | latest p r out => s.jobs.length = p + 1 ∧ (∃ j, s.job? p = some j ∧ j.repoId = r) ∧
      s.outJob p = out
  | origin p first => (∃ j, s.job? p = some j) ∧ s.resumeOriginJob p = first
  | hunting p r => ∃ j, s.job? p = some j ∧ j.kind = .repo .hunt ∧ j.repoId = r
  | finished p => ∃ j, s.job? p = some j ∧ j.state = .done
  | unrun p resumedFrom => ∃ j, s.job? p = some j ∧ j.resumedFrom = resumedFrom ∧
      s.hasSuccessor p = false
  | ran p _ => ∃ j, s.job? p = some j
  | kept p file => ∃ j, s.job? p = some j ∧ j.sessionFile = some file ∧ j.state ≠ .running
  | watermark r last full => r < s.repos.length ∧ ∀ repo, s.repo? r = some repo →
      repo.lastHuntSha = last ∧ repo.lastFullHuntAt = full
  | _ => True

def Store.Descends (s : Store) : Prop :=
  ∀ id j p, s.job? id = some j → j.resumedFrom = some p → p < id

namespace Store

/-- Every job is still there, and goes on with what it went on with. -/
def KeepsLinks (s s' : Store) : Prop :=
  ∀ id j, s.job? id = some j → ∃ j', s'.job? id = some j' ∧ j'.resumedFrom = j.resumedFrom

variable {s s' : Store}

theorem KeepsLinks.ancestry (h : s.KeepsLinks s') (hdescends : s.Descends) {id : Nat} {j : Job}
    (hj : s.job? id = some j) (depth : Nat) : s'.ancestry depth id = s.ancestry depth id := by
  induction depth generalizing id j with
  | zero =>
    obtain ⟨j', hj', -⟩ := h id j hj
    simp only [Store.ancestry, hj, hj', Option.isSome_some]
  | succ depth ih =>
    obtain ⟨j', hj', hfrom⟩ := h id j hj
    simp only [Store.ancestry, hj, hj', hfrom]
    cases hp : j.resumedFrom with
    | none => rfl
    | some p =>
      have hlt := hdescends id j p hj hp
      obtain ⟨jp, hjp⟩ : ∃ jp, s.job? p = some jp :=
        ⟨_, List.getElem?_eq_getElem (hlt.trans (job?_lt hj))⟩
      exact congrArg (List.cons id) (ih hjp)

theorem KeepsLinks.origin (h : s.KeepsLinks s') (hdescends : s.Descends) {id : Nat} {j : Job}
    (hj : s.job? id = some j) : s'.resumeOriginJob id = s.resumeOriginJob id := by
  rw [resumeOriginJob, h.ancestry hdescends hj, resumeOriginJob]

theorem KeepsLinks.outJob (h : s.KeepsLinks s') (hdescends : s.Descends) {id : Nat} {j j' : Job}
    (hj : s.job? id = some j) (hj' : s'.job? id = some j')
    (hfrom : j'.resumedFrom = j.resumedFrom) : s'.outJob id = s.outJob id := by
  rw [Store.outJob, Store.outJob, hj, hj', Option.bind_some, Option.bind_some, hfrom]
  cases hp : j.resumedFrom with
  | none => rfl
  | some p =>
    have hlt := (hdescends id j p hj hp).trans (job?_lt hj)
    exact h.origin hdescends (List.getElem?_eq_getElem hlt)

end Store

/-- What the daemon knows is so. -/
structure Known (a : Memory) (w : World) : Prop where
  facts : ∀ x ∈ a, x.holds w.store
  descends : w.store.Descends

section
variable {β : Type} {c : StoreCall β} {s s' : Store} {b : β}

theorem not_held_of_moves {f : Nat} {source target : FindingStatus} (hheld : source.isHeld = true)
    (h : c.apply s = some (b, s')) (hstatus : ∃ x, s.finding? f = some x ∧ x.status = source)
    (hmoves : c.moves f source target) : c.forgets b (.held f source) := by
  cases c with
  | claimInProgress g src tgt =>
    obtain ⟨rfl, rfl, -⟩ := hmoves
    obtain ⟨x, hx, hstatus⟩ := hstatus
    have hclaimed : b = true := by
      simp only [StoreCall.apply, Store.claimInProgress, Store.updateFindingIf, hx] at h
      simp only [Option.any_some, hstatus, decide_true, if_true, Option.some.injEq,
        Prod.mk.injEq] at h
      exact h.1.symm
    exact ⟨hclaimed, Or.inl (by simp [Fact.isHeld])⟩
  | setFindingStatus | setAnchoredVerdict =>
    obtain ⟨rfl, -⟩ := hmoves
    simp [StoreCall.forgets, Fact.onStatus]
  | setFindingPrOpen =>
    obtain ⟨rfl, -⟩ := hmoves
    exact Or.inl (by simp [Fact.onStatus])
  | blockFixJob =>
    obtain ⟨rfl, -⟩ := hmoves
    exact Or.inr (Or.inr (by simp [Fact.onStatus]))
  | recordClosedHarvest =>
    obtain ⟨-, rfl, -⟩ := hmoves
    cases hheld
  | reopenSuppressed =>
    obtain ⟨-, hsuppressed, -⟩ := hmoves
    cases source <;> simp_all [FindingStatus.isHeld, FindingStatus.isSuppressed]
  | refreshDepUpdate =>
    obtain ⟨-, rfl, -⟩ := hmoves
    cases hheld
  | supersedeUnproposedDepUpdates =>
    obtain ⟨rfl, -⟩ := hmoves
    cases hheld
  | handOverQueuedDepUpdates =>
    obtain ⟨rfl | rfl, -⟩ := hmoves <;> cases hheld
  | _ => exact hmoves.elim

theorem holds_held {f : Nat} {status : FindingStatus} (h : c.apply s = some (b, s'))
    (hforget : ¬ c.forgets b (.held f status)) (hx : (Fact.held f status).holds s) :
    (Fact.held f status).holds s' := by
  obtain ⟨hheld, x, hx, rfl⟩ := hx
  obtain ⟨x', hx', hchange⟩ := StoreCall.edits h f x hx
  rcases hchange.status with hstatus | hmoves
  · exact ⟨hheld, x', hx', hstatus⟩
  · exact absurd (not_held_of_moves hheld h ⟨x, hx, rfl⟩ hmoves) hforget

theorem holds_row {f : Nat} {finding : Finding} (h : c.apply s = some (b, s'))
    (hforget : ¬ c.forgets b (.row f finding)) (hx : (Fact.row f finding).holds s) :
    (Fact.row f finding).holds s' := by
  obtain ⟨x, hx, hrepo, htype, hreport⟩ := hx
  obtain ⟨x', hx', hchange⟩ := StoreCall.edits h f x hx
  refine ⟨x', hx', hchange.repoId.trans hrepo, hchange.type.trans htype, ?_⟩
  rcases hchange.report with hsame | hrewrites
  · exact hsame.trans hreport
  · refine absurd ?_ hforget
    cases c with
    | updateFindingAnalysis | reopenSuppressed | refreshDepUpdate =>
      cases hrewrites
      simp [StoreCall.forgets, Fact.onBranch]
    | _ => exact hrewrites.elim

theorem url_eq {f : Nat} {x x' : Finding} (hchange : FindingChange c f x x')
    (hforget : ¬ c.forgets b (.linked f)) : x'.url = x.url := by
  rcases hchange.prUrl with hurl | hlinks
  · rw [Finding.url, hurl, Finding.url]
  · refine absurd ?_ hforget
    cases c with
    | setFindingPrOpen =>
      obtain ⟨rfl, -⟩ := hlinks
      exact Or.inr (Or.inr rfl)
    | _ => exact hlinks.elim

theorem forgets_linked {f : Nat} (h : c.forgets b (.linked f)) : c.forgets b (.urlless f) := by
  cases c <;> simp_all [StoreCall.forgets, Fact.onStatus, Fact.onBranch, Fact.isHeld, Fact.isOffer,
    Fact.onSpend, Fact.onAnchor, Fact.onHold, Fact.onCreate, Fact.onEnd, Fact.onWatermark,
    Fact.isAsked, Fact.isPinned, Fact.isMarked, Fact.isFiled, Fact.isOneShot]

/-- The end a closed row records stays, until a merge or an open view is recorded. -/
theorem holds_closedRow {f : Nat} (h : c.apply s = some (b, s'))
    (hforget : ¬ c.forgets b (.closedRow f)) (hx : (Fact.closedRow f).holds s) :
    (Fact.closedRow f).holds s' := by
  obtain ⟨x, p, hx, hp, hclosed⟩ := hx
  obtain ⟨x', hx', hchange⟩ := StoreCall.edits h f x hx
  rcases hchange.prState with hsame | hedits
  · exact ⟨x', p, hx', hsame.trans hp, hclosed⟩
  · rw [hp] at hedits
    have hnumber : ∀ n, (p.forNumber n).state = p.state := by
      intro n
      unfold PrState.forNumber
      split <;> rfl
    cases c with
    | markPrMerged =>
      obtain ⟨rfl, -⟩ := hedits
      exact absurd (Or.inr rfl) hforget
    | syncPrOpen =>
      obtain ⟨rfl, -⟩ := hedits
      exact absurd rfl hforget
    | markPrClosed => exact ⟨x', _, hx', hedits.2, rfl⟩
    | setPrNumber => exact ⟨x', _, hx', hedits.2, (hnumber _).trans hclosed⟩
    | setHarvestAttempts | markPrEngaged | setAttentionAside | markPrHarvested
    | recordClosedHarvest => exact ⟨x', _, hx', hedits.2, hclosed⟩
    | _ => exact hedits.elim

theorem status_of_held {a : Memory} {f : Nat} {x : Finding} {status : FindingStatus}
    (hknown : ∀ y ∈ a, y.holds s) (hx : s.finding? f = some x) (h : Fact.held f status ∈ a) :
    x.status = status := by
  obtain ⟨-, y, hy, hstatus⟩ := hknown _ h
  cases hx.symm.trans hy
  exact hstatus

theorem moved_from {a : Memory} {f : Nat} {x : Finding} {target : FindingStatus}
    (hallow : c.allowed a) (hknown : ∀ y ∈ a, y.holds s) (hx : s.finding? f = some x)
    (hmoves : c.moves f x.status target) :
    x.status.isHeld ∨ x.status.unclaimed ∨ x.status = .closed := by
  have hheld : ∀ {status : FindingStatus}, status.isHeld = true → Fact.held f status ∈ a →
      x.status.isHeld ∨ x.status.unclaimed ∨ x.status = .closed :=
    fun hs h => Or.inl (by rw [status_of_held hknown hx h]; exact hs)
  cases c with
  | setFindingStatus g status =>
    obtain ⟨rfl, rfl⟩ := hmoves
    cases target with
    | new => exact hheld rfl hallow
    | queued => exact hallow.elim (hheld rfl) fun h => hheld rfl h.1
    | merged => exact hheld rfl hallow
    | _ => exact hallow.elim
  | setAnchoredVerdict =>
    obtain ⟨rfl, -⟩ := hmoves
    rcases hallow.2 with hallow | hallow | hallow
    · exact hheld rfl hallow
    · exact hheld rfl hallow
    · exact hheld rfl hallow.2.1
  | claimInProgress g src tgt =>
    obtain ⟨rfl, hsrc, -⟩ := hmoves
    rcases hallow with hallow | hallow
    · exact Or.inr (Or.inl (by rw [hsrc, hallow.1]; rfl))
    · exact Or.inl (by rw [hsrc, hallow.1]; rfl)
  | setFindingPrOpen =>
    obtain ⟨rfl, -⟩ := hmoves
    exact hheld rfl hallow
  | blockFixJob =>
    obtain ⟨rfl, -⟩ := hmoves
    rcases hallow.2.1 with hallow | hallow
    · exact hheld rfl hallow
    · obtain ⟨y, hy, hunclaimed⟩ := hknown _ hallow
      cases hx.symm.trans hy
      exact Or.inr (Or.inl hunclaimed)
  | recordClosedHarvest => exact Or.inr (Or.inr hmoves.2.1)
  | reopenSuppressed =>
    obtain ⟨-, hsuppressed, -⟩ := hmoves
    refine Or.inr (Or.inl ?_)
    cases hstatus : x.status <;> simp_all [FindingStatus.isSuppressed, FindingStatus.unclaimed]
  | refreshDepUpdate => exact Or.inr (Or.inl (by rw [hmoves.2.1]; rfl))
  | supersedeUnproposedDepUpdates => exact Or.inr (Or.inl (by rw [hmoves.1]; rfl))
  | handOverQueuedDepUpdates =>
    rcases hmoves.1 with h | h
    · exact Or.inr (Or.inl (by rw [h]; rfl))
    · exact Or.inr (Or.inl (by rw [h]; rfl))
  | _ => exact hmoves.elim

theorem holds_merging {f : Nat} {a : Memory} (h : c.apply s = some (b, s'))
    (hallow : c.allowed a) (hknown : ∀ x ∈ a, x.holds s)
    (hx : (Fact.merging f).holds s) : (Fact.merging f).holds s' := by
  obtain ⟨x, hx, hmerged⟩ := hx
  obtain ⟨x', hx', hchange⟩ := StoreCall.edits h f x hx
  refine ⟨x', hx', ?_⟩
  rcases hchange.status with hstatus | hmoves
  · exact hstatus.trans hmerged
  · have hfrom := moved_from hallow hknown hx hmoves
    rw [hmerged] at hfrom
    rcases hfrom with h | h | h <;> cases h

theorem holds_queued {f : Nat} {a : Memory} (h : c.apply s = some (b, s'))
    (hallow : c.allowed a) (hforget : ¬ c.forgets b (.queued f))
    (hx : (Fact.queued f).holds s) : (Fact.queued f).holds s' := by
  obtain ⟨x, hx, hunclaimed⟩ := hx
  obtain ⟨x', hx', hchange⟩ := StoreCall.edits h f x hx
  refine ⟨x', hx', ?_⟩
  rcases hchange.status with hstatus | hmoves
  · rw [hstatus]
    exact hunclaimed
  · cases c with
    | setFindingStatus | setAnchoredVerdict =>
      obtain ⟨rfl, -⟩ := hmoves
      exact absurd (by simp [StoreCall.forgets, Fact.onStatus]) hforget
    | claimInProgress g src tgt =>
      obtain ⟨rfl, rfl, htarget⟩ := hmoves
      rcases hallow with hallow | hallow
      · refine absurd ⟨?_, Or.inr ⟨hallow.1, rfl⟩⟩ hforget
        simp only [StoreCall.apply, Store.claimInProgress, Store.updateFindingIf, hx,
          Option.any_some, decide_true, if_true, Option.some.injEq, Prod.mk.injEq] at h
        exact h.1.symm
      · rw [hallow.1] at hunclaimed
        cases hunclaimed
    | setFindingPrOpen =>
      obtain ⟨rfl, -⟩ := hmoves
      exact absurd (Or.inl (by simp [Fact.onStatus])) hforget
    | blockFixJob =>
      obtain ⟨rfl, -⟩ := hmoves
      exact absurd (Or.inr (Or.inr (by simp [Fact.onStatus]))) hforget
    | recordClosedHarvest =>
      rw [hmoves.2.1] at hunclaimed
      cases hunclaimed
    | reopenSuppressed | refreshDepUpdate =>
      rw [hmoves.2.2]
      rfl
    | supersedeUnproposedDepUpdates =>
      rw [hmoves.2]
      rfl
    | handOverQueuedDepUpdates =>
      rcases hmoves.2 with htarget | htarget
      · rw [htarget]
        rfl
      · rw [htarget]
        rfl
    | _ => exact hmoves.elim

/-- Whether a statement holds job `id` as a fix of the finding. -/
def StoreCall.holdsFix (f id : Nat) : {β : Type} → StoreCall β → Prop
  | _, .blockFixJob g k _ => g = f ∧ k = id
  | _, _ => False

theorem holdsFix_of_moves {f : Nat} {a : Memory} {source : FindingStatus}
    (hallow : c.allowed a) (hmoves : c.moves f source .blocked) : ∃ id, c.holdsFix f id := by
  cases c with
  | setFindingStatus g status =>
    obtain ⟨-, rfl⟩ := hmoves
    exact hallow.elim
  | setAnchoredVerdict g status reason anchor => exact absurd hmoves.2.symm hallow.1.2
  | recordClosedHarvest g status reason anchor t => exact absurd hmoves.2.2.symm hallow.2
  | claimInProgress g src tgt =>
    obtain ⟨-, -, rfl⟩ := hmoves
    rcases hallow with hallow | hallow <;> cases hallow.2
  | blockFixJob g id reason => exact ⟨id, hmoves.1, rfl⟩
  | handOverQueuedDepUpdates => rcases hmoves.2 with h | h <;> cases h
  | setFindingPrOpen => cases hmoves.2
  | reopenSuppressed | refreshDepUpdate => cases hmoves.2.2
  | supersedeUnproposedDepUpdates => cases hmoves.2
  | _ => exact hmoves.elim

theorem forgets_unheld_of_moves {f p : Nat} {a : Memory} {source : FindingStatus}
    (hallow : c.allowed a) (hmoves : c.moves f source .blocked) : c.forgets b (.unheld p) := by
  obtain ⟨id, hheld⟩ := holdsFix_of_moves hallow hmoves
  cases c with
  | blockFixJob => exact Or.inr (Or.inl rfl)
  | _ => exact hheld.elim

theorem fair_of_allowed {a : Memory} (hallow : c.allowed a) : c.fairReason := by
  cases c <;> first | exact hallow.2.1 | trivial

theorem forgets_running_of_moves {p : Nat} {j : Job} {target : JobState}
    (hmoves : c.jobMoves p j target) (hrunning : j.state = .running) :
    c.forgets b (.running p) := by
  cases c with
  | retireStrandedSuspensions => cases hrunning.symm.trans hmoves.1
  | createJob => cases hrunning.symm.trans hmoves.2.1
  | blockFixJob | completeJob | suspendOrphan | failJob | retireSuspendedJob =>
    obtain ⟨rfl, -⟩ := hmoves
    exact Or.inl rfl
  | failUnstartedJob | orphanJob =>
    obtain ⟨rfl, -⟩ := hmoves
    exact rfl
  | _ => exact hmoves.elim

theorem holds_running {p : Nat} {a : Memory} (h : c.apply s = some (b, s'))
    (hallow : c.allowed a) (hforget : ¬ c.forgets b (.running p))
    (hx : (Fact.running p).holds s) : (Fact.running p).holds s' := by
  obtain ⟨j, hj, hrunning⟩ := hx
  obtain ⟨j', hj', hchange⟩ := StoreCall.jobEdits h (fair_of_allowed hallow) hj
  refine ⟨j', hj', ?_⟩
  rcases hchange.state with hstate | hmoves
  · exact hstate.trans hrunning
  · exact absurd (forgets_running_of_moves hmoves hrunning) hforget

theorem was_running {p : Nat} {a : Memory} {j j' : Job} (hallow : c.allowed a)
    (hknown : ∀ y ∈ a, y.holds s) (hj : s.job? p = some j) (hchange : JobChange c p j j')
    (hrunning : j'.state = .running) : j.state = .running := by
  rcases hchange.state with hsame | hmoves
  · exact hsame.symm.trans hrunning
  · rw [hrunning] at hmoves
    cases c with
    | completeJob id outcome =>
      obtain ⟨rfl, -⟩ := hmoves
      obtain ⟨k, hk, hstate⟩ := hknown _ hallow.1
      cases hj.symm.trans hk
      exact hstate
    | retireSuspendedJob id state why =>
      obtain ⟨-, rfl⟩ := hmoves
      rcases hallow.1 with h | h <;> cases h
    | failUnstartedJob | failJob | suspendOrphan | orphanJob | retireStrandedSuspensions =>
      cases hmoves.2
    | createJob => cases hmoves.2.2
    | blockFixJob => cases hmoves.2.2.2
    | _ => exact hmoves.elim

theorem forgets_of_inserts {id : Nat} {j : Job} {x : Fact} (h : c.inserts s id j b)
    (hx : x.onCreate = true) : c.forgets b x := by
  cases c with
  | createJob => exact ⟨by cases b <;> simp_all [StoreCall.inserts], hx⟩
  | _ => exact h.elim

theorem holds_runningIn {jobs : List Nat} {a : Memory} (h : c.apply s = some (b, s'))
    (hallow : c.allowed a) (hknown : ∀ y ∈ a, y.holds s)
    (hforget : ¬ c.forgets b (.runningIn jobs)) (hx : (Fact.runningIn jobs).holds s) :
    (Fact.runningIn jobs).holds s' := by
  intro p j' hj' hrunning
  rcases StoreCall.job_cases h (fair_of_allowed hallow) hj' with ⟨j, hj, hchange⟩ | hinsert
  · exact hx p j hj (was_running hallow hknown hj hchange hrunning)
  · exact absurd (forgets_of_inserts hinsert rfl) hforget

theorem successor_of_kept {p : Nat} {a : Memory} {x : Fact} (h : c.apply s = some (b, s'))
    (hallow : c.allowed a) (hforget : ¬ c.forgets b x) (hcreate : x.onCreate = true) :
    s'.hasSuccessor p = s.hasSuccessor p := by
  have hfair := fair_of_allowed hallow
  cases hp' : s'.hasSuccessor p with
  | false =>
    cases hp : s.hasSuccessor p with
    | false => rfl
    | true => exact absurd (StoreCall.successor_stays h hfair hp) (by simp [hp'])
  | true =>
    obtain ⟨id, j', hj', hfrom⟩ := Store.hasSuccessor_iff.1 hp'
    rcases StoreCall.job_cases h hfair hj' with ⟨j, hj, hchange⟩ | hinsert
    · exact (Store.hasSuccessor_iff.2 ⟨id, j, hj, hchange.resumedFrom.symm.trans hfrom⟩).symm
    · exact absurd (forgets_of_inserts hinsert hcreate) hforget

theorem holds_engaged {p f : Nat} {a : Memory} (h : c.apply s = some (b, s'))
    (hallow : c.allowed a) (hforget : ¬ c.forgets b (.engaged p f))
    (hx : (Fact.engaged p f).holds s) : (Fact.engaged p f).holds s' := by
  obtain ⟨j, hj, hkind, hf, hopen⟩ := hx
  obtain ⟨j', hj', hchange⟩ := StoreCall.jobEdits h (fair_of_allowed hallow) hj
  refine ⟨j', hj', hchange.kind.trans hkind, hchange.findingId.trans hf, ?_⟩
  rw [successor_of_kept h hallow hforget rfl]
  exact hopen

theorem not_running_of_suspended {p : Nat} {j : Job} {a : Memory}
    (hknown : ∀ y ∈ a, y.holds s) (hj : s.job? p = some j) (hsuspended : j.state = .suspended) :
    Fact.running p ∉ a := by
  intro hrun
  obtain ⟨k, hk, hstate⟩ := hknown _ hrun
  cases hj.symm.trans hk
  cases hsuspended.symm.trans hstate

theorem suspended_kept {p : Nat} {kind : JobKind} {f : Option Nat} {a : Memory} {j j' : Job}
    (h : c.apply s = some (b, s')) (hallow : c.allowed a) (hknown : ∀ y ∈ a, y.holds s)
    (hforget : ¬ c.forgets b (.offered p kind f)) (hj : s.job? p = some j)
    (hj' : s'.job? p = some j') (hchange : JobChange c p j j') (hsuspended : j.state = .suspended) :
    j'.state = .suspended := by
  have hnot := not_running_of_suspended hknown hj hsuspended
  rcases hchange.state with hsame | hmoves
  · exact hsame.trans hsuspended
  · cases c with
    | createJob kind' repoId findingId state resumedFrom =>
      simp only [StoreCall.apply] at h
      split at h
      · cases h
        exact absurd ⟨rfl, rfl⟩ hforget
      · cases h
        cases hj.symm.trans hj'
        exact hsuspended
    | failUnstartedJob | orphanJob =>
      obtain ⟨rfl, -⟩ := hmoves
      exact absurd hallow hnot
    | completeJob | suspendOrphan =>
      obtain ⟨rfl, -⟩ := hmoves
      exact absurd hallow.1 hnot
    | failJob | retireSuspendedJob =>
      obtain ⟨rfl, -⟩ := hmoves
      exact absurd (Or.inr (by simp [Fact.onEnd])) hforget
    | retireStrandedSuspensions => exact absurd rfl hforget
    | blockFixJob => exact hmoves.2.2.2
    | _ => exact hmoves.elim

theorem holds_offered {p : Nat} {kind : JobKind} {f : Option Nat} {a : Memory}
    (h : c.apply s = some (b, s')) (hallow : c.allowed a) (hknown : ∀ y ∈ a, y.holds s)
    (hforget : ¬ c.forgets b (.offered p kind f)) (hx : (Fact.offered p kind f).holds s) :
    (Fact.offered p kind f).holds s' := by
  obtain ⟨j, hj, hkind, hf, hsuspended, hopen⟩ := hx
  obtain ⟨j', hj', hchange⟩ := StoreCall.jobEdits h (fair_of_allowed hallow) hj
  refine ⟨j', hj', hchange.kind.trans hkind, hchange.findingId.trans hf,
    suspended_kept h hallow hknown hforget hj hj' hchange hsuspended, ?_⟩
  rw [successor_of_kept h hallow hforget rfl]
  exact hopen

theorem holds_unheld {p : Nat} {a : Memory} (h : c.apply s = some (b, s'))
    (hallow : c.allowed a) (hforget : ¬ c.forgets b (.unheld p))
    (hx : (Fact.unheld p).holds s) : (Fact.unheld p).holds s' := by
  obtain ⟨j, hj, hunheld⟩ := hx
  obtain ⟨j', hj', hchange⟩ := StoreCall.jobEdits h (fair_of_allowed hallow) hj
  refine ⟨j', hj', fun hkind f x' hf hx' hblocked => ?_⟩
  rcases StoreCall.finding_cases h hx' with ⟨x, hx, hfinding⟩ | ⟨-, hfiled⟩
  · rcases hfinding.status with hsame | hmoves
    · exact hunheld (hchange.kind.symm.trans hkind) f x (hchange.findingId.symm.trans hf) hx
        (hsame.symm.trans hblocked)
    · rw [hblocked] at hmoves
      exact hforget (forgets_unheld_of_moves hallow hmoves)
  · cases c with
    | upsertFinding =>
      cases hfiled
      cases hblocked
    | _ => cases hfiled

/-- A job is live after a statement if it was before, or is a fix held just now. -/
theorem live_back {a : Memory} {id : Nat} {j j' : Job} (h : c.apply s = some (b, s'))
    (hallow : c.allowed a) (hknown : ∀ y ∈ a, y.holds s) (hj : s.job? id = some j)
    (hchange : JobChange c id j j') (hlive : s'.live id j' = true) :
    s.live id j = true ∨ c.blocks id ∧ j.kind = .finding .fix := by
  have hfair := fair_of_allowed hallow
  have hsucc : s'.hasSuccessor id = false → s.hasSuccessor id = false := by
    intro hs'
    cases hs : s.hasSuccessor id with
    | false => rfl
    | true => exact absurd (StoreCall.successor_stays h hfair hs) (by simp [hs'])
  rw [Store.live_iff] at hlive
  rcases hchange.state with hsame | hmoves
  · rw [hsame] at hlive
    exact Or.inl (Store.live_iff.2 (hlive.imp_right fun h => ⟨h.1, hsucc h.2⟩))
  · have hrunning : Fact.running id ∈ a → s.live id j = true := by
      intro hrun
      obtain ⟨k, hk, hstate⟩ := hknown _ hrun
      cases hj.symm.trans hk
      exact Store.live_iff.2 (Or.inl hstate)
    have hdead : ∀ {state}, j'.state = state → state ≠ .running → state ≠ .suspended → False := by
      rintro state rfl hr hs
      exact hlive.elim hr fun h => hs h.1
    cases c with
    | completeJob | suspendOrphan =>
      obtain ⟨rfl, -⟩ := hmoves
      exact Or.inl (hrunning hallow.1)
    | blockFixJob => exact Or.inr ⟨hmoves.1, hmoves.2.1⟩
    | failUnstartedJob | failJob | orphanJob | retireStrandedSuspensions =>
      exact (hdead hmoves.2 (by simp) (by simp)).elim
    | createJob => exact (hdead hmoves.2.2 (by simp) (by simp)).elim
    | retireSuspendedJob id state why =>
      rcases hallow.1 with hstate | hstate
      · exact (hdead hmoves.2 (by simp [hstate]) (by simp [hstate])).elim
      · exact (hdead hmoves.2 (by simp [hstate]) (by simp [hstate])).elim
    | _ => exact hmoves.elim

theorem holds_finished {p : Nat} {a : Memory} (h : c.apply s = some (b, s'))
    (hallow : c.allowed a) (hknown : ∀ y ∈ a, y.holds s) (hforget : ¬ c.forgets b (.finished p))
    (hx : (Fact.finished p).holds s) : (Fact.finished p).holds s' := by
  obtain ⟨j, hj, hdone⟩ := hx
  obtain ⟨j', hj', hchange⟩ := StoreCall.jobEdits h (fair_of_allowed hallow) hj
  have hnot : Fact.running p ∉ a := by
    intro hrun
    obtain ⟨k, hk, hstate⟩ := hknown _ hrun
    cases hj.symm.trans hk
    cases hdone.symm.trans hstate
  refine ⟨j', hj', ?_⟩
  rcases hchange.state with hsame | hmoves
  · exact hsame.trans hdone
  · cases c with
    | createJob => cases hdone.symm.trans hmoves.2.1
    | retireStrandedSuspensions => cases hdone.symm.trans hmoves.1
    | failUnstartedJob | orphanJob =>
      obtain ⟨rfl, -⟩ := hmoves
      exact absurd hallow hnot
    | completeJob | suspendOrphan =>
      obtain ⟨rfl, -⟩ := hmoves
      exact absurd hallow.1 hnot
    | failJob | retireSuspendedJob =>
      obtain ⟨rfl, -⟩ := hmoves
      exact absurd (Or.inr (by simp [Fact.onEnd])) hforget
    | blockFixJob => exact absurd (Or.inr (Or.inl rfl)) hforget
    | _ => exact hmoves.elim

theorem holds_pinned {p : Nat} {sha : Text} {a : Memory} (h : c.apply s = some (b, s'))
    (hallow : c.allowed a) (hforget : ¬ c.forgets b (.pinned p sha))
    (hx : (Fact.pinned p sha).holds s) : (Fact.pinned p sha).holds s' := by
  obtain ⟨j, hj, hpinned⟩ := hx
  obtain ⟨j', hj', hchange⟩ := StoreCall.jobEdits h (fair_of_allowed hallow) hj
  refine ⟨j', hj', ?_⟩
  rcases hchange.pinned with hsame | hpins
  · exact hsame.trans hpinned
  · cases c with
    | setPinnedSha =>
      cases hpins
      exact absurd (by simp [StoreCall.forgets, Fact.isPinned]) hforget
    | _ => exact hpins.elim

theorem holds_marked {p : Nat} {full : Bool} {a : Memory} (h : c.apply s = some (b, s'))
    (hallow : c.allowed a) (hforget : ¬ c.forgets b (.marked p full))
    (hx : (Fact.marked p full).holds s) : (Fact.marked p full).holds s' := by
  obtain ⟨j, hj, hmarked⟩ := hx
  obtain ⟨j', hj', hchange⟩ := StoreCall.jobEdits h (fair_of_allowed hallow) hj
  refine ⟨j', hj', ?_⟩
  rcases hchange.scope with hsame | ⟨-, hmarks⟩
  · exact hsame.1.trans hmarked
  · cases c with
    | markFullHistory =>
      obtain ⟨rfl, -⟩ := hmarks
      exact absurd (by simp [StoreCall.forgets, Fact.isMarked]) hforget
    | _ => exact hmarks.elim

theorem keepsLinks {a : Memory} (h : c.apply s = some (b, s')) (hallow : c.allowed a) :
    s.KeepsLinks s' := by
  intro id j hj
  obtain ⟨j', hj', hchange⟩ := StoreCall.jobEdits h (fair_of_allowed hallow) hj
  exact ⟨j', hj', hchange.resumedFrom⟩

theorem length_of_kept {x : Fact} (h : c.apply s = some (b, s')) (hforget : ¬ c.forgets b x)
    (hcreate : x.onCreate = true) : s'.jobs.length = s.jobs.length := by
  rcases StoreCall.inserted h with hsame | ⟨-, j, hinsert, -⟩
  · exact hsame
  · exact absurd (forgets_of_inserts hinsert hcreate) hforget

theorem holds_latest {p r out : Nat} {a : Memory} (h : c.apply s = some (b, s'))
    (hallow : c.allowed a) (hdescends : s.Descends) (hforget : ¬ c.forgets b (.latest p r out))
    (hx : (Fact.latest p r out).holds s) : (Fact.latest p r out).holds s' := by
  obtain ⟨hlen, ⟨j, hj, hrepo⟩, hout⟩ := hx
  obtain ⟨j', hj', hchange⟩ := StoreCall.jobEdits h (fair_of_allowed hallow) hj
  exact ⟨(length_of_kept h hforget rfl).trans hlen, ⟨j', hj', hchange.repoId.trans hrepo⟩,
    ((keepsLinks h hallow).outJob hdescends hj hj' hchange.resumedFrom).trans hout⟩

theorem holds_unrun {p : Nat} {resumedFrom : Option Nat} {a : Memory} (h : c.apply s = some (b, s'))
    (hallow : c.allowed a) (hforget : ¬ c.forgets b (.unrun p resumedFrom))
    (hx : (Fact.unrun p resumedFrom).holds s) : (Fact.unrun p resumedFrom).holds s' := by
  obtain ⟨j, hj, hfrom, hopen⟩ := hx
  obtain ⟨j', hj', hchange⟩ := StoreCall.jobEdits h (fair_of_allowed hallow) hj
  refine ⟨j', hj', hchange.resumedFrom.trans hfrom, ?_⟩
  rw [successor_of_kept h hallow hforget rfl]
  exact hopen

theorem holds_keptSession {p : Nat} {file : Text} {a : Memory} (h : c.apply s = some (b, s'))
    (hallow : c.allowed a) (hknown : ∀ y ∈ a, y.holds s) (hx : (Fact.kept p file).holds s) :
    (Fact.kept p file).holds s' := by
  obtain ⟨j, hj, hfile, hended⟩ := hx
  obtain ⟨j', hj', hchange⟩ := StoreCall.jobEdits h (fair_of_allowed hallow) hj
  have hnot : Fact.running p ∉ a := by
    intro hrun
    obtain ⟨k, hk, hrunning⟩ := hknown _ hrun
    cases hj.symm.trans hk
    exact hended hrunning
  refine ⟨j', hj', ?_, fun hrunning => hended (was_running hallow hknown hj hchange hrunning)⟩
  rcases hchange.session with hsame | hwrites
  · exact hsame.trans hfile
  · cases c with
    | completeJob | suspendOrphan =>
      obtain ⟨rfl, -⟩ := hwrites
      exact absurd hallow.1 hnot
    | blockFixJob =>
      obtain ⟨-, hnone⟩ := hwrites
      cases hnone.symm.trans hfile
    | _ => exact hwrites.elim

theorem holds_watermark {r : Nat} {last : Option Text} {full : Option Int}
    (h : c.apply s = some (b, s')) (hforget : ¬ c.forgets b (.watermark r last full))
    (hx : (Fact.watermark r last full).holds s) : (Fact.watermark r last full).holds s' := by
  refine ⟨hx.1.trans_eq (StoreCall.length_repos h).symm, fun repo' hrepo' => ?_⟩
  obtain ⟨repo, hrepo, hchange⟩ := StoreCall.repo_back h hrepo'
  obtain ⟨hlast, hfull⟩ := hx.2 repo hrepo
  constructor
  · rcases hchange.last with hsame | hmarks
    · exact hsame.trans hlast
    · cases c with
      | setLastHunt | clearLastHuntSha =>
        obtain ⟨rfl, -⟩ := hmarks
        exact absurd (by simp [StoreCall.forgets, Fact.onWatermark]) hforget
      | _ => exact hmarks.elim
  · rcases hchange.full with hsame | hdates
    · exact hsame.trans hfull
    · cases c with
      | setLastFullHunt =>
        cases hdates
        exact absurd (by simp [StoreCall.forgets, Fact.onWatermark]) hforget
      | _ => exact hdates.elim

/-- A fact the statement does not undo holds after it. -/
theorem holds_kept {a : Memory} {x : Fact} (h : c.apply s = some (b, s')) (hallow : c.allowed a)
    (hknown : ∀ y ∈ a, y.holds s) (hdescends : s.Descends) (hforget : ¬ c.forgets b x)
    (hx : x.holds s) : x.holds s' := by
  cases x with
  | held f status => exact holds_held h hforget hx
  | queued f => exact holds_queued h hallow hforget hx
  | row f finding => exact holds_row h hforget hx
  | urlless f =>
    obtain ⟨x, hx, hurl⟩ := hx
    obtain ⟨x', hx', hchange⟩ := StoreCall.edits h f x hx
    exact ⟨x', hx', (url_eq hchange fun hl => hforget (forgets_linked hl)).trans hurl⟩
  | linked f =>
    obtain ⟨x, hx, hurl⟩ := hx
    obtain ⟨x', hx', hchange⟩ := StoreCall.edits h f x hx
    exact ⟨x', hx', by rw [url_eq hchange hforget]; exact hurl⟩
  | closedRow f => exact holds_closedRow h hforget hx
  | merging f => exact holds_merging h hallow hknown hx
  | offered p kind f => exact holds_offered h hallow hknown hforget hx
  | placed p repoId =>
    obtain ⟨j, hj, hrepo⟩ := hx
    obtain ⟨j', hj', hchange⟩ := StoreCall.jobEdits h (fair_of_allowed hallow) hj
    exact ⟨j', hj', hchange.repoId.trans hrepo⟩
  | unheld p => exact holds_unheld h hallow hforget hx
  | continued p => exact StoreCall.successor_stays h (fair_of_allowed hallow) hx
  | sole p => exact (successor_of_kept h hallow hforget rfl).trans hx
  | running p => exact holds_running h hallow hforget hx
  | runningIn jobs => exact holds_runningIn h hallow hknown hforget hx
  | engaged p f => exact holds_engaged h hallow hforget hx
  | fresh | treeAt =>
    obtain ⟨j, hj, hfrom⟩ := hx
    obtain ⟨j', hj', hchange⟩ := StoreCall.jobEdits h (fair_of_allowed hallow) hj
    exact ⟨j', hj', hchange.resumedFrom.trans hfrom⟩
  | latest p r out => exact holds_latest h hallow hdescends hforget hx
  | origin p first =>
    obtain ⟨⟨j, hj⟩, horigin⟩ := hx
    have hlinks := keepsLinks h hallow
    obtain ⟨j', hj', -⟩ := hlinks p j hj
    exact ⟨⟨j', hj'⟩, (hlinks.origin hdescends hj).trans horigin⟩
  | hunting p r =>
    obtain ⟨j, hj, hkind, hrepo⟩ := hx
    obtain ⟨j', hj', hchange⟩ := StoreCall.jobEdits h (fair_of_allowed hallow) hj
    exact ⟨j', hj', hchange.kind.trans hkind, hchange.repoId.trans hrepo⟩
  | pinned p sha => exact holds_pinned h hallow hforget hx
  | marked p full => exact holds_marked h hallow hforget hx
  | finished p => exact holds_finished h hallow hknown hforget hx
  | unrun p resumedFrom => exact holds_unrun h hallow hforget hx
  | ran p rr =>
    obtain ⟨j, hj⟩ := hx
    obtain ⟨j', hj', -⟩ := StoreCall.jobEdits h (fair_of_allowed hallow) hj
    exact ⟨j', hj'⟩
  | kept p file => exact holds_keptSession h hallow hknown hx
  | watermark r last full => exact holds_watermark h hforget hx
  | _ => trivial

theorem mem_findingsWithStatus {status : FindingStatus} {row : Row Finding} :
    row ∈ s.findingsWithStatus status ↔
      s.finding? row.id = some row.val ∧ row.val.status = status := by
  simp [Store.findingsWithStatus, Store.finding?]

theorem mem_listResumableJobs {row : Row Job} :
    row ∈ s.listResumableJobs ↔
      s.job? row.id = some row.val ∧ s.resumable row.id row.val = true := by
  simp [Store.listResumableJobs, Store.job?]

theorem holds_tells {row : Row Finding} {status : FindingStatus} {x : Fact}
    (hrow : s.finding? row.id = some row.val) (hstatus : row.val.status = status)
    (hx : row.val.tells row.id status x) : x.holds s := by
  rcases hx with ⟨hheld, rfl⟩ | ⟨rfl, rfl⟩ | ⟨rfl, rfl⟩
  · exact ⟨hheld, row.val, hrow, hstatus⟩
  · exact ⟨row.val, hrow, by rw [hstatus]; rfl⟩
  · cases hurl : row.val.url with
    | none => exact ⟨row.val, hrow, hurl⟩
    | some url => exact ⟨row.val, hrow, by rw [hurl]; rfl⟩

theorem holds_offerTells {row : Row Job} {x : Fact} (hrow : s.job? row.id = some row.val)
    (hresumable : s.resumable row.id row.val = true)
    (hx : offerTells row.id row.val.kind row.val.repoId row.val.findingId row.val.sessionFile x) :
    x.holds s := by
  simp only [Store.resumable, Bool.and_eq_true, Store.openSuspension_iff] at hresumable
  obtain ⟨⟨⟨⟨hsuspended, hopen⟩, -⟩, -⟩, hstatus⟩ := hresumable
  rcases hx with rfl | rfl | rfl | ⟨file, hfile, rfl⟩ | ⟨k, f, hkind, hf, rfl⟩
  · exact ⟨row.val, hrow, rfl, rfl, hsuspended, hopen⟩
  · exact ⟨row.val, hrow, rfl⟩
  · refine ⟨row.val, hrow, fun hkind f x hf hx hblocked => ?_⟩
    simp [hkind, hf, Store.statusOf, hx, hblocked, FindingJobKind.resumableAt] at hstatus
  · exact ⟨row.val, hrow, hfile, by simp [hsuspended]⟩
  · rw [hkind, hf] at hstatus
    simp only [Store.statusOf, Option.bind_some, Option.any_map] at hstatus
    have hheld : ∀ status, (∀ st, k.resumableAt st = true → st = status) → status.isHeld = true →
        (Fact.held f status).holds s := by
      intro status hat hheld
      cases hfinding : s.finding? f with
      | none =>
        rw [hfinding] at hstatus
        cases hstatus
      | some y =>
        rw [hfinding] at hstatus
        exact ⟨hheld, y, hfinding, hat _ hstatus⟩
    cases k with
    | fix => trivial
    | harvest => trivial
    | recheck => exact hheld .rechecking (fun st h => by cases st <;> first | rfl | cases h) rfl
    | engage => exact hheld .prOpen (fun st h => by cases st <;> first | rfl | cases h) rfl

theorem predecessor_lt {a : Memory} {kind : JobKind} {repoId p : Nat}
    {findingId resumedFrom : Option Nat} (hmay : a.MayCreate kind repoId findingId resumedFrom)
    (hknown : ∀ y ∈ a, y.holds s) (hp : resumedFrom = some p) : p < s.jobs.length := by
  rcases hmay.continues p hp with ⟨g, hoffer, -⟩ | ⟨-, f, -, hengaged, -⟩
  · obtain ⟨j, hj, -⟩ := hknown _ hoffer
    exact Store.job?_lt hj
  · obtain ⟨j, hj, -⟩ := hknown _ hengaged
    exact Store.job?_lt hj

theorem descends_step {a : Memory} (h : c.apply s = some (b, s')) (hallow : c.allowed a)
    (hknown : ∀ y ∈ a, y.holds s) (hdescends : s.Descends) : s'.Descends := by
  intro id j' p hj' hfrom
  rcases StoreCall.job_cases h (fair_of_allowed hallow) hj' with ⟨j, hj, hchange⟩ | hinsert
  · exact hdescends id j p hj (hchange.resumedFrom.symm.trans hfrom)
  · rw [StoreCall.inserts_id hinsert]
    rw [StoreCall.inserts_resumedFrom hinsert] at hfrom
    cases c with
    | createJob => exact predecessor_lt hallow.2 hknown hfrom
    | _ => cases hfrom

theorem last_open (h : s.Descends) {n : Nat} (hlen : s.jobs.length = n + 1) :
    s.hasSuccessor n = false := by
  by_contra hsucc
  obtain ⟨id, j, hj, hfrom⟩ := Store.hasSuccessor_iff.1 (by simpa using hsucc)
  have hlt := h id j n hj hfrom
  have hid := Store.job?_lt hj
  omega

/-- A job created for a fix is of a finding that is being fixed. -/
theorem unheld_created {a : Memory} {kind : JobKind} {repoId : Nat}
    {findingId resumedFrom : Option Nat} (hmay : a.MayCreate kind repoId findingId resumedFrom)
    (hknown : ∀ y ∈ a, y.holds s) (hkind : kind = .finding .fix) {f : Nat} {x : Finding}
    (hf : findingId = some f) (hx : s.finding? f = some x) : x.status ≠ .blocked := by
  have hwork := hmay.work
  subst hkind
  obtain ⟨g, finding, hg, -, -, hheld, -⟩ := hwork
  cases hf.symm.trans hg
  rw [status_of_held hknown hx hheld]
  simp

theorem holds_created {a : Memory} {kind : JobKind} {repoId : Nat}
    {findingId resumedFrom : Option Nat} {state : JobState} {created : Option CreatedJob}
    {x : Fact} (h : (StoreCall.createJob kind repoId findingId state resumedFrom).apply s =
      some (created, s'))
    (hallow : (StoreCall.createJob kind repoId findingId state resumedFrom).allowed a)
    (hknown : ∀ y ∈ a, y.holds s) (hdescends : s.Descends)
    (hx : (StoreCall.createJob kind repoId findingId state resumedFrom).learns a created x) :
    x.holds s' := by
  obtain ⟨created, rfl, hx⟩ := hx
  have hdescends' := descends_step h hallow hknown hdescends
  have hcases := fun p j' => @StoreCall.job_cases _ _ _ _ _ p j' h trivial
  have hcreate := StoreCall.created_of_apply h
  obtain ⟨hid, hlen, hnew, -⟩ := Store.createJob_spec hcreate
  have hopen := last_open hdescends' hlen
  have hfindings := Store.createJob_findings hcreate
  rw [← hid] at hnew hopen
  rcases hx with rfl | rfl | rfl | ⟨jobs, hjobs, rfl⟩ | ⟨f, rfl, rfl, rfl⟩ | ⟨p, rfl, rfl⟩ |
    ⟨rfl, rfl⟩ | ⟨f, -, rfl, -⟩ | ⟨out, hout, rfl⟩ | ⟨rfl, rfl⟩ | ⟨-, rfl⟩ | ⟨rfl, rfl⟩ | rfl | ⟨p, rfl, hinherit⟩
  · exact ⟨_, hnew, hallow.1⟩
  · refine ⟨_, hnew, fun hkind f x hf hx => ?_⟩
    rw [Store.finding?, hfindings] at hx
    exact unheld_created hallow.2 hknown hkind hf hx
  · exact hopen
  · intro p j' hj' hrunning
    rcases hcases p j' hj' with ⟨j, hj, hchange⟩ | hinsert
    · exact List.mem_cons_of_mem _
        (hknown _ hjobs p j hj (was_running hallow hknown hj hchange hrunning))
    · rw [StoreCall.inserts_id hinsert, ← hid]
      exact List.mem_cons_self
  · exact ⟨_, hnew, rfl, rfl, hopen⟩
  · exact Store.hasSuccessor_iff.2 ⟨_, _, hnew, rfl⟩
  · exact ⟨_, hnew, rfl⟩
  · trivial
  · refine ⟨by rw [hlen, hid], ⟨_, hnew, rfl⟩, ?_⟩
    rw [Store.outJob, hnew, Option.bind_some]
    cases resumedFrom with
    | none => exact hout.symm
    | some p =>
      obtain ⟨⟨j, hj⟩, horigin⟩ := hknown _ hout
      exact ((keepsLinks h hallow).origin hdescends hj).trans horigin
  · exact ⟨_, hnew, rfl, rfl⟩
  · trivial
  · exact ⟨_, hnew, rfl⟩
  · exact ⟨_, hnew, rfl, hopen⟩
  · rcases hinherit with ⟨sha, hsha, rfl⟩ | ⟨full, hfull, rfl⟩
    · obtain ⟨j, hj, hpinned⟩ := hknown _ hsha
      exact ⟨_, hnew, by simp [Store.newJob, hj, hpinned]⟩
    · obtain ⟨j, hj, hmarked⟩ := hknown _ hfull
      exact ⟨_, hnew, by simp [Store.newJob, hj, hmarked]⟩

theorem holds_learned {a : Memory} {x : Fact} (h : c.apply s = some (b, s'))
    (hallow : c.allowed a) (hknown : ∀ y ∈ a, y.holds s) (hdescends : s.Descends)
    (hx : c.learns a b x) : x.holds s' := by
  cases c with
  | createJob => exact holds_created h hallow hknown hdescends hx
  | verdictAnchor f =>
    obtain ⟨anchor, -, rfl⟩ := hx
    trivial
  | retireSuspendedJob id state why =>
    obtain ⟨⟨kind, f, hoffered⟩, rfl⟩ := hx
    obtain ⟨-, -, -, -, -, hopen⟩ := hknown _ hoffered
    cases hs' : s'.hasSuccessor id with
    | false => exact hs'
    | true =>
      exact absurd (StoreCall.successor h hallow.2.1 hs') (by simp [hopen, StoreCall.continues])
  | orphanJob id =>
    obtain ⟨jobs, hjobs, rfl⟩ := hx
    cases h
    intro p j' hj' hrunning
    rw [Store.orphanJob, Store.job?_modifyJob] at hj'
    split at hj'
    · obtain ⟨j, -, rfl⟩ := Option.map_eq_some_iff.1 hj'
      cases hrunning
    · rename_i hne
      exact List.mem_filter.2 ⟨hknown _ hjobs p j' hj' hrunning, by simpa using Ne.symm hne⟩
  | getFinding f =>
    cases h
    obtain ⟨finding, hfinding, rfl | ⟨hheld, rfl⟩ | ⟨-, rfl⟩⟩ := hx
    · exact ⟨finding, hfinding, rfl, rfl, rfl⟩
    · exact ⟨hheld, finding, hfinding, rfl⟩
    · trivial
  | findingsWithStatus status =>
    cases h
    obtain ⟨row, hrow, htells⟩ := hx
    rw [mem_findingsWithStatus] at hrow
    exact holds_tells hrow.1 hrow.2 htells
  | listPendingHarvest =>
    obtain ⟨row, -, rfl⟩ := hx
    trivial
  | listResumableJobs =>
    cases h
    obtain ⟨row, hrow, htells⟩ := hx
    rw [mem_listResumableJobs] at hrow
    exact holds_offerTells hrow.1 hrow.2 htells
  | listRunningJobs =>
    cases h
    rcases hx with ⟨row, hrow, rfl⟩ | rfl
    · simp only [Store.listRunningJobs, List.mem_filter, mem_rows, decide_eq_true_eq] at hrow
      exact ⟨row.val, hrow⟩
    · intro p j hj hrunning
      exact Store.mem_filter_rows.2 ⟨j, hj, decide_eq_true hrunning⟩
  | resumeChainStats | jobBlocker =>
    obtain ⟨-, h⟩ := hx
    first | (subst h; trivial) | (obtain ⟨-, rfl⟩ := h; trivial)
  | resumeOriginJob p =>
    cases h
    rcases hx with ⟨f, -, rfl⟩ | ⟨hjob, rfl⟩
    · trivial
    · refine ⟨?_, rfl⟩
      rcases hjob with hrunning | ⟨kind, f, hoffered⟩
      · obtain ⟨j, hj, -⟩ := hknown _ hrunning
        exact ⟨j, hj⟩
      · obtain ⟨j, hj, -⟩ := hknown _ hoffered
        exact ⟨j, hj⟩
  | upsertFinding =>
    obtain ⟨-, rfl⟩ := hx
    trivial
  | ancestorTokens =>
    cases hx
    trivial
  | pinnedSha id =>
    cases h
    obtain ⟨sha, hsha, rfl⟩ := hx
    exact Option.bind_eq_some_iff.1 hsha
  | jobFullHistory id =>
    cases h
    obtain ⟨⟨kind, f, hoffered⟩, rfl⟩ := hx
    obtain ⟨j, hj, -⟩ := hknown _ hoffered
    exact ⟨j, hj, by simp [Store.jobFullHistory, hj]⟩
  | setPinnedSha id sha =>
    cases h
    cases hx
    obtain ⟨spec, hat⟩ := hallow
    obtain ⟨j, hj, -⟩ := hknown _ hat
    exact ⟨{ j with pinnedSha := some sha }, by simp [Store.setPinnedSha, hj], rfl⟩
  | markFullHistory id request =>
    cases h
    cases hx
    obtain ⟨r, hhunting, -⟩ := hallow
    obtain ⟨j, hj, -⟩ := hknown _ hhunting
    exact ⟨{ j with fullHistory := true, fullHuntRequest := request },
      by simp [Store.markFullHistory, hj], rfl⟩
  | completeJob id outcome =>
    cases h
    obtain ⟨hdone, rfl⟩ := hx
    obtain ⟨j, hj, -⟩ := hknown _ hallow.1
    exact ⟨_, by simp only [Store.completeJob, Store.job?_modifyJob, if_pos, hj]; rfl, hdone⟩
  | getRepoById r =>
    cases h
    obtain ⟨repo, hrepo, rfl | ⟨-, v, -, rfl⟩⟩ := hx
    · have hrow := (Option.filter_eq_some_iff.1 hrepo).1
      refine ⟨Store.lt_of_repo? hrow, fun repo' hrepo' => ?_⟩
      cases hrow.symm.trans hrepo'
      exact ⟨rfl, rfl⟩
    · trivial
  | clearLastHuntSha r =>
    cases h
    obtain ⟨last, full, hwatermark, rfl⟩ := hx
    obtain ⟨hrow, hcolumns⟩ := hknown _ hwatermark
    refine ⟨by simpa [Store.clearLastHuntSha] using hrow, fun repo' hrepo' => ?_⟩
    simp only [Store.clearLastHuntSha, Store.repo?_modifyRepo, if_true,
      Option.map_eq_some_iff] at hrepo'
    obtain ⟨repo, hrepo, rfl⟩ := hrepo'
    exact ⟨rfl, (hcolumns repo hrepo).2⟩
  | claimInProgress f source target =>
    obtain ⟨rfl, rfl, rfl, rfl⟩ := hx
    simp only [StoreCall.apply, Store.claimInProgress, Store.updateFindingIf] at h
    split at h
    · rename_i hqueued
      cases h
      cases hfinding : s.finding? f with
      | none =>
        rw [hfinding] at hqueued
        cases hqueued
      | some y => exact ⟨rfl, { y with status := .fixing }, by simp [hfinding], rfl⟩
    · cases h
  | setFindingStatus f status =>
    obtain ⟨rfl, rfl⟩ := hx
    cases h
    obtain ⟨-, y, hy, -⟩ := hknown _ hallow
    exact ⟨{ y with status := .merged }, by simp [Store.setFindingStatus, hy], rfl⟩
  | markPrClosed f n t =>
    obtain rfl := hx
    cases h
    obtain ⟨-, y, hy, -⟩ := hknown _ hallow
    exact ⟨y.upsertPr fun p => p.ended .closed n t, _,
      by simp [Store.markPrClosed, Store.markPrEnded, hy], rfl, rfl⟩
  | _ => exact hx.elim

end

theorem Fact.holds_request {s s' : Store} {r : Request} {x : Fact} (h : Accepts s r s')
    (hdescends : s.Descends) (hx : x.holds s) : x.holds s' := by
  have hjob : ∀ p, s'.job? p = s.job? p := fun p => by rw [Store.job?, h.jobs, Store.job?]
  have hsucc : ∀ p, s'.hasSuccessor p = s.hasSuccessor p := fun p => by
    rw [Store.hasSuccessor, h.jobs, Store.hasSuccessor]
  have hlinks : s.KeepsLinks s' := fun p j hj => ⟨j, (hjob p).trans hj, rfl⟩
  cases x with
  | held f status =>
    obtain ⟨hheld, x, hx, rfl⟩ := hx
    obtain ⟨x', hx', hchange⟩ := h.edits f x hx
    refine ⟨hheld, x', hx', hchange.status.resolve_right ?_⟩
    rintro (⟨hawaits, -⟩ | ⟨hnew, -⟩ | ⟨hqueued, -⟩)
    · cases hstatus : x.status <;> simp_all [FindingStatus.isHeld, FindingStatus.awaitsVerdict]
    · rw [hnew] at hheld
      cases hheld
    · rw [hqueued] at hheld
      cases hheld
  | queued f =>
    obtain ⟨x, hx, hunclaimed⟩ := hx
    obtain ⟨x', hx', hchange⟩ := h.edits f x hx
    refine ⟨x', hx', ?_⟩
    rcases hchange.status with hstatus | ⟨-, hverdict⟩ | ⟨-, hnew⟩ | ⟨-, hnew⟩
    · rw [hstatus]
      exact hunclaimed
    · cases hstatus : x'.status <;> simp_all [FindingStatus.unclaimed, FindingStatus.isVerdict]
    · rw [hnew]
      rfl
    · rw [hnew]
      rfl
  | row f finding =>
    obtain ⟨x, hx, hrepo, htype, hreport⟩ := hx
    obtain ⟨x', hx', hchange⟩ := h.edits f x hx
    exact ⟨x', hx', hchange.repoId.trans hrepo, hchange.type.trans htype,
      hchange.report.trans hreport⟩
  | urlless f =>
    obtain ⟨x, hx, hurl⟩ := hx
    obtain ⟨x', hx', hchange⟩ := h.edits f x hx
    exact ⟨x', hx', by rw [Finding.url, hchange.prUrl]; exact hurl⟩
  | linked f =>
    obtain ⟨x, hx, hurl⟩ := hx
    obtain ⟨x', hx', hchange⟩ := h.edits f x hx
    exact ⟨x', hx', by rw [Finding.url, hchange.prUrl]; exact hurl⟩
  | closedRow f =>
    obtain ⟨x, p, hx, hp, hclosed⟩ := hx
    obtain ⟨x', hx', hchange⟩ := h.edits f x hx
    exact ⟨x', p, hx', hchange.prState.trans hp, hclosed⟩
  | merging f =>
    obtain ⟨x, hx, hmerged⟩ := hx
    obtain ⟨x', hx', hchange⟩ := h.edits f x hx
    refine ⟨x', hx', (hchange.status.resolve_right ?_).trans hmerged⟩
    rw [hmerged]
    rintro (⟨h, -⟩ | ⟨h, -⟩ | ⟨h, -⟩) <;> cases h
  | offered p kind f => simpa only [Fact.holds, hjob, hsucc] using hx
  | placed | running | runningIn => simpa only [Fact.holds, hjob] using hx
  | continued | sole => simpa only [Fact.holds, hsucc] using hx
  | engaged p f => simpa only [Fact.holds, hjob, hsucc] using hx
  | unrun p resumedFrom => simpa only [Fact.holds, hjob, hsucc] using hx
  | fresh | treeAt | hunting | pinned | marked | finished | ran | kept =>
    simpa only [Fact.holds, hjob] using hx
  | latest p r out =>
    obtain ⟨hlen, ⟨j, hj, hrepo⟩, hout⟩ := hx
    exact ⟨h.jobs ▸ hlen, ⟨j, (hjob p).trans hj, hrepo⟩,
      (hlinks.outJob hdescends hj ((hjob p).trans hj) rfl).trans hout⟩
  | origin p first =>
    obtain ⟨⟨j, hj⟩, horigin⟩ := hx
    exact ⟨⟨j, (hjob p).trans hj⟩, (hlinks.origin hdescends hj).trans horigin⟩
  | watermark r last full =>
    refine ⟨hx.1.trans_le h.length_repos, fun repo' hrepo' => ?_⟩
    rcases h.repo_back hrepo' with ⟨repo, hrepo, hchange⟩ | ⟨rfl, -⟩
    · obtain ⟨hlast, hfull⟩ := hx.2 repo hrepo
      exact ⟨hchange.last.trans hlast, hchange.full.trans hfull⟩
    · exact absurd hx.1 (Nat.lt_irrefl _)
  | unheld p =>
    obtain ⟨j, hj, hunheld⟩ := hx
    refine ⟨j, (hjob p).trans hj, fun hkind f x' hf hx' hblocked => ?_⟩
    obtain ⟨x, hx, hchange⟩ := h.finding hx'
    refine hunheld hkind f x hf hx (hchange.status.elim (fun hsame => hsame.symm.trans hblocked) ?_)
    rw [hblocked]
    rintro (⟨-, h⟩ | ⟨-, h⟩ | ⟨-, h⟩) <;> cases h
  | _ => trivial

/-- What a tree's call tells says nothing of the database, but that its job is on record. -/
theorem holds_told {β : Type} {a : Memory} {c : TreeCall β} {s : Store} {b : β} {x : Fact}
    (hallow : c.allowed a) (hknown : ∀ y ∈ a, y.holds s) (hx : c.learns a b x) : x.holds s := by
  cases c with
  | create id spec =>
    obtain ⟨of, hfresh, -⟩ := hallow
    obtain ⟨sha, -, rfl | ⟨f, -, rfl | rfl⟩⟩ := hx
    · obtain ⟨j, hj, hfrom⟩ := hknown _ hfresh
      exact ⟨j, hj, hfrom⟩
    · trivial
    · trivial
  | diffNames =>
    obtain ⟨-, f, -, rfl⟩ := hx
    trivial
  | history =>
    obtain ⟨-, rfl⟩ := hx
    trivial
  | prompt id brief =>
    cases brief with
    | hunt range => obtain ⟨-, rfl | rfl⟩ := hx <;> trivial
    | _ => exact hx.elim
  | runWorker =>
    obtain ⟨rr, -, rfl⟩ := hx
    obtain ⟨j, hj, -⟩ := hknown _ hallow.1
    exact ⟨j, hj⟩
  | ledgerUsage =>
    obtain ⟨file, tokens, -, rfl⟩ := hx
    trivial
  | findingsFile =>
    cases hx
    trivial
  | _ => exact hx.elim

theorem known_call {β : Type} {a : Memory} {c : Call β} {w w' : World} {b : β}
    (hallow : c.allowed a) (hknown : Known a w) (h : CallStep c w b w') :
    Known (a.next c b) w' := by
  cases c with
  | ask q =>
    obtain rfl := h.leaves
    rw [next_ask]
    exact hknown
  | tree c =>
    have hstore : w'.store = w.store := h.leaves
    refine ⟨fun x hx => ?_, by rw [hstore]; exact hknown.descends⟩
    rw [hstore]
    rcases hx with hx | hx
    · exact hknown.facts x hx.1
    · exact holds_told hallow hknown.facts hx
  | store c =>
    rcases h.leaves with ⟨b', s', rfl, happly, rfl⟩ | ⟨⟨e, rfl⟩, rfl⟩
    · refine ⟨fun x hx => ?_, descends_step happly hallow hknown.facts hknown.descends⟩
      rcases hx with ⟨hx, hforget⟩ | hx
      · exact holds_kept happly hallow hknown.facts hknown.descends hforget (hknown.facts x hx)
      · exact holds_learned happly hallow hknown.facts hknown.descends hx
    · refine ⟨fun x hx => ?_, hknown.descends⟩
      rcases hx with hx | hx
      · exact hknown.facts x hx.1
      · exact hx.elim

/-- What the daemon knows is so, in every run. -/
theorem known_invariant : Machine.Invariant daemon follower Known where
  init w hw := by
    cases hw
    exact ⟨fun x hx => hx.elim, fun id j p h _ => by simp [Store.job?] at h⟩
  call a c w b w' := known_call
  finish a phase w hready hknown := by
    refine ⟨fun x hx => ?_, hknown.descends⟩
    rcases hready.2 x hx with rfl | hx
    · trivial
    · exact hknown.facts x hx
  abort a w _ hknown := ⟨fun x hx => hx.elim, hknown.descends⟩
  crash a p w _ _ hknown := ⟨fun x hx => hx.elim, hknown.descends⟩
  env a w w' hknown henv := by
    cases henv with
    | treeLost => exact ⟨hknown.facts, hknown.descends⟩
    | request haccept =>
      refine ⟨fun x hx => Fact.holds_request haccept hknown.descends (hknown.facts x hx),
        fun id j p hj => ?_⟩
      rw [Store.job?, haccept.jobs] at hj
      exact hknown.descends id j p hj

end Hunter
