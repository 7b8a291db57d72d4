import Hunter.Conformance.Workers
import Hunter.Guarantees.HandOvers
import Hunter.Knowledge
import Hunter.Replay
set_option autoImplicit false

namespace Hunter
open Effect

/-! No fix without an operator's word, and no pull request forgotten. -/

/-- The findings an operator queued, and those that took over from one of them. -/
abbrev Approvals := Nat → Bool

def Store.isQueued (s : Store) (f : Nat) : Bool := (s.finding? f).any fun x => x.status = .queued

def StoreCall.approves (s : Store) (approved : Approvals) : {β : Type} → StoreCall β → Approvals
  | _, .handOverQueuedDepUpdates repoId moves => fun f =>
    approved f || (s.handOverPairs repoId moves).any fun pair => pair.2 = f && approved pair.1
  | _, _ => approved

def Call.approves (s : Store) (approved : Approvals) : {β : Type} → Call β → β → Approvals
  | _, .store c, .ok _ => c.approves s approved
  | _, _, _ => approved

def Approvals.heard (s s' : Store) (approved : Approvals) : Approvals := fun f =>
  approved f || s'.isQueued f && !s.isQueued f

def approving : Machine Call Text (World × Approvals) :=
  daemon.watch (fun _ => false) (fun c w b _ approved => c.approves w.store approved b)
    fun w w' approved => approved.heard w.store w'.store

/-- The statuses of a finding that is to be fixed, or was. -/
def FindingStatus.isFixes : FindingStatus → Bool
  | queued | fixing | prOpen | merged => true
  | _ => false

theorem not_isFixes {status : FindingStatus} (h : status.isClosure = true) :
    status.isFixes = false := by
  cases status <;> first | rfl | cases h

theorem queued_of_operatorMoves {source target : FindingStatus} (h : source.operatorMoves target)
    (hfixes : target.isFixes = true) : target = .queued := by
  rcases h with ⟨-, hverdict⟩ | ⟨-, rfl⟩ | ⟨-, rfl⟩
  · cases target <;> first
      | rfl
      | exact absurd hfixes (by decide)
      | exact absurd hverdict (by decide)
  · cases hfixes
  · cases hfixes

def Approved (s : Store) (approved : Approvals) : Prop :=
  ∀ f row, s.finding? f = some row → row.status.isFixes = true → approved f = true

section
variable {β : Type} {c : StoreCall β} {s s' : Store} {b : β} {f : Nat} {row row' : Finding}
  {approved : Approvals}

theorem approves_mono (h : approved f = true) : c.approves s approved f = true := by
  cases c <;> first | exact h | (simp only [StoreCall.approves, h, Bool.true_or])

theorem status_of_files (h : c.files = some row) : row.status = .new := by
  cases c <;> first | (cases h; rfl) | cases h

theorem approved_handOver {repoId : Nat} {moves : List ProposedMove} (h : Approved s approved)
    (hr : s.finding? f = some row)
    (hr' : (s.handOverQueuedDepUpdates repoId moves).1.finding? f = some row')
    (hqueued : row'.status = .queued) :
    (StoreCall.handOverQueuedDepUpdates repoId moves).approves s approved f = true := by
  have hall : s.HandsOver (s.handOverPairs repoId moves) := Store.handsOver_handOverPairs
  have hrow : some row' = (s.finding? f).map (s.handedOver (s.handOverPairs repoId moves) f) :=
    hr'.symm.trans ((Store.finding?_foldl_handOver_eq hall).2 f)
  rw [hr, Option.map_some] at hrow
  obtain rfl := Option.some.inj hrow
  have hsource : ((s.handOverPairs repoId moves).find? fun pair => pair.1 = f) = none := by
    cases hfind : (s.handOverPairs repoId moves).find? fun pair => pair.1 = f with
    | none => rfl
    | some pair => simp [Store.handedOver, hfind] at hqueued
  simp only [Store.handedOver, hsource] at hqueued
  split at hqueued
  · rename_i htarget
    obtain ⟨pair, hpair, heq⟩ := List.any_eq_true.1 htarget
    obtain ⟨giver, hgiver, hstatus⟩ := Store.statuses_eq_some (hall.source pair hpair)
    have happroved := h pair.1 giver hgiver (by rw [hstatus]; rfl)
    simp only [StoreCall.approves, Bool.or_eq_true]
    exact Or.inr (List.any_eq_true.2 ⟨pair, hpair, by simpa [happroved] using heq⟩)
  · exact approves_mono (h f row hr (by rw [hqueued]; rfl))

/-- The daemon moves only approved findings on to a fix. -/
theorem approved_moves {a : Memory} (happly : c.apply s = some (b, s')) (hallow : c.allowed a)
    (hjudges : c.judges) (hknown : ∀ x ∈ a, x.holds s) (h : Approved s approved)
    (hr : s.finding? f = some row) (hr' : s'.finding? f = some row')
    (hmoves : c.moves f row.status row'.status) (hfixes : row'.status.isFixes = true) :
    c.approves s approved f = true := by
  have hheld : ∀ {status : FindingStatus}, status.isFixes = true → Fact.held f status ∈ a →
      approved f = true :=
    fun hs hmem => h f row hr (by rw [status_of_held hknown hr hmem]; exact hs)
  cases c with
  | setFindingStatus g status =>
    obtain ⟨rfl, rfl⟩ := hmoves
    cases hstatus : row'.status with
    | queued =>
      rw [hstatus] at hallow
      exact hallow.elim (hheld rfl) fun hopen => hheld rfl hopen.1
    | merged =>
      rw [hstatus] at hallow
      exact hheld rfl hallow
    | new => rw [hstatus] at hfixes; cases hfixes
    | _ => rw [hstatus] at hallow; exact hallow.elim
  | setAnchoredVerdict g status =>
    obtain ⟨-, rfl⟩ := hmoves
    rcases hjudges with hclosure | hclosed
    · rw [not_isFixes hclosure] at hfixes
      cases hfixes
    · rw [hclosed] at hfixes
      cases hfixes
  | claimInProgress g source target =>
    obtain ⟨rfl, hsource, -⟩ := hmoves
    refine h g row hr ?_
    rcases hallow with ⟨rfl, -⟩ | ⟨rfl, -⟩ <;> rw [hsource] <;> rfl
  | setFindingPrOpen =>
    obtain ⟨rfl, -⟩ := hmoves
    exact hheld rfl hallow
  | recordClosedHarvest g status =>
    obtain ⟨-, -, rfl⟩ := hmoves
    rw [not_isFixes hjudges] at hfixes
    cases hfixes
  | handOverQueuedDepUpdates repoId moves =>
    cases happly
    rcases hmoves.2 with hqueued | hsuperseded
    · exact approved_handOver h hr hr' hqueued
    · rw [hsuperseded] at hfixes
      cases hfixes
  | blockFixJob =>
    rw [hmoves.2] at hfixes
    cases hfixes
  | reopenSuppressed | refreshDepUpdate =>
    rw [hmoves.2.2] at hfixes
    cases hfixes
  | supersedeUnproposedDepUpdates =>
    rw [hmoves.2] at hfixes
    cases hfixes
  | _ => exact hmoves.elim

theorem approved_apply {a : Memory} (happly : c.apply s = some (b, s')) (hallow : c.allowed a)
    (hjudges : c.judges) (hknown : ∀ x ∈ a, x.holds s) (h : Approved s approved) :
    Approved s' (c.approves s approved) := by
  intro f row' hr' hfixes
  rcases StoreCall.finding_cases happly hr' with ⟨row, hr, hchange⟩ | ⟨-, hfiled⟩
  · rcases hchange.status with hsame | hmoves
    · exact approves_mono (h f row hr (by rw [← hsame]; exact hfixes))
    · exact approved_moves happly hallow hjudges hknown h hr hr' hmoves hfixes
  · rw [status_of_files hfiled] at hfixes
    cases hfixes

theorem approved_heard {r : Request} (haccept : Accepts s r s') (h : Approved s approved) :
    Approved s' (approved.heard s s') := by
  intro f row' hr' hfixes
  obtain ⟨row, hr, hchange⟩ := haccept.finding hr'
  have hbefore : row.status.isFixes = true → approved.heard s s' f = true := fun hb => by
    simp [Approvals.heard, h f row hr hb]
  rcases hchange.status with hsame | hmoves
  · exact hbefore (by rw [← hsame]; exact hfixes)
  · have hqueued := queued_of_operatorMoves hmoves hfixes
    by_cases hwas : row.status = .queued
    · exact hbefore (by rw [hwas]; rfl)
    · simp [Approvals.heard, Store.isQueued, hr, hr', hqueued, hwas]

end

section
variable {x y : Config approving}

theorem approved_step (hx : approving.Reachable x) (hstep : approving.Step x y)
    (h : Approved x.state.1.store x.state.2) : Approved y.state.1.store y.state.2 := by
  have hrecording : Recording x.rest := hx.each recording_runPhase
  obtain ⟨a, hfollows, hknown⟩ := (known_invariant.watch _ _ _).reachable hx
  cases hstep with
  | finish | abort | crash => exact h
  | @env p w w' henv =>
    obtain ⟨w', approved⟩ := w'
    obtain ⟨henv, hheard⟩ := henv
    obtain rfl : approved = w.2.heard w.1.store w'.store := hheard
    cases henv with
    | treeLost =>
      intro f row hr hfixes
      exact Bool.or_eq_true_iff.2 (Or.inl (h f row hr hfixes))
    | request haccept => exact approved_heard haccept h
  | @call β c k w w' b hcall =>
    obtain ⟨w', approved⟩ := w'
    obtain ⟨hcall, hseen⟩ := hcall
    obtain rfl : approved = c.approves w.1.store w.2 b := hseen
    cases c with
    | ask q =>
      rw [show w' = w.1 from hcall.leaves]
      exact h
    | tree c =>
      rw [show w'.store = w.1.store from hcall.leaves]
      exact h
    | store c =>
      rcases hcall.leaves with ⟨b', s', rfl, happly, rfl⟩ | ⟨hfailed, rfl⟩
      · exact approved_apply happly hfollows.1 hrecording.1 hknown.facts h
      · cases b with
        | error e => exact h
        | ok b => exact fun f row hr hfixes => approves_mono (h f row hr hfixes)

/-- In every run a finding is queued, being fixed, or has its pull request open or merged only if
an operator queued it, or one that a scan replaced by it; and a fix is started for such a finding
only. -/
theorem fix_approved (hx : approving.Reachable x) :
    (∀ f row, x.state.1.store.finding? f = some row → row.status.isFixes = true →
      x.state.2 f = true) ∧
    ∀ repoId findingId state resumedFrom k,
      x.rest = .call (.store (.createJob (.finding .fix) repoId findingId state resumedFrom)) k →
      ∃ f, findingId = some f ∧ x.state.2 f = true := by
  have happroved : Approved x.state.1.store x.state.2 := by
    induction hx with
    | @start s hs =>
      obtain ⟨w, approved⟩ := s
      obtain ⟨rfl, rfl⟩ := hs
      intro f row hr
      simp [Store.finding?] at hr
    | step hx hstep ih => exact approved_step hx hstep ih
  refine ⟨happroved, fun repoId findingId state resumedFrom k hrest => ?_⟩
  obtain ⟨a, hfollows, hknown⟩ := (known_invariant.watch _ _ _).reachable hx
  rw [hrest] at hfollows
  obtain ⟨f, finding, rfl, -, -, hheld, -⟩ := hfollows.1.2.work
  obtain ⟨-, row, hr, hstatus⟩ := hknown.facts _ hheld
  exact ⟨f, rfl, happroved f row hr (by rw [hstatus]; rfl)⟩

end

/-! A finding that an operator queues, its fix about to be started. -/

def isFixStart : {β : Type} → Call β → Bool
  | _, .store (.createJob (.finding .fix) _ _ _ _) => true
  | _, _ => false

def approvedReply (o : Outside) : Machine.Reply Call (World × Approvals) :=
  o.reply.watch fun c w b _ approved => c.approves w.store approved b

def firstFix : Config approving :=
  play approvedReply (List.replicate 3 routine ++ [{ stops := isFixStart }])
    (requestedBeside (fun w w' approved => approved.heard w.store w'.store) queueVerdict
      (play approvedReply (List.replicate 5 hunting)
        (requestedBeside (fun w w' approved => approved.heard w.store w'.store) addSampleRepo
          ⟨approving.body approving.boot, emptyWorld, fun _ => false⟩)))

theorem reachable_firstFix : approving.Reachable firstFix := by
  have hreply : ∀ o, approving.Faithful (approvedReply o) := fun o =>
    Machine.Faithful.watch o.faithful_reply
  have henv : ∀ w w' approved, EnvStep w w' →
      approving.env (w, approved) (w', approved.heard w.store w'.store) := fun _ _ _ h => ⟨h, rfl⟩
  exact reachable_play hreply (reachable_requestedBeside (r := .verdict 0 .queued none) henv
    (reachable_play hreply (reachable_requestedBeside (r := .addRepo ['r'] ['m']) henv
      (.start ⟨rfl, rfl⟩) .addRepo))
    (.verdict rfl rfl (by decide) (by decide)))

theorem fix_approved_first : ∃ repoId findingId state resumedFrom k,
    firstFix.rest =
        .call (.store (.createJob (.finding .fix) repoId findingId state resumedFrom)) k ∧
      ∃ f, findingId = some f ∧ firstFix.state.2 f = true := by
  have hnext : Machine.nextIs isFixStart firstFix.rest = true := by decide +kernel
  obtain ⟨β, c, k, hrest, hstart⟩ := Machine.exists_next hnext
  cases c with
  | ask | tree => cases hstart
  | store c =>
    cases c with
    | createJob kind repoId findingId state resumedFrom =>
      cases kind with
      | repo => cases hstart
      | finding kind =>
        cases kind with
        | fix =>
          exact ⟨repoId, findingId, state, resumedFrom, k, hrest,
            (fix_approved reachable_firstFix).2 _ _ _ _ _ hrest⟩
        | _ => cases hstart
    | _ => cases hstart

def Store.PrLinked (s : Store) : Prop :=
  ∀ f row, s.finding? f = some row → row.status = .prOpen ∨ row.status = .merged →
    row.prUrl.isSome

section
variable {β : Type} {c : StoreCall β} {s s' : Store} {b : β} {f : Nat} {row row' : Finding}

theorem prUrl_kept (hchange : FindingChange c f row row') (h : row.prUrl.isSome) :
    row'.prUrl.isSome := by
  rcases hchange.prUrl with hsame | hlinks
  · rw [hsame]
    exact h
  · cases c with
    | setFindingPrOpen =>
      rw [hlinks.2]
      rfl
    | _ => exact hlinks.elim

theorem linked_apply {a : Memory} (happly : c.apply s = some (b, s')) (hallow : c.allowed a)
    (hjudges : c.judges) (hknown : ∀ x ∈ a, x.holds s) (h : s.PrLinked) : s'.PrLinked := by
  intro f row' hr' hpr
  rcases StoreCall.finding_cases happly hr' with ⟨row, hr, hchange⟩ | ⟨-, hfiled⟩
  · rcases hchange.status with hsame | hmoves
    · exact prUrl_kept hchange (h f row hr (by rw [← hsame]; exact hpr))
    · have hnone : ∀ {status : FindingStatus}, row'.status = status → status.isFixes = false →
          row'.prUrl.isSome := by
        intro status hstatus hfixes
        rcases hpr with hpr | hpr <;> rw [← hstatus, hpr] at hfixes <;> cases hfixes
      cases c with
      | setFindingStatus g status =>
        obtain ⟨rfl, rfl⟩ := hmoves
        rcases hpr with hpr | hpr
        · rw [hpr] at hallow
          exact hallow.elim
        · rw [hpr] at hallow
          exact prUrl_kept hchange
            (h g row hr (Or.inl (status_of_held hknown hr hallow)))
      | setFindingPrOpen g url =>
        obtain ⟨rfl, -⟩ := hmoves
        cases happly
        rw [Store.setFindingPrOpen, Store.finding?_modifyFinding, if_pos rfl, hr] at hr'
        cases hr'
        rfl
      | setAnchoredVerdict g status =>
        rcases hjudges with hclosure | hclosed
        · exact hnone hmoves.2 (not_isFixes hclosure)
        · exact hnone hmoves.2 (by rw [hclosed]; rfl)
      | claimInProgress g source target =>
        obtain ⟨-, -, htarget⟩ := hmoves
        rcases hallow with ⟨-, rfl⟩ | ⟨-, rfl⟩ <;>
          rcases hpr with hpr | hpr <;> cases htarget.symm.trans hpr
      | recordClosedHarvest => exact hnone hmoves.2.2 (not_isFixes hjudges)
      | handOverQueuedDepUpdates =>
        rcases hmoves.2 with hqueued | hsuperseded
        · rcases hpr with hpr | hpr <;> cases hqueued.symm.trans hpr
        · exact hnone hsuperseded rfl
      | blockFixJob | supersedeUnproposedDepUpdates => exact hnone hmoves.2 rfl
      | reopenSuppressed | refreshDepUpdate => exact hnone hmoves.2.2 rfl
      | _ => exact hmoves.elim
  · rcases hpr with hpr | hpr <;> cases (status_of_files hfiled).symm.trans hpr

theorem linked_request {r : Request} (haccept : Accepts s r s') (h : s.PrLinked) : s'.PrLinked := by
  intro f row' hr' hpr
  obtain ⟨row, hr, hchange⟩ := haccept.finding hr'
  rw [hchange.prUrl]
  rcases hchange.status with hsame | hmoves
  · exact h f row hr (by rw [← hsame]; exact hpr)
  · have hqueued := queued_of_operatorMoves hmoves (by
      rcases hpr with hpr | hpr <;> rw [hpr] <;> rfl)
    rcases hpr with hpr | hpr <;> cases hqueued.symm.trans hpr

/-- The daemon and the operators leave a pull request's finding only at the request's end. -/
theorem leaves_pr {a : Memory} (hallow : c.allowed a) (hknown : ∀ x ∈ a, x.holds s)
    (hr : s.finding? f = some row) (hchange : FindingChange c f row row')
    (hpr : row.status = .prOpen ∨ row.status = .merged) :
    row'.prUrl = row.prUrl ∧ (row'.status = row.status ∨ row.status = .prOpen ∧
      (row'.status = .merged ∨ row'.status = .queued ∧ row.url = none ∨
        row'.status = .closed ∧ ∃ p, row.prState = some p ∧ p.state = some .closed)) := by
  have hheld : ∀ {status : FindingStatus}, Fact.held f status ∈ a → row.status = status :=
    fun h => status_of_held hknown hr h
  have hopen : ∀ {status : FindingStatus}, Fact.held f status ∈ a → status = .prOpen ∨
      status = .merged := fun h => by rw [← hheld h]; exact hpr
  constructor
  · rcases hchange.prUrl with hsame | hlinks
    · exact hsame
    · cases c with
      | setFindingPrOpen =>
        obtain ⟨rfl, -⟩ := hlinks
        rcases hopen hallow with h | h <;> cases h
      | _ => exact hlinks.elim
  · rcases hchange.status with hsame | hmoves
    · exact Or.inl hsame
    · cases c with
      | setFindingStatus g status =>
        obtain ⟨rfl, rfl⟩ := hmoves
        cases hstatus : row'.status with
        | new =>
          rw [hstatus] at hallow
          rcases hopen hallow with h | h <;> cases h
        | queued =>
          rw [hstatus] at hallow
          rcases hallow with hfixing | ⟨hprOpen, hurlless⟩
          · rcases hopen hfixing with h | h <;> cases h
          · obtain ⟨x, hx, hnone⟩ := hknown _ hurlless
            cases hr.symm.trans hx
            exact Or.inr ⟨hheld hprOpen, Or.inr (Or.inl ⟨rfl, hnone⟩)⟩
        | merged =>
          rw [hstatus] at hallow
          exact Or.inr ⟨hheld hallow, Or.inl rfl⟩
        | _ => rw [hstatus] at hallow; exact hallow.elim
      | setAnchoredVerdict g status =>
        obtain ⟨rfl, rfl⟩ := hmoves
        rcases hallow.2 with hrecheck | hfix | ⟨hclosed, hprOpen, hrow⟩
        · rcases hopen hrecheck with h | h <;> cases h
        · rcases hopen hfix with h | h <;> cases h
        · obtain ⟨x, p, hx, hp, hstate⟩ := hknown _ hrow
          cases hr.symm.trans hx
          exact Or.inr ⟨hheld hprOpen, Or.inr (Or.inr ⟨hclosed, p, hp, hstate⟩)⟩
      | claimInProgress g source target =>
        obtain ⟨-, hsource, -⟩ := hmoves
        rcases hallow with ⟨rfl, -⟩ | ⟨rfl, -⟩ <;> rw [hsource] at hpr <;>
          rcases hpr with h | h <;> cases h
      | setFindingPrOpen =>
        obtain ⟨rfl, -⟩ := hmoves
        rcases hopen hallow with h | h <;> cases h
      | blockFixJob g id reason =>
        obtain ⟨rfl, -⟩ := hmoves
        rcases hallow.2.1 with hfix | hqueued
        · rcases hopen hfix with h | h <;> cases h
        · obtain ⟨x, hx, hunclaimed⟩ := hknown _ hqueued
          cases hr.symm.trans hx
          rcases hpr with h | h <;> rw [h] at hunclaimed <;> cases hunclaimed
      | recordClosedHarvest =>
        rcases hpr with h | h <;> cases h.symm.trans hmoves.2.1
      | reopenSuppressed =>
        rcases hpr with h | h <;> rw [h] at hmoves <;> cases hmoves.2.1
      | refreshDepUpdate =>
        rcases hpr with h | h <;> cases h.symm.trans hmoves.2.1
      | supersedeUnproposedDepUpdates =>
        rcases hpr with h | h <;> cases h.symm.trans hmoves.1
      | handOverQueuedDepUpdates =>
        rcases hmoves.1 with hsource | hsource <;> rcases hpr with h | h <;>
          cases h.symm.trans hsource
      | _ => exact hmoves.elim

end

section
variable {x y : Config daemon} {f : Nat} {row row' : Finding}

/-- What a step does to the findings is a request's doing, or a statement's of the daemon. -/
theorem findings_step (hstep : daemon.Step x y) :
    y.state.store.findings = x.state.store.findings ∨
      (∃ r, Accepts x.state.store r y.state.store) ∨
      ∃ (β : Type) (c : StoreCall β) (k : Except Text β → Act Phase) (b : β),
        x.rest = .call (.store c) k ∧ c.apply x.state.store = some (b, y.state.store) := by
  cases hstep with
  | finish | abort | crash => exact Or.inl rfl
  | env henv =>
    cases henv with
    | treeLost => exact Or.inl rfl
    | request haccept => exact Or.inr (Or.inl ⟨_, haccept⟩)
  | @call β c k w w' b hcall =>
    cases c with
    | ask q => exact Or.inl (congrArg (fun w => w.store.findings) hcall.leaves)
    | tree c => exact Or.inl (congrArg Store.findings hcall.leaves)
    | store c =>
      rcases hcall.leaves with ⟨b', s', rfl, happly, rfl⟩ | ⟨-, rfl⟩
      · exact Or.inr (Or.inr ⟨_, c, k, b', rfl, happly⟩)
      · exact Or.inl rfl

theorem linked_reachable (hx : daemon.Reachable x) : x.state.store.PrLinked := by
  induction hx with
  | start hs =>
    cases hs
    exact fun f row hr => by simp [Store.finding?] at hr
  | @step x y hx hstep ih =>
    rcases findings_step hstep with hsame | ⟨r, haccept⟩ | ⟨β, c, k, b, hrest, happly⟩
    · intro f row hr
      rw [Store.finding?, hsame] at hr
      exact ih f row hr
    · exact linked_request haccept ih
    · obtain ⟨a, hfollows, hknown⟩ := known_invariant.reachable hx
      have hrecording := recording_reachable hx
      rw [hrest] at hfollows hrecording
      exact linked_apply happly hfollows.1 hrecording.1 hknown.facts ih

/-- No pull request is forgotten: a finding at `pr_open` or `merged` has its pull request's url and
keeps it, `merged` is final, and `pr_open` is left only for `merged`, for `closed` once the row
says so, or to queue the finding anew where the url is empty. -/
theorem pr_kept (hx : daemon.Reachable x) (hstep : daemon.Step x y)
    (hr : x.state.store.finding? f = some row) (hr' : y.state.store.finding? f = some row')
    (hpr : row.status = .prOpen ∨ row.status = .merged) :
    row.prUrl.isSome ∧ row'.prUrl = row.prUrl ∧
      (row'.status = row.status ∨ row.status = .prOpen ∧
        (row'.status = .merged ∨ row'.status = .queued ∧ row.url = none ∨
          row'.status = .closed ∧ ∃ p, row.prState = some p ∧ p.state = some .closed)) := by
  refine ⟨linked_reachable hx f row hr hpr, ?_⟩
  rcases findings_step hstep with hsame | ⟨r, haccept⟩ | ⟨β, c, k, b, hrest, happly⟩
  · rw [Store.finding?, hsame] at hr'
    cases hr.symm.trans hr'
    exact ⟨rfl, Or.inl rfl⟩
  · have hchange := haccept.edits.status hr hr'
    refine ⟨hchange.prUrl, hchange.status.imp_right fun hmoves => ?_⟩
    rcases hmoves with ⟨hawaits, -⟩ | ⟨hsource, -⟩ | ⟨hsource, -⟩ <;> rcases hpr with h | h
    · rw [h] at hawaits
      cases hawaits
    · rw [h] at hawaits
      cases hawaits
    all_goals cases h.symm.trans hsource
  · obtain ⟨a, hfollows, hknown⟩ := known_invariant.reachable hx
    rw [hrest] at hfollows
    exact leaves_pr hfollows.1 hknown.facts hr ((StoreCall.edits happly).status hr hr') hpr

end

/-! A pull request found merged. -/

def isMerge : {β : Type} → Call β → Bool
  | _, .store (.setFindingStatus 0 .merged) => true
  | _, _ => false

def mergedFinding : Config daemon :=
  playDaemon [routine, { mergedView with stops := isMerge }] shippedFinding

theorem pr_kept_merged : ∃ x y row row', daemon.Reachable x ∧ daemon.Step x y ∧
    x.state.store.finding? 0 = some row ∧ row.status = .prOpen ∧ row.prUrl.isSome ∧
      y.state.store.finding? 0 = some row' ∧ row'.status = .merged ∧ row'.prUrl = row.prUrl := by
  have hnext : Machine.nextIs isMerge mergedFinding.rest = true := by decide +kernel
  have hfinding : (mergedFinding.state.store.finding? 0).any (fun row => row.status = .prOpen) =
      true := by decide +kernel
  have hx : daemon.Reachable mergedFinding := reachable_playDaemon reachable_shippedFinding
  obtain ⟨β, c, k, hrest, hmerge⟩ := Machine.exists_next hnext
  generalize mergedFinding = x at *
  obtain ⟨rest, w⟩ := x
  subst hrest
  obtain ⟨row, hr, hopen⟩ := (Option.any_eq_true _ _).1 hfinding
  have hopen := of_decide_eq_true hopen
  cases c with
  | ask | tree => cases hmerge
  | store c =>
    cases c with
    | setFindingStatus f status =>
      obtain ⟨rfl, rfl⟩ : f = 0 ∧ status = .merged := by
        cases f <;> cases status <;> first | exact ⟨rfl, rfl⟩ | cases hmerge
      have hmarked : CallStep (.store (.setFindingStatus 0 .merged)) w (.ok ())
          { w with store := w.store.setFindingStatus 0 .merged } := .store rfl rfl
      have hr' : (w.store.setFindingStatus 0 .merged).finding? 0 =
          some { row with status := .merged } := by
        rw [Store.setFindingStatus, Store.finding?_modifyFinding, if_pos rfl, hr]
        rfl
      obtain ⟨hlinked, hurl, -⟩ := pr_kept hx (.call hmarked) hr hr' (Or.inl hopen)
      exact ⟨_, _, row, _, hx, .call hmarked, hr, hopen, hlinked, hr', rfl, hurl⟩
    | _ => cases hmerge

end Hunter
