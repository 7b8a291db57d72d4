import Hunter.Calls
set_option autoImplicit false

namespace Hunter

namespace Store
variable {R : Nat → Finding → Finding → Prop} {s s' s'' : Store}

/-- Every finding stays, changed at most as `R` says. -/
def Edits (R : Nat → Finding → Finding → Prop) (s s' : Store) : Prop :=
  ∀ f x, s.finding? f = some x → ∃ x', s'.finding? f = some x' ∧ R f x x'

theorem edits_sameFindings (hR : ∀ f x, R f x x) (h : s'.findings = s.findings) :
    Edits R s s' := by
  intro f x hx
  refine ⟨x, ?_, hR f x⟩
  rw [finding?, h]
  exact hx

theorem Edits.trans (hR : ∀ f x y z, R f x y → R f y z → R f x z) (h : Edits R s s')
    (h' : Edits R s' s'') : Edits R s s'' := by
  intro f x hx
  obtain ⟨y, hy, hxy⟩ := h f x hx
  obtain ⟨z, hz, hyz⟩ := h' f y hy
  exact ⟨z, hz, hR f x y z hxy hyz⟩

theorem edits_modifyFinding (hR : ∀ f x, R f x x) {i : Nat} {g : Finding → Finding}
    (hg : ∀ x, s.finding? i = some x → R i x (g x)) : Edits R s (s.modifyFinding i g) := by
  intro f x hx
  rw [finding?_modifyFinding]
  split
  · rename_i hi
    subst hi
    exact ⟨g x, by simp [hx], hg x hx⟩
  · exact ⟨x, hx, hR f x⟩

theorem edits_updateFindingIf (hR : ∀ f x, R f x x) {i : Nat} {p : Finding → Bool}
    {g : Finding → Finding} (hg : ∀ x, p x = true → R i x (g x)) :
    Edits R s (s.updateFindingIf i p g).1 := by
  unfold updateFindingIf
  split
  · rename_i hp
    refine edits_modifyFinding hR fun x hx => hg x ?_
    simpa [hx] using hp
  · exact edits_sameFindings hR rfl

theorem edits_addFinding (hR : ∀ f x, R f x x) {y : Finding} : Edits R s (s.addFinding y) := by
  intro f x hx
  refine ⟨x, ?_, hR f x⟩
  rw [finding?_addFinding, if_neg]
  · exact hx
  · rintro rfl
    simp [finding?] at hx

theorem edits_map (g : Finding → Finding) (hg : ∀ f x, R f x (g x)) :
    Edits R s { s with findings := s.findings.map g } := by
  intro f x hx
  refine ⟨g x, ?_, hg f x⟩
  change (s.findings.map g)[f]? = some (g x)
  rw [List.getElem?_map, show s.findings[f]? = some x from hx]
  rfl

theorem Edits.ofModifyJob {i : Nat} {g : Job → Job} (h : Edits R (s.modifyJob i g) s') :
    Edits R s s' := h

/-- A row of the later table is an earlier row, or a new one. -/
theorem Edits.back (h : Edits R s s') {f : Nat} {x' : Finding} (hx' : s'.finding? f = some x') :
    s.finding? f = none ∨ ∃ x, s.finding? f = some x ∧ R f x x' := by
  cases hx : s.finding? f with
  | none => exact Or.inl rfl
  | some x =>
    obtain ⟨y, hy, hxy⟩ := h f x hx
    cases hx'.symm.trans hy
    exact Or.inr ⟨x, rfl, hxy⟩

theorem Edits.status (h : Edits R s s') {f : Nat} {x x' : Finding} (hx : s.finding? f = some x)
    (hx' : s'.finding? f = some x') : R f x x' := by
  obtain ⟨y, hy, hxy⟩ := h f x hx
  cases hx'.symm.trans hy
  exact hxy

end Store

namespace StoreCall

/-- The moves of finding `f`'s status a statement makes. -/
def moves (f : Nat) (source target : FindingStatus) : {β : Type} → StoreCall β → Prop
  | _, .setFindingStatus g status | _, .setAnchoredVerdict g status _ _ => g = f ∧ target = status
  | _, .claimInProgress g src tgt => g = f ∧ source = src ∧ target = tgt
  | _, .setFindingPrOpen g _ => g = f ∧ target = .prOpen
  | _, .blockFixJob g _ _ => g = f ∧ target = .blocked
  | _, .recordClosedHarvest g status _ _ _ => g = f ∧ source = .closed ∧ target = status
  | _, .reopenSuppressed g _ => g = f ∧ source.isSuppressed ∧ target = .new
  | _, .refreshDepUpdate g _ => g = f ∧ source = .superseded ∧ target = .new
  | _, .supersedeUnproposedDepUpdates _ _ _ => source = .new ∧ target = .superseded
  | _, .handOverQueuedDepUpdates _ _ =>
    (source = .new ∨ source = .queued) ∧ (target = .queued ∨ target = .superseded)
  | _, _ => False

/-- Whether a statement may rewrite what finding `f` was reported as. -/
def rewrites (f : Nat) : {β : Type} → StoreCall β → Prop
  | _, .updateFindingAnalysis g _ | _, .reopenSuppressed g _ | _, .refreshDepUpdate g _ => g = f
  | _, _ => False

/-- The statement's effect on finding `f`'s `pr_state` row. -/
def editsPr (f : Nat) (p p' : Option PrState) : {β : Type} → StoreCall β → Prop
  | _, .markPrMerged g n t => g = f ∧ p' = some ((p.getD {}).ended .merged n t)
  | _, .markPrClosed g n t => g = f ∧ p' = some ((p.getD {}).ended .closed n t)
  | _, .syncPrOpen g d => g = f ∧ p' = some ((p.getD {}).synced d)
  | _, .setPrNumber g n => g = f ∧ p' = some ((p.getD {}).forNumber n)
  | _, .markPrEngaged g mark t fp sha => g = f ∧ p' = p.map (PrState.engaged mark t fp sha)
  | _, .setAttentionAside g t => g = f ∧ p' = p.map (PrState.setAside t)
  | _, .setHarvestAttempts g attempts failure =>
    g = f ∧ p' = p.map fun q => { q with
      harvestAttempts := attempts, lastHarvestFailure := failure }
  | _, .markPrHarvested g t | _, .recordClosedHarvest g _ _ _ t =>
    g = f ∧ p' = p.map fun q => { q with harvestedAt := some t }
  | _, _ => False

def links (f : Nat) (url : Option Text) : {β : Type} → StoreCall β → Prop
  | _, .setFindingPrOpen g prUrl => g = f ∧ url = some prUrl
  | _, _ => False

/-- The statement's effect on the anchor of finding `f`'s verdict. -/
def editsAnchor (f : Nat) (x x' : Finding) : {β : Type} → StoreCall β → Prop
  | _, .setAnchoredVerdict g status _ anchor =>
    g = f ∧ x'.anchor = anchor ∧ x'.status = status
  | _, .recordClosedHarvest g status _ anchor _ =>
    g = f ∧ x.status = .closed ∧ x'.anchor = anchor ∧ x'.status = status
  | _, .reopenSuppressed g _ => g = f ∧ x'.anchor = none
  | _, .reconfirmAnchor g _ _ => g = f ∧ x'.anchor.isSome = x.anchor.isSome
  | _, _ => False

/-- The statement's effect on finding `f`'s budget override. -/
def overrides (f : Nat) (mode mode' : Option BudgetOverride) : {β : Type} → StoreCall β → Prop
  | _, .setBudgetOverride g m => g = f ∧ mode' = m
  | _, .handOverQueuedDepUpdates _ _ =>
    (mode.isSome → mode'.isSome) ∧ (mode = some .exempt → mode' = some .exempt)
  | _, _ => False

end StoreCall

/-- How a statement may change a finding's row. -/
structure FindingChange {β : Type} (c : StoreCall β) (f : Nat) (x x' : Finding) : Prop where
  type : x'.type = x.type
  repoId : x'.repoId = x.repoId
  status : x'.status = x.status ∨ c.moves f x.status x'.status
  report : x'.report = x.report ∨ c.rewrites f
  prUrl : x'.prUrl = x.prUrl ∨ c.links f x'.prUrl
  prState : x'.prState = x.prState ∨ c.editsPr f x.prState x'.prState
  anchor : x'.anchor = x.anchor ∨ c.editsAnchor f x x'
  override : x'.budgetOverride = x.budgetOverride ∨
    c.overrides f x.budgetOverride x'.budgetOverride

namespace FindingChange
variable {β : Type} {c : StoreCall β}

theorem refl (c : StoreCall β) (f : Nat) (x : Finding) : FindingChange c f x x :=
  ⟨rfl, rfl, Or.inl rfl, Or.inl rfl, Or.inl rfl, Or.inl rfl, Or.inl rfl, Or.inl rfl⟩

variable {f : Nat} {x x' : Finding}

theorem ofStatus (ht : x'.type = x.type) (hr : x'.repoId = x.repoId)
    (hreport : x'.report = x.report) (hurl : x'.prUrl = x.prUrl) (hpr : x'.prState = x.prState)
    (hanchor : x'.anchor = x.anchor) (hoverride : x'.budgetOverride = x.budgetOverride)
    (hstatus : c.moves f x.status x'.status) : FindingChange c f x x' :=
  ⟨ht, hr, Or.inr hstatus, Or.inl hreport, Or.inl hurl, Or.inl hpr, Or.inl hanchor,
    Or.inl hoverride⟩

theorem ofPr (ht : x'.type = x.type) (hr : x'.repoId = x.repoId) (hs : x'.status = x.status)
    (hreport : x'.report = x.report) (hurl : x'.prUrl = x.prUrl) (hanchor : x'.anchor = x.anchor)
    (hoverride : x'.budgetOverride = x.budgetOverride) (hpr : c.editsPr f x.prState x'.prState) :
    FindingChange c f x x' :=
  ⟨ht, hr, Or.inl hs, Or.inl hreport, Or.inl hurl, Or.inr hpr, Or.inl hanchor,
    Or.inl hoverride⟩

end FindingChange

namespace Store
variable {s : Store} {repoId : Nat} {moves : List ProposedMove}

theorem handOverChange_trans (f : Nat) (x y z : Finding)
    (hxy : FindingChange (.handOverQueuedDepUpdates repoId moves) f x y)
    (hyz : FindingChange (.handOverQueuedDepUpdates repoId moves) f y z) :
    FindingChange (.handOverQueuedDepUpdates repoId moves) f x z where
  type := hyz.type.trans hxy.type
  repoId := hyz.repoId.trans hxy.repoId
  report := Or.inl ((hyz.report.resolve_right id).trans (hxy.report.resolve_right id))
  prUrl := Or.inl ((hyz.prUrl.resolve_right id).trans (hxy.prUrl.resolve_right id))
  prState := Or.inl ((hyz.prState.resolve_right id).trans (hxy.prState.resolve_right id))
  anchor := Or.inl ((hyz.anchor.resolve_right id).trans (hxy.anchor.resolve_right id))
  status := by
    rcases hxy.status with hxy | hxy
    · rw [← hxy]
      exact hyz.status
    · rcases hyz.status with hyz | hyz
      · rw [hyz]
        exact Or.inr hxy
      · exact Or.inr ⟨hxy.1, hyz.2⟩
  override := by
    rcases hxy.override with hxy | hxy
    · rw [← hxy]
      exact hyz.override
    · rcases hyz.override with hyz | hyz
      · rw [hyz]
        exact Or.inr hxy
      · exact Or.inr ⟨hyz.1 ∘ hxy.1, hyz.2 ∘ hxy.2⟩

theorem edits_handOver {acc : Store × Nat} {pair : Nat × Nat} :
    Edits (FindingChange (.handOverQueuedDepUpdates repoId moves)) acc.1
      (Store.handOver acc pair).1 := by
  have hrefl := FindingChange.refl (.handOverQueuedDepUpdates repoId moves)
  unfold handOver
  dsimp only
  split
  · refine Edits.trans handOverChange_trans (edits_updateFindingIf hrefl fun x hx => ?_)
      (edits_updateFindingIf hrefl fun x hx => ?_)
    · exact .ofStatus rfl rfl rfl rfl rfl rfl rfl ⟨Or.inr (by simpa using hx), Or.inr rfl⟩
    · exact ⟨rfl, rfl, Or.inr ⟨by simpa using hx, Or.inl rfl⟩, Or.inl rfl, Or.inl rfl,
        Or.inl rfl, Or.inl rfl, Or.inr Finding.strongerOverride_own⟩
  · exact edits_sameFindings hrefl rfl

theorem edits_foldl_handOver {pairs : List (Nat × Nat)} {acc : Store × Nat} :
    Edits (FindingChange (.handOverQueuedDepUpdates repoId moves)) acc.1
      (pairs.foldl Store.handOver acc).1 := by
  induction pairs generalizing acc with
  | nil => exact edits_sameFindings (FindingChange.refl _) rfl
  | cons pair rest ih => exact edits_handOver.trans handOverChange_trans ih

theorem edits_handOverQueuedDepUpdates :
    Edits (FindingChange (.handOverQueuedDepUpdates repoId moves)) s
      (s.handOverQueuedDepUpdates repoId moves).1 :=
  fun f x hx => edits_foldl_handOver f x hx

theorem edits_recordClosedHarvest {id : Nat} {status : FindingStatus} {reason : Text}
    {anchor : Option VerdictAnchor} {t : Int} :
    Edits (FindingChange (.recordClosedHarvest id status reason anchor t)) s
      (s.recordClosedHarvest id status reason anchor t).1 := by
  intro f x hx
  have hclassify : Edits (fun f x y => y = x ∨
      f = id ∧ x.status = .closed ∧ y = x.setVerdict status reason anchor) s
      (s.updateFindingIf id (fun f => f.status = .closed)
        (Finding.setVerdict status reason anchor)).1 :=
    edits_updateFindingIf (fun _ _ => Or.inl rfl) fun x hx => Or.inr ⟨rfl, by simpa using hx, rfl⟩
  obtain ⟨y, hy, hxy⟩ := hclassify f x hx
  have hstamp : Edits (fun f y z => z = y ∨
      f = id ∧ z = y.updatePr fun p => { p with harvestedAt := some t })
      (s.updateFindingIf id (fun f => f.status = .closed)
        (Finding.setVerdict status reason anchor)).1
      (s.recordClosedHarvest id status reason anchor t).1 :=
    edits_modifyFinding (fun _ _ => Or.inl rfl) fun _ _ => Or.inr ⟨rfl, rfl⟩
  obtain ⟨z, hz, hyz⟩ := hstamp f y hy
  refine ⟨z, hz, ?_⟩
  rcases hxy with rfl | ⟨rfl, hclosed, rfl⟩
  · rcases hyz with rfl | ⟨rfl, rfl⟩
    · exact .refl _ _ _
    · exact .ofPr rfl rfl rfl rfl rfl rfl rfl ⟨rfl, rfl⟩
  · rcases hyz with rfl | ⟨-, rfl⟩
    · exact ⟨rfl, rfl, Or.inr ⟨rfl, hclosed, rfl⟩, Or.inl rfl, Or.inl rfl, Or.inl rfl,
        Or.inr ⟨rfl, hclosed, rfl, rfl⟩, Or.inl rfl⟩
    · exact ⟨rfl, rfl, Or.inr ⟨rfl, hclosed, rfl⟩, Or.inl rfl, Or.inl rfl, Or.inr ⟨rfl, rfl⟩,
        Or.inr ⟨rfl, hclosed, rfl, rfl⟩, Or.inl rfl⟩

theorem findings_retireAll {ids : List Nat} {state : JobState} {why : Text} :
    (s.retireAll ids state why).findings = s.findings := by
  unfold retireAll
  induction ids generalizing s with
  | nil => rfl
  | cons id rest ih => exact ih

theorem createJob_findings {kind : JobKind} {findingId resumedFrom : Option Nat}
    {state : JobState} {s' : Store} {created : CreatedJob}
    (h : s.createJob kind repoId findingId state resumedFrom = some (s', created)) :
    s'.findings = s.findings := by
  unfold createJob at h
  split at h
  · cases resumedFrom with
    | some p =>
      cases h
      rfl
    | none =>
      cases h
      exact findings_retireAll
  · cases h

end Store

open Store in
/-- A statement keeps every finding, and changes it in its own way only. -/
theorem StoreCall.edits {β : Type} {c : StoreCall β} {s s' : Store} {b : β}
    (h : c.apply s = some (b, s')) : Edits (FindingChange c) s s' := by
  have hrefl := FindingChange.refl c
  cases c with
  | createJob kind repoId findingId state resumedFrom =>
    simp only [apply] at h
    split at h
    · rename_i hcreate
      cases h
      exact edits_sameFindings hrefl (createJob_findings hcreate)
    · cases h
      exact edits_sameFindings hrefl rfl
  | retireStrandedSuspensions =>
    cases h
    exact edits_sameFindings hrefl findings_retireAll
  | blockFixJob f id reason =>
    simp only [apply, Option.map_eq_some_iff, Store.blockFixJob] at h
    obtain ⟨t, ht, hts⟩ := h
    cases hts
    split at ht
    · split at ht
      · cases ht
        refine Edits.ofModifyJob (edits_modifyFinding hrefl fun x _ => ?_)
        exact .ofStatus rfl rfl rfl rfl rfl rfl rfl ⟨rfl, rfl⟩
      · cases ht
    · cases ht
  | setFindingStatus f status =>
    cases h
    exact edits_modifyFinding hrefl fun x _ => .ofStatus rfl rfl rfl rfl rfl rfl rfl ⟨rfl, rfl⟩
  | setAnchoredVerdict f status reason anchor =>
    cases h
    exact edits_modifyFinding hrefl fun x _ =>
      ⟨rfl, rfl, Or.inr ⟨rfl, rfl⟩, Or.inl rfl, Or.inl rfl, Or.inl rfl, Or.inr ⟨rfl, rfl, rfl⟩,
        Or.inl rfl⟩
  | claimInProgress f source target =>
    cases h
    exact edits_updateFindingIf hrefl fun x hx =>
      .ofStatus rfl rfl rfl rfl rfl rfl rfl ⟨rfl, by simpa using hx, rfl⟩
  | setFindingPrOpen f url =>
    cases h
    exact edits_modifyFinding hrefl fun x _ =>
      ⟨rfl, rfl, Or.inr ⟨rfl, rfl⟩, Or.inl rfl, Or.inr ⟨rfl, rfl⟩, Or.inl rfl, Or.inl rfl,
        Or.inl rfl⟩
  | updateFindingAnalysis f fields =>
    cases h
    exact edits_modifyFinding hrefl fun x _ =>
      ⟨rfl, rfl, Or.inl rfl, Or.inr rfl, Or.inl rfl, Or.inl rfl, Or.inl rfl, Or.inl rfl⟩
  | setBudgetOverride =>
    cases h
    exact edits_modifyFinding hrefl fun x _ =>
      ⟨rfl, rfl, Or.inl rfl, Or.inl rfl, Or.inl rfl, Or.inl rfl, Or.inl rfl, Or.inr ⟨rfl, rfl⟩⟩
  | setFixAttempts | setRecheckAttempts =>
    cases h
    exact edits_modifyFinding hrefl fun x _ =>
      ⟨rfl, rfl, Or.inl rfl, Or.inl rfl, Or.inl rfl, Or.inl rfl, Or.inl rfl, Or.inl rfl⟩
  | setHarvestAttempts | markPrMerged | markPrClosed | syncPrOpen | markPrEngaged
  | setAttentionAside | markPrHarvested | setPrNumber =>
    cases h
    exact edits_modifyFinding hrefl fun x _ => .ofPr rfl rfl rfl rfl rfl rfl rfl ⟨rfl, rfl⟩
  | recordClosedHarvest f status reason anchor t =>
    cases h
    exact edits_recordClosedHarvest
  | upsertFinding repoId row type =>
    simp only [apply, Option.some.injEq, Prod.mk.injEq] at h
    obtain ⟨-, rfl⟩ := h
    unfold Store.upsertFinding
    split
    · exact edits_sameFindings hrefl rfl
    · exact edits_addFinding hrefl
  | reopenSuppressed f row =>
    cases h
    exact edits_updateFindingIf hrefl fun x hx =>
      ⟨rfl, rfl, Or.inr ⟨rfl, hx, rfl⟩, Or.inr rfl, Or.inl rfl, Or.inl rfl, Or.inr ⟨rfl, rfl⟩,
        Or.inl rfl⟩
  | refreshDepUpdate f row =>
    cases h
    refine edits_updateFindingIf hrefl fun x hx =>
      ⟨rfl, rfl, ?_, Or.inr rfl, Or.inl rfl, Or.inl rfl, Or.inl rfl, Or.inl rfl⟩
    simp only [Finding.refreshDep]
    split
    · rename_i hs
      exact Or.inr ⟨rfl, hs, rfl⟩
    · exact Or.inl rfl
  | reconfirmAnchor f sha holdsWhile =>
    cases h
    exact edits_updateFindingIf hrefl fun x _ =>
      ⟨rfl, rfl, Or.inl rfl, Or.inl rfl, Or.inl rfl, Or.inl rfl, Or.inr ⟨rfl, by simp⟩,
        Or.inl rfl⟩
  | supersedeUnproposedDepUpdates repoId proposed unchecked =>
    cases h
    refine edits_map _ fun f x => ?_
    split
    · rename_i hx
      have hnew : x.status = .new := by
        simp only [unproposed, Bool.and_eq_true, decide_eq_true_eq] at hx
        exact hx.1.1.2
      exact .ofStatus rfl rfl rfl rfl rfl rfl rfl ⟨hnew, rfl⟩
    · exact hrefl f x
  | handOverQueuedDepUpdates repoId moves =>
    cases h
    exact edits_handOverQueuedDepUpdates
  | forgetDeletedRepo =>
    cases h
    exact edits_sameFindings hrefl findings_forgetDeletedRepo
  | _ =>
    cases h
    exact edits_sameFindings hrefl rfl

namespace Store
variable {s : Store}

@[simp] theorem length_modifyFinding {i : Nat} {g : Finding → Finding} :
    (s.modifyFinding i g).findings.length = s.findings.length := by
  simp [modifyFinding]

@[simp] theorem length_updateFindingIf {i : Nat} {p : Finding → Bool} {g : Finding → Finding} :
    (s.updateFindingIf i p g).1.findings.length = s.findings.length := by
  unfold updateFindingIf
  split <;> simp

theorem length_handOver {acc : Store × Nat} {pair : Nat × Nat} :
    (Store.handOver acc pair).1.findings.length = acc.1.findings.length := by
  unfold handOver
  dsimp only
  split <;> simp

theorem length_foldl_handOver {pairs : List (Nat × Nat)} {acc : Store × Nat} :
    (pairs.foldl Store.handOver acc).1.findings.length = acc.1.findings.length := by
  induction pairs generalizing acc with
  | nil => rfl
  | cons pair rest ih => exact ih.trans length_handOver

end Store

def StoreCall.files : {β : Type} → StoreCall β → Option Finding
  | _, .upsertFinding repoId row type =>
    some { type := type, repoId := repoId, report := row, status := .new }
  | _, _ => none

open Store in
theorem StoreCall.filed {β : Type} {c : StoreCall β} {s s' : Store} {b : β}
    (h : c.apply s = some (b, s')) :
    s'.findings.length = s.findings.length ∨ ∃ y, c.files = some y ∧ s' = s.addFinding y := by
  cases c with
  | upsertFinding repoId row type =>
    simp only [apply, Option.some.injEq, Prod.mk.injEq] at h
    obtain ⟨-, rfl⟩ := h
    unfold Store.upsertFinding
    split
    · exact Or.inl rfl
    · exact Or.inr ⟨_, rfl, rfl⟩
  | createJob kind repoId findingId state resumedFrom =>
    simp only [apply] at h
    split at h
    · rename_i hcreate
      cases h
      exact Or.inl (congrArg List.length (createJob_findings hcreate))
    · cases h
      exact Or.inl rfl
  | retireStrandedSuspensions =>
    cases h
    exact Or.inl (congrArg List.length findings_retireAll)
  | blockFixJob f id reason =>
    simp only [apply, Option.map_eq_some_iff, Store.blockFixJob] at h
    obtain ⟨t, ht, hts⟩ := h
    cases hts
    split at ht
    · split at ht
      · cases ht
        exact Or.inl (by simp)
      · cases ht
    · cases ht
  | supersedeUnproposedDepUpdates =>
    cases h
    exact Or.inl (by simp [Store.supersedeUnproposedDepUpdates])
  | handOverQueuedDepUpdates =>
    cases h
    exact Or.inl length_foldl_handOver
  | claimInProgress | recordClosedHarvest | reopenSuppressed | refreshDepUpdate
  | reconfirmAnchor =>
    cases h
    exact Or.inl (by simp [Store.claimInProgress, Store.recordClosedHarvest,
      Store.markPrHarvested, Store.reopenSuppressed, Store.refreshDepUpdate,
      Store.reconfirmAnchor])
  | markFullHistory | setLastHunt | clearLastHuntSha | setLastFullHunt | markFullHuntAttempted
  | settleFullHuntRequest =>
    cases h
    exact Or.inl rfl
  | forgetDeletedRepo =>
    cases h
    exact Or.inl (by simp)
  | _ =>
    cases h
    exact Or.inl (by simp [Store.setFindingStatus, Store.setAnchoredVerdict,
      Store.setFindingPrOpen, Store.setBudgetOverride, Store.updateFindingAnalysis,
      Store.setFixAttempts, Store.setRecheckAttempts, Store.setHarvestAttempts,
      Store.markPrMerged, Store.markPrClosed, Store.markPrEnded, Store.syncPrOpen,
      Store.markPrEngaged, Store.setAttentionAside, Store.markPrHarvested, Store.setPrNumber,
      Store.failUnstartedJob, Store.setPinnedSha, Store.completeJob, Store.failJob,
      Store.suspendOrphan, Store.orphanJob, Store.retireJob])

/-- What a statement leaves a row as: what it was, changed its way, or a new finding. -/
theorem StoreCall.finding_cases {β : Type} {c : StoreCall β} {s s' : Store} {b : β} {f : Nat}
    {x' : Finding} (h : c.apply s = some (b, s')) (hx' : s'.finding? f = some x') :
    (∃ x, s.finding? f = some x ∧ FindingChange c f x x') ∨
      s.finding? f = none ∧ c.files = some x' := by
  rcases (StoreCall.edits h).back hx' with hnone | hx
  · refine Or.inr ⟨hnone, ?_⟩
    have hge : s.findings.length ≤ f := by simpa [Store.finding?] using hnone
    rcases StoreCall.filed h with hlen | ⟨y, hy, rfl⟩
    · have hlt : f < s'.findings.length := by
        simp only [Store.finding?, List.getElem?_eq_some_iff] at hx'
        exact hx'.1
      omega
    · rw [Store.finding?_addFinding] at hx'
      split at hx'
      · rw [hy, hx']
      · rw [hnone] at hx'
        cases hx'
  · exact Or.inl hx

/-- What a statement leaves of a finding's `pr_state` row. -/
theorem StoreCall.prRow_cases {β : Type} {c : StoreCall β} {s s' : Store} {b : β}
    (h : c.apply s = some (b, s')) (f : Nat) :
    s'.prRow f = s.prRow f ∨ c.editsPr f (s.prRow f) (s'.prRow f) := by
  simp only [Store.prRow]
  cases hx : s.finding? f with
  | some x =>
    obtain ⟨x', hx', hchange⟩ := StoreCall.edits h f x hx
    simpa [hx'] using hchange.prState
  | none =>
    cases hx' : s'.finding? f with
    | none => exact Or.inl rfl
    | some x' =>
      rcases StoreCall.finding_cases h hx' with ⟨x, hx2, -⟩ | ⟨-, hfiled⟩
      · cases hx.symm.trans hx2
      · cases c <;> first | (cases hfiled; exact Or.inl rfl) | cases hfiled

end Hunter
