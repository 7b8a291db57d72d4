import Hunter.Alone
import Hunter.Scheduler.PullRequests
set_option autoImplicit false

namespace Hunter
open Effect

/-! What a sync decides about an open pull request. -/

def PrView.hasStaticReason (pr : PrView) : Bool :=
  pr.changesRequested || pr.conflicting || !pr.failingChecks.isEmpty

theorem attentionFingerprint_isSome (pr : PrView) :
    (attentionFingerprint pr).isSome = pr.hasStaticReason := by
  unfold attentionFingerprint PrView.hasStaticReason
  cases pr.changesRequested <;> cases pr.conflicting <;> cases pr.failingChecks <;> rfl

/-- The flag is raised for new activity, or for a static reason that is not suppressed. -/
theorem attention_isSome_iff (prev : Option PrState) (pr : PrView) :
    (attention prev pr).isSome = true ↔
      engagedWatermark prev pr < latestActivity pr ∨
        pr.hasStaticReason = true ∧ suppressed prev pr = false := by
  unfold attention attentionReasons PrView.hasStaticReason
  by_cases hnew : engagedWatermark prev pr < latestActivity pr <;>
    cases suppressed prev pr <;> cases pr.changesRequested <;> cases pr.conflicting <;>
    cases pr.failingChecks <;> simp [hnew]

namespace PrState

def addressed (p : PrState) : Option (Text × Text) :=
  match p.addressedFingerprint, p.addressedHeadSha with
  | some fp, some sha => some (fp, sha)
  | _, _ => none

theorem addressed_eq_some {p : PrState} {pair : Text × Text} :
    p.addressed = some pair ↔
      p.addressedFingerprint = some pair.1 ∧ p.addressedHeadSha = some pair.2 := by
  unfold addressed
  obtain ⟨fp, sha⟩ := pair
  cases p.addressedFingerprint <;> cases p.addressedHeadSha <;> simp

end PrState

def PrView.shows (pr : PrView) (pair : Text × Text) : Prop :=
  attentionFingerprint pr = some pair.1 ∧ pr.headSha = pair.2

theorem suppressed_iff_shows (p : PrState) (pr : PrView) :
    suppressed (some p) pr = true ↔ ∃ pair, p.addressed = some pair ∧ pr.shows pair := by
  simp only [suppressed, Option.bind_some, PrState.addressed_eq_some, PrView.shows,
    Bool.and_eq_true, decide_eq_true_eq]
  constructor
  · rintro ⟨⟨⟨hfp, hsame⟩, hsha⟩, hhead⟩
    obtain ⟨fp, hfp⟩ := Option.isSome_iff_exists.1 hfp
    exact ⟨(fp, pr.headSha), ⟨hsame.symm.trans hfp, hhead.symm⟩, hfp, rfl⟩
  · rintro ⟨pair, ⟨hfp, hsha⟩, hview, hhead⟩
    simp [hfp, hsha, hview, hhead]

/-- The row an open PR's sync writes over the one it has read. -/
def PrState.afterSync (p : PrState) (pr : PrView) (prNumber since syncedAt : Int) : PrState :=
  p.synced (syncData (some p) pr prNumber since syncedAt)

section
variable {p : PrState} {pr : PrView} {prNumber since syncedAt : Int}

theorem needsAttention_synced {d : SyncPrData} :
    (p.synced d).needsAttention = d.needsAttention := by
  unfold PrState.synced
  dsimp only
  split <;> rfl

theorem lastEngagedActivityAt_synced {d : SyncPrData} :
    (p.synced d).lastEngagedActivityAt = some d.lastEngagedActivityAt := by
  unfold PrState.synced
  dsimp only
  split <;> rfl

theorem addressedFingerprint_forNumber :
    (p.forNumber prNumber).addressedFingerprint = p.addressedFingerprint := by
  unfold PrState.forNumber
  split <;> rfl

theorem addressedHeadSha_forNumber :
    (p.forNumber prNumber).addressedHeadSha = p.addressedHeadSha := by
  unfold PrState.forNumber
  split <;> rfl

/-- The addressed pair stays for as long as the views show it, and is cleared by the first that
does not. -/
theorem addressed_afterSync {pair : Text × Text} :
    (p.afterSync pr prNumber since syncedAt).addressed = some pair ↔
      p.addressed = some pair ∧ pr.shows pair := by
  have hclear : ∀ d : SyncPrData,
      (p.synced d).addressed = if d.clearAddressed then none else p.addressed := by
    intro d
    unfold PrState.synced
    dsimp only
    split
    · rfl
    · simp only [PrState.addressed, addressedFingerprint_forNumber, addressedHeadSha_forNumber]
  rw [PrState.afterSync, hclear]
  constructor
  · intro h
    obtain ⟨hkeep, h⟩ := Option.ite_none_left_eq_some.1 h
    obtain ⟨hfp, hsha⟩ := PrState.addressed_eq_some.1 h
    refine ⟨h, ?_⟩
    simp only [syncData, Option.bind_some, hfp, hsha, Option.isSome_some, Bool.true_and,
      Bool.or_eq_true, decide_eq_true_eq, not_or, not_not] at hkeep
    exact ⟨hkeep.1, Option.some.inj hkeep.2⟩
  · rintro ⟨h, hview, hhead⟩
    obtain ⟨hfp, hsha⟩ := PrState.addressed_eq_some.1 h
    refine Option.ite_none_left_eq_some.2 ⟨?_, h⟩
    simp [syncData, hfp, hsha, hview, hhead]

theorem lastEngagedActivityAt_afterSync {mark : Int} (h : p.lastEngagedActivityAt = some mark) :
    (p.afterSync pr prNumber since syncedAt).lastEngagedActivityAt = some mark := by
  simp [PrState.afterSync, lastEngagedActivityAt_synced, syncData, engagedWatermark, h]

end

section
variable {fid : Nat} {prNumber : Int} {pr : PrView} {w w' : World} {p : PrState}

def Store.afterSync (s : Store) (fid : Nat) (pr : PrView) (prNumber since syncedAt : Int) :
    Store :=
  s.syncPrOpen fid (syncData (s.prRow fid) pr prNumber since syncedAt)

theorem endsAlone_syncOpen :
    EndsAlone (syncOpen fid prNumber pr) w () w' ↔
      ∃ since syncedAt,
        w' = { w with store := w.store.afterSync fid pr prNumber since syncedAt } := by
  simp [syncOpen, sqlResult, Hunter.ask, logWriteFailure, Prog.ask, StoreCall.apply,
    Store.afterSync]

theorem syncOpen_ends (w : World) (fid : Nat) (pr : PrView) (prNumber since syncedAt : Int) :
    EndsAlone (syncOpen fid prNumber pr) w ()
      { w with store := w.store.afterSync fid pr prNumber since syncedAt } :=
  endsAlone_syncOpen.2 ⟨since, syncedAt, rfl⟩

theorem prRow_afterSync {since syncedAt : Int} (hp : w.store.prRow fid = some p) :
    (w.store.afterSync fid pr prNumber since syncedAt).prRow fid =
      some (p.afterSync pr prNumber since syncedAt) := by
  rw [Store.afterSync, hp]
  obtain ⟨f, hf, hrow⟩ := Option.bind_eq_some_iff.1 hp
  simp [Store.syncPrOpen, Store.prRow, hf, Finding.upsertPr, hrow, PrState.afterSync]

/-- The views an open pull request is synced at, one after the other. -/
inductive Syncs (fid : Nat) : World → List PrView → World → Prop
  | start {w : World} : Syncs fid w [] w
  | sync {w v u : World} {views : List PrView} {pr : PrView} {prNumber : Int} :
      Syncs fid w views v → EndsAlone (syncOpen fid prNumber pr) v () u →
      Syncs fid w (views ++ [pr]) u

theorem Syncs.keeps {views : List PrView} {mark : Int} (h : Syncs fid w views w')
    (hp : w.store.prRow fid = some p) (hmark : p.lastEngagedActivityAt = some mark) :
    ∃ q, w'.store.prRow fid = some q ∧ q.lastEngagedActivityAt = some mark ∧
      ∀ pair, q.addressed = some pair ↔
        p.addressed = some pair ∧ ∀ view ∈ views, view.shows pair := by
  induction h with
  | start => exact ⟨p, hp, hmark, by simp⟩
  | sync _ hsync ih =>
    obtain ⟨q, hq, hmark', haddressed⟩ := ih
    obtain ⟨since, syncedAt, rfl⟩ := endsAlone_syncOpen.1 hsync
    refine ⟨_, prRow_afterSync hq, lastEngagedActivityAt_afterSync hmark', fun pair => ?_⟩
    · rw [addressed_afterSync, haddressed]
      simp only [List.mem_append, List.mem_singleton, or_imp, forall_and, forall_eq]
      tauto

/-- A row as `mark_pr_engaged` or `set_attention_aside` leaves it. -/
inductive Handled : PrState → Prop
  | engaged (p : PrState) (mark syncedAt : Int) (fingerprint headSha : Option Text) :
      Handled (p.engaged mark syncedAt fingerprint headSha)
  | setAside (p : PrState) (now : Int) : Handled (p.setAside now)

theorem Handled.mark (h : Handled p) : ∃ mark, p.lastEngagedActivityAt = some mark := by
  cases h with
  | engaged p mark => exact ⟨mark, rfl⟩
  | setAside p now =>
    cases hlast : p.lastActivityAt with
    | none => exact ⟨now, by simp [PrState.setAside, hlast]⟩
    | some mark => exact ⟨mark, by simp [PrState.setAside, hlast]⟩

/-- After a pull request was handled, a sync flags it for activity past the watermark, and for
its static reasons unless every view so far has shown what was addressed. -/
theorem attention_levelExact {v : World} {views : List PrView}
    (hp : w.store.prRow fid = some p) (hhandled : Handled p) (hsyncs : Syncs fid w views v)
    (hsync : EndsAlone (syncOpen fid prNumber pr) v () w') :
    ∃ q mark, w'.store.prRow fid = some q ∧ p.lastEngagedActivityAt = some mark ∧
      (q.needsAttention.isSome = true ↔
        mark < latestActivity pr ∨
          pr.hasStaticReason = true ∧
            ∀ pair, p.addressed = some pair → ∃ view ∈ views ++ [pr], ¬ view.shows pair) := by
  obtain ⟨mark, hmark⟩ := hhandled.mark
  obtain ⟨q, hq, hqmark, haddressed⟩ := hsyncs.keeps hp hmark
  obtain ⟨since, syncedAt, rfl⟩ := endsAlone_syncOpen.1 hsync
  refine ⟨_, mark, prRow_afterSync hq, hmark, ?_⟩
  · have hwatermark : engagedWatermark (some q) pr = mark := by
      simp [engagedWatermark, hqmark]
    have hsuppressed : suppressed (some q) pr = false ↔
        ∀ pair, p.addressed = some pair → ∃ view ∈ views ++ [pr], ¬ view.shows pair := by
      rw [← Bool.not_eq_true, suppressed_iff_shows, not_exists]
      refine forall_congr' fun pair => ?_
      rw [haddressed]
      simp only [List.mem_append, List.mem_singleton, not_and]
      constructor
      · intro h hpair
        by_contra hnone
        push Not at hnone
        exact h ⟨hpair, fun view hview => hnone view (Or.inl hview)⟩ (hnone pr (Or.inr rfl))
      · rintro h ⟨hpair, hviews⟩ hpr
        obtain ⟨view, hview | rfl, hnot⟩ := h hpair
        · exact hnot (hviews view hview)
        · exact hnot hpr
    rw [PrState.afterSync, needsAttention_synced, syncData, attention_isSome_iff, hwatermark,
      hsuppressed]

end

def calmView (headSha : Text) (updatedAt : Int) : PrView where
  state := .opened
  headRef := some "fix/leak-0".toList
  headSha := headSha
  updatedAt := updatedAt
  comments := []
  reviews := []
  changesRequested := false
  conflicting := false
  failingChecks := []

def conflictView (headSha : Text) (updatedAt : Int) : PrView :=
  { calmView headSha updatedAt with conflicting := true }

def prFinding (prState : Option PrState) : Finding where
  type := .bug
  repoId := 0
  report := {
    fingerprint := "leak".toList, file := "a.rs".toList, symbol := none, line := none
    severity := .high, confidence := 1, summary := "leak".toList, detail := none
    evidencePlan := none, ecosystem := none, package := none, currentVersion := none
    latestVersion := none, updateType := none, securityAdvisory := none }
  status := .prOpen
  prState := prState

def prWorld (prState : Option PrState) : World where
  store := { repos := [], findings := [prFinding prState], jobs := [] }
  trees := []

def declinedRow : PrState :=
  ({} : PrState).engaged 100 110 (some "mergeable:CONFLICTING".toList) (some "a1".toList)

/-- The conflict stays silent, and is flagged again after a push. -/
theorem attention_levelExact_declined :
    ∃ v w q mark, Syncs 0 (prWorld (some declinedRow)) [conflictView "a1".toList 90] v ∧
      EndsAlone (syncOpen 0 7 (conflictView "b2".toList 95)) v () w ∧
      w.store.prRow 0 = some q ∧ declinedRow.lastEngagedActivityAt = some mark ∧
      q.needsAttention.isSome = true := by
  have hsyncs := Syncs.start.sync
    (syncOpen_ends (prWorld (some declinedRow)) 0 (conflictView "a1".toList 90) 7 120 120)
  obtain ⟨q, mark, hq, hmark, hiff⟩ := attention_levelExact rfl
    (.engaged {} 100 110 (some "mergeable:CONFLICTING".toList) (some "a1".toList)) hsyncs
    (syncOpen_ends _ 0 (conflictView "b2".toList 95) 7 130 130)
  refine ⟨_, _, q, mark, hsyncs, syncOpen_ends _ 0 _ 7 130 130, hq, hmark,
    hiff.2 (Or.inr ⟨rfl, fun pair hpair => ?_⟩)⟩
  cases hpair
  exact ⟨conflictView "b2".toList 95, by simp, by simp [PrView.shows, conflictView, calmView]⟩

def Store.withoutPr (s : Store) (fid : Nat) : Store :=
  s.modifyFinding fid fun f => { f with prState := none }

def Store.decision (s : Store) (fid : Nat) : Option (Option Text × Option Int) :=
  (s.prRow fid).map fun p => (p.needsAttention, p.lastEngagedActivityAt)

/-- A sync of this pull request decides what it would for a finding without an earlier one. -/
def CleanSlate (fid : Nat) (prNumber : Int) (pr : PrView) (w : World) : Prop :=
  ∀ v v', EndsAlone (syncOpen fid prNumber pr) w () v →
    EndsAlone (syncOpen fid prNumber pr) { w with store := w.store.withoutPr fid } () v' →
    v.store.decision fid = v'.store.decision fid

def PrView.baseline (pr : PrView) : Int := max pr.updatedAt (latestActivity pr)

section
variable {fid : Nat} {prNumber : Int} {pr : PrView} {w : World} {p : PrState} {since syncedAt : Int}

theorem decision_afterSync (hp : w.store.prRow fid = some p) :
    (w.store.afterSync fid pr prNumber since syncedAt).decision fid =
      some (attention (some p) pr, some (engagedWatermark (some p) pr)) := by
  rw [Store.decision, prRow_afterSync hp]
  simp [PrState.afterSync, needsAttention_synced, lastEngagedActivityAt_synced, syncData]

theorem decision_first (hp : w.store.prRow fid = some p) :
    ((w.store.withoutPr fid).afterSync fid pr prNumber since syncedAt).decision fid =
      some (attention none pr, some pr.baseline) := by
  obtain ⟨f, hf, -⟩ := Option.bind_eq_some_iff.1 hp
  have hnone : (w.store.withoutPr fid).prRow fid = none := by
    simp [Store.withoutPr, Store.prRow, hf]
  rw [Store.afterSync, hnone]
  simp [Store.decision, Store.withoutPr, Store.syncPrOpen, Store.prRow, hf, Finding.upsertPr,
    needsAttention_synced, lastEngagedActivityAt_synced, syncData, engagedWatermark,
    PrView.baseline]

theorem attention_eq_of_unsuppressed (hmark : engagedWatermark (some p) pr = pr.baseline)
    (hsuppressed : suppressed (some p) pr = false) : attention (some p) pr = attention none pr := by
  have hnone : suppressed none pr = false := by
    unfold suppressed
    cases attentionFingerprint pr <;> simp
  have hfirst : engagedWatermark none pr = pr.baseline := rfl
  simp only [attention, attentionReasons, hmark, hfirst, hsuppressed, hnone]

/-- A new pull request starts clean exactly where no watermark is left but the one it would get,
and it does not show what was addressed of the earlier one. -/
theorem cleanSlate_iff (hp : w.store.prRow fid = some p) :
    CleanSlate fid prNumber pr w ↔
      (∀ mark, p.lastEngagedActivityAt = some mark → mark = pr.baseline) ∧
        ∀ pair, p.addressed = some pair → ¬ pr.shows pair := by
  have hunsuppressed : (∀ pair, p.addressed = some pair → ¬ pr.shows pair) ↔
      suppressed (some p) pr = false := by
    rw [← Bool.not_eq_true, suppressed_iff_shows]
    simp only [not_exists, not_and]
  have hwatermark : (∀ mark, p.lastEngagedActivityAt = some mark → mark = pr.baseline) ↔
      engagedWatermark (some p) pr = pr.baseline := by
    unfold engagedWatermark PrView.baseline
    cases hmark : p.lastEngagedActivityAt <;> simp [hmark]
  rw [hunsuppressed, hwatermark]
  constructor
  · intro hclean
    have h := hclean _ _ (syncOpen_ends w fid pr prNumber 0 0)
      (syncOpen_ends _ fid pr prNumber 0 0)
    rw [decision_afterSync hp, decision_first hp] at h
    simp only [Option.some.injEq, Prod.mk.injEq] at h
    obtain ⟨hattention, hmark⟩ := h
    refine ⟨hmark, ?_⟩
    by_contra hsuppressed
    rw [Bool.not_eq_false] at hsuppressed
    obtain ⟨pair, -, hview, -⟩ := (suppressed_iff_shows p pr).1 hsuppressed
    have hstatic : pr.hasStaticReason = true := by
      rw [← attentionFingerprint_isSome, hview]
      rfl
    have hfirst : (attention none pr).isSome = true :=
      (attention_isSome_iff none pr).2 (Or.inr ⟨hstatic, by simp [suppressed]⟩)
    rw [← hattention, attention_isSome_iff, hmark, hsuppressed, PrView.baseline] at hfirst
    rcases hfirst with hnew | ⟨-, hfalse⟩
    · exact absurd hnew (not_lt.2 (le_max_right _ _))
    · cases hfalse
  · rintro ⟨hmark, hsuppressed⟩ v v' hv hv'
    obtain ⟨since, syncedAt, rfl⟩ := endsAlone_syncOpen.1 hv
    obtain ⟨since', syncedAt', rfl⟩ := endsAlone_syncOpen.1 hv'
    rw [decision_afterSync hp, decision_first hp, hmark,
      attention_eq_of_unsuppressed hmark hsuppressed]

end

/-- A row whose watermark is the new pull request's baseline. -/
theorem cleanSlate_iff_calm :
    CleanSlate 0 8 (calmView "b2".toList 100) (prWorld (some (({} : PrState).engaged 100 110 none
      none))) := by
  refine (cleanSlate_iff rfl).2 ⟨?_, ?_⟩
  · intro mark hmark
    cases hmark
    rfl
  · intro pair hpair
    cases hpair

/-- A bot's greeting on the second pull request is taken for news since the first was engaged. -/
theorem newPr_inherits_watermark :
    ∃ w₁ w₂ w₃ w₄,
      EndsAlone (syncOpen 0 7 (calmView "a1".toList 100)) (prWorld none) () w₁ ∧
      EndsAlone (sql (.markPrEngaged 0 100 120 none none)) w₁ () w₂ ∧
      EndsAlone (syncClosed 0 7) w₂ () w₃ ∧
      EndsAlone (sql (.setFindingPrOpen 0 "https://forge/pull/8".toList)) w₃ () w₄ ∧
      ¬ CleanSlate 0 8
        { calmView "b2".toList 900 with comments := [{ id := 1, createdAt := 900 }] } w₄ := by
  refine ⟨_, _, _, _, syncOpen_ends _ 0 _ 7 110 110,
    .call (lands_store.2 ⟨rfl, (), _, rfl, rfl, rfl⟩) .done,
    .call (b := 130) (lands_ask.2 rfl) (.call (lands_store.2 ⟨rfl, (), _, rfl, rfl, rfl⟩)
      (.call (lands_store.2 ⟨rfl, (), _, rfl, rfl, rfl⟩) .done)),
    .call (lands_store.2 ⟨rfl, (), _, rfl, rfl, rfl⟩) .done, fun hclean => ?_⟩
  have h := hclean _ _ (syncOpen_ends _ 0 _ 8 910 910) (syncOpen_ends _ 0 _ 8 910 910)
  revert h
  decide +kernel

end Hunter
