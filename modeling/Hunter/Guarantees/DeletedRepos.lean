import Hunter.Alone
import Hunter.Knowledge
import Hunter.Replay
set_option autoImplicit false

namespace Hunter
open Effect

/-! No row references a repo that is deleted. -/

namespace Store

theorem referenced_iff {s : Store} {r : Nat} : s.referenced r = true ↔
    (∃ f x, s.finding? f = some x ∧ x.repoId = r) ∨ ∃ id j, s.job? id = some j ∧ j.repoId = r := by
  simp only [referenced, Bool.or_eq_true, List.any_eq_true, decide_eq_true_eq, finding?, job?,
    List.mem_iff_getElem?]
  constructor
  · rintro (⟨x, ⟨f, hx⟩, hr⟩ | ⟨j, ⟨id, hj⟩, hr⟩)
    · exact Or.inl ⟨f, x, hx, hr⟩
    · exact Or.inr ⟨id, j, hj, hr⟩
  · rintro (⟨f, x, hx, hr⟩ | ⟨id, j, hj, hr⟩)
    · exact Or.inl ⟨x, ⟨f, hx⟩, hr⟩
    · exact Or.inr ⟨j, ⟨id, hj⟩, hr⟩

variable {s s' : Store} {r k : Nat}

theorem referenced_congr (hfindings : s'.findings = s.findings) (hjobs : s'.jobs = s.jobs) :
    s'.referenced r = s.referenced r := by
  rw [referenced, referenced, hfindings, hjobs]

def JobsLive (s : Store) : Prop := ∀ id j, s.job? id = some j → s.liveRepo j.repoId = true

def FindingsLive (s : Store) : Prop := ∀ f x, s.finding? f = some x → s.liveRepo x.repoId = true

theorem liveRepo_of_referenced (hjobs : s.JobsLive) (hfindings : s.FindingsLive)
    (h : s.referenced r = true) : s.liveRepo r = true := by
  rcases referenced_iff.1 h with ⟨f, x, hx, rfl⟩ | ⟨id, j, hj, rfl⟩
  · exact hfindings f x hx
  · exact hjobs id j hj

theorem not_flagged_of_liveRepo (h : s.liveRepo r = true) : s.flagged r = false := by
  obtain ⟨repo, hrepo, hlive⟩ := (Option.any_eq_true _ _).1 h
  simpa [flagged, hrepo] using hlive

theorem not_referenced_of_flagged (hlive : ∀ r, s.referenced r = true → s.liveRepo r = true)
    (h : s.flagged r = true) : s.referenced r = false := by
  cases hreferenced : s.referenced r with
  | false => rfl
  | true => cases (not_flagged_of_liveRepo (hlive r hreferenced)).symm.trans h

theorem droppable_of_referenced (hlive : ∀ r, s.referenced r = true → s.liveRepo r = true)
    (r : Nat) : s.droppable r = true := by
  rw [droppable]
  cases hflagged : s.flagged r with
  | false => rfl
  | true =>
    rw [not_referenced_of_flagged hlive hflagged]
    rfl

theorem liveRepo_of_not_flagged (h : s.flagged r = false) (hrow : (s.repo? r).isSome = true) :
    s.liveRepo r = true := by
  obtain ⟨repo, hrepo⟩ := Option.isSome_iff_exists.1 hrow
  simpa [flagged, liveRepo, hrepo] using h

theorem liveRepo_congr (h : s'.repos = s.repos) : s'.liveRepo r = s.liveRepo r := by
  rw [liveRepo, liveRepo, repo?, repo?, h]

theorem liveRepo_modifyRepo {g : Repo → Repo} (hg : ∀ repo, (g repo).deleted = repo.deleted) :
    (s.modifyRepo k g).liveRepo r = s.liveRepo r := by
  rw [liveRepo, liveRepo, repo?_modifyRepo]
  split
  · rw [Option.any_map]
    exact congrArg (fun p => (s.repo? r).any p) (funext fun repo => congrArg not (hg repo))
  · rfl

theorem liveRepo_addRepo {name defaultBranch : Text} (h : s.liveRepo r = true) :
    (s.addRepo name defaultBranch).liveRepo r = true := by
  rw [liveRepo, repo?_addRepo]
  split
  · rfl
  · exact h

theorem liveRepo_softDeleteRepo {now : Int} (h : s.referenced r = true) :
    (s.softDeleteRepo k now).liveRepo r = s.liveRepo r := by
  unfold softDeleteRepo
  by_cases hk : s.referenced k = true
  · rw [if_pos hk]
  · rw [if_neg hk, liveRepo, repo?_modifyRepo, if_neg]
    · rfl
    · rintro rfl
      exact hk h

theorem liveRepo_forgetDeletedRepo : (s.forgetDeletedRepo k).liveRepo r = s.liveRepo r := by
  rw [liveRepo, repo?_forgetDeletedRepo]
  split
  · rename_i hgone
    obtain ⟨rfl, hflagged⟩ := hgone
    cases hlive : s.liveRepo k with
    | false => rfl
    | true => cases (not_flagged_of_liveRepo hlive).symm.trans hflagged
  · rfl

theorem flagged_forgetDeletedRepo :
    (s.forgetDeletedRepo k).flagged r = (s.flagged r && !decide (k = r)) := by
  rw [flagged, repo?_forgetDeletedRepo]
  by_cases hk : k = r
  · subst hk
    cases hflagged : s.flagged k with
    | true => simp
    | false => simpa [flagged] using hflagged
  · simp [hk, flagged]

theorem mem_deletedRepoIds : r ∈ s.deletedRepoIds ↔ s.flagged r = true := by
  simp only [deletedRepoIds, List.mem_map, List.mem_insertionSort, List.mem_filterMap,
    Option.map_eq_some_iff, Option.bind_eq_some_iff, flagged, repo?, Option.any_eq_true,
    Option.join_eq_some_iff, Repo.deleted, Option.isSome_iff_exists]
  constructor
  · rintro ⟨-, ⟨row, hrow, at_, ⟨repo, hrepo, hat⟩, rfl⟩, rfl⟩
    exact ⟨repo, (mem_rows.1 hrow).trans (congrArg some hrepo), at_, hat⟩
  · rintro ⟨repo, hrepo, at_, hat⟩
    exact ⟨(at_, r), ⟨⟨r, some repo⟩, mem_rows.2 hrepo, at_, ⟨repo, rfl, hat⟩, rfl⟩, rfl⟩

theorem upsertFinding_onRecord {row : FindingInsert} {type : FindingType}
    (h : s.onRecord type row.fingerprint = true) : (s.upsertFinding r row type).1 = s := by
  unfold upsertFinding
  split
  · rfl
  · rename_i hnone
    obtain ⟨x, hx, hkey⟩ := List.any_eq_true.1 h
    obtain ⟨f, hf⟩ := List.mem_iff_getElem?.1 hx
    exact absurd hkey (List.find?_eq_none.1 hnone ⟨f, x⟩ (mem_rows.2 hf))

end Store

/-- What an upsert files is of a repo that is not flagged, or on record already. -/
def StoreCall.filesLive (s : Store) : {β : Type} → StoreCall β → Bool
  | _, .upsertFinding repoId row type => !s.flagged repoId || s.onRecord type row.fingerprint
  | _, _ => true

def Call.filesLive (w : World) : {β : Type} → Call β → Bool
  | _, .store c => c.filesLive w.store
  | _, _ => true

/-- The runs that file findings only for repos that are not deleted. -/
def liveScans : Machine Call Text World :=
  daemon.restrict (fun c w _ _ => c.filesLive w = true) (fun _ _ => True) fun _ _ => True

section
variable {β : Type} {c : StoreCall β} {s s' : Store} {b : β}

theorem jobsLive_apply (h : c.apply s = some (b, s')) (hfair : c.fairReason)
    (hlive : s.JobsLive) : s'.JobsLive := by
  intro id j' hj'
  rw [StoreCall.liveRepo_eq h]
  rcases StoreCall.job_cases h hfair hj' with ⟨j, hj, hchange⟩ | hinsert
  · rw [hchange.repoId]
    exact hlive id j hj
  · cases c with
    | createJob kind repoId findingId state resumedFrom =>
      simp only [StoreCall.apply] at h
      split at h
      · rename_i hcreate
        rw [hinsert.2.2]
        exact (Store.repos_createJob hcreate).2
      · cases h
        exact absurd hinsert.2.1 (by simp)
    | _ => exact hinsert.elim

theorem findingsLive_apply (h : c.apply s = some (b, s')) (hkeyed : c.keyed s = true)
    (hfiles : c.filesLive s = true) (hlive : s.FindingsLive) : s'.FindingsLive := by
  intro f x' hx'
  rw [StoreCall.liveRepo_eq h]
  rcases StoreCall.finding_cases h hx' with ⟨x, hx, hchange⟩ | ⟨hnone, hfiled⟩
  · rw [hchange.repoId]
    exact hlive f x hx
  · cases c with
    | upsertFinding repoId row type =>
      cases hfiled
      cases hrecord : s.onRecord type row.fingerprint with
      | true =>
        cases h
        rw [Store.upsertFinding_onRecord hrecord, hnone] at hx'
        cases hx'
      | false =>
        simp only [StoreCall.keyed, StoreCall.filesLive, hrecord, Bool.false_or, Bool.or_false,
          Bool.not_eq_true'] at hkeyed hfiles
        exact Store.liveRepo_of_not_flagged hfiles hkeyed
    | _ => cases hfiled

end

open Store in
theorem liveRepo_request {s s' : Store} {r : Request} {repoId : Nat} (h : Accepts s r s')
    (hlive : s.liveRepo repoId = true) (hreferenced : s.referenced repoId = true) :
    s'.liveRepo repoId = true := by
  cases h with
  | addRepo => exact liveRepo_addRepo hlive
  | updateRepo =>
    refine (liveRepo_modifyRepo fun repo => ?_).trans hlive
    rfl
  | deleteRepo => exact (liveRepo_softDeleteRepo hreferenced).trans hlive
  | reapRepo => exact liveRepo_forgetDeletedRepo.trans hlive
  | verdict =>
    unfold applyVerdict
    split <;> exact (liveRepo_congr repos_updateFindingIf).trans hlive
  | recheck | unqueue => exact (liveRepo_congr repos_updateFindingIf).trans hlive
  | fullHunt =>
    refine (liveRepo_modifyRepo fun repo => ?_).trans hlive
    split <;> rfl
  | _ => exact hlive

theorem jobsLive_request {s s' : Store} {r : Request} (h : Accepts s r s') (hlive : s.JobsLive) :
    s'.JobsLive := by
  intro id j hj
  rw [Store.job?, h.jobs] at hj
  exact liveRepo_request h (hlive id j hj) (Store.referenced_iff.2 (Or.inr ⟨id, j, hj, rfl⟩))

theorem findingsLive_request {s s' : Store} {r : Request} (h : Accepts s r s')
    (hlive : s.FindingsLive) : s'.FindingsLive := by
  intro f x' hx'
  obtain ⟨x, hx, hchange⟩ := h.finding hx'
  rw [hchange.repoId]
  exact liveRepo_request h (hlive f x hx) (Store.referenced_iff.2 (Or.inl ⟨f, x, hx, rfl⟩))

theorem jobsLive_call {β : Type} {a : Memory} {c : Call β} {w w' : World} {b : β}
    (hallow : c.allowed a) (hlive : w.store.JobsLive) (h : CallStep c w b w') :
    w'.store.JobsLive := by
  cases c with
  | ask q =>
    rw [show w' = w from h.leaves]
    exact hlive
  | tree c =>
    rw [show w'.store = w.store from h.leaves]
    exact hlive
  | store c =>
    rcases h.leaves with ⟨b', s', rfl, happly, rfl⟩ | ⟨-, rfl⟩
    · exact jobsLive_apply happly (fair_of_allowed hallow) hlive
    · exact hlive

/-- Every job's repo stays live, in every run: `create_job` looks at the flag. -/
theorem jobsLive_invariant :
    Machine.Invariant daemon follower fun _ w => w.store.JobsLive where
  init w hw := by
    cases hw
    exact fun id j hj => by simp [Store.job?] at hj
  call a c w b w' hallow := jobsLive_call hallow
  finish a phase w _ hlive := hlive
  abort a w _ hlive := hlive
  crash a p w _ _ hlive := hlive
  env a w w' hlive henv := by
    cases henv with
    | treeLost => exact hlive
    | request haccept => exact jobsLive_request haccept hlive

theorem findingsLive_call {β : Type} {c : Call β} {w w' : World} {b : β}
    (hfiles : c.filesLive w = true) (hlive : w.store.FindingsLive) (h : CallStep c w b w') :
    w'.store.FindingsLive := by
  cases c with
  | ask q =>
    rw [show w' = w from h.leaves]
    exact hlive
  | tree c =>
    rw [show w'.store = w.store from h.leaves]
    exact hlive
  | store c =>
    have hkeyed := h.keyed
    rcases h.leaves with ⟨b', s', rfl, happly, rfl⟩ | ⟨-, rfl⟩
    · exact findingsLive_apply happly hkeyed hfiles hlive
    · exact hlive

theorem findingsLive_invariant :
    Machine.Invariant liveScans (follower.restrict _ _ _) fun _ w => w.store.FindingsLive where
  init w hw := by
    cases hw
    exact fun f x hx => by simp [Store.finding?] at hx
  call a c w b w' _ hlive hstep := findingsLive_call hstep.2 hlive hstep.1
  finish a phase w _ hlive := hlive
  abort a w _ hlive := hlive
  crash a p w _ _ hlive := hlive
  env a w w' hlive henv := by
    cases henv.1 with
    | treeLost => exact hlive
    | request haccept => exact findingsLive_request haccept hlive

/-- What the reaper leaves of the database. -/
structure Store.Reaped (s s' : Store) : Prop where
  findings : s'.findings = s.findings
  jobs : s'.jobs = s.jobs
  live : ∀ r, s'.liveRepo r = s.liveRepo r

theorem Store.Reaped.refl (s : Store) : s.Reaped s := ⟨rfl, rfl, fun _ => rfl⟩

theorem Store.Reaped.trans {s t u : Store} (h : s.Reaped t) (h' : t.Reaped u) : s.Reaped u where
  findings := h'.findings.trans h.findings
  jobs := h'.jobs.trans h.jobs
  live r := (h'.live r).trans (h.live r)

def StoreCall.reaps : {β : Type} → StoreCall β → Prop
  | _, .deletedRepoIds | _, .forgetDeletedRepo _ => True
  | _, _ => False

def Call.reaps : {β : Type} → Call β → Prop
  | _, .store c => c.reaps
  | _, .ask _ => True
  | _, .tree _ => False

theorem reaped_of_reaps {β : Type} (c : Call β) (w : World) (b : β) (w' : World) (hc : c.reaps)
    (h : CallStep c w b w') : w.store.Reaped w'.store := by
  cases c with
  | ask q =>
    obtain rfl := h.leaves
    exact .refl _
  | tree c => exact hc.elim
  | store c =>
    rcases h.leaves with ⟨b', s', rfl, happly, rfl⟩ | ⟨-, rfl⟩
    · cases c with
      | deletedRepoIds =>
        cases happly
        exact .refl _
      | forgetDeletedRepo id =>
        cases happly
        exact ⟨Store.findings_forgetDeletedRepo, Store.jobs_forgetDeletedRepo,
          fun _ => Store.liveRepo_forgetDeletedRepo⟩
      | _ => exact hc.elim
    · exact .refl _

theorem only_reapRepo (id : Nat) : Only Call.reaps (reapRepo id) :=
  only_bind ⟨trivial, fun b => by cases b <;> trivial⟩ fun _ =>
    only_bind ⟨trivial, fun b => by cases b <;> trivial⟩ fun _ =>
      ⟨trivial, fun b => by cases b <;> trivial⟩

theorem only_reapEach (ids : List Nat) : Only Call.reaps (reapEach ids) := by
  induction ids with
  | nil => trivial
  | cons id rest ih => exact only_bind (only_attempt (only_reapRepo id)) fun _ => ih

/-- Whatever fails, the reaper only drops rows of repos that are flagged. -/
theorem reaped_reapDeletedRepos {w w' : World} {r : Except Text Unit}
    (h : Runs CallStep reapDeletedRepos w r w') : w.store.Reaped w'.store := by
  refine h.keeps (R := fun w w' => w.store.Reaped w'.store) (fun w => .refl w.store)
    (fun _ _ _ => .trans) reaped_of_reaps ⟨trivial, fun ids => ?_⟩
  cases ids with
  | ok ids => exact only_reapEach ids
  | error e => trivial

/-- Files can be removed, and no statement fails but one that a foreign key refuses. -/
def Call.served (w : World) : {β : Type} → Call β → β → Prop
  | _, .store c, r => c.keyed w.store = true → ∃ b, r = .ok b
  | _, .ask (.removeClone _), r | _, .ask (.removeNotes _), r => r = .ok ()
  | _, _, _ => True

def Serves {β : Type} (c : Call β) (w : World) (b : β) (w' : World) : Prop :=
  CallStep c w b w' ∧ c.served w b

section
variable {α β : Type} {w w' : World} {r : Except Text α}

theorem runs_serves_ask {id : Nat} {q : Query (Except Text Unit)} {k : Unit → Act α}
    (hq : q = .removeClone id ∨ q = .removeNotes id) (h : Runs Serves (tryAsk q >>= k) w r w') :
    Runs Serves (k ()) w r w' := by
  cases h with
  | call hstep hrest =>
    obtain rfl := hstep.1.leaves
    rcases hq with rfl | rfl <;> obtain rfl := hstep.2 <;> exact hrest

theorem runs_serves_store {c : StoreCall β} {k : Except Text β → Act α}
    (hkeyed : c.keyed w.store = true) (h : Runs Serves (.call (.store c) k) w r w') :
    ∃ b s, c.apply w.store = some (b, s) ∧ Runs Serves (k (.ok b)) { w with store := s } r w' := by
  cases h with
  | call hstep hrest =>
    obtain ⟨b, rfl⟩ := hstep.2 hkeyed
    rcases hstep.1.leaves with ⟨b', s, hb, happly, rfl⟩ | ⟨⟨e, he⟩, -⟩
    · cases hb
      exact ⟨b, s, happly, hrest⟩
    · cases he

end

theorem serves_reapRepo {id : Nat} {w w' : World} {r : Except Text Unit}
    (hdroppable : w.store.droppable id = true) (h : Runs Serves (reapRepo id) w r w') :
    r = .ok () ∧ w'.store = w.store.forgetDeletedRepo id := by
  have hlast := runs_serves_ask (Or.inr rfl) (runs_serves_ask (Or.inl rfl) h)
  obtain ⟨b, s, happly, hdone⟩ :=
    runs_serves_store (c := .forgetDeletedRepo id) hdroppable hlast
  cases happly
  cases hdone
  exact ⟨rfl, rfl⟩

theorem serves_reapEach {ids : List Nat} {w w' : World} {r : Except Text Unit}
    (hdroppable : ∀ id, w.store.droppable id = true) (h : Runs Serves (reapEach ids) w r w') :
    r = .ok () ∧ ∀ id, w'.store.flagged id = true → w.store.flagged id = true ∧ id ∉ ids := by
  induction ids generalizing w with
  | nil =>
    cases h
    exact ⟨rfl, fun id hid => ⟨hid, List.not_mem_nil⟩⟩
  | cons first rest ih =>
    obtain ⟨result, v, hfirst, hrest⟩ := h.of_attempt_bind
    obtain ⟨rfl, hstore⟩ := serves_reapRepo (hdroppable first) hfirst
    have hleft : ∀ id, v.store.droppable id = true := by
      intro id
      rw [Store.droppable, hstore, Store.flagged_forgetDeletedRepo,
        Store.referenced_congr Store.findings_forgetDeletedRepo Store.jobs_forgetDeletedRepo]
      have hid := hdroppable id
      rw [Store.droppable] at hid
      revert hid
      cases w.store.flagged id <;> simp +contextual
    obtain ⟨hr, hflagged⟩ := ih hleft hrest
    refine ⟨hr, fun id hid => ?_⟩
    obtain ⟨hbefore, hother⟩ := hflagged id hid
    rw [hstore, Store.flagged_forgetDeletedRepo] at hbefore
    simp only [Bool.and_eq_true, Bool.not_eq_true', decide_eq_false_iff_not] at hbefore
    exact ⟨hbefore.1, by simpa [hother] using fun h => hbefore.2 h.symm⟩

/-- A pass that nothing hinders leaves no repo flagged. -/
theorem serves_reapDeletedRepos {w w' : World} {r : Except Text Unit}
    (hdroppable : ∀ id, w.store.droppable id = true)
    (h : Runs Serves reapDeletedRepos w r w') :
    r = .ok () ∧ ∀ id, w'.store.flagged id = false := by
  obtain ⟨ids, s, happly, hrest⟩ := runs_serves_store (c := .deletedRepoIds) rfl h
  cases happly
  obtain ⟨hr, hflagged⟩ := serves_reapEach hdroppable hrest
  refine ⟨hr, fun id => ?_⟩
  cases hid : w'.store.flagged id with
  | false => rfl
  | true =>
    obtain ⟨hbefore, hnot⟩ := hflagged id hid
    exact absurd (Store.mem_deletedRepoIds.2 hbefore) hnot

/-- No row references a deleted repo: the row of one that is flagged can be dropped, which leaves
nothing that references it, and a pass of the reaper drops them all. -/
theorem deletedRepo_unreferenced {x : Config liveScans} (hx : liveScans.Reachable x) :
    (∀ r, x.state.store.referenced r = true → x.state.store.liveRepo r = true) ∧
      (∀ r, x.state.store.flagged r = true →
        ∃ w', CallStep (.store (.forgetDeletedRepo r)) x.state (.ok ()) w' ∧
          w'.store.repo? r = none ∧ w'.store.referenced r = false) ∧
      ∀ r w', Runs Serves reapDeletedRepos x.state r w' →
        r = .ok () ∧ x.state.store.Reaped w'.store ∧ ∀ id, w'.store.flagged id = false := by
  obtain ⟨-, -, hjobs⟩ := (jobsLive_invariant.restrict _ _ _).reachable hx
  obtain ⟨-, -, hfindings⟩ := findingsLive_invariant.reachable hx
  have hlive := fun r => Store.liveRepo_of_referenced (r := r) hjobs hfindings
  refine ⟨hlive, fun r hflagged => ?_, fun r w' h => ?_⟩
  · have hfree := Store.not_referenced_of_flagged hlive hflagged
    have hkeyed : (StoreCall.forgetDeletedRepo r).keyed x.state.store = true :=
      Store.droppable_of_referenced hlive r
    refine ⟨_, .store rfl hkeyed, ?_, ?_⟩
    · rw [Store.repo?_forgetDeletedRepo, if_pos ⟨rfl, hflagged⟩]
    · rwa [Store.referenced_congr Store.findings_forgetDeletedRepo Store.jobs_forgetDeletedRepo]
  · obtain ⟨hr, hgone⟩ := serves_reapDeletedRepos (Store.droppable_of_referenced hlive) h
    exact ⟨hr, reaped_reapDeletedRepos (h.mono fun _ _ _ _ h => h.1), hgone⟩

def liveReply (o : Outside) : Machine.Reply Call World :=
  o.reply.within fun c w _ _ => c.filesLive w

theorem faithful_liveReply (o : Outside) : liveScans.Faithful (liveReply o) :=
  Machine.Faithful.within o.faithful_reply fun _ _ _ _ h => h

theorem reachable_requestedLive {x : Config liveScans} {r : Request} {s : Store → Store}
    (h : liveScans.Reachable x) (hr : Accepts x.state.store r (s x.state.store)) :
    liveScans.Reachable (requested s x) :=
  h.step (.env ⟨.request hr, trivial⟩)

def isUpsert : {β : Type} → Call β → Bool
  | _, .store (.upsertFinding _ _ _) => true
  | _, _ => false

def isRunWorker : {β : Type} → Call β → Bool
  | _, .tree (.runWorker _ _ _) => true
  | _, _ => false

def secondScan : Outside where
  rotation := some (.depUpdate, 1)
  scan := some {
    entries := [some (.depUpdate, { sampleInsert with fingerprint := ['q'] })]
    proposed := [['q']], unchecked := [], moves := [] }

def deleteRepo (id : Nat) (s : Store) : Store := s.softDeleteRepo id 0

/-- The first of two repos is scanned; the second is deleted under its scan, and its row dropped. -/
def droppedUnderScan : Config liveScans :=
  requested (Store.forgetDeletedRepo · 1) (requested (deleteRepo 1)
    (play liveReply (List.replicate 4 { secondScan with stops := isUpsert })
      (play liveReply (List.replicate 5 scanning)
        (requested (Store.addRepo · ['q'] ['m'])
          (requested addSampleRepo ⟨liveScans.body liveScans.boot, emptyWorld⟩)))))

/-- The scan goes on; then the first repo is hunted, and a third is added and deleted. -/
def deletedUnderHunt : Config liveScans :=
  requested (deleteRepo 2) (requested (Store.addRepo · ['s'] ['m'])
    (play liveReply (secondScan :: List.replicate 4 { hunting with stops := isRunWorker })
      droppedUnderScan))

theorem reachable_droppedUnderScan : liveScans.Reachable droppedUnderScan := by
  refine reachable_requestedLive (r := .reapRepo 1) (reachable_requestedLive (r := .deleteRepo 1 0)
    (reachable_play faithful_liveReply (reachable_play faithful_liveReply
      (reachable_requestedLive (r := .addRepo ['q'] ['m'])
        (reachable_requestedLive (r := .addRepo ['r'] ['m']) (.start rfl) .addRepo) .addRepo)))
    .deleteRepo) (.reapRepo ?_)
  decide +kernel

theorem reachable_deletedUnderHunt : liveScans.Reachable deletedUnderHunt :=
  reachable_requestedLive (r := .deleteRepo 2 0) (reachable_requestedLive (r := .addRepo ['s'] ['m'])
    (reachable_play faithful_liveReply reachable_droppedUnderScan) .addRepo) .deleteRepo

/-- While the hunt's worker is about to run, the first repo has a job and a finding, the second is
gone, and the third can go. -/
theorem deletedRepo_unreferenced_hunt :
    (Machine.nextIs isRunWorker deletedUnderHunt.rest = true ∧
      deletedUnderHunt.state.store.jobs.length = 1 ∧
      deletedUnderHunt.state.store.findings.length = 1 ∧
      deletedUnderHunt.state.store.repo? 1 = none) ∧
    deletedUnderHunt.state.store.liveRepo 0 = true ∧
    deletedUnderHunt.state.store.referenced 1 = false ∧
    ∃ w', CallStep (.store (.forgetDeletedRepo 2)) deletedUnderHunt.state (.ok ()) w' ∧
      w'.store.repo? 2 = none ∧ w'.store.referenced 2 = false := by
  obtain ⟨hlive, hdrop, -⟩ := deletedRepo_unreferenced reachable_deletedUnderHunt
  refine ⟨by decide +kernel, hlive 0 (by decide +kernel), ?_, hdrop 2 (by decide +kernel)⟩
  cases hreferenced : deletedUnderHunt.state.store.referenced 1 with
  | false => rfl
  | true => exact absurd (hlive 1 hreferenced) (by decide +kernel)

/-- A scan about to file its first finding, its repo just deleted. -/
def deletedUnderScan : Config daemon :=
  requested (deleteRepo 0)
    (playDaemon (List.replicate 5 { scanning with stops := isUpsert }) booted)

theorem reachable_deletedUnderScan : daemon.Reachable deletedUnderScan :=
  reachable_requested (r := .deleteRepo 0 0) (reachable_playDaemon reachable_booted) .deleteRepo

/-- A zero-token scan files a finding for a repo deleted while it ran, whose row then stays. -/
theorem deletedRepo_referenced : ∃ (x : Config daemon) (r : Nat), daemon.Reachable x ∧
    x.state.store.flagged r = true ∧ x.state.store.referenced r = true ∧
    ∀ w', ¬ CallStep (.store (.forgetDeletedRepo r)) x.state (.ok ()) w' := by
  have hkeyed : (StoreCall.forgetDeletedRepo 0).keyed
      (playDaemon [scanning] deletedUnderScan).state.store = false := by decide +kernel
  refine ⟨playDaemon [scanning] deletedUnderScan, 0,
    reachable_playDaemon reachable_deletedUnderScan, by decide +kernel, by decide +kernel,
    fun w' h => ?_⟩
  cases hkeyed.symm.trans h.keyed

end Hunter
