import Hunter.Knowledge
import Hunter.Replay
set_option autoImplicit false

namespace Hunter
open Effect

/-! Resume chains do not branch, and each work has one live attempt. -/

/-- The two jobs are attempts at the same work: of one finding, or for a repo kind of one repo. -/
def Job.sameWork (j k : Job) : Prop :=
  j.kind = k.kind ∧ if j.kind.isFinding then j.findingId = k.findingId else j.repoId = k.repoId

/-- `j` may go on with `k`: its own work, or from an engage the harvest. -/
structure Job.Continues (j k : Job) : Prop where
  repoId : j.repoId = k.repoId
  findingId : j.findingId = k.findingId
  kind : j.kind = k.kind ∨ k.kind = .finding .engage ∧ j.kind = .finding .harvest

theorem Job.sameWork_symm {j k : Job} (h : j.sameWork k) : k.sameWork j := by
  obtain ⟨hkind, hof⟩ := h
  refine ⟨hkind.symm, ?_⟩
  rw [← hkind]
  split
  · rename_i hfinding
    rw [if_pos hfinding] at hof
    exact hof.symm
  · rename_i hfinding
    rw [if_neg hfinding] at hof
    exact hof.symm

theorem Job.sameWork_trans {j k l : Job} (h : j.sameWork k) (h' : k.sameWork l) :
    j.sameWork l := by
  obtain ⟨hkind, hof⟩ := h
  obtain ⟨hkind', hof'⟩ := h'
  refine ⟨hkind.trans hkind', ?_⟩
  rw [← hkind] at hof'
  split
  · rename_i hfinding
    rw [if_pos hfinding] at hof hof'
    exact hof.trans hof'
  · rename_i hfinding
    rw [if_neg hfinding] at hof hof'
    exact hof.trans hof'

theorem Job.Continues.sameWork {j k : Job} (h : j.Continues k) (hkind : j.kind = k.kind) :
    j.sameWork k := by
  refine ⟨hkind, ?_⟩
  split
  · exact h.findingId
  · exact h.repoId

theorem JobChange.sameWork {β : Type} {c : StoreCall β} {id : Nat} {j j' : Job}
    (h : JobChange c id j j') : j.sameWork j' := by
  refine ⟨h.kind.symm, ?_⟩
  split
  · exact h.findingId.symm
  · exact h.repoId.symm

namespace Store

/-- At most one job goes on with another. -/
def Unbranched (s : Store) : Prop :=
  ∀ id id' j j' p, s.job? id = some j → s.job? id' = some j' → j.resumedFrom = some p →
    j'.resumedFrom = some p → id = id'

/-- A job goes on with the work of its predecessor. -/
def Continued (s : Store) : Prop :=
  ∀ id j p, s.job? id = some j → j.resumedFrom = some p → ∃ k, s.job? p = some k ∧ j.Continues k

/-- A finding's job is of the finding's repo, and a repo kind's of no finding. -/
def Site (s : Store) (repoId : Nat) (findingId : Option Nat) : JobKind → Prop
  | .repo _ => findingId = none
  | .finding _ => ∃ f x, findingId = some f ∧ s.finding? f = some x ∧ x.repoId = repoId

def Sited (s : Store) : Prop :=
  ∀ id j, s.job? id = some j → s.Site j.repoId j.findingId j.kind

/-- Of the kinds in `P`, no two live jobs are attempts at the same work. -/
def AloneIn (P : JobKind → Prop) (s : Store) : Prop :=
  ∀ id id' j j', s.job? id = some j → s.job? id' = some j' → P j.kind → s.live id j = true →
    s.live id' j' = true → j.sameWork j' → id = id'

/-- Of the kinds in `P`, no job but `id` is live with its work. -/
def SoleIn (P : JobKind → Prop) (s : Store) (id : Nat) : Prop :=
  ∀ j, s.job? id = some j → P j.kind → ∀ id' j', s.job? id' = some j' → s.live id' j' = true →
    j.sameWork j' → id' = id

def harvestLeft (s : Store) (f : Nat) : Bool :=
  (rows s.jobs).any fun row =>
    row.val.kind = .finding .harvest && row.val.findingId = some f
      && s.openSuspension row.id row.val

theorem harvestLeft_iff {s : Store} {f : Nat} : s.harvestLeft f = true ↔
    ∃ id j, s.job? id = some j ∧ j.kind = .finding .harvest ∧ j.findingId = some f ∧
      s.openSuspension id j = true := by
  simp only [harvestLeft, List.any_eq_true, mem_rows, Bool.and_eq_true, decide_eq_true_eq]
  constructor
  · rintro ⟨row, hrow, ⟨hkind, hf⟩, hopen⟩
    exact ⟨row.id, row.val, hrow, hkind, hf, hopen⟩
  · rintro ⟨id, j, hj, hkind, hf, hopen⟩
    exact ⟨⟨id, j⟩, hj, ⟨hkind, hf⟩, hopen⟩

theorem AloneIn.sole {P : JobKind → Prop} {s : Store} {id : Nat} {j : Job} (h : s.AloneIn P)
    (hj : s.job? id = some j) (hlive : s.live id j = true) : s.SoleIn P id := by
  intro k hk hP id' j' hj' hlive' hsame
  cases hj.symm.trans hk
  exact (h id id' j j' hj hj' hP hlive hlive' hsame).symm

/-- A fresh job retires the suspensions of its work, and leaves the other jobs. -/
theorem job?_createJob_fresh {s s' : Store} {kind : JobKind} {repoId k : Nat}
    {findingId : Option Nat} {state : JobState} {created : CreatedJob} {j : Job}
    (h : s.createJob kind repoId findingId state none = some (s', created))
    (hj : s.job? k = some j) :
    s'.job? k = some (if s.supersededBy kind repoId findingId k j
      then j.retire .killed (some "superseded".toList) else j) := by
  unfold createJob at h
  split at h
  · cases h
    have hlt := job?_lt hj
    have hkept : (s.addJob (s.newJob kind repoId findingId state none)).job? k = some j := by
      rw [job?_addJob, if_neg (by omega)]
      exact hj
    have hsucc : (s.addJob (s.newJob kind repoId findingId state none)).hasSuccessor k =
        s.hasSuccessor k := by
      simp [hasSuccessor, addJob, newJob]
    have hold : (s.addJob (s.newJob kind repoId findingId state none)).supersededBy kind repoId
        findingId k j = s.supersededBy kind repoId findingId k j := by
      simp only [supersededBy, openSuspension, hsucc]
      rfl
    rw [job?_retireAll]
    by_cases hsuperseded : s.supersededBy kind repoId findingId k j = true
    · rw [if_pos hsuperseded, if_pos]
      · exact congrArg (Option.map _) hkept
      · refine mem_filter_rows.2 ⟨j, hkept, ?_⟩
        rw [Bool.and_eq_true]
        exact ⟨by simpa using Nat.ne_of_lt hlt, hold.trans hsuperseded⟩
    · rw [if_neg hsuperseded, if_neg]
      · exact hkept
      · rw [mem_filter_rows]
        rintro ⟨j0, hj0, hmem⟩
        cases hkept.symm.trans hj0
        rw [Bool.and_eq_true] at hmem
        exact hsuperseded (hold.symm.trans hmem.2)
  · cases h

end Store

/-- A harvest handed over from an engage leaves no other one suspended. -/
def StoreCall.handsOverAlone (s : Store) : {β : Type} → StoreCall β → Bool
  | _, .createJob kind _ findingId _ resumedFrom =>
    !(kind = .finding .harvest
      && resumedFrom.any (fun p => (s.job? p).any fun j => j.kind = .finding .engage)
      && findingId.any s.harvestLeft)
  | _, _ => true

section
variable {β : Type} {c : StoreCall β} {s s' : Store} {b : β} {a : Memory} {P : JobKind → Prop}

theorem repoId_of_sited {id f : Nat} {j : Job} {kind : FindingJobKind} {x : Finding}
    (hsited : s.Sited) (hj : s.job? id = some j) (hkind : j.kind = .finding kind)
    (hf : j.findingId = some f) (hx : s.finding? f = some x) : x.repoId = j.repoId := by
  have h := hsited id j hj
  rw [hkind] at h
  obtain ⟨g, y, hg, hy, hrepo⟩ := h
  cases hf.symm.trans hg
  cases hx.symm.trans hy
  exact hrepo

theorem site_created {kind : JobKind} {repoId : Nat} {findingId resumedFrom : Option Nat}
    (hmay : a.MayCreate kind repoId findingId resumedFrom) (hknown : ∀ y ∈ a, y.holds s) :
    s.Site repoId findingId kind := by
  have hwork := hmay.work
  cases kind with
  | repo kind => exact hwork
  | finding kind =>
    obtain ⟨f, finding, hf, hrow, hrepo, -⟩ := hwork
    obtain ⟨x, hx, hsame, -⟩ := hknown _ hrow
    exact ⟨f, x, hf, hx, hsame.trans hrepo⟩

theorem repoId_of_work {kind : JobKind} {repoId id : Nat} {findingId resumedFrom : Option Nat}
    {j : Job} (hmay : a.MayCreate kind repoId findingId resumedFrom)
    (hknown : ∀ y ∈ a, y.holds s) (hsited : s.Sited) (hj : s.job? id = some j)
    (hfinding : j.kind.isFinding = true) (hkind : kind.isFinding = true)
    (hf : j.findingId = findingId) : j.repoId = repoId := by
  have hplace := site_created hmay hknown
  cases kind with
  | repo kind => cases hkind
  | finding kind =>
    obtain ⟨f, x, rfl, hx, hrepo⟩ := hplace
    cases hk : j.kind with
    | repo kind' =>
      rw [hk] at hfinding
      cases hfinding
    | finding kind' => exact (repoId_of_sited hsited hj hk hf hx).symm.trans hrepo

theorem sited_step (h : c.apply s = some (b, s')) (hallow : c.allowed a)
    (hknown : ∀ y ∈ a, y.holds s) (hsited : s.Sited) : s'.Sited := by
  have hkept : ∀ {f x repoId}, s.finding? f = some x → x.repoId = repoId →
      ∃ x', s'.finding? f = some x' ∧ x'.repoId = repoId := by
    rintro f x repoId hx rfl
    obtain ⟨x', hx', hchange⟩ := StoreCall.edits h f x hx
    exact ⟨x', hx', hchange.repoId⟩
  intro id j' hj'
  rcases StoreCall.job_cases h (fair_of_allowed hallow) hj' with ⟨j, hj, hchange⟩ | hinsert
  · have hold := hsited id j hj
    rw [hchange.kind, hchange.findingId, hchange.repoId]
    cases hkind : j.kind with
    | repo kind =>
      rw [hkind] at hold
      exact hold
    | finding kind =>
      rw [hkind] at hold
      obtain ⟨f, x, hf, hx, hrepo⟩ := hold
      obtain ⟨x', hx', hrepo'⟩ := hkept hx hrepo
      exact ⟨f, x', hf, hx', hrepo'⟩
  · cases c with
    | createJob kind repoId findingId state resumedFrom =>
      obtain ⟨-, -, rfl⟩ := hinsert
      have hplace := site_created hallow.2 hknown
      cases kind with
      | repo kind => exact hplace
      | finding kind =>
        obtain ⟨f, x, hf, hx, hrepo⟩ := hplace
        obtain ⟨x', hx', hrepo'⟩ := hkept hx hrepo
        exact ⟨f, x', hf, hx', hrepo'⟩
    | _ => exact hinsert.elim

/-- What a new job goes on with is a job of the work it may go on with. -/
theorem continues_created {kind : JobKind} {repoId p : Nat} {findingId resumedFrom : Option Nat}
    (state : JobState) (hmay : a.MayCreate kind repoId findingId resumedFrom)
    (hknown : ∀ y ∈ a, y.holds s) (hsited : s.Sited) (hp : resumedFrom = some p) :
    ∃ k, s.job? p = some k ∧ s.hasSuccessor p = false ∧
      (s.newJob kind repoId findingId state resumedFrom).Continues k := by
  rcases hmay.continues p hp with ⟨g, hoffered, -, hof⟩ | ⟨rfl, f, rfl, hengaged, -⟩
  · obtain ⟨k, hk, hkind, rfl, -, hopen⟩ := hknown _ hoffered
    refine ⟨k, hk, hopen, ?_⟩
    cases kind with
    | repo kind =>
      obtain ⟨k', hk', rfl⟩ := hknown _ hof
      cases hk.symm.trans hk'
      have hbare := hsited p k hk
      rw [hkind] at hbare
      have hnone : findingId = none := site_created hmay hknown
      exact ⟨rfl, hnone.trans (Eq.symm hbare), Or.inl hkind.symm⟩
    | finding kind =>
      refine ⟨?_, hof.symm, Or.inl hkind.symm⟩
      exact (repoId_of_work hmay hknown hsited hk (by rw [hkind]; rfl) rfl hof).symm
  · obtain ⟨k, hk, hkind, hf, hopen⟩ := hknown _ hengaged
    refine ⟨k, hk, hopen, ?_, hf.symm, Or.inr ⟨hkind, rfl⟩⟩
    exact (repoId_of_work hmay hknown hsited hk (by rw [hkind]; rfl) rfl hf).symm

theorem continued_step (h : c.apply s = some (b, s')) (hallow : c.allowed a)
    (hknown : ∀ y ∈ a, y.holds s) (hsited : s.Sited) (hcontinued : s.Continued) :
    s'.Continued := by
  have hfair := fair_of_allowed hallow
  have hkept : ∀ {p k} {j : Job}, s.job? p = some k → j.Continues k →
      ∃ k', s'.job? p = some k' ∧ j.Continues k' := by
    intro p k j hk hj
    obtain ⟨k', hk', hchange⟩ := StoreCall.jobEdits h hfair hk
    refine ⟨k', hk', hj.repoId.trans hchange.repoId.symm, hj.findingId.trans hchange.findingId.symm,
      ?_⟩
    rw [hchange.kind]
    exact hj.kind
  intro id j' p hj' hfrom
  rcases StoreCall.job_cases h hfair hj' with ⟨j, hj, hchange⟩ | hinsert
  · obtain ⟨k, hk, hof⟩ := hcontinued id j p hj (hchange.resumedFrom.symm.trans hfrom)
    refine hkept hk ⟨hchange.repoId.trans hof.repoId, hchange.findingId.trans hof.findingId, ?_⟩
    rw [hchange.kind]
    exact hof.kind
  · cases c with
    | createJob kind repoId findingId state resumedFrom =>
      obtain ⟨-, -, rfl⟩ := hinsert
      obtain ⟨k, hk, -, hof⟩ := continues_created _ hallow.2 hknown hsited hfrom
      exact hkept hk hof
    | _ => exact hinsert.elim

theorem open_of_continues {p : Nat} (hallow : c.allowed a) (hknown : ∀ y ∈ a, y.holds s)
    (hsited : s.Sited) (hp : c.continues = some p) : s.hasSuccessor p = false := by
  cases c with
  | createJob kind repoId findingId state resumedFrom =>
    obtain ⟨-, -, hopen, -⟩ := continues_created state hallow.2 hknown hsited hp
    exact hopen
  | _ => cases hp

theorem unbranched_step (h : c.apply s = some (b, s')) (hallow : c.allowed a)
    (hknown : ∀ y ∈ a, y.holds s) (hsited : s.Sited) (hunbranched : s.Unbranched) :
    s'.Unbranched := by
  have hfair := fair_of_allowed hallow
  have hnew : ∀ {id k p} {jn j' : Job}, c.inserts s id jn b → jn.resumedFrom = some p →
      s.job? k = some j' → j'.resumedFrom = some p → False := by
    intro id k p jn j' hinsert hfrom hk hkfrom
    have hopen := open_of_continues hallow hknown hsited
      ((StoreCall.inserts_resumedFrom hinsert).symm.trans hfrom)
    rw [Store.hasSuccessor_iff.2 ⟨k, j', hk, hkfrom⟩] at hopen
    cases hopen
  intro id id' j1 j2 p hj1 hj2 hfrom1 hfrom2
  rcases StoreCall.job_cases h hfair hj1 with ⟨k1, hk1, hchange1⟩ | hinsert1
  · have hkfrom1 := hchange1.resumedFrom.symm.trans hfrom1
    rcases StoreCall.job_cases h hfair hj2 with ⟨k2, hk2, hchange2⟩ | hinsert2
    · exact hunbranched id id' k1 k2 p hk1 hk2 hkfrom1 (hchange2.resumedFrom.symm.trans hfrom2)
    · exact (hnew hinsert2 hfrom2 hk1 hkfrom1).elim
  · rcases StoreCall.job_cases h hfair hj2 with ⟨k2, hk2, hchange2⟩ | hinsert2
    · exact (hnew hinsert1 hfrom1 hk2 (hchange2.resumedFrom.symm.trans hfrom2)).elim
    · rw [StoreCall.inserts_id hinsert1, StoreCall.inserts_id hinsert2]

theorem supersededBy_of_sameWork {kind : JobKind} {repoId id : Nat} {findingId : Option Nat}
    {state : JobState} {j : Job} (hmay : a.MayCreate kind repoId findingId none)
    (hknown : ∀ y ∈ a, y.holds s) (hsited : s.Sited) (hrepo : (s.repo? repoId).isSome = true)
    (hj : s.job? id = some j) (hopen : s.openSuspension id j = true)
    (hsame : (s.newJob kind repoId findingId state none).sameWork j) :
    s.supersededBy kind repoId findingId id j = true := by
  have hkind : j.kind = kind := hsame.1.symm
  have hof := hsame.2
  have hsite := site_created hmay hknown
  cases kind with
  | repo kind =>
    have hof : repoId = j.repoId := hof
    simp [Store.supersededBy, hopen, hkind, JobKind.isFinding, ← hof, hrepo]
  | finding kind =>
    obtain ⟨f, x, rfl, -, -⟩ := hsite
    have hof : some f = j.findingId := hof
    have hrepo' := repoId_of_work hmay hknown hsited hj (by rw [hkind]; rfl) rfl hof.symm
    simp [Store.supersededBy, hopen, hkind, JobKind.isFinding, ← hof, hrepo', hrepo]

/-- What is live of the work a job is created for has that job as its successor. -/
theorem dead_of_created {kind : JobKind} {repoId id : Nat} {findingId resumedFrom : Option Nat}
    {state : JobState} {created : CreatedJob} {j j' : Job}
    (h : (StoreCall.createJob kind repoId findingId state resumedFrom).apply s =
      some (some created, s'))
    (hallow : (StoreCall.createJob kind repoId findingId state resumedFrom).allowed a)
    (hknown : ∀ y ∈ a, y.holds s) (hsited : s.Sited) (halone : s.AloneIn P) (hP : P kind)
    (hover : P (.finding .harvest) →
      (StoreCall.createJob kind repoId findingId state resumedFrom).handsOverAlone s = true)
    (hj : s.job? id = some j) (hj' : s'.job? id = some j')
    (hsame : (s.newJob kind repoId findingId state resumedFrom).sameWork j) :
    s'.live id j' = false := by
  by_contra hnot
  have hlive : s'.live id j' = true := by simpa using hnot
  obtain ⟨j0, hj0, hchange⟩ := StoreCall.jobEdits h (fair_of_allowed hallow) hj
  cases hj'.symm.trans hj0
  have hwas : s.live id j = true :=
    (live_back h hallow hknown hj hchange hlive).resolve_right fun hblocks => hblocks.1
  have hmay := hallow.2
  have hcreate := StoreCall.created_of_apply h
  have hkind : j.kind = kind := hsame.1.symm
  cases resumedFrom with
  | none =>
    -- a fresh job: nothing runs, and suspensions of its work are superseded
    have hidle : Fact.runningIn [] ∈ a := hmay.idle.resolve_right fun h => by simp at h
    have hsuspended : s.openSuspension id j = true := by
      rcases Store.live_iff.1 hwas with hrunning | hsuspended
      · cases hknown _ hidle id j hj hrunning
      · exact Store.openSuspension_iff.2 hsuspended
    have hrepo : (s.repo? repoId).isSome = true := by
      unfold Store.createJob at hcreate
      split at hcreate
      · rename_i hrepo
        cases hr : s.repo? repoId <;> simp_all
      · cases hcreate
    have hold := supersededBy_of_sameWork hmay hknown hsited hrepo hj hsuspended hsame
    have hretired := Store.job?_createJob_fresh hcreate hj
    rw [if_pos hold] at hretired
    cases hj'.symm.trans hretired
    simp [Store.live, Job.retire] at hlive
  | some p =>
    obtain ⟨hid, -, hnew, -⟩ := Store.createJob_spec hcreate
    have hsucc : s'.hasSuccessor p = true := Store.hasSuccessor_iff.2 ⟨_, _, hnew, rfl⟩
    rcases hmay.continues p rfl with hoffer | ⟨rfl, f, rfl, hengaged, hrunning⟩
    · obtain ⟨g, hoffered, -⟩ := hoffer
      obtain ⟨k, hk, hkkind, -, hksuspended, hkopen⟩ := hknown _ hoffered
      obtain ⟨k', hk', -, hcontinues⟩ :=
        continues_created state hmay hknown hsited rfl
      cases hk.symm.trans hk'
      have hwork := hcontinues.sameWork hkkind.symm
      obtain rfl := halone id p j k hj hk (by rw [hkind]; exact hP) hwas
        (Store.live_iff.2 (Or.inr ⟨hksuspended, hkopen⟩))
        (Job.sameWork_trans (Job.sameWork_symm hsame) hwork)
      cases hj.symm.trans hk
      rcases Store.live_iff.1 hlive with hrun | ⟨-, hopen⟩
      · have hrun := was_running hallow hknown hj hchange hrun
        cases hrun.symm.trans hksuspended
      · rw [hopen] at hsucc
        cases hsucc
    · obtain ⟨k, hk, hkkind, -, -⟩ := hknown _ hengaged
      rcases Store.live_iff.1 hwas with hrun | hsuspended
      · have hmem := hknown _ hrunning id j hj hrun
        obtain rfl : id = p := by simpa using hmem
        cases hj.symm.trans hk
        cases hkkind.symm.trans hkind
      · have hof : some f = j.findingId := hsame.2
        have hleft : s.harvestLeft f = true :=
          Store.harvestLeft_iff.2
            ⟨id, j, hj, hkind, hof.symm, Store.openSuspension_iff.2 hsuspended⟩
        have halone := hover hP
        simp [StoreCall.handsOverAlone, hk, hkkind, hleft] at halone

theorem dead_of_inserts {n id : Nat} {jn j j' : Job} (h : c.apply s = some (b, s'))
    (hallow : c.allowed a) (hknown : ∀ y ∈ a, y.holds s) (hsited : s.Sited)
    (halone : s.AloneIn P) (hover : P (.finding .harvest) → c.handsOverAlone s = true)
    (hinsert : c.inserts s n jn b) (hP : P jn.kind) (hj : s.job? id = some j)
    (hj' : s'.job? id = some j') (hsame : jn.sameWork j) : s'.live id j' = false := by
  cases c with
  | createJob kind repoId findingId state resumedFrom =>
    obtain ⟨-, hcreated, rfl⟩ := hinsert
    cases b with
    | none => cases hcreated
    | some created =>
      exact dead_of_created h hallow hknown hsited halone hP hover hj hj' hsame
  | _ => exact hinsert.elim

theorem sole_of_blocks {id : Nat} (hallow : c.allowed a) (hknown : ∀ y ∈ a, y.holds s)
    (hsoles : ∀ id, Fact.sole id ∈ a → s.SoleIn P id) (halone : s.AloneIn P)
    (hblocks : c.blocks id) : s.SoleIn P id := by
  cases c with
  | blockFixJob f k reason =>
    obtain rfl := hblocks
    rcases hallow.2.2 with hsole | ⟨g, hoffered⟩
    · exact hsoles k hsole
    · obtain ⟨j, hj, -, -, hopen⟩ := hknown _ hoffered
      exact halone.sole hj (Store.live_iff.2 (Or.inr hopen))
  | _ => exact hblocks.elim

theorem blocks_unique {id id' : Nat} (h : c.blocks id) (h' : c.blocks id') : id = id' := by
  cases c with
  | blockFixJob f k reason => exact h.symm.trans h'
  | _ => exact h.elim

theorem alone_step (h : c.apply s = some (b, s')) (hallow : c.allowed a)
    (hknown : ∀ y ∈ a, y.holds s) (hsited : s.Sited)
    (hsoles : ∀ id, Fact.sole id ∈ a → s.SoleIn P id) (halone : s.AloneIn P)
    (hover : P (.finding .harvest) → c.handsOverAlone s = true) : s'.AloneIn P := by
  have hfair := fair_of_allowed hallow
  intro id id' j1 j2 hj1 hj2 hP hlive1 hlive2 hsame
  rcases StoreCall.job_cases h hfair hj1 with ⟨k1, hk1, hchange1⟩ | hinsert1
  · have hP1 : P k1.kind := by
      rw [← hchange1.kind]
      exact hP
    rcases StoreCall.job_cases h hfair hj2 with ⟨k2, hk2, hchange2⟩ | hinsert2
    · have hwork := Job.sameWork_trans hchange1.sameWork
        (Job.sameWork_trans hsame (Job.sameWork_symm hchange2.sameWork))
      rcases live_back h hallow hknown hk1 hchange1 hlive1 with hwas1 | ⟨hblocks1, -⟩
      · rcases live_back h hallow hknown hk2 hchange2 hlive2 with hwas2 | ⟨hblocks2, -⟩
        · exact halone id id' k1 k2 hk1 hk2 hP1 hwas1 hwas2 hwork
        · refine sole_of_blocks hallow hknown hsoles halone hblocks2 k2 hk2 ?_ id k1 hk1 hwas1
            (Job.sameWork_symm hwork)
          rw [← hwork.1]
          exact hP1
      · rcases live_back h hallow hknown hk2 hchange2 hlive2 with hwas2 | ⟨hblocks2, -⟩
        · exact (sole_of_blocks hallow hknown hsoles halone hblocks1 k1 hk1 hP1 id' k2 hk2 hwas2
            hwork).symm
        · exact blocks_unique hblocks1 hblocks2
    · have hPn : P j2.kind := by
        rw [← hsame.1]
        exact hP
      have hdead := dead_of_inserts h hallow hknown hsited halone hover hinsert2 hPn hk1 hj1
        (Job.sameWork_symm (Job.sameWork_trans hchange1.sameWork hsame))
      rw [hdead] at hlive1
      cases hlive1
  · rcases StoreCall.job_cases h hfair hj2 with ⟨k2, hk2, hchange2⟩ | hinsert2
    · have hdead := dead_of_inserts h hallow hknown hsited halone hover hinsert1 hP hk2 hj2
        (Job.sameWork_trans hsame (Job.sameWork_symm hchange2.sameWork))
      rw [hdead] at hlive2
      cases hlive2
    · rw [StoreCall.inserts_id hinsert1, StoreCall.inserts_id hinsert2]

/-- Nothing of its work comes alive beside a job that is known to be alone. -/
theorem soleIn_kept {id : Nat} (h : c.apply s = some (b, s')) (hallow : c.allowed a)
    (hknown : ∀ y ∈ a, y.holds s) (hforget : ¬ c.forgets b (.sole id))
    (hsole : s.SoleIn P id) : s'.SoleIn P id := by
  have hfair := fair_of_allowed hallow
  have hnew : ∀ {n j}, ¬ c.inserts s n j b := fun h => hforget (forgets_of_inserts h rfl)
  intro j hj hP id' j' hj' hlive hsame
  obtain ⟨k, hk, hchange⟩ := (StoreCall.job_cases h hfair hj).resolve_right hnew
  obtain ⟨k2, hk2, hchange2⟩ := (StoreCall.job_cases h hfair hj').resolve_right hnew
  rcases live_back h hallow hknown hk2 hchange2 hlive with hwas | ⟨hblocks, -⟩
  · refine hsole k hk ?_ id' k2 hk2 hwas (Job.sameWork_trans hchange.sameWork
      (Job.sameWork_trans hsame (Job.sameWork_symm hchange2.sameWork)))
    rw [← hchange.kind]
    exact hP
  · cases c with
    | blockFixJob => exact absurd (Or.inr (Or.inl rfl)) hforget
    | _ => exact hblocks.elim

theorem soleIn_learned {id : Nat} (h : c.apply s = some (b, s')) (hallow : c.allowed a)
    (hknown : ∀ y ∈ a, y.holds s) (halone : s.AloneIn P) (halone' : s'.AloneIn P)
    (hlearn : c.learns a b (.sole id)) : s'.SoleIn P id := by
  cases c with
  | createJob kind repoId findingId state resumedFrom =>
    obtain ⟨created, rfl, hx⟩ := hlearn
    obtain rfl : id = created.id := by simpa using hx
    obtain rfl := hallow.1
    obtain ⟨hid, -, hnew, -⟩ := Store.createJob_spec (StoreCall.created_of_apply h)
    rw [hid]
    exact halone'.sole hnew (Store.live_iff.2 (Or.inl rfl))
  | retireSuspendedJob k state why =>
    obtain ⟨⟨kind, f, hoffered⟩, heq⟩ := hlearn
    cases heq
    obtain ⟨j, hj, -, -, hopen⟩ := hknown _ hoffered
    exact soleIn_kept h hallow hknown
      (by simp [StoreCall.forgets, Fact.onEnd])
      (halone.sole hj (Store.live_iff.2 (Or.inr hopen)))
  | findingsWithStatus status =>
    obtain ⟨row, -, hx⟩ := hlearn
    cases tells_listed hx
  | listResumableJobs =>
    obtain ⟨row, -, hx⟩ := hlearn
    cases offerTells_listed hx
  | _ => simp [StoreCall.learns] at hlearn

end

/-- The shape of the job table, and the jobs known to be alone with their work. -/
structure Chains (P : JobKind → Prop) (a : Memory) (w : World) : Prop where
  sited : w.store.Sited
  unbranched : w.store.Unbranched
  continued : w.store.Continued
  alone : w.store.AloneIn P
  soles : ∀ id, Fact.sole id ∈ a → w.store.SoleIn P id

theorem chains_store {β : Type} {c : StoreCall β} {P : JobKind → Prop} {a : Memory} {w : World}
    {s' : Store} {b : β} (happly : c.apply w.store = some (b, s')) (hallow : c.allowed a)
    (hknown : ∀ x ∈ a, x.holds w.store) (hchains : Chains P a w)
    (hover : P (.finding .harvest) → c.handsOverAlone w.store = true) :
    Chains P (a.next (.store c) (.ok b)) { w with store := s' } where
  sited := sited_step happly hallow hknown hchains.sited
  unbranched := unbranched_step happly hallow hknown hchains.sited hchains.unbranched
  continued := continued_step happly hallow hknown hchains.sited hchains.continued
  alone := alone_step happly hallow hknown hchains.sited hchains.soles hchains.alone hover
  soles id hsole := by
    rcases hsole with ⟨hsole, hforget⟩ | hlearn
    · exact soleIn_kept happly hallow hknown hforget (hchains.soles id hsole)
    · exact soleIn_learned happly hallow hknown hchains.alone
        (alone_step happly hallow hknown hchains.sited hchains.soles hchains.alone hover) hlearn

/-- Whether a harvest handed over from an engage leaves no other one suspended. -/
def Call.handsOverAlone (w : World) : {β : Type} → Call β → Bool
  | _, .store c => c.handsOverAlone w.store
  | _, _ => true

theorem Chains.mono {P : JobKind → Prop} {a a' : Memory} {w w' : World} (h : Chains P a w)
    (hstore : w'.store = w.store) (hsole : ∀ id, Fact.sole id ∈ a' → Fact.sole id ∈ a) :
    Chains P a' w' where
  sited := by rw [hstore]; exact h.sited
  unbranched := by rw [hstore]; exact h.unbranched
  continued := by rw [hstore]; exact h.continued
  alone := by rw [hstore]; exact h.alone
  soles id hid := by rw [hstore]; exact h.soles id (hsole id hid)

theorem chains_call {β : Type} {c : Call β} {P : JobKind → Prop} {a : Memory} {w w' : World}
    {b : β} (hallow : c.allowed a) (hknown : Known a w) (hchains : Chains P a w)
    (hover : P (.finding .harvest) → c.handsOverAlone w = true) (h : CallStep c w b w') :
    Chains P (a.next c b) w' := by
  cases c with
  | ask q =>
    rw [next_ask]
    exact hchains.mono (congrArg World.store h.leaves) fun id hid => hid
  | tree c =>
    refine hchains.mono h.leaves fun id hid => hid.elim And.left fun hlearn => ?_
    cases TreeCall.learns_told hlearn
  | store c =>
    rcases h.leaves with ⟨b', s', rfl, happly, rfl⟩ | ⟨⟨e, rfl⟩, rfl⟩
    · exact chains_store happly hallow hknown.facts hchains hover
    · exact hchains.mono rfl fun id hid => hid.elim And.left False.elim

theorem chains_env {P : JobKind → Prop} {a : Memory} {w w' : World} (hchains : Chains P a w)
    (henv : EnvStep w w') : Chains P a w' := by
  cases henv with
  | treeLost => exact hchains.mono rfl fun id hid => hid
  | @request r s' haccept =>
    have hjob : ∀ p, s'.job? p = w.store.job? p := fun p => by
      rw [Store.job?, haccept.jobs, Store.job?]
    have hlive : ∀ id j, s'.live id j = w.store.live id j := fun id j => by
      simp only [Store.live, Store.hasSuccessor, haccept.jobs]
    refine ⟨fun id j hj => ?_, ?_, ?_, ?_, fun id hid => ?_⟩
    · have hsite := hchains.sited id j ((hjob id).symm.trans hj)
      cases hkind : j.kind with
      | repo kind =>
        rw [hkind] at hsite
        exact hsite
      | finding kind =>
        rw [hkind] at hsite
        obtain ⟨f, x, hf, hx, hrepo⟩ := hsite
        obtain ⟨x', hx', hchange⟩ := haccept.edits f x hx
        exact ⟨f, x', hf, hx', hchange.repoId.trans hrepo⟩
    · simpa only [Store.Unbranched, hjob] using hchains.unbranched
    · simpa only [Store.Continued, hjob] using hchains.continued
    · simpa only [Store.AloneIn, hjob, hlive] using hchains.alone
    · simpa only [Store.SoleIn, hjob, hlive] using hchains.soles id hid

theorem chains_init (P : JobKind → Prop) {w : World}
    (hw : w = { store := { repos := [], findings := [], jobs := [] }, trees := [] }) :
    Chains P ∅ w := by
  subst hw
  have hjob : ∀ {id : Nat} {j : Job},
      Store.job? { repos := [], findings := [], jobs := [] } id ≠ some j := by
    simp [Store.job?]
  exact ⟨fun _ _ h => absurd h hjob, fun _ _ _ _ _ h => absurd h hjob,
    fun _ _ _ h => absurd h hjob, fun _ _ _ _ h => absurd h hjob, fun _ h => h.elim⟩

theorem Chains.entry {P : JobKind → Prop} {a : Memory} {w : World}
    (h : Chains P a w) (phase : Phase) : Chains P phase.known w :=
  h.mono rfl fun id hid => by cases Phase.known_handedOver hid

/-- The runs in which a harvest handed over from an engage leaves no other one suspended. -/
def lonelyHarvests : Machine Call Text World :=
  daemon.restrict (fun c w _ _ => c.handsOverAlone w = true) (fun _ _ => True) fun _ _ => True

/-- Of every kind but harvests, no two live jobs are ever attempts at the same work. -/
theorem chains_invariant : Machine.InvariantUnder daemon follower Known
    (Chains fun kind => kind ≠ .finding .harvest) where
  init _ hw := chains_init _ hw
  call _ _ _ _ _ hallow hknown hchains h _ :=
    chains_call hallow hknown hchains (fun hP => absurd rfl hP) h
  finish _ phase _ _ _ hchains := hchains.entry phase
  abort _ _ _ _ hchains := hchains.entry .reconcile
  crash _ _ _ _ _ _ hchains := hchains.entry .startup
  env _ _ _ _ hchains henv := chains_env hchains henv

theorem lonelyChains_invariant : Machine.InvariantUnder lonelyHarvests (follower.restrict _ _ _)
    Known (Chains fun _ => True) where
  init _ hw := chains_init _ hw
  call _ _ _ _ _ hallow hknown hchains h _ :=
    chains_call hallow hknown hchains (fun _ => h.2) h.1
  finish _ phase _ _ _ hchains := hchains.entry phase
  abort _ _ _ _ hchains := hchains.entry .reconcile
  crash _ _ _ _ _ _ hchains := hchains.entry .startup
  env _ _ _ _ hchains henv := chains_env hchains henv.1

structure Store.Chained (s : Store) : Prop where
  unbranched : s.Unbranched
  descends : s.Descends
  continued : s.Continued
  suspendedOnce : ∀ id id' j j', s.job? id = some j → s.job? id' = some j' →
    s.openSuspension id j = true → s.openSuspension id' j' = true → j.sameWork j' → id = id'

/-- Chains keep their shape in every run in which no harvest is handed over from an engage of a
finding with a suspended one. -/
theorem chains_shaped {x : Config lonelyHarvests} (hx : lonelyHarvests.Reachable x) :
    x.state.store.Chained := by
  obtain ⟨a, -, hknown, hchains⟩ :=
    ((known_invariant.restrict _ _ _).and lonelyChains_invariant).reachable hx
  refine ⟨hchains.unbranched, hknown.descends, hchains.continued, ?_⟩
  intro id id' j j' hj hj' hopen hopen' hsame
  have hlive : ∀ {id j}, x.state.store.openSuspension id j = true →
      x.state.store.live id j = true :=
    fun h => Store.live_iff.2 (Or.inr (Store.openSuspension_iff.1 h))
  exact hchains.alone id id' j j' hj hj' trivial (hlive hopen) (hlive hopen') hsame

def lonelyReply (o : Outside) : Machine.Reply Call World :=
  o.reply.within fun c w _ _ => c.handsOverAlone w

theorem faithful_lonelyReply (o : Outside) : lonelyHarvests.Faithful (lonelyReply o) :=
  Machine.Faithful.within o.faithful_reply fun _ _ _ _ h => h

def continuedHunt : Config lonelyHarvests :=
  play lonelyReply (List.replicate 13 { hunting with run := cappedRun })
    (requested addSampleRepo ⟨lonelyHarvests.body lonelyHarvests.boot, emptyWorld⟩)

theorem reachable_continuedHunt : lonelyHarvests.Reachable continuedHunt :=
  reachable_play faithful_lonelyReply
    (.step (.start rfl) (.env ⟨.request (r := .addRepo ['r'] ['m']) .addRepo, trivial⟩))

theorem chains_shaped_hunt : continuedHunt.state.store.Chained :=
  chains_shaped reachable_continuedHunt

def pausedHarvest : Config daemon :=
  playDaemon (List.replicate 4 { view := .ok (endedView .closed), run := cappedRun })
    shippedFinding

def unswept : Outside where
  fails := fun | .retireStrandedSuspensions => true | _ => false

/-- The worker withdraws the pull request, and is stopped by the cap. -/
def withdrawing : Outside :=
  { unswept with
    view := .ok { endedView .opened with headRef := some ['h'], changesRequested := true }
    withdraw := some ['w'], run := cappedRun }

def harvestedTwice : Config daemon :=
  playDaemon (List.replicate 4 unswept ++ List.replicate 4 withdrawing)
    (requested (fun s => s.applyVerdict 0 .closed .queued none) pausedHarvest)

theorem reachable_harvestedTwice : daemon.Reachable harvestedTwice :=
  reachable_playDaemon (reachable_requested (r := .verdict 0 .queued none)
    (reachable_playDaemon reachable_shippedFinding) (.verdict rfl rfl (by decide) (by decide)))

/-- The harvest handed over leaves the first one suspended. -/
theorem chains_misshaped : ¬ ∀ x : Config daemon, daemon.Reachable x → x.state.store.Chained := by
  intro h
  have hjobs : (harvestedTwice.state.store.job? 2).any (fun j =>
      (harvestedTwice.state.store.job? 5).any fun j' =>
        harvestedTwice.state.store.openSuspension 2 j
          && harvestedTwice.state.store.openSuspension 5 j'
          && j.kind = j'.kind && j.kind.isFinding && j.findingId = j'.findingId) = true := by
    decide +kernel
  obtain ⟨j, hj, hrest⟩ := (Option.any_eq_true _ _).1 hjobs
  obtain ⟨j', hj', hrest⟩ := (Option.any_eq_true _ _).1 hrest
  simp only [Bool.and_eq_true, decide_eq_true_eq] at hrest
  obtain ⟨⟨⟨⟨hopen, hopen'⟩, hkind⟩, hfinding⟩, hf⟩ := hrest
  have honce := (h harvestedTwice reachable_harvestedTwice).suspendedOnce 2 5 j j' hj hj' hopen
    hopen' ⟨hkind, by rw [if_pos hfinding]; exact hf⟩
  cases honce

end Hunter
