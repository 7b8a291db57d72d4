import Hunter.Effect.Runs
import Hunter.Knowledge
import Hunter.Replay
set_option autoImplicit false

namespace Hunter
open Effect

/-! The tree a live job works in, or will be continued in, is never removed. -/

namespace Store
variable {s : Store}

/-- Job `id` is `depth` links below `root`, the first job of its chain. -/
inductive Below (s : Store) (root : Nat) : Nat → Nat → Prop
  | first {j : Job} : s.job? root = some j → j.resumedFrom = none → Below s root 0 root
  | link {depth id p : Nat} {j : Job} : s.job? id = some j → j.resumedFrom = some p →
      Below s root depth p → Below s root (depth + 1) id

variable {root depth id : Nat}

theorem Below.exists_job (h : s.Below root depth id) : ∃ j, s.job? id = some j := by
  cases h with
  | first hj _ => exact ⟨_, hj⟩
  | link hj _ _ => exact ⟨_, hj⟩

theorem Below.le (hdescends : s.Descends) (h : s.Below root depth id) :
    if depth = 0 then root = id else root < id := by
  induction h with
  | first => rfl
  | @link depth id p j hj hfrom _ ih =>
    have hlt := hdescends id j p hj hfrom
    rw [if_neg (by omega)]
    split at ih <;> omega

theorem exists_below (hdescends : s.Descends) {j : Job} (hj : s.job? id = some j) :
    ∃ root depth, s.Below root depth id := by
  induction id using Nat.strongRecOn generalizing j with
  | _ id ih =>
    cases hfrom : j.resumedFrom with
    | none => exact ⟨id, 0, .first hj hfrom⟩
    | some p =>
      have hlt := hdescends id j p hj hfrom
      have hjob := job?_lt hj
      obtain ⟨q, hq⟩ : ∃ q, s.job? p = some q :=
        ⟨s.jobs[p], List.getElem?_eq_getElem (by omega)⟩
      obtain ⟨root, depth, hbelow⟩ := ih p hlt hq
      exact ⟨root, depth + 1, .link hj hfrom hbelow⟩

theorem root_mem_ancestry {fuel : Nat} (h : s.Below root depth id) (hfuel : depth ≤ fuel) :
    root ∈ s.ancestry fuel id := by
  induction h generalizing fuel with
  | first hj hfrom => cases fuel <;> simp [ancestry, hj]
  | link hj hfrom _ ih =>
    cases fuel with
    | zero => omega
    | succ fuel =>
      simp only [ancestry, hj, hfrom, List.mem_cons]
      exact Or.inr (ih (by omega))

/-- The walk up never passes the first job, and reaches it only with enough fuel. -/
theorem le_of_mem_ancestry (hdescends : s.Descends) {fuel k : Nat} (h : s.Below root depth id)
    (hk : k ∈ s.ancestry fuel id) : if depth ≤ fuel then root ≤ k else root < k := by
  have hself : ∀ {depth id}, s.Below root depth id →
      if depth = 0 then root = id else root < id := fun h => h.le hdescends
  induction h generalizing fuel with
  | first hj hfrom =>
    have hk : k = root := by cases fuel <;> simpa [ancestry, hj, hfrom] using hk
    rw [if_pos (Nat.zero_le _)]
    exact hk.ge
  | @link depth id p j hj hfrom hbelow ih =>
    have hid := hself (.link hj hfrom hbelow)
    rw [if_neg (by omega)] at hid
    cases fuel with
    | zero =>
      have hk : k = id := by simpa [ancestry, hj] using hk
      rw [if_neg (by omega), hk]
      exact hid
    | succ fuel =>
      simp only [ancestry, hj, hfrom, List.mem_cons] at hk
      rcases hk with rfl | hk
      · split <;> omega
      · have := ih hk
        split at this
        · rw [if_pos (by omega)]
          exact this
        · rw [if_neg (by omega)]
          exact this

theorem ancestry_ne_nil (fuel : Nat) {j : Job} (hj : s.job? id = some j) :
    s.ancestry fuel id ≠ [] := by
  cases fuel <;> simp [ancestry, hj]

theorem resumeOriginJob_eq_iff (hdescends : s.Descends) (h : s.Below root depth id) :
    s.resumeOriginJob id = root ↔ depth ≤ resumeChainMaxDepth := by
  obtain ⟨j, hj⟩ := h.exists_job
  obtain ⟨m, hm⟩ := Option.ne_none_iff_exists'.1
    (mt List.min?_eq_none_iff.1 (ancestry_ne_nil resumeChainMaxDepth hj))
  have hmin := List.min?_eq_some_iff.1 hm
  have hle := le_of_mem_ancestry hdescends h hmin.1
  rw [resumeOriginJob, hm, Option.getD_some]
  constructor
  · rintro rfl
    by_contra hdepth
    rw [if_neg hdepth] at hle
    omega
  · intro hdepth
    rw [if_pos hdepth] at hle
    exact le_antisymm (hmin.2 root (root_mem_ancestry h hdepth)) hle

theorem mem_descend {chain : List Nat} :
    id ∈ s.descend chain ↔
      ∃ j, s.job? id = some j ∧ (id ∈ chain ∨ ∃ p, j.resumedFrom = some p ∧ p ∈ chain) := by
  rw [descend, mem_filter_rows]
  simp only [Bool.or_eq_true, List.contains_eq_mem, decide_eq_true_eq, Option.any_eq_true]

theorem mem_descend_iterate {fuel : Nat} (h : s.Below root depth id) (hfuel : depth ≤ fuel) :
    id ∈ (s.descend)^[fuel] [root] := by
  induction fuel generalizing depth id with
  | zero =>
    cases h with
    | first => simp
    | link => omega
  | succ fuel ih =>
    rw [Function.iterate_succ_apply']
    cases h with
    | first hj hfrom => exact mem_descend.2 ⟨_, hj, Or.inl (ih (.first hj hfrom) (by omega))⟩
    | link hj hfrom hbelow =>
      exact mem_descend.2 ⟨_, hj, Or.inr ⟨_, hfrom, ih hbelow (by omega)⟩⟩

theorem chainLive_of_below {j : Job} (h : s.Below root depth id) (hj : s.job? id = some j)
    (hlive : s.live id j = true) (hdepth : depth ≤ resumeChainMaxDepth) :
    s.chainLive root = true := by
  refine List.any_eq_true.2 ⟨id, mem_descend_iterate h hdepth, ?_⟩
  simp [hj, hlive]

end Store

/-- Going through any workspaces, no sweep removes the tree of this chain. -/
def SweepsSpare (w : World) (root : Nat) : Prop :=
  ∀ origins r w', Runs CallStep (sweepChains origins) w r w' →
    ∀ t ∈ w.trees, t.origin = root → t ∈ w'.trees

def TreeCall.Leaves (w w' : World) : {β : Type} → TreeCall β → β → Prop
  | _, .create origin spec, b => w' = w ∨
      b.isOk ∧ w' = { w with trees := { origin := origin, spec := spec } :: w.trees }
  | _, .release origin, _ => w' = { w with trees := w.trees.filter fun t => t.origin ≠ origin }
  | _, _, _ => w' = w

def Call.LeavesTrees (w w' : World) : {β : Type} → Call β → β → Prop
  | _, .tree c, b => c.Leaves w w' b
  | _, _, _ => w'.trees = w.trees

theorem CallStep.leavesTrees {β : Type} {c : Call β} {w w' : World} {b : β}
    (h : CallStep c w b w') : c.LeavesTrees w w' b := by
  cases h with
  | create => exact Or.inr ⟨rfl, rfl⟩
  | createError => exact Or.inl rfl
  | read c w b hreads => cases c <;> first | rfl | cases hreads
  | _ => rfl

theorem releaseIfIdle_spares {origin : Nat} {w w' : World} {r : Except Text Unit}
    (h : Runs CallStep (releaseIfIdle origin) w r w') :
    w'.store = w.store ∧ ∀ t ∈ w.trees, w.store.chainLive t.origin = true → t ∈ w'.trees := by
  cases h with
  | call hstep hrest =>
    rcases hstep.leaves with ⟨b, s, rfl, happly, rfl⟩ | ⟨⟨e, rfl⟩, rfl⟩
    · cases happly
      cases hlive : w.store.chainLive origin with
      | true =>
        rw [hlive] at hrest
        cases hrest
        exact ⟨rfl, fun t ht _ => ht⟩
      | false =>
        rw [hlive] at hrest
        cases hrest with
        | call hstep hend =>
          obtain rfl := hstep.leavesTrees
          cases hend
          refine ⟨rfl, fun t ht hlive' => List.mem_filter.2 ⟨ht, ?_⟩⟩
          rw [decide_eq_true_eq]
          rintro rfl
          rw [hlive] at hlive'
          cases hlive'
    · cases hrest
      exact ⟨rfl, fun t ht _ => ht⟩

theorem sweepChains_spares {origins : List Nat} {w w' : World} {r : Except Text Unit}
    (h : Runs CallStep (sweepChains origins) w r w') {t : Tree} (ht : t ∈ w.trees)
    (hlive : w.store.chainLive t.origin = true) : t ∈ w'.trees := by
  induction origins generalizing w with
  | nil =>
    cases h
    exact ht
  | cons origin rest ih =>
    rcases h.of_bind with ⟨_, v, hfirst, hrest⟩ | ⟨e, -, hfirst⟩
    · obtain ⟨hstore, hspared⟩ := releaseIfIdle_spares hfirst
      exact ih hrest (hspared t ht hlive) (by rw [hstore]; exact hlive)
    · exact (releaseIfIdle_spares hfirst).2 t ht hlive

/-- Where a live job's chain is found: at its first job, live, and spared. -/
structure TreeKept (w : World) (root id : Nat) : Prop where
  origin : w.store.resumeOriginJob id = root
  live : w.store.chainLive (w.store.resumeOriginJob id) = true
  spared : SweepsSpare w root

/-- A live job's tree is kept exactly while its chain is no longer than the walks. -/
theorem liveTree_kept_iff {x : Config daemon} (hx : daemon.Reachable x) {id : Nat} {j : Job}
    (hj : x.state.store.job? id = some j) (hlive : x.state.store.live id j = true) :
    (∃ root depth, x.state.store.Below root depth id) ∧
      ∀ root depth, x.state.store.Below root depth id →
        (TreeKept x.state root id ↔ depth ≤ resumeChainMaxDepth) := by
  obtain ⟨a, -, hknown⟩ := known_invariant.reachable hx
  refine ⟨Store.exists_below hknown.descends hj, fun root depth hbelow => ?_⟩
  have horigin := Store.resumeOriginJob_eq_iff hknown.descends hbelow
  constructor
  · exact fun h => horigin.1 h.origin
  · intro hdepth
    have hchain := Store.chainLive_of_below hbelow hj hlive hdepth
    refine ⟨horigin.2 hdepth, by rw [horigin.2 hdepth]; exact hchain, ?_⟩
    intro origins r w' hrun t ht hroot
    refine sweepChains_spares hrun ht ?_
    rw [hroot]
    exact hchain

def holding : Outside := { run := cappedRun, report := some (.blocked ['b']) }

/-- Attempt `n` of a fix that every worker reported blocked. -/
def heldAttempt (n : Nat) : Job where
  kind := .finding .fix
  repoId := 0
  findingId := some 0
  state := .suspended
  resumedFrom := match n with
    | 0 => none
    | p + 1 => some p
  sessionFile := some ['s']
  tokensNew := some 1
  killedReason := some "cap".toList
  pinnedSha := some []
  blocker := some ['b']

def heldFinding (status : FindingStatus) : Finding :=
  { type := .depUpdate, repoId := 0, report := sampleInsert, status := status }

def heldChain (status : FindingStatus) (n : Nat) : Store where
  repos := [some sampleRepo]
  findings := [heldFinding status]
  jobs := (List.range n).map heldAttempt

section
variable {status : FindingStatus} {n k : Nat} {trees : List Tree}

theorem job?_heldChain {j : Job} :
    (heldChain status n).job? k = some j ↔ k < n ∧ j = heldAttempt k := by
  simp only [heldChain, Store.job?, List.getElem?_map, Option.map_eq_some_iff,
    List.getElem?_eq_some_iff, List.length_range, List.getElem_range]
  constructor
  · rintro ⟨i, ⟨hk, rfl⟩, rfl⟩
    exact ⟨hk, rfl⟩
  · rintro ⟨hk, rfl⟩
    exact ⟨k, ⟨hk, rfl⟩, rfl⟩

theorem heldChain_hasSuccessor : (heldChain status n).hasSuccessor k = decide (k + 1 < n) := by
  rw [Bool.eq_iff_iff, Store.hasSuccessor_iff, decide_eq_true_eq]
  simp only [job?_heldChain]
  constructor
  · rintro ⟨id, j, ⟨hid, rfl⟩, hfrom⟩
    cases id with
    | zero => cases hfrom
    | succ id =>
      cases hfrom
      exact hid
  · exact fun h => ⟨k + 1, _, ⟨h, rfl⟩, rfl⟩

theorem listRunningJobs_heldChain : (heldChain status n).listRunningJobs = [] := by
  rw [Store.listRunningJobs, List.filter_eq_nil_iff]
  intro row hrow
  rw [mem_rows] at hrow
  obtain ⟨-, hval⟩ := job?_heldChain.1 (show (heldChain status n).job? row.id = _ from hrow)
  simp [hval, heldAttempt]

theorem below_heldChain (h : k < n) : (heldChain status n).Below 0 k k := by
  induction k with
  | zero => exact .first (job?_heldChain.2 ⟨h, rfl⟩) rfl
  | succ k ih => exact .link (job?_heldChain.2 ⟨h, rfl⟩) rfl (ih (by omega))

theorem descends_heldChain : (heldChain status n).Descends := by
  intro id j p hj hfrom
  obtain ⟨-, rfl⟩ := job?_heldChain.1 hj
  cases id with
  | zero => cases hfrom
  | succ id =>
    cases hfrom
    exact Nat.lt_succ_self _

theorem resumable_heldChain :
    (heldChain .queued n).resumable k (heldAttempt k) = !decide (k + 1 < n) := by
  rw [Store.resumable, Store.openSuspension, heldChain_hasSuccessor]
  simp [heldAttempt, heldChain, heldFinding, Store.repo?, sampleRepo, Repo.deleted,
    Store.statusOf, Store.finding?, FindingJobKind.resumableAt]

theorem listResumableJobs_heldChain :
    (heldChain .queued (n + 1)).listResumableJobs = [⟨n, heldAttempt n⟩] := by
  have hrows : rows (heldChain .queued (n + 1)).jobs =
      (List.range (n + 1)).map fun k => ⟨k, heldAttempt k⟩ := by
    simp only [rows, heldChain]
    apply List.ext_getElem?
    intro i
    simp only [List.getElem?_map, List.getElem?_zipIdx]
    by_cases hi : i < n + 1
    · simp [List.getElem?_range hi]
    · have hlength : (List.range (n + 1)).length ≤ i := by simpa using hi
      simp [List.getElem?_eq_none hlength]
  rw [Store.listResumableJobs, hrows, List.filter_map, List.range_succ, List.filter_append]
  have hold : (List.range n).filter ((fun row : Row Job =>
      (heldChain .queued (n + 1)).resumable row.id row.val) ∘
        fun k => ⟨k, heldAttempt k⟩) = [] := by
    rw [List.filter_eq_nil_iff]
    intro k hk
    simp only [Function.comp, resumable_heldChain, List.mem_range] at hk ⊢
    simp [hk]
  rw [hold]
  simp [resumable_heldChain]

theorem retireStranded_heldChain (hkept : FindingJobKind.fix.keptAt status = true) :
    (heldChain status n).retireStrandedSuspensions = (heldChain status n, []) := by
  have hnone : (rows (heldChain status n).jobs).filter
      (fun row => (heldChain status n).stranded row.id row.val) = [] := by
    rw [List.filter_eq_nil_iff]
    intro row hrow
    rw [mem_rows] at hrow
    obtain ⟨-, hval⟩ := job?_heldChain.1 (show (heldChain status n).job? row.id = _ from hrow)
    simp [hval, Store.stranded, heldAttempt, Store.statusOf, Store.finding?, heldChain, heldFinding,
      hkept]
  rw [Store.retireStrandedSuspensions, hnone]
  rfl

theorem runs_reconcile :
    Runs CallStep (runPhase .reconcile) ⟨heldChain .blocked n, trees⟩ (.ok .cycle)
      ⟨heldChain .blocked n, trees⟩ := by
  have hrunning : StoreCall.listRunningJobs.apply (heldChain .blocked n) =
      some ([], heldChain .blocked n) := by rw [StoreCall.apply, listRunningJobs_heldChain]
  exact .call (.store hrunning rfl) <| .call (.store rfl rfl) <| .call (.store hrunning rfl) .done

theorem runs_sweepWorkspaces :
    Runs CallStep sweepWorkspaces ⟨heldChain .blocked n, trees⟩ (.ok ())
      ⟨heldChain .blocked n, trees⟩ := by
  have hswept : StoreCall.retireStrandedSuspensions.apply (heldChain .blocked n) =
      some ([], heldChain .blocked n) := by
    rw [StoreCall.apply, retireStranded_heldChain rfl]
  exact .call (.store hswept rfl) <| .call (.ask _ _ []) .done

theorem runs_cycle :
    Runs CallStep (runPhase .cycle) ⟨heldChain .blocked n, trees⟩ (.ok .select)
      ⟨heldChain .blocked n, trees⟩ :=
  .call (.store rfl rfl) <| runs_sweepWorkspaces.bind <| .call (.store rfl rfl) <|
    .call (.ask _ _ false) .done

def heldPlan (n : Nat) : ResumePlan where
  kind := .finding .fix
  repoId := 0
  findingId := some 0
  predecessorId := n
  originJobId := 0
  sessionFile := ['s']
  pinnedSha := []
  handoff := false

theorem runs_resumePlan (hn : n ≤ resumeChainMaxDepth)
    (htree : (trees.any fun t => t.origin = 0) = true) :
    Runs CallStep (resumePlan ⟨n, heldAttempt n⟩) ⟨heldChain .queued (n + 1), trees⟩
      (.ok (.yes (heldPlan n))) ⟨heldChain .queued (n + 1), trees⟩ := by
  have hjob : (heldChain .queued (n + 1)).job? n = some (heldAttempt n) :=
    job?_heldChain.2 ⟨Nat.lt_succ_self n, rfl⟩
  have horigin : (StoreCall.resumeOriginJob n).apply (heldChain .queued (n + 1)) =
      some (0, heldChain .queued (n + 1)) := by
    rw [StoreCall.apply, (Store.resumeOriginJob_eq_iff descends_heldChain
      (below_heldChain (Nat.lt_succ_self n))).2 hn]
  have hsha : (StoreCall.pinnedSha n).apply (heldChain .queued (n + 1)) =
      some (some [], heldChain .queued (n + 1)) := by
    rw [StoreCall.apply, Store.pinnedSha, hjob]
    rfl
  have hblocker : (StoreCall.jobBlocker n).apply (heldChain .queued (n + 1)) =
      some (some ['b'], heldChain .queued (n + 1)) := by
    rw [StoreCall.apply, Store.jobBlocker, hjob]
    rfl
  have hdir : CallStep (.tree (.isDir 0)) ⟨heldChain .queued (n + 1), trees⟩ true
      ⟨heldChain .queued (n + 1), trees⟩ := htree ▸ CallStep.isDir 0 _
  refine .call (.store rfl rfl) <| .call (.store horigin rfl) <| .call (.store hsha rfl) <| .call hdir <|
    .call (.ask _ _ true) <| .call (.ask _ _ 0) <| .call (.store rfl rfl) ?_
  dsimp only [Prog.bind]
  split
  · exact .call (.store hblocker rfl) .done
  · exact .done

theorem runs_select (hn : n ≤ resumeChainMaxDepth)
    (htree : (trees.any fun t => t.origin = 0) = true) :
    Runs CallStep (runPhase .select) ⟨heldChain .queued (n + 1), trees⟩
      (.ok (.dispatch (.resume (heldPlan n)))) ⟨heldChain .queued (n + 1), trees⟩ := by
  have hlist : StoreCall.listResumableJobs.apply (heldChain .queued (n + 1)) =
      some ([⟨n, heldAttempt n⟩], heldChain .queued (n + 1)) := by
    rw [StoreCall.apply, listResumableJobs_heldChain]
  have htiers : Runs CallStep readTiers ⟨heldChain .queued (n + 1), trees⟩
      (.ok { rechecking := [], attention := [], pendingHarvest := [],
             queued := [⟨0, heldFinding .queued⟩] }) ⟨heldChain .queued (n + 1), trees⟩ :=
    .call (.store rfl rfl) <| .call (.store rfl rfl) <| .call (.store rfl rfl) <| .call (.store rfl rfl) .done
  refine Runs.bind (Runs.bind htiers (Runs.bind (x := some (.resume (heldPlan n))) ?_ .done)) .done
  exact Runs.bind (.call (.store hlist rfl) .done) <| Runs.bind (runs_resumePlan hn htree) .done

theorem length_heldChain : (heldChain status n).jobs.length = n := by simp [heldChain]

theorem modify_concat {α : Type} (l : List α) (x : α) (f : α → α) :
    (l ++ [x]).modify l.length f = l ++ [f x] := by
  induction l with
  | nil => rfl
  | cons y rest ih => simpa using ih

def heldThen (status : FindingStatus) (n : Nat) (row : Job) : Store :=
  (heldChain status n).addJob row

theorem modifyJob_heldThen {row : Job} {f : Job → Job} :
    (heldThen status n row).modifyJob n f = heldThen status n (f row) := by
  have hmodify := modify_concat (heldChain status n).jobs row f
  rw [length_heldChain] at hmodify
  simp only [heldThen, Store.modifyJob, Store.addJob, hmodify]

theorem heldThen_heldAttempt : heldThen status n (heldAttempt n) = heldChain status (n + 1) := by
  simp [heldThen, heldChain, Store.addJob, List.range_succ]

theorem job?_heldThen {row : Job} : (heldThen status n row).job? n = some row := by
  rw [heldThen, Store.job?_addJob, if_pos length_heldChain.symm]

def resumedAttempt (n : Nat) : Job :=
  { heldAttempt n with
    state := .running, sessionFile := none, tokensNew := none, killedReason := none }

theorem createJob_heldChain :
    (heldChain .fixing (n + 1)).createJob (.finding .fix) 0 (some 0) .running (some n) =
      some (heldThen .fixing (n + 1) (resumedAttempt (n + 1)), ⟨n + 1, []⟩) := by
  have hjob : (heldChain .fixing (n + 1)).job? n = some (heldAttempt n) :=
    job?_heldChain.2 ⟨Nat.lt_succ_self n, rfl⟩
  have hlive : ((heldChain .fixing (n + 1)).repo? 0).any (fun r => !r.deleted) = true := rfl
  rw [Store.createJob, if_pos hlive, Option.bind_some, hjob]
  simp only [length_heldChain]
  rfl

theorem runs_recordJob :
    Runs CallStep (recordJob n cappedRun (some (heldPlan k)))
      ⟨heldThen .fixing n (resumedAttempt n), trees⟩ (.ok .suspended)
      ⟨heldChain .fixing (n + 1), trees⟩ := by
  have hcomplete : (StoreCall.completeJob n
      { state := .suspended, tokensNew := 1, killedReason := some "cap".toList
        sessionFile := some ['s'] }).apply (heldThen .fixing n (resumedAttempt n)) =
      some ((), heldChain .fixing (n + 1)) := by
    rw [StoreCall.apply, Store.completeJob, modifyJob_heldThen, ← heldThen_heldAttempt]
    rfl
  have hstate : jobState cappedRun = .suspended := by decide
  have hkept : (!(heldPlan k).handoff && decide (cappedRun.killedReason =
      some "resume-unavailable".toList)) = false := by
    rw [show (heldPlan k).handoff = false from rfl]
    decide
  unfold recordJob
  simp only [hstate, hkept]
  exact .call (.store hcomplete rfl) .done

theorem blockFixJob_heldChain :
    (heldChain .fixing (n + 1)).blockFixJob 0 n ['b'] = some (heldChain .blocked (n + 1)) := by
  have hjob : (heldThen .fixing n (heldAttempt n)).job? n = some (heldAttempt n) := job?_heldThen
  rw [← heldThen_heldAttempt, Store.blockFixJob, hjob]
  simp only [modifyJob_heldThen]
  rw [← heldThen_heldAttempt]
  rfl

def heldStart (n : Nat) : FixStart where
  job := n
  ws := { originId := 0, pinned := [] }
  branch := fixBranch 0 (heldFinding .queued)
  previousBlocker := some ['b']

theorem runs_startFix :
    Runs CallStep (startFix 0 (heldFinding .queued) (some (heldPlan n)))
      ⟨heldChain .queued (n + 1), trees⟩ (.ok (some (heldStart (n + 1))))
      ⟨heldThen .fixing (n + 1) (resumedAttempt (n + 1)), trees⟩ := by
  have hjob : (heldChain .fixing (n + 1)).job? n = some (heldAttempt n) :=
    job?_heldChain.2 ⟨Nat.lt_succ_self n, rfl⟩
  have hblocker : (StoreCall.jobBlocker n).apply (heldChain .fixing (n + 1)) =
      some (some ['b'], heldChain .fixing (n + 1)) := by
    rw [StoreCall.apply, Store.jobBlocker, hjob]
    rfl
  have hcreate : (StoreCall.createJob (.finding .fix) 0 (some 0) .running (some n)).apply
      (heldChain .fixing (n + 1)) =
      some (some ⟨n + 1, []⟩, heldThen .fixing (n + 1) (resumedAttempt (n + 1))) := by
    rw [StoreCall.apply, createJob_heldChain]
  have hclaim : (StoreCall.claimInProgress 0 .queued .fixing).apply (heldChain .queued (n + 1)) =
      some (true, heldChain .fixing (n + 1)) := rfl
  refine Runs.call (.store rfl rfl) ?_
  refine Runs.call (.ask _ _ (.ok .approved)) ?_
  refine Runs.call (.store hclaim rfl) ?_
  refine Runs.call (.store hblocker rfl) ?_
  refine Runs.call (.ask _ _ (.ok ())) ?_
  exact Runs.call (.store hcreate rfl) .done

theorem runs_dispatch :
    ∃ trees', Runs CallStep (runPhase (.dispatch (.resume (heldPlan n))))
        ⟨heldChain .queued (n + 1), trees⟩ (.ok .reconcile) ⟨heldChain .blocked (n + 2), trees'⟩ ∧
      (n + 1 ≤ resumeChainMaxDepth → trees' = trees) := by
  have hblock : (StoreCall.blockFixJob 0 (n + 1) ['b']).apply (heldChain .fixing (n + 2)) =
      some ((), heldChain .blocked (n + 2)) := by
    rw [StoreCall.apply, blockFixJob_heldChain]
    rfl
  obtain ⟨trees', hclose, hkept⟩ : ∃ trees', Runs CallStep
      (closeWorkspace { originId := 0, pinned := [] }) ⟨heldChain .blocked (n + 2), trees⟩ (.ok ())
      ⟨heldChain .blocked (n + 2), trees'⟩ ∧ (n + 1 ≤ resumeChainMaxDepth → trees' = trees) := by
    have hchain : ∀ live, live = (heldChain .blocked (n + 2)).chainLive 0 →
        (StoreCall.chainLive 0).apply (heldChain .blocked (n + 2)) =
          some (live, heldChain .blocked (n + 2)) := by
      rintro live rfl
      rfl
    cases hlive : (heldChain .blocked (n + 2)).chainLive 0 with
    | true =>
      refine ⟨trees, Runs.bind (Runs.attempt (r := .ok ()) ?_) .done, fun _ => rfl⟩
      exact Runs.call (.store (hchain true hlive.symm) rfl) .done
    | false =>
      refine ⟨trees.filter fun t => t.origin ≠ 0,
        Runs.bind (Runs.attempt (r := .ok ()) ?_) .done, fun hn => ?_⟩
      · exact Runs.call (.store (hchain false hlive.symm) rfl) (Runs.call (.release 0 _) .done)
      · have hopen : (heldChain .blocked (n + 2)).live (n + 1) (heldAttempt (n + 1)) = true := by
          simp [Store.live, heldAttempt, heldChain_hasSuccessor]
        have hlast : n + 1 < n + 2 := Nat.lt_succ_self _
        rw [Store.chainLive_of_below (below_heldChain hlast) (job?_heldChain.2 ⟨hlast, rfl⟩) hopen
          hn] at hlive
        cases hlive
  refine ⟨trees', Runs.bind (x := ()) ?_ .done, hkept⟩
  refine Runs.call (.store rfl rfl) ?_
  show Runs CallStep (runFix 0 (heldFinding .queued) (some (heldPlan n))) _ _ _
  refine Runs.bind runs_startFix ?_
  refine Runs.call (.read _ _ (.ok ()) rfl) ?_
  refine Runs.call (.read _ _ (.ok cappedRun) rfl) ?_
  show Runs CallStep (concludeStartedFix 0 (heldFinding .queued) (heldStart (n + 1)) cappedRun
    (some (heldPlan n))) _ _ _
  refine Runs.bind (Runs.bind (Runs.attempt runs_recordJob) .done) ?_
  refine Runs.bind (x := .blocked ['b'] true)
    (Runs.call (.ask _ _ (.ok (some (.blocked ['b'])))) .done) ?_
  refine Runs.bind (x := ()) ?_ (Runs.bind (x := ()) .done hclose)
  refine Runs.call (.store hblock rfl) ?_
  refine Runs.call (.ask _ _ (.ok ())) ?_
  exact Runs.call (.store rfl rfl) .done

end

def firstHeld : Config daemon :=
  playDaemon (List.replicate 4 holding)
    (requested queueVerdict (playDaemon (List.replicate 5 scanning) booted))

theorem reachable_firstHeld : daemon.Reachable firstHeld :=
  reachable_playDaemon (reachable_requested (r := .verdict 0 .queued none)
    (reachable_playDaemon reachable_booted) (.verdict rfl rfl (by decide) (by decide)))

def heldTrees : List Tree :=
  [{ origin := 0, spec := .branch "improve/a-0".toList "origin/m".toList }]

theorem reachable_restarted :
    daemon.Reachable ⟨runPhase .startup, heldChain .blocked 1, heldTrees⟩ := by
  have hstore : firstHeld.state.store = heldChain .blocked 1 := by decide +kernel
  have htrees : firstHeld.state.trees = heldTrees := by decide +kernel
  have hreach := reachable_firstHeld
  generalize firstHeld = x at *
  obtain ⟨p, s, trees⟩ := x
  obtain rfl : s = heldChain .blocked 1 := hstore
  obtain rfl : trees = heldTrees := htrees
  exact hreach.step (.crash trivial)

theorem reachable_requeued {n : Nat}
    (h : daemon.Reachable ⟨runPhase .reconcile, heldChain .blocked (n + 1), heldTrees⟩) :
    daemon.Reachable ⟨runPhase .select, heldChain .queued (n + 1), heldTrees⟩ :=
  ((h.runs runs_reconcile).runs runs_cycle).step (.env (.request (r := .verdict 0 .queued none)
    (@Accepts.verdict _ _ .blocked _ _ rfl rfl (by decide) (by decide))))

/-- A chain as long as the operator keeps requeueing its finding, up to what the walks reach. -/
theorem reachable_heldChain {n : Nat} (hn : n ≤ resumeChainMaxDepth) :
    daemon.Reachable ⟨runPhase .reconcile, heldChain .blocked (n + 1), heldTrees⟩ := by
  induction n with
  | zero =>
    exact reachable_restarted.runs (.call (.store rfl rfl) (runs_sweepWorkspaces.bind .done))
  | succ n ih =>
    have hn' : n ≤ resumeChainMaxDepth := by omega
    obtain ⟨trees, hdispatch, hkept⟩ := @runs_dispatch n heldTrees
    rw [hkept hn] at hdispatch
    exact ((reachable_requeued (ih hn')).runs (runs_select hn' rfl)).runs hdispatch

theorem liveTree_kept_held : TreeKept ⟨heldChain .blocked 4, heldTrees⟩ 0 3 := by
  have hlast : 3 < 4 := by omega
  have hlive : (heldChain .blocked 4).live 3 (heldAttempt 3) = true := by
    simp [Store.live, heldAttempt, heldChain_hasSuccessor]
  exact ((liveTree_kept_iff (reachable_heldChain (show 3 ≤ resumeChainMaxDepth by decide))
    (job?_heldChain.2 ⟨hlast, rfl⟩) hlive).2 0 3 (below_heldChain hlast)).2 (by decide)

/-- The 66th attempt's tree is looked for under another job, and not spared. -/
theorem liveTree_lost : ¬ ∀ (x : Config daemon) (root depth id : Nat) (j : Job),
    daemon.Reachable x → x.state.store.job? id = some j → x.state.store.live id j = true →
      x.state.store.Below root depth id → TreeKept x.state root id := by
  intro h
  have hfar := reachable_heldChain (Nat.le_refl resumeChainMaxDepth)
  obtain ⟨trees, hdispatch, -⟩ := @runs_dispatch resumeChainMaxDepth heldTrees
  have hreach := ((reachable_requeued hfar).runs (runs_select (Nat.le_refl _) rfl)).runs hdispatch
  have hlast : 65 < 66 := by omega
  have hbelow : (heldChain .blocked 66).Below 0 65 65 := below_heldChain hlast
  have hkept := h _ 0 65 65 (heldAttempt 65) hreach (job?_heldChain.2 ⟨hlast, rfl⟩)
    (by simp [Store.live, heldAttempt, resumeChainMaxDepth, heldChain_hasSuccessor]) hbelow
  exact absurd ((Store.resumeOriginJob_eq_iff descends_heldChain hbelow).1 hkept.origin) (by decide)

end Hunter
