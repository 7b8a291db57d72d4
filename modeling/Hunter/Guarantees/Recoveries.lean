import Hunter.Guarantees.HeldFixes
import Hunter.Guarantees.LiveTrees
import Hunter.Guarantees.MissingSessions
set_option autoImplicit false

namespace Hunter
open Effect

/-! What start-up recovery makes of an attempt the daemon died in. -/

namespace Store

/-- Attempt `k` is under way: it goes on with the suspended `p`, and nothing with it. -/
structure UnderWay (s : Store) (k p : Nat) (j : Job) : Prop where
  job : s.job? k = some j
  running : j.state = .running
  resumes : j.resumedFrom = some p
  checkpoint : ∃ q, s.job? p = some q ∧ q.state = .suspended ∧ q.kind = j.kind
  last : s.hasSuccessor k = false

def Solitary (s : Store) : Prop :=
  ∀ k p j q, s.job? k = some j → j.state = .running → j.resumedFrom = some p →
    s.job? p = some q → q.kind = j.kind → s.hasSuccessor k = false →
      ∀ id i, s.job? id = some i → i.state = .running → id = k

end Store

section
variable {β : Type} {c : StoreCall β} {s s' : Store} {b : β} {a : Memory}

/-- A new job finds at most the one running that it goes on with. -/
theorem idle_of_inserts {n id : Nat} {jn i : Job} (hallow : c.allowed a)
    (hknown : ∀ y ∈ a, y.holds s) (hinsert : c.inserts s n jn b) (hi : s.job? id = some i)
    (hrunning : i.state = .running) :
    jn.kind = .finding .harvest ∧ jn.resumedFrom = some id ∧ i.kind = .finding .engage := by
  cases c with
  | createJob kind repoId findingId state resumedFrom =>
    obtain ⟨-, -, rfl⟩ := hinsert
    rcases hallow.2.idle with hidle | ⟨p, rfl, rfl, f, -, hengaged, halone⟩
    · cases hknown _ hidle id i hi hrunning
    · obtain rfl : id = p := by simpa using hknown _ halone id i hi hrunning
      obtain ⟨j, hj, hkind, -⟩ := hknown _ hengaged
      cases hi.symm.trans hj
      exact ⟨rfl, rfl, hkind⟩
  | _ => exact hinsert.elim

theorem solitary_apply (h : c.apply s = some (b, s')) (hallow : c.allowed a)
    (hknown : ∀ y ∈ a, y.holds s) (hdescends : s.Descends) (hsolitary : s.Solitary) :
    s'.Solitary := by
  have hfair := fair_of_allowed hallow
  intro k p j' q' hj' hrunning hfrom hq' hkind hlast id i' hi' hrunning'
  rcases StoreCall.job_cases h hfair hi' with ⟨i, hi, hichange⟩ | hiinsert
  · have hiran := was_running hallow hknown hi hichange hrunning'
    rcases StoreCall.job_cases h hfair hj' with ⟨j, hj, hchange⟩ | hinsert
    · have hlast' : s.hasSuccessor k = false := by
        rw [← Bool.not_eq_true] at hlast ⊢
        exact fun hsucc => hlast (StoreCall.successor_stays h hfair hsucc)
      have hfrom' := hchange.resumedFrom.symm.trans hfrom
      rcases StoreCall.job_cases h hfair hq' with ⟨q, hq, hqchange⟩ | hqinsert
      · exact hsolitary k p j q hj (was_running hallow hknown hj hchange hrunning) hfrom' hq
          (hqchange.kind.symm.trans (hkind.trans hchange.kind)) hlast' id i hi hiran
      · have hp := StoreCall.inserts_id hqinsert
        have hk := Store.job?_lt hj
        have := hdescends k j p hj hfrom'
        omega
    · obtain ⟨hharvest, hof, hengage⟩ := idle_of_inserts hallow hknown hinsert hi hiran
      cases hfrom.symm.trans hof
      cases StoreCall.job_cases h hfair hq' with
      | inl hold =>
        obtain ⟨q, hq, hqchange⟩ := hold
        cases hi.symm.trans hq
        rw [hqchange.kind, hengage, hharvest] at hkind
        cases hkind
      | inr hqinsert =>
        have hp := StoreCall.inserts_id hqinsert
        have := Store.job?_lt hi
        omega
  · rcases StoreCall.job_cases h hfair hj' with ⟨j, hj, hchange⟩ | hinsert
    · have hran := was_running hallow hknown hj hchange hrunning
      obtain ⟨-, hof, -⟩ := idle_of_inserts hallow hknown hiinsert hj hran
      rw [Store.hasSuccessor_iff.2 ⟨id, i', hi', hof⟩] at hlast
      cases hlast
    · rw [StoreCall.inserts_id hiinsert, StoreCall.inserts_id hinsert]

end

theorem solitary_invariant :
    Machine.InvariantUnder daemon follower Known fun _ w => w.store.Solitary where
  init w hw := by
    cases hw
    exact fun k p j q hj => by simp [Store.job?] at hj
  call a c w b w' hallow hknown hsolitary h _ := by
    cases c with
    | ask q =>
      rw [show w' = w from h.leaves]
      exact hsolitary
    | tree c =>
      rw [show w'.store = w.store from h.leaves]
      exact hsolitary
    | store c =>
      rcases h.leaves with ⟨b', s', rfl, happly, rfl⟩ | ⟨-, rfl⟩
      · exact solitary_apply happly hallow hknown.facts hknown.descends hsolitary
      · exact hsolitary
  finish a phase w _ _ hsolitary := hsolitary
  abort a w _ _ hsolitary := hsolitary
  crash a p w _ _ _ hsolitary := hsolitary
  env a w w' _ hsolitary henv := by
    cases henv with
    | treeLost => exact hsolitary
    | @request r s' haccept =>
      have hjob : ∀ id, s'.job? id = w.store.job? id := fun id => by
        rw [Store.job?, haccept.jobs, Store.job?]
      intro k p j q hj hrunning hfrom hq hkind hlast id i hi
      rw [hjob] at hj hq hi
      refine hsolitary k p j q hj hrunning hfrom hq hkind ?_ id i hi
      rw [Store.hasSuccessor, haccept.jobs] at hlast
      exact hlast

namespace Store
variable {s s' : Store}

def SameLinks (s s' : Store) : Prop :=
  ∀ id, (s'.job? id).map Job.resumedFrom = (s.job? id).map Job.resumedFrom

theorem goesOn_iff {id p : Nat} :
    s.GoesOn id p ↔ (s.job? id).map Job.resumedFrom = some (some p) := by
  simp [GoesOn]

theorem SameLinks.goesOn (h : s.SameLinks s') : s'.GoesOn = s.GoesOn := by
  funext id p
  rw [eq_iff_iff, goesOn_iff, goesOn_iff, h id]

theorem hasSuccessor_iff_goesOn {p : Nat} : s.hasSuccessor p = true ↔ ∃ id, s.GoesOn id p :=
  hasSuccessor_iff

theorem SameLinks.hasSuccessor (h : s.SameLinks s') (p : Nat) :
    s'.hasSuccessor p = s.hasSuccessor p := by
  rw [Bool.eq_iff_iff, hasSuccessor_iff_goesOn, hasSuccessor_iff_goesOn, h.goesOn]

theorem SameLinks.ancestry (h : s.SameLinks s') (depth id : Nat) :
    s'.ancestry depth id = s.ancestry depth id := by
  induction depth generalizing id with
  | zero =>
    have hid := congrArg Option.isSome (h id)
    simp only [Option.isSome_map] at hid
    simp only [Store.ancestry, hid]
  | succ depth ih =>
    have hid := h id
    simp only [Store.ancestry]
    cases hj' : s'.job? id with
    | none =>
      rw [hj'] at hid
      simp [Option.map_eq_none_iff.1 hid.symm]
    | some j' =>
      rw [hj'] at hid
      obtain ⟨j, hj, hfrom⟩ := Option.map_eq_some_iff.1 hid.symm
      simp only [hj, hfrom]
      cases j'.resumedFrom with
      | none => rfl
      | some p => simp only [ih p]

theorem SameLinks.origin (h : s.SameLinks s') (id : Nat) :
    s'.resumeOriginJob id = s.resumeOriginJob id := by
  rw [resumeOriginJob, h.ancestry, resumeOriginJob]

/-- Going up from a job that goes on with `p`, one gets no further than the last attempt. -/
theorem descendants_of_last (hunbranched : s.Unbranched) {k p id : Nat} (hk : s.GoesOn k p)
    (hlast : s.hasSuccessor k = false) (hid : Relation.ReflTransGen s.GoesOn id p) :
    id = p ∨ id = k := by
  cases hid with
  | refl => exact Or.inl rfl
  | @tail c _ hup hlink =>
    obtain ⟨j, hj, hfrom⟩ := hlink
    obtain ⟨j', hj', hfrom'⟩ := hk
    obtain rfl := hunbranched c k j j' p hj hj' hfrom hfrom'
    exact Or.inr (eq_of_open hlast hup)

end Store

def recovery : Act Phase := runPhase .startup >>= runPhase

/-- What the ledgers of the chains hold when the daemon starts again, and which of their trees
something still runs in. -/
structure Aftermath where
  usage : Nat → Option (Text × Int)
  inUse : Nat → Bool

namespace Aftermath

def tells (left : Aftermath) : {β : Type} → Call β → β → Prop
  | _, .tree (.ledgerUsage origin), b => b = left.usage origin
  | _, .ask (.treeInUse origin), b => b = left.inUse origin
  | _, _, _ => True

def Step (left : Aftermath) {β : Type} (c : Call β) (w : World) (b : β) (w' : World) : Prop :=
  CallStep c w b w' ∧ left.tells c b

/-- The ledger holds more than the attempts before `k` spent, and nothing runs in the tree. -/
def FoundWork (left : Aftermath) (s : Store) (k : Nat) : Prop :=
  ∃ file tokens, left.usage (s.resumeOriginJob k) = some (file, tokens) ∧
    s.ancestorTokens k < tokens ∧ left.inUse (s.resumeOriginJob k) = false

variable {left : Aftermath} {α β : Type} {w w' : World} {a : α}

theorem runs_sql {c : StoreCall β} {f : β → Act α}
    (h : Runs left.Step (sql c >>= f) w (.ok a) w') :
    ∃ b s, c.apply w.store = some (b, s) ∧
      Runs left.Step (f b) { w with store := s } (.ok a) w' := by
  cases h with
  | call hstep hrest =>
    rcases hstep.1.leaves with ⟨b, s, rfl, happly, rfl⟩ | ⟨⟨e, rfl⟩, rfl⟩
    · exact ⟨b, s, happly, hrest⟩
    · cases hrest

theorem runs_read {c : StoreCall β} {answer : β} {f : β → Act α}
    (hread : c.apply w.store = some (answer, w.store))
    (h : Runs left.Step (sql c >>= f) w (.ok a) w') : Runs left.Step (f answer) w (.ok a) w' := by
  obtain ⟨b, s, happly, h⟩ := runs_sql h
  cases hread.symm.trans happly
  exact h

theorem runs_ledger {origin : Nat} {f : Option (Text × Int) → Act α}
    (h : Runs left.Step (tree (.ledgerUsage origin) >>= f) w (.ok a) w') :
    Runs left.Step (f (left.usage origin)) w (.ok a) w' := by
  cases h with
  | call hstep hrest =>
    obtain rfl : _ = left.usage origin := hstep.2
    obtain rfl : _ = w := hstep.1.leavesTrees
    exact hrest

theorem runs_inUse {origin : Nat} {f : Bool → Act α}
    (h : Runs left.Step (ask (.treeInUse origin) >>= f) w (.ok a) w') :
    Runs left.Step (f (left.inUse origin)) w (.ok a) w' := by
  cases h with
  | call hstep hrest =>
    obtain rfl : _ = left.inUse origin := hstep.2
    obtain rfl : _ = w := hstep.1.leaves
    exact hrest

theorem orphanWork_ends {k : Nat} {found : Option (Text × Int)}
    (h : Runs left.Step (orphanWork k) w (.ok found) w') :
    w' = w ∧ (found.isSome = true ↔ left.FoundWork w.store k) := by
  have hledger := runs_ledger (runs_read rfl h)
  cases husage : left.usage (w.store.resumeOriginJob k) with
  | none =>
    rw [husage] at hledger
    cases hledger
    exact ⟨rfl, by simp [FoundWork, husage]⟩
  | some found =>
    obtain ⟨file, tokens⟩ := found
    rw [husage] at hledger
    have hown := runs_read rfl hledger
    dsimp only at hown
    split at hown
    · rename_i hspent
      cases hown
      refine ⟨rfl, iff_of_false (by simp) ?_⟩
      rintro ⟨file', tokens', husage', hwork, -⟩
      cases husage.symm.trans husage'
      omega
    · rename_i hspent
      have htree := runs_inUse hown
      cases hidle : left.inUse (w.store.resumeOriginJob k) with
      | true =>
        rw [hidle] at htree
        cases htree
        refine ⟨rfl, iff_of_false (by simp) ?_⟩
        rintro ⟨-, -, -, -, hidle'⟩
        cases hidle.symm.trans hidle'
      | false =>
        rw [hidle] at htree
        cases htree
        exact ⟨rfl, iff_of_true rfl ⟨file, tokens, husage, by omega, hidle⟩⟩

def Suspends (left : Aftermath) (s s' : Store) (k : Nat) : Prop :=
  left.FoundWork s k ∧ (∃ file tokens, s' = s.suspendOrphan k file tokens) ∨
    ¬ left.FoundWork s k ∧ s' = s

theorem suspendOrphans_ends {row : Row Job}
    (h : Runs left.Step (suspendOrphans [row]) w (.ok ()) w') :
    left.Suspends w.store w'.store row.id := by
  obtain ⟨found, v, hfound, hrest⟩ := h.of_bind_ok
  obtain ⟨rfl, hiff⟩ := orphanWork_ends hfound
  cases found with
  | none =>
    cases hrest
    exact Or.inr ⟨fun hwork => by simpa using hiff.2 hwork, rfl⟩
  | some found =>
    obtain ⟨⟨⟩, s, happly, hdone⟩ := runs_sql hrest
    cases happly
    cases hdone
    exact Or.inl ⟨hiff.1 rfl, _, _, rfl⟩

theorem requeueStuck_ends {rows : List (Row Finding)}
    (h : Runs left.Step (requeueStuck rows) w (.ok ()) w') :
    w'.store = rows.foldl (fun s row => s.setFindingStatus row.id .queued) w.store := by
  induction rows generalizing w with
  | nil =>
    cases h
    rfl
  | cons row rest ih =>
    obtain ⟨⟨⟩, s, happly, hrest⟩ := runs_sql h
    cases happly
    exact ih hrest

theorem orphanJobs_ends {rows : List (Row Job)}
    (h : Runs left.Step (orphanJobs rows) w (.ok ()) w') :
    w'.store = rows.foldl (fun s row => s.orphanJob row.id) w.store := by
  induction rows generalizing w with
  | nil =>
    cases h
    rfl
  | cons row rest ih =>
    obtain ⟨⟨⟩, s, happly, hrest⟩ := runs_sql h
    cases happly
    exact ih hrest

theorem sweep_ends {r : Except Text Unit} (h : Runs left.Step sweep w r w') :
    w'.store = w.store ∨ w'.store = w.store.retireStrandedSuspensions.1 := by
  have hchains : ∀ {origins : List Nat} {v : World} {r : Except Text Unit},
      Runs left.Step (sweepChains origins) v r w' → w'.store = v.store := by
    intro origins
    induction origins with
    | nil =>
      intro v r h
      cases h
      rfl
    | cons origin rest ih =>
      intro v r h
      rcases h.of_bind with ⟨_, u, hfirst, hrest⟩ | ⟨e, -, hfirst⟩
      · exact (ih hrest).trans (releaseIfIdle_spares (hfirst.mono fun _ _ _ _ h => h.1)).1
      · exact (releaseIfIdle_spares (hfirst.mono fun _ _ _ _ h => h.1)).1
  cases h with
  | call hstep hrest =>
    rcases hstep.1.leaves with ⟨b, s, rfl, happly, rfl⟩ | ⟨⟨e, rfl⟩, rfl⟩
    · cases happly
      cases hrest with
      | call hask hrest =>
        obtain rfl := hask.1.leaves
        exact Or.inr (hchains hrest)
    · cases hrest
      exact Or.inl rfl

end Aftermath

def Job.orphan (j : Job) : Job :=
  { j with state := .killed, killedReason := some "orphaned".toList }

def Finding.requeue (x : Finding) : Finding := { x with status := .queued }

namespace Store
variable {s s' : Store}

def requeued (s : Store) : Store :=
  (s.findingsWithStatus .fixing).foldl (fun s row => s.setFindingStatus row.id .queued) s

def orphaned (s : Store) : Store :=
  s.listRunningJobs.foldl (fun s row => s.orphanJob row.id) s

theorem jobs_requeued : s.requeued.jobs = s.jobs := by
  unfold requeued
  refine foldl_keeps (g := Store.jobs) (fun s row => ?_) _ s
  rfl

theorem repos_requeued : s.requeued.repos = s.repos := by
  unfold requeued
  refine foldl_keeps (g := Store.repos) (fun s row => ?_) _ s
  rfl

theorem findings_orphaned : s.orphaned.findings = s.findings := by
  unfold orphaned
  refine foldl_keeps (g := Store.findings) (fun s row => ?_) _ s
  rfl

theorem repos_orphaned : s.orphaned.repos = s.repos := by
  unfold orphaned
  refine foldl_keeps (g := Store.repos) (fun s row => ?_) _ s
  rfl

theorem finding?_requeued {f : Nat} : s.requeued.finding? f =
    (s.finding? f).map fun x => if x.status = .fixing then x.requeue else x := by
  have hfold : s.requeued = ((s.findingsWithStatus .fixing).map Row.id).foldl
      (fun s id => s.modifyFinding id Finding.requeue) s := by
    rw [List.foldl_map]
    rfl
  rw [hfold, finding?_foldl_modifyFinding (f := Finding.requeue) fun _ => rfl]
  cases hx : s.finding? f with
  | none => simp
  | some x =>
    have hmem : f ∈ (s.findingsWithStatus .fixing).map Row.id ↔ x.status = .fixing := by
      simp only [List.mem_map, mem_findingsWithStatus]
      constructor
      · rintro ⟨row, ⟨hrow, hstatus⟩, rfl⟩
        cases hx.symm.trans hrow
        exact hstatus
      · exact fun hstatus => ⟨⟨f, x⟩, ⟨hx, hstatus⟩, rfl⟩
    simp only [Option.map_some, hmem]
    split <;> rfl

theorem statusOf_requeued {f : Option Nat} : s.requeued.statusOf f =
    (s.statusOf f).map fun status => if status = .fixing then .queued else status := by
  cases f with
  | none => rfl
  | some f =>
    simp only [statusOf, Option.bind_some, finding?_requeued, Option.map_map]
    refine Option.map_congr fun x _ => ?_
    simp only [Function.comp_apply]
    split <;> rfl

theorem job?_orphaned {id : Nat} : s.orphaned.job? id =
    (s.job? id).map fun j => if j.state = .running then Job.orphan j else j := by
  have hfold : s.orphaned = (s.listRunningJobs.map Row.id).foldl
      (fun s id => s.modifyJob id Job.orphan) s := by
    rw [List.foldl_map]
    rfl
  rw [hfold, job?_foldl_modifyJob (g := Job.orphan) fun _ => rfl]
  cases hj : s.job? id with
  | none => simp
  | some j =>
    have hmem : id ∈ s.listRunningJobs.map Row.id ↔ j.state = .running := by
      rw [listRunningJobs, mem_filter_rows]
      simp [hj]
    simp only [Option.map_some, hmem]
    split <;> rfl

/-- The chains are as before, and so are what their jobs spent and which of them run. -/
structure Swept (s s' : Store) : Prop where
  links : s.SameLinks s'
  tokens : ∀ id, (s'.job? id).map Job.tokensNew = (s.job? id).map Job.tokensNew
  running : ∀ id j, j.state = .running → (s'.job? id = some j ↔ s.job? id = some j)
  findings : s'.findings = s.findings
  live : ∀ r, s'.liveRepo r = s.liveRepo r

theorem Reaped.swept (h : s.Reaped s') : s.Swept s' where
  links _ := by rw [job?, job?, h.jobs]
  tokens _ := by rw [job?, job?, h.jobs]
  running _ _ _ := by rw [job?, job?, h.jobs]
  findings := h.findings
  live := h.live

theorem Swept.trans {t : Store} (h : s.Swept t) (h' : t.Swept s') : s.Swept s' where
  links id := (h'.links id).trans (h.links id)
  tokens id := (h'.tokens id).trans (h.tokens id)
  running id j hj := (h'.running id j hj).trans (h.running id j hj)
  findings := h'.findings.trans h.findings
  live r := (h'.live r).trans (h.live r)

theorem swept_retireStrandedSuspensions : s.Swept s.retireStrandedSuspensions.1 where
  links id := by
    rw [job?_retireStrandedSuspensions, Option.map_map]
    refine Option.map_congr fun j _ => ?_
    simp only [Function.comp_apply]
    split <;> rfl
  tokens id := by
    rw [job?_retireStrandedSuspensions, Option.map_map]
    refine Option.map_congr fun j _ => ?_
    simp only [Function.comp_apply]
    split <;> rfl
  running id j hrunning := by
    rw [job?_retireStrandedSuspensions]
    cases hi : s.job? id with
    | none => exact Iff.rfl
    | some i =>
      by_cases hstranded : s.stranded id i = true
      · have hsuspended : i.state = .suspended := by
          unfold stranded at hstranded
          rw [Bool.and_eq_true, Bool.and_eq_true] at hstranded
          exact (openSuspension_iff.1 hstranded.1.1).1
        rw [Option.map_some, if_pos hstranded, Option.some.injEq, Option.some.injEq]
        constructor
        · rintro rfl
          cases hrunning
        · rintro rfl
          cases hsuspended.symm.trans hrunning
      · rw [Option.map_some, if_neg hstranded]
  findings := findings_retireStrandedSuspensions
  live _ := liveRepo_congr repos_retireStrandedSuspensions

theorem Swept.ancestorTokens (h : s.Swept s') (id : Nat) :
    s'.ancestorTokens id = s.ancestorTokens id := by
  have htokens : ∀ k, (s'.job? k).bind Job.tokensNew = (s.job? k).bind Job.tokensNew := fun k => by
    simpa only [Option.bind_map, Function.comp_def] using
      congrArg (fun o => o.bind fun t => t) (h.tokens k)
  simp only [Store.ancestorTokens, h.links.ancestry, tokensOf, htokens]

theorem Swept.foundWork {left : Aftermath} (h : s.Swept s') (k : Nat) :
    left.FoundWork s' k ↔ left.FoundWork s k := by
  simp only [Aftermath.FoundWork, h.links.origin, h.ancestorTokens]

/-- Where one job runs, it is the one listed. -/
theorem listRunningJobs_eq {k : Nat} {j : Job} (hj : s.job? k = some j)
    (hrunning : j.state = .running)
    (halone : ∀ id i, s.job? id = some i → i.state = .running → id = k) :
    s.listRunningJobs = [⟨k, j⟩] := by
  have hmem : ∀ row, row ∈ s.listRunningJobs ↔ row = ⟨k, j⟩ := by
    intro row
    simp only [listRunningJobs, List.mem_filter, mem_rows, decide_eq_true_eq]
    constructor
    · rintro ⟨hrow, hstate⟩
      obtain ⟨id, i⟩ := row
      obtain rfl := halone id i hrow hstate
      cases hj.symm.trans hrow
      rfl
    · rintro rfl
      exact ⟨hj, hrunning⟩
  have hnodup : s.listRunningJobs.Nodup := (nodup_filter_rows _).of_map _
  exact List.perm_singleton.1
    ((List.perm_ext_iff_of_nodup hnodup (List.nodup_singleton _)).2 fun row => by
      rw [hmem, List.mem_singleton])

end Store

theorem recovery_ends {left : Aftermath} {phase : Phase} {w w' : World}
    (h : Runs left.Step recovery w (.ok phase) w') : ∃ s t, w.store.Swept s ∧
      (∀ row, s.listRunningJobs = [row] → left.Suspends s t row.id) ∧
        w'.store = t.requeued.orphaned := by
  obtain ⟨next, v, hstart, hrest⟩ := h.of_bind_ok
  obtain ⟨_, v0, hreap, hstart⟩ := hstart.of_bind_ok
  have hreaped := (reaped_reapDeletedRepos (hreap.mono fun _ _ _ _ h => h.1)).swept
  obtain ⟨_, v', hsweep, hdone⟩ := hstart.of_bind_ok
  cases hdone
  obtain ⟨r, v', hattempt, hdone⟩ := hsweep.of_bind_ok
  cases hdone
  obtain ⟨_, -, hswept⟩ := hattempt.of_attempt
  obtain ⟨_, u, hreconcile, hdone⟩ := hrest.of_bind_ok
  cases hdone
  obtain ⟨_, u, hsuspend, hrecover⟩ := (Aftermath.runs_read rfl hreconcile).of_bind_ok
  obtain ⟨_, u', hrequeue, horphan⟩ := (Aftermath.runs_read rfl hrecover).of_bind_ok
  refine ⟨v.store, u.store, ?_, fun row hrow => ?_, ?_⟩
  · rcases Aftermath.sweep_ends hswept with hsame | hretired
    · rw [hsame]
      exact hreaped
    · rw [hretired]
      exact hreaped.trans Store.swept_retireStrandedSuspensions
  · rw [hrow] at hsuspend
    exact Aftermath.suspendOrphans_ends hsuspend
  · have hjobs := Aftermath.orphanJobs_ends (Aftermath.runs_read rfl horphan)
    rw [Aftermath.requeueStuck_ends hrequeue] at hjobs
    exact hjobs

/-- A job is kept where, with nothing left at fixing, it is offered or held. -/
theorem FindingJobKind.keptAt_requeued {kind : FindingJobKind} {status : FindingStatus} :
    kind.keptAt status = true ↔
      kind.resumableAt (if status = .fixing then .queued else status) = true ∨
        kind = .fix ∧ (if status = .fixing then .queued else status) = .blocked := by
  cases kind <;> cases status <;> simp [keptAt, resumableAt]

namespace Store
variable {s s' : Store}

/-- A job of `p`'s chain is offered, or held for the operator. -/
def CheckpointKept (s : Store) (p : Nat) : Prop :=
  ∃ id j, s.job? id = some j ∧ Relation.ReflTransGen s.GoesOn id p ∧
    (⟨id, j⟩ ∈ s.listResumableJobs ∨
      ∃ f, s.HeldFix f id j ∧ s.statusOf (some f) = some .blocked)

/-- The job's finding is where a suspended job of its kind is kept. -/
def atWork (s : Store) (j : Job) : Bool :=
  match j.kind with
  | .repo _ => true
  | .finding kind => (s.statusOf j.findingId).any kind.keptAt

/-- What a whole recovery leaves: its chains as before, and no finding at fixing. -/
structure Recovered (s s' : Store) : Prop where
  links : s.SameLinks s'
  live : ∀ r, s'.liveRepo r = s.liveRepo r
  status : ∀ f, s'.statusOf f =
    (s.statusOf f).map fun status => if status = .fixing then .queued else status

theorem SameLinks.trans {t : Store} (h : s.SameLinks t) (h' : t.SameLinks s') : s.SameLinks s' :=
  fun id => (h' id).trans (h id)

theorem sameLinks_suspendOrphan {k : Nat} {file : Text} {tokens : Int} :
    s.SameLinks (s.suspendOrphan k file tokens) := by
  intro id
  rw [suspendOrphan, job?_modifyJob]
  split
  · rw [Option.map_map]
    rfl
  · rfl

theorem job?_requeued_orphaned {id : Nat} : s.requeued.orphaned.job? id =
    (s.job? id).map fun j => if j.state = .running then j.orphan else j := by
  rw [job?_orphaned, job?, jobs_requeued, job?]

theorem recovered_requeued_orphaned : s.Recovered s.requeued.orphaned where
  links id := by
    rw [job?_requeued_orphaned, Option.map_map]
    refine Option.map_congr fun j _ => ?_
    simp only [Function.comp_apply]
    split <;> rfl
  live _ := liveRepo_congr (by rw [repos_orphaned, repos_requeued])
  status f := by
    rw [← statusOf_requeued]
    cases f with
    | none => rfl
    | some f => simp only [statusOf, Option.bind_some, finding?, findings_orphaned]

theorem Swept.recovered {t : Store} (h : s.Swept t) (h' : t.Recovered s') : s.Recovered s' where
  links := h.links.trans h'.links
  live r := (h'.live r).trans (h.live r)
  status f := by
    rw [h'.status]
    cases f with
    | none => rfl
    | some f => simp only [statusOf, Option.bind_some, finding?, h.findings]

theorem UnderWay.swept {k p : Nat} {j : Job} (h : s.UnderWay k p j) (hsolitary : s.Solitary)
    (hswept : s.Swept s') : s'.listRunningJobs = [⟨k, j⟩] := by
  obtain ⟨q, hq, -, hkind⟩ := h.checkpoint
  have hrunning := fun id i (hi : Job.state i = .running) => (hswept.running id i hi)
  refine listRunningJobs_eq ((hrunning k j h.running).2 h.job) h.running fun id i hi hstate => ?_
  exact hsolitary k p j q h.job h.running h.resumes hq hkind h.last id i
    ((hrunning id i hstate).1 hi) hstate

/-- Only the attempt itself can be continued of the chain it went on with. -/
theorem UnderWay.tip {k p id : Nat} {j i : Job} (h : s.UnderWay k p j) (hrec : s.Recovered s')
    (hunbranched : s.Unbranched) (hup : Relation.ReflTransGen s'.GoesOn id p)
    (hopen : s'.openSuspension id i = true) : id = k := by
  rw [hrec.links.goesOn] at hup
  rcases descendants_of_last hunbranched ⟨j, h.job, h.resumes⟩ h.last hup with rfl | rfl
  · have hlast := (openSuspension_iff.1 hopen).2
    rw [hrec.links.hasSuccessor, hasSuccessor_iff.2 ⟨k, j, h.job, h.resumes⟩] at hlast
    cases hlast
  · rfl

theorem openSuspension_of_kept {id : Nat} {j : Job}
    (h : ⟨id, j⟩ ∈ s.listResumableJobs ∨
      ∃ f, s.HeldFix f id j ∧ s.statusOf (some f) = some .blocked) :
    s.openSuspension id j = true := by
  rcases h with hoffered | ⟨f, hheld, -⟩
  · have hresumable := (mem_listResumableJobs.1 hoffered).2
    simp only [resumable, Bool.and_eq_true] at hresumable
    exact hresumable.1.1.1
  · exact hheld.2.2.2

theorem UnderWay.not_kept {k p : Nat} {j j' : Job} (h : s.UnderWay k p j)
    (hrec : s.Recovered s') (hunbranched : s.Unbranched) (hj' : s'.job? k = some j')
    (hstate : j'.state ≠ .suspended) : ¬ s'.CheckpointKept p := by
  rintro ⟨id, i, hi, hup, hkept⟩
  have hopen := openSuspension_of_kept hkept
  obtain rfl := h.tip hrec hunbranched hup hopen
  cases hi.symm.trans hj'
  exact hstate (openSuspension_iff.1 hopen).1

/-- One that is suspended with its session is continued where its finding still is at work. -/
theorem UnderWay.kept_iff {k p : Nat} {j j' : Job} (h : s.UnderWay k p j)
    (hrec : s.Recovered s') (hunbranched : s.Unbranched) (hlive : s.JobsLive)
    (hj' : s'.job? k = some j') (hkind : j'.kind = j.kind) (hrepo : j'.repoId = j.repoId)
    (hfinding : j'.findingId = j.findingId) (hstate : j'.state = .suspended)
    (hsession : j'.sessionFile.isSome = true) : s'.CheckpointKept p ↔ s.atWork j = true := by
  have hopen : s'.openSuspension k j' = true := by
    rw [openSuspension_iff, hrec.links.hasSuccessor]
    exact ⟨hstate, h.last⟩
  have hplace : s'.liveRepo j'.repoId = true := by
    rw [hrec.live, hrepo]
    exact hlive k j h.job
  have hup : Relation.ReflTransGen s'.GoesOn k p := by
    rw [hrec.links.goesOn]
    exact .single ⟨j, h.job, h.resumes⟩
  have hat : (s'.resumable k j' = true ∨
      ∃ f, s'.HeldFix f k j' ∧ s'.statusOf (some f) = some .blocked) ↔ s.atWork j = true := by
    cases hof : j.kind with
    | repo kind =>
      refine iff_of_true (Or.inl ?_) (by simp [atWork, hof])
      rw [resumable, hopen, hsession, hkind.trans hof]
      simp only [Bool.true_and, Bool.and_true]
      exact hplace
    | finding kind =>
      have hstatus' := hrec.status j.findingId
      have hwork : s.atWork j = (s.statusOf j.findingId).any kind.keptAt := by rw [atWork, hof]
      rw [← hfinding] at hstatus' hwork
      rw [hwork]
      cases hstatus : s.statusOf j'.findingId with
      | none =>
        rw [hstatus, Option.map_none] at hstatus'
        refine iff_of_false ?_ (by simp)
        rintro (hresumable | ⟨f, hheld, hblocked⟩)
        · simp [resumable, hkind.trans hof, hstatus'] at hresumable
        · rw [← hheld.2.2.1, hstatus'] at hblocked
          cases hblocked
      | some status =>
        rw [hstatus, Option.map_some] at hstatus'
        rw [Option.any_some, FindingJobKind.keptAt_requeued,
          resumable_iff hplace (hkind.trans hof) hstatus' hopen, and_iff_right hsession]
        refine or_congr_right ⟨?_, ?_⟩
        · rintro ⟨f, hheld, hblocked⟩
          rw [← hheld.2.2.1, hstatus'] at hblocked
          have hfix := (hheld.2.1.symm.trans (hkind.trans hof)).symm
          exact ⟨by simpa using hfix, Option.some.inj hblocked⟩
        · rintro ⟨rfl, hblocked⟩
          rw [hblocked] at hstatus'
          cases hf : j'.findingId with
          | none =>
            rw [hf] at hstatus'
            cases hstatus'
          | some f => exact ⟨f, ⟨hj', hkind.trans hof, hf, hopen⟩, hf ▸ hstatus'⟩
  constructor
  · rintro ⟨id, i, hi, hup', hkept⟩
    have hopen' := openSuspension_of_kept hkept
    obtain rfl := h.tip hrec hunbranched hup' hopen'
    cases hi.symm.trans hj'
    exact hat.1 (hkept.imp_left fun h => (mem_listResumableJobs.1 h).2)
  · intro hwork
    exact ⟨k, j', hj', hup, (hat.2 hwork).imp_left fun h => mem_listResumableJobs.2 ⟨hj', h⟩⟩

end Store

/-- After a recovery the chain of an attempt the daemon died in can be continued exactly where
the attempt has left work of its own, nothing still runs in its tree, and its finding is where
its kind of job is kept. -/
theorem checkpoint_recovered_iff {x : Config daemon} (hx : daemon.Reachable x) {k p : Nat} {j : Job}
    (hway : x.state.store.UnderWay k p j) {left : Aftermath} {phase : Phase} {w : World}
    (hrun : Runs left.Step recovery x.state (.ok phase) w) :
    w.store.CheckpointKept p ↔
      left.FoundWork x.state.store k ∧ x.state.store.atWork j = true := by
  obtain ⟨a, -, hknown, hsolitary⟩ := (known_invariant.and solitary_invariant).reachable hx
  obtain ⟨a', -, -, hchains⟩ := (known_invariant.and chains_invariant).reachable hx
  obtain ⟨-, -, hlive⟩ := jobsLive_invariant.reachable hx
  obtain ⟨s, t, hswept, hsuspends, hstore⟩ := recovery_ends hrun
  have hends := hsuspends _ (hway.swept hsolitary hswept)
  have hk : s.job? k = some j := (hswept.running k j hway.running).2 hway.job
  rw [Aftermath.Suspends, hswept.foundWork] at hends
  rcases hends with ⟨hwork, file, tokens, rfl⟩ | ⟨hnone, rfl⟩
  · rw [and_iff_right hwork]
    have hrec : x.state.store.Recovered w.store := by
      rw [hstore]
      exact hswept.recovered ⟨Store.sameLinks_suspendOrphan.trans
        Store.recovered_requeued_orphaned.links, Store.recovered_requeued_orphaned.live,
        Store.recovered_requeued_orphaned.status⟩
    have hj' : w.store.job? k = some { j with
        state := .suspended, killedReason := some "orphaned".toList
        sessionFile := some file, tokensNew := some tokens } := by
      rw [hstore, Store.job?_requeued_orphaned, Store.suspendOrphan, Store.job?_modifyJob, hk]
      simp
    exact hway.kept_iff hrec hchains.unbranched hlive hj' rfl rfl rfl rfl rfl
  · refine iff_of_false ?_ fun h => hnone h.1
    have hj' : w.store.job? k = some j.orphan := by
      rw [hstore, Store.job?_requeued_orphaned, hk, Option.map_some, if_pos hway.running]
    have hrec : x.state.store.Recovered w.store := by
      rw [hstore]
      exact hswept.recovered Store.recovered_requeued_orphaned
    exact hway.not_kept hrec hchains.unbranched hj' (by simp [Job.orphan])

def resumedFix : Config daemon :=
  playDaemon [routine, routine, routine, { stops := isRunWorker }] pausedFix

theorem reachable_resumedFix : daemon.Reachable resumedFix :=
  reachable_playDaemon reachable_pausedFix

theorem resumedFix_underWay : ∃ j, resumedFix.state.store.UnderWay 2 1 j := by
  have hjob : (resumedFix.state.store.job? 2).any (fun j => j.state = .running &&
      j.resumedFrom = some 1 && (resumedFix.state.store.job? 1).any (fun q =>
        q.state = .suspended && q.kind = j.kind)) = true := by decide +kernel
  obtain ⟨j, hj, hof⟩ := (Option.any_eq_true _ _).1 hjob
  simp only [Bool.and_eq_true, decide_eq_true_eq, Option.any_eq_true] at hof
  obtain ⟨⟨hrunning, hfrom⟩, q, hq, hsuspended, hkind⟩ := hof
  exact ⟨j, hj, hrunning, hfrom, ⟨q, hq, hsuspended, hkind⟩, by decide +kernel⟩

def Outside.aftermath (o : Outside) : Aftermath where
  usage _ := o.ledger
  inUse _ := false

theorem Outside.step_aftermath (o : Outside) {β : Type} (c : Call β) (w : World) (b : β)
    (w' : World) (h : o.reply.answer c w = some (b, w')) : o.aftermath.Step c w b w' := by
  refine ⟨o.faithful_reply c w b w' h, ?_⟩
  simp only [reply] at h
  split at h
  · cases h
  · have hb := congrArg Prod.fst (Option.some.inj h)
    cases c with
    | ask q =>
      cases q with
      | treeInUse => exact hb.symm
      | _ => trivial
    | store => trivial
    | tree c =>
      cases c with
      | ledgerUsage => exact hb.symm
      | _ => trivial

theorem recovers (o : Outside) {w : World} (h : (match (Machine.replay o.reply recovery w).1 with
      | .done _ => true
      | _ => false) = true) :
    ∃ phase, Runs o.aftermath.Step recovery w (.ok phase)
      (Machine.replay o.reply recovery w).2 := by
  split at h
  · rename_i phase hdone
    exact ⟨phase, runs_replay o.step_aftermath hdone⟩
  · cases h

/-- The ledger when the resumed worker has spent a token after the first attempt's. -/
def spentMore : Outside := { ledger := some (['s'], 2) }

def spentNoMore : Outside := { ledger := some (['s'], 1) }

theorem checkpoint_recovered_resumed : ∃ w phase,
    Runs spentMore.aftermath.Step recovery resumedFix.state (.ok phase) w ∧
      w.store.CheckpointKept 1 := by
  obtain ⟨j, hway⟩ := resumedFix_underWay
  obtain ⟨phase, hrun⟩ := recovers spentMore (w := resumedFix.state) (by decide +kernel)
  refine ⟨_, phase, hrun, (checkpoint_recovered_iff reachable_resumedFix hway hrun).2
    ⟨⟨['s'], 2, rfl, by decide +kernel, rfl⟩, ?_⟩⟩
  have hat : (resumedFix.state.store.job? 2).all resumedFix.state.store.atWork = true := by
    decide +kernel
  rw [hway.job] at hat
  exact hat

/-- A fix the daemon dies in before its worker's first token is killed, and the suspended one it
went on with is offered no more. -/
theorem checkpoint_lost : ¬ ∀ (x : Config daemon) (k p : Nat) (j : Job), daemon.Reachable x →
    x.state.store.UnderWay k p j → ∀ (left : Aftermath) (phase : Phase) (w : World),
      Runs left.Step recovery x.state (.ok phase) w → w.store.CheckpointKept p := by
  intro h
  obtain ⟨j, hway⟩ := resumedFix_underWay
  obtain ⟨phase, hrun⟩ := recovers spentNoMore (w := resumedFix.state) (by decide +kernel)
  obtain ⟨id, i, hi, -, hkept⟩ :=
    h resumedFix 2 1 j reachable_resumedFix hway _ phase _ hrun
  have hopen := Store.openSuspension_of_kept hkept
  have hnone : ((fun s : Store => (rows s.jobs).all fun row => !s.openSuspension row.id row.val)
      (Machine.replay spentNoMore.reply recovery resumedFix.state).2.store) = true := by
    decide +kernel
  have hclosed := List.all_eq_true.1 hnone ⟨id, i⟩ (mem_rows.2 hi)
  rw [hopen] at hclosed
  cases hclosed

end Hunter
