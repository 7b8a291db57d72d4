import Hunter.Guarantees.Recoveries
set_option autoImplicit false

namespace Hunter
open Effect

/-! One attempt works at a time, and its worker is run once. -/

namespace Store

/-- Two jobs run only while a harvest goes on with the engage of its finding. -/
def Alone (s : Store) : Prop :=
  ∀ i k ji jk, s.job? i = some ji → ji.state = .running → s.job? k = some jk →
    jk.state = .running → i < k → jk.resumedFrom = some i ∧ ji.kind = .finding .engage ∧
      jk.kind = .finding .harvest ∧ jk.findingId = ji.findingId

end Store

section
variable {β : Type} {c : StoreCall β} {s s' : Store} {b : β} {a : Memory}

theorem handedOver_of_inserts {n id : Nat} {jn i : Job} (hallow : c.allowed a)
    (hknown : ∀ y ∈ a, y.holds s) (hinsert : c.inserts s n jn b) (hi : s.job? id = some i)
    (hrunning : i.state = .running) : jn.findingId = i.findingId := by
  cases c with
  | createJob kind repoId findingId state resumedFrom =>
    obtain ⟨-, -, rfl⟩ := hinsert
    rcases hallow.2.idle with hidle | ⟨p, rfl, -, f, rfl, hengaged, halone⟩
    · cases hknown _ hidle id i hi hrunning
    · obtain rfl : id = p := by simpa using hknown _ halone id i hi hrunning
      obtain ⟨j, hj, -, hof, -⟩ := hknown _ hengaged
      cases hi.symm.trans hj
      exact hof.symm
  | _ => exact hinsert.elim

theorem alone_apply (h : c.apply s = some (b, s')) (hallow : c.allowed a)
    (hknown : ∀ y ∈ a, y.holds s) (halone : s.Alone) : s'.Alone := by
  have hfair := fair_of_allowed hallow
  intro i k ji' jk' hji' hirunning hjk' hkrunning hlt
  rcases StoreCall.job_cases h hfair hji' with ⟨ji, hji, hichange⟩ | hinsert
  · have hiran := was_running hallow hknown hji hichange hirunning
    rcases StoreCall.job_cases h hfair hjk' with ⟨jk, hjk, hkchange⟩ | hinsert
    · have hkran := was_running hallow hknown hjk hkchange hkrunning
      rw [hkchange.resumedFrom, hichange.kind, hkchange.kind, hkchange.findingId,
        hichange.findingId]
      exact halone i k ji jk hji hiran hjk hkran hlt
    · obtain ⟨hharvest, hfrom, hengage⟩ := idle_of_inserts hallow hknown hinsert hji hiran
      have hof := handedOver_of_inserts hallow hknown hinsert hji hiran
      rw [hichange.kind, hichange.findingId]
      exact ⟨hfrom, hengage, hharvest, hof⟩
  · -- a new job comes after every other
    rcases StoreCall.job_cases h hfair hjk' with ⟨jk, hjk, -⟩ | hinsert'
    · have hnew := StoreCall.inserts_id hinsert
      have := Store.job?_lt hjk
      omega
    · have hi := StoreCall.inserts_id hinsert
      have hk := StoreCall.inserts_id hinsert'
      omega

end

theorem alone_invariant :
    Machine.InvariantUnder daemon follower Known fun _ w => w.store.Alone where
  init w hw := by
    cases hw
    exact fun i k ji jk hji => by simp [Store.job?] at hji
  call a c w b w' hallow hknown halone h _ := by
    cases c with
    | ask q =>
      rw [show w' = w from h.leaves]
      exact halone
    | tree c =>
      rw [show w'.store = w.store from h.leaves]
      exact halone
    | store c =>
      rcases h.leaves with ⟨b', s', rfl, happly, rfl⟩ | ⟨-, rfl⟩
      · exact alone_apply happly hallow hknown.facts halone
      · exact halone
  finish a phase w _ _ halone := halone
  abort a w _ _ halone := halone
  crash a p w _ _ _ halone := halone
  env a w w' _ halone henv := by
    have hjob : ∀ id, w'.store.job? id = w.store.job? id := fun id => by
      rw [Store.job?, henv.jobs, Store.job?]
    intro i k ji jk hji hirunning hjk hkrunning hlt
    rw [hjob] at hji hjk
    exact halone i k ji jk hji hirunning hjk hkrunning hlt

/-- At every moment at most one job is running, or an engage and the harvest that goes on with its
session. A worker is run for a running job that nothing continues, beside no other but that
engage. -/
theorem attempts_alone {x : Config daemon} (hx : daemon.Reachable x) :
    x.state.store.Alone ∧ ∀ job origin session k,
      x.rest = .call (.tree (.runWorker job origin session)) k →
      ∃ j, x.state.store.job? job = some j ∧ j.state = .running ∧
        x.state.store.hasSuccessor job = false ∧
        ∀ i ji, x.state.store.job? i = some ji → ji.state = .running →
          i = job ∨ j.resumedFrom = some i ∧ ji.kind = .finding .engage ∧
            j.kind = .finding .harvest ∧ j.findingId = ji.findingId := by
  obtain ⟨a, hfollows, hknown, halone⟩ := (known_invariant.and alone_invariant).reachable hx
  refine ⟨halone, fun job origin session k hrest => ?_⟩
  rw [hrest] at hfollows
  obtain ⟨hrunning, -, resumedFrom, hunrun, -⟩ := hfollows.1
  obtain ⟨j, hj, hstate⟩ := hknown.facts _ hrunning
  obtain ⟨j', hj', hfrom, hlast⟩ := hknown.facts _ hunrun
  cases hj.symm.trans hj'
  refine ⟨j, hj, hstate, hlast, fun i ji hji hirunning => ?_⟩
  rcases lt_trichotomy i job with hlt | rfl | hlt
  · exact Or.inr (halone i job ji j hji hirunning hj hstate hlt)
  · exact Or.inl rfl
  · have hsucc := (halone job i j ji hj hstate hji hirunning hlt).1
    rw [Store.hasSuccessor_iff.2 ⟨i, ji, hji, hsucc⟩] at hlast
    cases hlast

theorem worker_of_next {p : Act Phase} (h : Machine.nextIs isRunWorker p = true) :
    ∃ job origin session k, p = .call (.tree (.runWorker job origin session)) k := by
  obtain ⟨β, c, k, rfl, hrun⟩ := Machine.exists_next h
  cases c with
  | ask | store => cases hrun
  | tree c =>
    cases c with
    | runWorker job origin session => exact ⟨job, origin, session, k, rfl⟩
    | _ => cases hrun

theorem attempts_alone_resumed : ∃ job origin session k,
    resumedFix.rest = .call (.tree (.runWorker job origin session)) k ∧
      ∃ j, resumedFix.state.store.job? job = some j ∧ j.state = .running := by
  have hnext : Machine.nextIs isRunWorker resumedFix.rest = true := by decide +kernel
  obtain ⟨job, origin, session, k, hrest⟩ := worker_of_next hnext
  obtain ⟨j, hj, hstate, -⟩ := (attempts_alone reachable_resumedFix).2 job origin session k hrest
  exact ⟨job, origin, session, k, hrest, j, hj, hstate⟩

def Call.runs (ran : List Nat) : {β : Type} → Call β → List Nat
  | _, .tree (.runWorker job _ _) => job :: ran
  | _, _ => ran

def employing : Machine Call Text (World × List Nat) :=
  daemon.watch [] (fun c _ _ _ ran => c.runs ran) fun _ _ ran => ran

/-- No worker was run for a job that the daemon takes to have had none. -/
structure Employed (a : Memory) (s : Store) (ran : List Nat) : Prop where
  fresh : ∀ p resumedFrom, Fact.unrun p resumedFrom ∈ a → p ∉ ran
  old : ∀ p ∈ ran, p < s.jobs.length
  once : ran.Nodup

section
variable {β : Type} {a : Memory} {s s' : Store} {b : β} {ran : List Nat}

theorem jobs_grow {c : StoreCall β} (h : c.apply s = some (b, s')) (hallow : c.allowed a) :
    s.jobs.length ≤ s'.jobs.length := by
  by_contra hlt
  obtain ⟨j, hj⟩ : ∃ j, s.job? s'.jobs.length = some j := ⟨_, List.getElem?_eq_getElem (by omega)⟩
  obtain ⟨j', hj', -⟩ := StoreCall.jobEdits h (fair_of_allowed hallow) hj
  exact absurd (Store.job?_lt hj') (lt_irrefl _)

theorem employed_call {c : Call β} {w w' : World} (hallow : c.allowed a) (hknown : Known a w)
    (hran : Employed a w.store ran) (h : CallStep c w b w') :
    Employed (a.next c b) w'.store (c.runs ran) := by
  cases c with
  | ask q =>
    rw [show w' = w from h.leaves]
    exact ⟨fun p resumedFrom hp => hran.fresh p resumedFrom (hp.elim And.left False.elim),
      hran.old, hran.once⟩
  | tree t =>
    rw [show w'.store = w.store from h.leaves]
    have hkept : ∀ p resumedFrom, Fact.unrun p resumedFrom ∈ a.next (.tree t) b →
        Fact.unrun p resumedFrom ∈ a ∧ ¬ t.forgets b (.unrun p resumedFrom) := by
      rintro p resumedFrom (hp | hlearn)
      · exact hp
      · cases TreeCall.learns_told hlearn
    cases t with
    | runWorker job origin session =>
      -- the worker's run ends every wait for one
      obtain ⟨hrunning, -, resumedFrom, hunrun, -⟩ := hallow
      obtain ⟨j, hj, -⟩ := hknown.facts _ hrunning
      refine ⟨fun p resumedFrom hp => absurd rfl (hkept p resumedFrom hp).2, ?_,
        List.nodup_cons.2 ⟨hran.fresh job resumedFrom hunrun, hran.once⟩⟩
      exact List.forall_mem_cons.2 ⟨Store.job?_lt hj, hran.old⟩
    | _ => exact ⟨fun p resumedFrom hp => hran.fresh p resumedFrom (hkept p resumedFrom hp).1,
        hran.old, hran.once⟩
  | store c =>
    rcases h.leaves with ⟨b', s', rfl, happly, rfl⟩ | ⟨⟨e, rfl⟩, rfl⟩
    · refine ⟨?_, fun p hp => (hran.old p hp).trans_le (jobs_grow happly hallow), hran.once⟩
      rintro p resumedFrom (hp | hlearn)
      · exact hran.fresh p resumedFrom hp.1
      · intro hin
        exact absurd (hran.old p hin) (by rw [unrun_created happly hlearn]; exact lt_irrefl _)
    · exact ⟨fun p resumedFrom hp => hran.fresh p resumedFrom (hp.elim And.left False.elim),
        hran.old, hran.once⟩

theorem unrun_not_handedOver {phase : Phase} {p : Nat} {resumedFrom : Option Nat} :
    Fact.unrun p resumedFrom ∉ phase.known :=
  fun hp => Bool.false_ne_true (Phase.known_handedOver hp)

theorem Employed.entry (h : Employed a s ran) (phase : Phase) : Employed phase.known s ran :=
  ⟨fun _ _ hp => absurd hp unrun_not_handedOver, h.old, h.once⟩

end

theorem employed_invariant : Machine.InvariantUnder employing (follower.watch _ _ _)
    (fun a x => Known a x.1) fun a x => Employed a x.1.store x.2 where
  init x hx := by
    rw [hx.2]
    exact ⟨fun _ _ hp => absurd hp (@unrun_not_handedOver .startup _ _), nofun,
      List.nodup_nil⟩
  call a c x b x' hallow hknown hran hstep _ := by
    rw [hstep.2]
    exact employed_call hallow hknown hran hstep.1
  finish a phase x _ _ hran := hran.entry phase
  abort a x _ _ hran := hran.entry .reconcile
  crash a p x _ _ _ hran := hran.entry .startup
  env a x x' _ hran henv := by
    rw [henv.2]
    exact ⟨hran.fresh, fun p hp => by rw [henv.1.jobs]; exact hran.old p hp, hran.once⟩

/-- Over a whole run, crashes and recoveries included, no job's worker is run a second time. -/
theorem worker_run_once {x : Config employing} (hx : employing.Reachable x) :
    x.state.2.Nodup ∧ ∀ job origin session k,
      x.rest = .call (.tree (.runWorker job origin session)) k → job ∉ x.state.2 := by
  obtain ⟨a, hfollows, hknown, hran⟩ :=
    ((known_invariant.watch _ _ _).and employed_invariant).reachable hx
  refine ⟨hran.once, fun job origin session k hrest => ?_⟩
  rw [hrest] at hfollows
  obtain ⟨-, -, resumedFrom, hunrun, -⟩ := hfollows.1
  exact hran.fresh job resumedFrom hunrun

def employedReply (o : Outside) : Machine.Reply Call (World × List Nat) :=
  o.reply.watch fun c _ _ _ ran => c.runs ran

/-- A fix stopped by its cap, its second attempt about to be run. -/
def secondAttempt : Config employing :=
  play employedReply (List.replicate 4 { run := cappedRun, committed := false } ++
    List.replicate 3 routine ++ [{ stops := isRunWorker }])
    (requestedBeside (fun _ _ ran => ran) queueVerdict (play employedReply
      (List.replicate 5 hunting) (requestedBeside (fun _ _ ran => ran) addSampleRepo
        ⟨employing.body employing.boot, emptyWorld, []⟩)))

theorem reachable_secondAttempt : employing.Reachable secondAttempt := by
  have hreply : ∀ o, employing.Faithful (employedReply o) := fun o =>
    Machine.Faithful.watch o.faithful_reply
  have henv : ∀ w w' ran, EnvStep w w' → employing.env (w, ran) (w', ran) :=
    fun _ _ _ h => ⟨h, rfl⟩
  exact reachable_play hreply (reachable_requestedBeside (r := .verdict 0 .queued none) henv
    (reachable_play hreply (reachable_requestedBeside (r := .addRepo ['r'] ['m']) henv
      (.start ⟨rfl, rfl⟩) .addRepo))
    (.verdict rfl rfl (by decide) (by decide)))

theorem worker_run_once_second : secondAttempt.state.2 = [1, 0] ∧ ∃ job origin session k,
    secondAttempt.rest = .call (.tree (.runWorker job origin session)) k ∧
      job ∉ secondAttempt.state.2 := by
  have hnext : Machine.nextIs isRunWorker secondAttempt.rest = true := by decide +kernel
  have hran : secondAttempt.state.2 = [1, 0] := by decide +kernel
  obtain ⟨job, origin, session, k, hrest⟩ := worker_of_next hnext
  exact ⟨hran, job, origin, session, k, hrest,
    (worker_run_once reachable_secondAttempt).2 job origin session k hrest⟩

end Hunter
