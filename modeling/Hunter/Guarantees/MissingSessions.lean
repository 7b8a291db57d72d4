import Hunter.Guarantees.HeldFixes
import Mathlib.Logic.Relation
set_option autoImplicit false

namespace Hunter
open Effect

/-! A session that a resume found missing is not offered to the chain again. -/

/-- Which attempts found which session missing. -/
abbrev Gone := List (Nat × Text)

/-- A worker told to resume a session that is gone says so; one it names at its end is there. -/
def Gone.afterRun (gone : Gone) (job : Nat) (session : Option Text) (rr : RunResult) : Gone :=
  let found :=
    if rr.killedReason = some "resume-unavailable".toList then session.toList.map (Prod.mk job)
    else []
  (found ++ gone).filter fun x => rr.sessionFile ≠ some x.2

def TreeCall.goneAfter (gone : Gone) : {β : Type} → TreeCall β → β → Gone
  | _, .runWorker job _ session => fun r =>
    match r with
    | .ok rr => gone.afterRun job session rr
    | .error _ => gone
  | _, .ledgerUsage _ => fun usage =>
    match usage with
    | some usage => gone.filter fun x => x.2 ≠ usage.1
    | none => gone
  | _, _ => fun _ => gone

def Call.goneAfter (gone : Gone) : {β : Type} → Call β → β → Gone
  | _, .tree c => c.goneAfter gone
  | _, _ => fun _ => gone

def searched : Machine Call Text (World × Gone) :=
  daemon.watch [] (fun c _ b _ gone => c.goneAfter gone b) fun _ _ gone => gone

namespace Store

/-- Job `id` goes on with `p`. -/
def GoesOn (s : Store) (id p : Nat) : Prop := ∃ j, s.job? id = some j ∧ j.resumedFrom = some p

/-- An attempt of the chain up to `p` found the session missing. -/
def FoundGone (s : Store) (gone : Gone) (p : Nat) (file : Text) : Prop :=
  ∃ q, (q, file) ∈ gone ∧ Relation.ReflTransGen s.GoesOn p q

/-- The session a held job without one of its own takes over from its predecessor. -/
def inheritedSession (s : Store) (id : Nat) : Option Text :=
  match s.job? id with
  | some j =>
    if j.sessionFile.isSome then none else (j.resumedFrom.bind s.job?).bind Job.sessionFile
  | none => none

end Store

def StoreCall.holdsFound (s : Store) (gone : Gone) : {β : Type} → StoreCall β → Prop
  | _, .blockFixJob _ id _ => ∀ file, s.inheritedSession id = some file → ¬ s.FoundGone gone id file
  | _, _ => True

def Call.holdsFound (x : World × Gone) : {β : Type} → Call β → Prop
  | _, .store c => c.holdsFound x.1.store x.2
  | _, _ => True

/-- The runs in which no hold takes over a session that was found missing. -/
def carefulHolds : Machine Call Text (World × Gone) :=
  searched.restrict (fun c x _ _ => c.holdsFound x) (fun _ _ => True) fun _ _ => True

section
variable {β : Type} {c : StoreCall β} {s s' : Store} {b : β} {a : Memory} {gone gone' : Gone}
  {p q : Nat} {file : Text}

theorem Gone.mem_afterRun {job : Nat} {session : Option Text} {rr : RunResult} {x : Nat × Text}
    (h : x ∈ gone.afterRun job session rr) :
    rr.sessionFile ≠ some x.2 ∧ (x ∈ gone ∨ x.1 = job ∧ session = some x.2) := by
  simp only [Gone.afterRun, List.mem_filter, List.mem_append, decide_eq_true_eq] at h
  obtain ⟨hfound | hgone, hnot⟩ := h
  · refine ⟨hnot, Or.inr ?_⟩
    split at hfound
    · obtain ⟨named, hnamed, rfl⟩ := List.mem_map.1 hfound
      exact ⟨rfl, Option.mem_toList.1 hnamed⟩
    · cases hfound
  · exact ⟨hnot, Or.inl hgone⟩

theorem goesOn_lt (hdescends : s.Descends) (h : s.GoesOn p q) : q < p := by
  obtain ⟨j, hj, hfrom⟩ := h
  exact hdescends p j q hj hfrom

theorem eq_of_open (hopen : s.hasSuccessor q = false) (h : Relation.ReflTransGen s.GoesOn p q) :
    p = q := by
  cases h with
  | refl => rfl
  | @tail r _ _ hlast =>
    obtain ⟨j, hj, hfrom⟩ := hlast
    rw [Store.hasSuccessor_iff.2 ⟨r, j, hj, hfrom⟩] at hopen
    cases hopen

theorem goesOn_back (h : c.apply s = some (b, s')) (hallow : c.allowed a)
    (hp : p < s.jobs.length) (hgoes : s'.GoesOn p q) : s.GoesOn p q := by
  obtain ⟨j', hj', hfrom⟩ := hgoes
  rcases StoreCall.job_cases h (fair_of_allowed hallow) hj' with ⟨j, hj, hchange⟩ | hinsert
  · exact ⟨j, hj, hchange.resumedFrom.symm.trans hfrom⟩
  · have hid := StoreCall.inserts_id hinsert
    omega

theorem lineage_back (h : c.apply s = some (b, s')) (hallow : c.allowed a)
    (hdescends : s.Descends) (hp : p < s.jobs.length)
    (hup : Relation.ReflTransGen s'.GoesOn p q) : Relation.ReflTransGen s.GoesOn p q := by
  induction hup using Relation.ReflTransGen.head_induction_on with
  | refl => exact .refl
  | head hfirst _ ih =>
    have hold := goesOn_back h hallow hp hfirst
    have hlt := goesOn_lt hdescends hold
    exact .head hold (ih (by omega))

theorem foundGone_back (h : c.apply s = some (b, s')) (hallow : c.allowed a)
    (hdescends : s.Descends) (hp : p < s.jobs.length) (hfound : s'.FoundGone gone p file) :
    s.FoundGone gone p file := by
  obtain ⟨q, hq, hup⟩ := hfound
  exact ⟨q, hq, lineage_back h hallow hdescends hp hup⟩

theorem Store.FoundGone.mono (h : s.FoundGone gone p file)
    (hgone : ∀ q, (q, file) ∈ gone → (q, file) ∈ gone') : s.FoundGone gone' p file := by
  obtain ⟨q, hq, hup⟩ := h
  exact ⟨q, hgone q hq, hup⟩

/-- Nothing goes on with the job, or only one whose worker is still to be run. -/
def Store.Tip (s : Store) (a : Memory) (p : Nat) : Prop :=
  s.hasSuccessor p = false ∨ ∃ id, s.GoesOn id p ∧ Fact.unrun id (some p) ∈ a

/-- What may still be offered was not found missing: the sessions of rows at the end of a chain,
those a worker has just ended with, and those a ledger has just been read from. -/
structure Searched (a : Memory) (s : Store) (gone : Gone) : Prop where
  bare : ∀ p j, s.job? p = some j → j.state = .running → j.sessionFile = none
  rows : ∀ p j file, s.job? p = some j → j.sessionFile = some file → s.Tip a p →
    ¬ s.FoundGone gone p file
  runs : ∀ p rr file, Fact.ran p rr ∈ a → rr.sessionFile = some file → s.Tip a p →
    ¬ s.FoundGone gone p file
  ledgers : ∀ first file total, Fact.ledger first file total ∈ a → ∀ q, (q, file) ∉ gone

def Fact.isOffering : Fact → Bool
  | unrun _ _ | ran _ _ | ledger _ _ _ => true
  | _ => false

theorem Searched.mono {a' : Memory} (h : Searched a s gone) (hjobs : s'.jobs = s.jobs)
    (hgone : ∀ x ∈ gone', x ∈ gone) (ha : ∀ x ∈ a', x.isOffering = true → x ∈ a) :
    Searched a' s' gone' := by
  have hjob : ∀ p, s'.job? p = s.job? p := fun p => by rw [Store.job?, hjobs, Store.job?]
  have hgoes : s'.GoesOn = s.GoesOn := by
    funext p q
    simp only [Store.GoesOn, hjob]
  have htip : ∀ {p}, s'.Tip a' p → s.Tip a p := by
    rintro p (hopen | ⟨id, hid, hunrun⟩)
    · refine Or.inl ?_
      rwa [Store.hasSuccessor, hjobs] at hopen
    · rw [hgoes] at hid
      exact Or.inr ⟨id, hid, ha _ hunrun rfl⟩
  have hfound : ∀ {p file}, s'.FoundGone gone' p file → s.FoundGone gone p file := by
    rintro p file ⟨q, hq, hup⟩
    rw [hgoes] at hup
    exact ⟨q, hgone _ hq, hup⟩
  refine ⟨fun p j hj => ?_, fun p j file hj hfile hp hgone => ?_, ?_, ?_⟩
  · exact h.bare p j ((hjob p).symm.trans hj)
  · exact h.rows p j file ((hjob p).symm.trans hj) hfile (htip hp) (hfound hgone)
  · exact fun p rr file hran hfile hp hgone =>
      h.runs p rr file (ha _ hran rfl) hfile (htip hp) (hfound hgone)
  · exact fun first file total hledger q hq =>
      h.ledgers first file total (ha _ hledger rfl) q (hgone _ hq)

theorem open_of_mayCreate {kind : JobKind} {repoId : Nat} {findingId resumedFrom : Option Nat}
    (hmay : a.MayCreate kind repoId findingId resumedFrom) (hknown : ∀ y ∈ a, y.holds s)
    (hp : resumedFrom = some p) : s.hasSuccessor p = false := by
  rcases hmay.continues p hp with ⟨g, hoffered, -⟩ | ⟨-, f, -, hengaged, -⟩
  · obtain ⟨-, -, -, -, -, hopen⟩ := hknown _ hoffered
    exact hopen
  · obtain ⟨-, -, -, -, hopen⟩ := hknown _ hengaged
    exact hopen

theorem unrun_created (h : c.apply s = some (b, s')) {id : Nat} {resumedFrom : Option Nat}
    (hlearn : c.learns a b (.unrun id resumedFrom)) : id = s.jobs.length := by
  cases c with
  | createJob kind repoId findingId state from_ =>
    obtain ⟨created, rfl, hx⟩ := hlearn
    obtain rfl : id = created.id := by
      simp only [Fact.unrun.injEq] at hx
      grind
    exact (Store.createJob_spec (StoreCall.created_of_apply h)).1
  | findingsWithStatus =>
    obtain ⟨row, -, hx⟩ := hlearn
    cases tells_listed hx
  | listResumableJobs =>
    obtain ⟨row, -, hx⟩ := hlearn
    cases offerTells_listed hx
  | _ => simp [StoreCall.learns] at hlearn

/-- An old job at the end of a chain was at the end of it before. -/
theorem tip_back (h : c.apply s = some (b, s')) (hallow : c.allowed a)
    (hknown : ∀ y ∈ a, y.holds s) (hp : s'.Tip (a.next (.store c) (.ok b)) p) : s.Tip a p := by
  have hfair := fair_of_allowed hallow
  rcases hp with hopen | ⟨id, ⟨j', hj', hfrom⟩, hunrun⟩
  · refine Or.inl ?_
    by_contra hsucc
    rw [StoreCall.successor_stays h hfair (by simpa using hsucc)] at hopen
    cases hopen
  · rcases StoreCall.job_cases h hfair hj' with ⟨j, hj, hchange⟩ | hinsert
    · refine Or.inr ⟨id, ⟨j, hj, hchange.resumedFrom.symm.trans hfrom⟩, ?_⟩
      rcases hunrun with hunrun | hlearn
      · exact hunrun.1
      · have hid := unrun_created h hlearn
        have hlt := Store.job?_lt hj
        omega
    · rw [StoreCall.inserts_resumedFrom hinsert] at hfrom
      cases c with
      | createJob => exact Or.inl (open_of_mayCreate hallow.2 hknown hfrom)
      | _ => cases hfrom

theorem jobState_ne_running (rr : RunResult) : jobState rr ≠ .running := by
  unfold jobState
  split <;> split_ifs <;> simp

theorem not_learns_ran {rr : RunResult} : ¬ c.learns a b (.ran p rr) := by
  intro hlearn
  cases c with
  | findingsWithStatus =>
    obtain ⟨row, -, hx⟩ := hlearn
    cases tells_listed hx
  | listResumableJobs =>
    obtain ⟨row, -, hx⟩ := hlearn
    cases offerTells_listed hx
  | _ => simp [StoreCall.learns] at hlearn

theorem not_learns_ledger {first : Nat} {total : Int} :
    ¬ c.learns a b (.ledger first file total) := by
  intro hlearn
  cases c with
  | findingsWithStatus =>
    obtain ⟨row, -, hx⟩ := hlearn
    cases tells_listed hx
  | listResumableJobs =>
    obtain ⟨row, -, hx⟩ := hlearn
    cases offerTells_listed hx
  | _ => simp [StoreCall.learns] at hlearn

/-- A job that ran or is being held has no session while it runs. -/
theorem bare_step (h : c.apply s = some (b, s')) (hallow : c.allowed a)
    (hknown : ∀ y ∈ a, y.holds s) (hbare : ∀ p j, s.job? p = some j → j.state = .running →
      j.sessionFile = none) {j' : Job} (hj' : s'.job? p = some j')
    (hrunning : j'.state = .running) :
    j'.sessionFile = none := by
  rcases StoreCall.job_cases h (fair_of_allowed hallow) hj' with ⟨j, hj, hchange⟩ | hinsert
  · have hwas := was_running hallow hknown hj hchange hrunning
    rcases hchange.session with hsame | hwrites
    · exact hsame.trans (hbare p j hj hwas)
    · cases c with
      | completeJob id outcome =>
        obtain ⟨rfl, -⟩ := hwrites
        obtain ⟨-, rr, -, rfl⟩ := hallow
        cases h
        simp only [Store.completeJob, Store.job?_modifyJob, if_pos, hj, Option.map_some,
          Option.some.injEq] at hj'
        subst hj'
        exact absurd hrunning (jobState_ne_running rr)
      | suspendOrphan id file total =>
        obtain ⟨rfl, -⟩ := hwrites
        cases h
        simp only [Store.suspendOrphan, Store.job?_modifyJob, if_pos, hj, Option.map_some,
          Option.some.injEq] at hj'
        subst hj'
        cases hrunning
      | blockFixJob f id reason =>
        obtain ⟨rfl, -⟩ := hwrites
        simp only [StoreCall.apply, Option.map_eq_some_iff] at h
        obtain ⟨t, ht, hts⟩ := h
        cases hts
        obtain ⟨j0, x, -, -, -, -, rfl⟩ := Store.blockFixJob_spec ht
        simp only [Store.job?_modifyFinding, Store.job?_modifyJob, if_pos, hj, Option.map_some,
          Option.some.injEq] at hj'
        subst hj'
        cases hrunning
      | _ => exact hwrites.elim
  · cases c with
    | createJob =>
      obtain ⟨-, -, rfl⟩ := hinsert
      rfl
    | _ => exact hinsert.elim

theorem inherited_of_hold {f id : Nat} {reason : Text} {j j' : Job}
    (h : s.blockFixJob f id reason = some s') (hj : s.job? id = some j)
    (hnone : j.sessionFile = none) (hj' : s'.job? id = some j') :
    j'.sessionFile = s.inheritedSession id := by
  obtain ⟨j0, x, hj0, -, -, -, rfl⟩ := Store.blockFixJob_spec h
  cases hj.symm.trans hj0
  simp only [Store.job?_modifyFinding, Store.job?_modifyJob, if_pos, hj, Option.map_some,
    Option.some.injEq] at hj'
  subst hj'
  simp [Store.inheritedSession, hj, hnone]

theorem rows_step (h : c.apply s = some (b, s')) (hallow : c.allowed a)
    (hknown : ∀ y ∈ a, y.holds s) (hdescends : s.Descends) (hsearched : Searched a s gone)
    (hholds : c.holdsFound s gone) {j' : Job} (hj' : s'.job? p = some j')
    (hfile : j'.sessionFile = some file) (hp : s'.Tip (a.next (.store c) (.ok b)) p) :
    ¬ s'.FoundGone gone p file := by
  have htip := tip_back h hallow hknown hp
  rcases StoreCall.job_cases h (fair_of_allowed hallow) hj' with ⟨j, hj, hchange⟩ | hinsert
  · intro hfound
    have hwas := foundGone_back h hallow hdescends (Store.job?_lt hj) hfound
    rcases hchange.session with hsame | hwrites
    · exact hsearched.rows p j file hj (hsame.symm.trans hfile) htip hwas
    · cases c with
      | completeJob id outcome =>
        obtain ⟨rfl, hsession⟩ := hwrites
        obtain ⟨-, rr, hran, rfl⟩ := hallow
        exact hsearched.runs _ rr file hran (hsession.symm.trans hfile) htip hwas
      | suspendOrphan id named total =>
        obtain ⟨rfl, hsession⟩ := hwrites
        cases hsession.symm.trans hfile
        obtain ⟨-, -, first, whole, before, -, hledger, -⟩ := hallow
        obtain ⟨q, hq, -⟩ := hwas
        exact hsearched.ledgers first file whole hledger q hq
      | blockFixJob f id reason =>
        obtain ⟨rfl, hnone⟩ := hwrites
        simp only [StoreCall.apply, Option.map_eq_some_iff] at h
        obtain ⟨t, ht, hts⟩ := h
        cases hts
        exact hholds file ((inherited_of_hold ht hj hnone hj').symm.trans hfile) hwas
      | _ => exact hwrites.elim
  · cases c with
    | createJob =>
      obtain ⟨-, -, rfl⟩ := hinsert
      cases hfile
    | _ => exact hinsert.elim

theorem searched_store (h : c.apply s = some (b, s')) (hallow : c.allowed a)
    (hknown : ∀ y ∈ a, y.holds s) (hdescends : s.Descends) (hsearched : Searched a s gone)
    (hholds : c.holdsFound s gone) : Searched (a.next (.store c) (.ok b)) s' gone where
  bare _ _ hj' hrunning := bare_step h hallow hknown hsearched.bare hj' hrunning
  rows _ _ _ hj' hfile hp := rows_step h hallow hknown hdescends hsearched hholds hj' hfile hp
  runs p rr file hran hfile hp hfound := by
    have hran := hran.resolve_right not_learns_ran
    obtain ⟨j, hj⟩ := hknown _ hran.1
    exact hsearched.runs p rr file hran.1 hfile (tip_back h hallow hknown hp)
      (foundGone_back h hallow hdescends (Store.job?_lt hj) hfound)
  ledgers first file total hledger :=
    hsearched.ledgers first file total (hledger.resolve_right not_learns_ledger).1

/-- After a worker's run nothing but its end is known of what a session is offered on. -/
theorem searched_run {job origin : Nat} {session : Option Text} {r : Except Text RunResult}
    (hallow : (TreeCall.runWorker job origin session).allowed a) (hknown : ∀ y ∈ a, y.holds s)
    (h : Searched a s gone) : Searched (a.next (.tree (.runWorker job origin session)) r) s
      ((TreeCall.runWorker job origin session).goneAfter gone r) := by
  obtain ⟨hrunning, -, resumedFrom, hunrun, -⟩ := hallow
  obtain ⟨j, hj, hstate⟩ := hknown _ hrunning
  obtain ⟨-, -, -, hopen⟩ := hknown _ hunrun
  have hran : ∀ x ∈ a.next (.tree (.runWorker job origin session)) r, x.onRun = true →
      ∃ rr, r = .ok rr ∧ x = .ran job rr :=
    fun x hx hrun => hx.elim (fun hx => absurd hrun hx.2) id
  have htip : ∀ {p}, s.Tip (a.next (.tree (.runWorker job origin session)) r) p →
      s.hasSuccessor p = false := by
    rintro p (hp | ⟨id, -, hid⟩)
    · exact hp
    · obtain ⟨rr, -, hx⟩ := hran _ hid rfl
      cases hx
  refine ⟨h.bare, fun p k file hk hfile hp hfound => ?_, fun p rr file hp hfile _ hfound => ?_,
    fun first file total hp => ?_⟩
  · have hnot := h.rows p k file hk hfile (Or.inl (htip hp))
    cases r with
    | error e => exact hnot hfound
    | ok rr =>
      obtain ⟨q, hq, hup⟩ := hfound
      obtain ⟨-, hq | ⟨rfl, -⟩⟩ := Gone.mem_afterRun hq
      · exact hnot ⟨q, hq, hup⟩
      · -- the worker's own job is open, and has no session while it runs
        obtain rfl := eq_of_open hopen hup
        cases hj.symm.trans hk
        cases (h.bare _ j hj hstate).symm.trans hfile
  · obtain ⟨rr', rfl, hx⟩ := hran _ hp rfl
    cases hx
    obtain ⟨q, hq, -⟩ := hfound
    exact (Gone.mem_afterRun hq).1 hfile
  · obtain ⟨rr, -, hx⟩ := hran _ hp rfl
    cases hx

theorem searched_ledger {origin : Nat} {usage : Option (Text × Int)} (h : Searched a s gone) :
    Searched (a.next (.tree (.ledgerUsage origin)) usage) s
      ((TreeCall.ledgerUsage origin).goneAfter gone usage) := by
  have hkept : ∀ x ∈ (TreeCall.ledgerUsage origin).goneAfter gone usage, x ∈ gone := by
    intro x hx
    cases usage with
    | none => exact hx
    | some usage => exact (List.mem_filter.1 hx).1
  have hold : Searched {x | x ∈ a.next (.tree (.ledgerUsage origin)) usage ∧ x ∈ a} s
      ((TreeCall.ledgerUsage origin).goneAfter gone usage) :=
    h.mono rfl hkept fun x hx _ => hx.2
  have hknown : ∀ x ∈ a.next (.tree (.ledgerUsage origin)) usage, x ∈ a ∨
      ∃ file total, usage = some (file, total) ∧ x = .ledger origin file total :=
    fun x hx => hx.imp And.left id
  have htip : ∀ {p}, s.Tip (a.next (.tree (.ledgerUsage origin)) usage) p →
      s.Tip {x | x ∈ a.next (.tree (.ledgerUsage origin)) usage ∧ x ∈ a} p := by
    rintro p (hp | ⟨id, hid, hunrun⟩)
    · exact Or.inl hp
    · refine Or.inr ⟨id, hid, hunrun, (hknown _ hunrun).resolve_right ?_⟩
      rintro ⟨file, total, -, hx⟩
      cases hx
  refine ⟨hold.bare, fun p j file hj hfile hp => hold.rows p j file hj hfile (htip hp),
    fun p rr file hran hfile hp => ?_, fun first file total hledger q hq => ?_⟩
  · refine hold.runs p rr file ⟨hran, (hknown _ hran).resolve_right ?_⟩ hfile (htip hp)
    rintro ⟨file, total, -, hx⟩
    cases hx
  · rcases hknown _ hledger with hledger | ⟨named, whole, rfl, hx⟩
    · exact h.ledgers first file total hledger q (hkept _ hq)
    · cases hx
      simpa using (List.mem_filter.1 hq).2

def TreeCall.isStill : {γ : Type} → TreeCall γ → Bool
  | _, .runWorker _ _ _ | _, .ledgerUsage _ => false
  | _, _ => true

theorem searched_still {γ : Type} {t : TreeCall γ} {r : γ} (hstill : t.isStill = true)
    (h : Searched a s gone) : Searched (a.next (.tree t) r) s (t.goneAfter gone r) := by
  have hgone : t.goneAfter gone r = gone := by
    cases t <;> first | rfl | cases hstill
  rw [hgone]
  refine h.mono rfl (fun _ hx => hx) fun x hx hoffering => hx.elim And.left fun hlearn => ?_
  cases t with
  | create =>
    obtain ⟨sha, -, rfl | ⟨f, -, rfl | rfl⟩⟩ := hlearn <;> cases hoffering
  | diffNames =>
    obtain ⟨-, f, -, rfl⟩ := hlearn
    cases hoffering
  | history =>
    obtain ⟨-, rfl⟩ := hlearn
    cases hoffering
  | prompt id brief =>
    cases brief with
    | hunt range => obtain ⟨-, rfl | rfl⟩ := hlearn <;> cases hoffering
    | _ => exact hlearn.elim
  | findingsFile =>
    cases hlearn
    cases hoffering
  | runWorker | ledgerUsage => cases hstill
  | _ => exact hlearn.elim

end

theorem searched_call {β : Type} {c : Call β} {a : Memory} {w w' : World} {b : β} {gone : Gone}
    (hallow : c.allowed a) (hknown : Known a w) (hsearched : Searched a w.store gone)
    (hholds : c.holdsFound (w, gone)) (h : CallStep c w b w') :
    Searched (a.next c b) w'.store (c.goneAfter gone b) := by
  cases c with
  | ask q =>
    rw [next_ask, show w' = w from h.leaves]
    exact hsearched
  | tree t =>
    rw [show w'.store = w.store from h.leaves]
    cases hstill : t.isStill with
    | true => exact searched_still hstill hsearched
    | false =>
      cases t with
      | runWorker => exact searched_run hallow hknown.facts hsearched
      | ledgerUsage => exact searched_ledger hsearched
      | _ => cases hstill
  | store c =>
    rcases h.leaves with ⟨b', s', rfl, happly, rfl⟩ | ⟨⟨e, rfl⟩, rfl⟩
    · exact searched_store happly hallow hknown.facts hknown.descends hsearched hholds
    · exact hsearched.mono rfl (fun _ hx => hx) fun x hx _ => hx.elim And.left False.elim

theorem Searched.entry {a : Memory} {s : Store} {gone : Gone} (h : Searched a s gone)
    (phase : Phase) : Searched phase.known s gone := by
  refine h.mono rfl (fun _ hx => hx) fun x hx hoffering => ?_
  have hover := Phase.known_handedOver hx
  cases x with
  | unrun | ran | ledger => cases hover
  | _ => cases hoffering

theorem EnvStep.jobs {w w' : World} (h : EnvStep w w') : w'.store.jobs = w.store.jobs := by
  cases h with
  | treeLost => rfl
  | request haccept => exact haccept.jobs

theorem searched_invariant : Machine.InvariantUnder carefulHolds
    ((follower.watch _ _ _).restrict _ _ _) (fun a x => Known a x.1)
    fun a x => Searched a x.1.store x.2 where
  init x hx := by
    obtain ⟨hw, hgone⟩ := hx
    rw [hgone, hw]
    exact ⟨fun p j hj => by simp [Store.job?] at hj, fun p j file hj => by simp [Store.job?] at hj,
      fun p rr file hran => hran.elim, fun first file total hledger => hledger.elim⟩
  call a c x b x' hallow hknown hsearched hstep _ := by
    obtain ⟨⟨hstep, hgone⟩, hholds⟩ := hstep
    rw [hgone]
    exact searched_call hallow hknown hsearched hholds hstep
  finish a phase x _ _ hsearched := hsearched.entry phase
  abort a x _ _ hsearched := hsearched.entry .reconcile
  crash a p x _ _ _ hsearched := hsearched.entry .startup
  env a x x' _ hsearched henv := by
    obtain ⟨⟨henv, hgone⟩, -⟩ := henv
    rw [hgone]
    exact hsearched.mono henv.jobs (fun _ hx => hx) fun _ hx _ => hx

/-- Where no hold takes over a session its chain found missing, no worker is told to resume a
session that an earlier attempt of its chain found missing. A session lies in the workspace of its
chain. -/
theorem missingSession_notResumed {x : Config carefulHolds} (hx : carefulHolds.Reachable x)
    {job origin : Nat} {file : Text} {k : Except Text RunResult → Act Phase}
    (hrest : x.rest = .call (.tree (.runWorker job origin (some file))) k) :
    ¬ ∃ p, x.state.1.store.GoesOn job p ∧ x.state.1.store.FoundGone x.state.2 p file := by
  obtain ⟨rest, s⟩ := x
  subst hrest
  obtain ⟨a, hallow, hknown, hsearched⟩ := Machine.Invariant.allowed
    (((known_invariant.watch _ _ _).restrict _ _ _).and searched_invariant) hx
  obtain ⟨-, -, resumedFrom, hunrun, hsession⟩ := hallow
  obtain ⟨q, rfl, hmay⟩ := hsession file rfl
  obtain ⟨j, hj, hfrom, -⟩ := hknown.facts _ hunrun
  rintro ⟨p, ⟨j', hj', hfrom'⟩, hfound⟩
  cases hj.symm.trans hj'
  cases hfrom.symm.trans hfrom'
  have htip : s.1.store.Tip a q := Or.inr ⟨job, ⟨j, hj, hfrom⟩, hunrun⟩
  rcases hmay with hkept | ⟨rr, hran, hfile⟩
  · obtain ⟨i, hi, hfile, -⟩ := hknown.facts _ hkept
    exact hsearched.rows q i file hi hfile htip hfound
  · exact hsearched.runs q rr file hran hfile htip hfound

def goneRun : RunResult where
  killedReason := some "resume-unavailable".toList
  exitCode := none
  tokensNew := 0
  sessionFile := none
  stdoutTail := []

def isResume : {β : Type} → Call β → Bool
  | _, .tree (.runWorker _ _ session) => session.isSome
  | _, _ => false

def isHold : {β : Type} → Call β → Bool
  | _, .store (.blockFixJob _ _ _) => true
  | _, _ => false

def searchedReply (o : Outside) : Machine.Reply Call (World × Gone) :=
  o.reply.watch fun c _ b _ gone => c.goneAfter gone b

def heldReply (o : Outside) : Machine.Reply Call (World × Gone) :=
  (searchedReply o).within fun c _ _ _ => !isHold c

theorem faithful_searchedReply (o : Outside) : searched.Faithful (searchedReply o) :=
  Machine.Faithful.watch o.faithful_reply

theorem faithful_heldReply (o : Outside) : carefulHolds.Faithful (heldReply o) := by
  refine Machine.Faithful.within (faithful_searchedReply o) fun c x _ _ hnot => ?_
  cases c with
  | ask | tree => trivial
  | store c =>
    cases c with
    | blockFixJob => cases hnot
    | _ => trivial

theorem resume_of_next {p : Act Phase} (h : Machine.nextIs isResume p = true) :
    ∃ job origin file k, p = .call (.tree (.runWorker job origin (some file))) k := by
  obtain ⟨β, c, k, rfl, hresume⟩ := Machine.exists_next h
  cases c with
  | ask | store => cases hresume
  | tree c =>
    cases c with
    | runWorker job origin session =>
      obtain ⟨file, rfl⟩ := Option.isSome_iff_exists.1 hresume
      exact ⟨job, origin, file, k, rfl⟩
    | _ => cases hresume

def requestedSearched {M : Machine Call Text (World × Gone)} (s : Store → Store) (x : Config M) :
    Config M :=
  requestedBeside (fun _ _ gone => gone) s x

def queuedIn {M : Machine Call Text (World × Gone)}
    (reply : Outside → Machine.Reply Call (World × Gone)) : Config M :=
  requestedSearched queueVerdict (play reply (List.replicate 5 hunting)
    (requestedSearched addSampleRepo ⟨M.body M.boot, emptyWorld, []⟩))

theorem reachable_queuedIn {M : Machine Call Text (World × Gone)}
    {reply : Outside → Machine.Reply Call (World × Gone)} (hreply : ∀ o, M.Faithful (reply o))
    (hinit : M.init (emptyWorld, []))
    (henv : ∀ w w' gone, EnvStep w w' → M.env (w, gone) (w', gone)) :
    M.Reachable (queuedIn reply : Config M) :=
  reachable_requestedBeside (r := .verdict 0 .queued none) henv
    (reachable_play hreply (reachable_requestedBeside (r := .addRepo ['r'] ['m']) henv
      (.start hinit) .addRepo)) (.verdict rfl rfl (by decide) (by decide))

/-- A fix stopped by the cap, its session found missing, started cold, stopped by the cap again,
and about to be resumed. -/
def resumedAnew : Config carefulHolds :=
  play heldReply (List.replicate 4 { run := cappedRun, committed := false } ++
    List.replicate 4 { run := goneRun, committed := false } ++
    List.replicate 4 { run := { cappedRun with sessionFile := some ['t'] }, committed := false } ++
    List.replicate 4 { routine with stops := isResume }) (queuedIn heldReply)

theorem reachable_resumedAnew : carefulHolds.Reachable resumedAnew :=
  reachable_play faithful_heldReply
    (reachable_queuedIn faithful_heldReply ⟨rfl, rfl⟩ fun _ _ _ h => ⟨⟨h, rfl⟩, trivial⟩)

/-- The new session was found missing by no attempt of its chain. -/
theorem missingSession_notResumed_anew : resumedAnew.state.2 = [(2, ['s'])] ∧
    ∃ job origin file k, resumedAnew.rest = .call (.tree (.runWorker job origin (some file))) k ∧
      ¬ ∃ p, resumedAnew.state.1.store.GoesOn job p ∧
        resumedAnew.state.1.store.FoundGone resumedAnew.state.2 p file := by
  have hnext : Machine.nextIs isResume resumedAnew.rest = true := by decide +kernel
  have hgone : resumedAnew.state.2 = [(2, ['s'])] := by decide +kernel
  obtain ⟨job, origin, file, k, hrest⟩ := resume_of_next hnext
  exact ⟨hgone, job, origin, file, k, hrest,
    missingSession_notResumed reachable_resumedAnew hrest⟩

def requeue (s : Store) : Store := s.applyVerdict 0 .blocked .queued none

def requeuedFix : Config searched :=
  requestedSearched requeue (play searchedReply
    (List.replicate 4 { run := cappedRun, report := some (.blocked ['b']) })
    (queuedIn searchedReply))

/-- Resumed to find its session missing, held again, queued again, and about to be resumed. -/
def resumedTwice : Config searched :=
  play searchedReply (List.replicate 4 { routine with stops := isResume })
    (requestedSearched requeue (play searchedReply
      (List.replicate 4 { run := goneRun, committed := false }) requeuedFix))

theorem reachable_resumedTwice : searched.Reachable resumedTwice := by
  have henv : ∀ w w' gone, EnvStep w w' → searched.env (w, gone) (w', gone) :=
    fun _ _ _ h => ⟨h, rfl⟩
  have hrequeue : ∀ x : Config searched, searched.Reachable x →
      searched.Reachable (requestedSearched requeue x) := fun x hx =>
    reachable_requestedBeside (r := .verdict 0 .queued none) henv hx
      (.verdict rfl rfl (by decide) (by decide))
  have hqueued := reachable_queuedIn faithful_searchedReply ⟨rfl, rfl⟩ henv
  exact reachable_play faithful_searchedReply (hrequeue _ (reachable_play faithful_searchedReply
    (hrequeue _ (reachable_play faithful_searchedReply hqueued))))

def isResumeOf (p : Nat) (file : Text) : {β : Type} → Call β → Bool
  | _, .tree (.runWorker job _ session) => job = p && session = some file
  | _, _ => false

/-- Held with the session its predecessor left, a fix is resumed from it though it was found
missing. -/
theorem missingSession_resumed : ¬ ∀ x : Config searched, searched.Reachable x →
    ∀ (job origin : Nat) (file : Text) (k : Except Text RunResult → Act Phase),
      x.rest = .call (.tree (.runWorker job origin (some file))) k →
      ¬ ∃ p, x.state.1.store.GoesOn job p ∧ x.state.1.store.FoundGone x.state.2 p file := by
  intro h
  have hnext : Machine.nextIs (isResumeOf 3 ['s']) resumedTwice.rest = true := by decide +kernel
  have hgone : resumedTwice.state.2 = [(2, ['s'])] := by decide +kernel
  have hgoes :
      (resumedTwice.state.1.store.job? 3).any (fun j => j.resumedFrom = some 2) = true := by
    decide +kernel
  have hreachable := reachable_resumedTwice
  generalize resumedTwice = x at *
  obtain ⟨β, c, k, hrest, hresume⟩ := Machine.exists_next hnext
  cases c with
  | ask | store => cases hresume
  | tree c =>
    cases c with
    | runWorker job origin session =>
      simp only [isResumeOf, Bool.and_eq_true, decide_eq_true_eq] at hresume
      obtain ⟨rfl, rfl⟩ := hresume
      obtain ⟨j, hj, hfrom⟩ := (Option.any_eq_true _ _).1 hgoes
      refine h x hreachable 3 origin ['s'] k hrest
        ⟨2, ⟨j, hj, of_decide_eq_true hfrom⟩, 2, ?_, .refl⟩
      rw [hgone]
      exact List.mem_singleton_self _
    | _ => cases hresume

end Hunter
