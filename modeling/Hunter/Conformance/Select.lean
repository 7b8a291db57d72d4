import Hunter.Conformance.PullRequests
set_option autoImplicit false

namespace Hunter
open Effect

variable {α β : Type} {a : Memory}

theorem nodup_listResumableJobs {s : Store} : (s.listResumableJobs.map Row.id).Nodup := by
  rw [Store.listResumableJobs, List.map_reverse, List.nodup_reverse]
  exact nodup_filter_rows _

theorem nodup_resumable {list : List (Row Job)}
    (h : StoreCall.listResumableJobs.canAnswer (.ok list)) : (list.map Row.id).Nodup := by
  obtain ⟨s, s', happly⟩ := h
  cases happly
  exact nodup_listResumableJobs

/-- A row of `list_resumable_jobs`. -/
def Offered (a : Memory) (job : Row Job) : Prop :=
  ∀ x, offerTells job.id job.val.kind job.val.repoId job.val.findingId job.val.sessionFile x →
    x ∈ a

theorem Offered.grows {b : Memory} {job : Row Job} (h : Offered a job) (hab : Grows a b) :
    Offered b job :=
  fun x hx => hab.mem (h x hx)

theorem Offered.unheld {job : Row Job} (h : Offered a job) : Fact.unheld job.id ∈ a :=
  h _ (Or.inr (Or.inr (Or.inl rfl)))

/-- What planning the resume of `job` may undo. -/
abbrev onPlan (job : Row Job) (x : Fact) : Prop := x = .running job.id ∨ x.onEnd job.id

theorem Offered.keeps {b : Memory} {job other : Row Job} (h : Offered a other)
    (hab : Keeps (onPlan job) a b) (hne : other.id ≠ job.id) : Offered b other := by
  refine fun x hx => hab.known x (h x hx) ?_
  rcases hx with rfl | rfl | rfl | ⟨file, -, rfl⟩ | ⟨k, f, -, -, rfl⟩
  · simp [Fact.onEnd, hne]
  · simp [Fact.onEnd]
  · simp [Fact.onEnd]
  · simp [Fact.onEnd]
  · cases k <;> simp [Fact.onEnd, FindingJobKind.due]

/-- What a resume plan made of `job` may be taken up with; a job given up stays its chain's only
live attempt. -/
structure Planned (a : Memory) (job : Row Job) (r : Except Text Resumable) : Prop where
  yes : ∀ plan, r = .ok (.yes plan) →
    plan.handoff = false ∧ ∀ x ∈ (Candidate.resume plan).known, x ∈ a
  gaveUp : ∀ why, r = .ok (.gaveUp why) → Fact.sole job.id ∈ a

theorem planned_error {job : Row Job} {e : Text} : Planned a job (.error e) :=
  ⟨nofun, nofun⟩

theorem planned_no {job : Row Job} : Planned a job (.ok .no) :=
  ⟨nofun, nofun⟩

/-- Since `base`, planning a resume has retired at most the job itself. -/
abbrev Plans (job : Row Job) (base a : Memory) (p : Act Resumable) : Prop :=
  Follows protocol a p fun r a' => Keeps (onPlan job) base a' ∧ Planned a' job r

section
variable {base : Memory} {job : Row Job}

theorem plans_retireGone (h : Grows base a) (hoffer : Offered a job) :
    Plans job base a (retireGone job) :=
  follows_bind.2 (follows_logWriteFailure.2 ⟨⟨Or.inl rfl, by decide, Or.inl hoffer.unheld⟩,
    fun _ _ => ⟨h.grows.trans keeps_retire, planned_no⟩,
    fun _ => ⟨(h.trans (grows_error rfl)).grows, planned_no⟩⟩)

theorem plans_giveUpChain {why : Text} (h : Grows base a) (hoffer : Offered a job) :
    Plans job base a (giveUpChain job why) := by
  refine follows_bind.2 (follows_sqlResult.2 ⟨⟨Or.inr rfl, by decide, Or.inl hoffer.unheld⟩,
    fun b _ => ⟨h.grows.trans keeps_retire, fun _ hr => ?_, fun _ _ => ?_⟩,
    fun _ => ⟨(h.trans (grows_error rfl)).grows, planned_no⟩⟩)
  · cases hr
  · exact Or.inr ⟨⟨_, _, hoffer _ (Or.inl rfl)⟩, rfl⟩

theorem Plans.after {p : Act α} {k : α → Act Resumable} (hp : Peaceful p) (h : Grows base a)
    (hk : ∀ x a', Grows a a' → Plans job base a' (k x)) : Plans job base a (p >>= k) :=
  hp.bind hk fun _ _ h' => ⟨(h.trans h').grows, planned_error⟩

theorem follows_operatorRequeued (hoffer : Offered a job) :
    Follows protocol a (operatorRequeued job) fun r a' =>
      Grows a a' ∧ (r = .ok true → Fact.passed job.id ∈ a') := by
  unfold operatorRequeued
  split
  · rename_i hfix
    refine follows_bind.2 (follows_read rfl (fun b a1 _ h1 hlearn => ⟨h1, fun hb => ?_⟩)
      fun _ _ h => ⟨h, fun h => by cases h⟩)
    refine hlearn _ ⟨by simpa using hb, ⟨job.val.findingId, hoffer _ (Or.inl ?_)⟩, rfl⟩
    rw [hfix]
  · exact ⟨Keeps.refl _ a, fun h => by cases h⟩

theorem plans_planChain {repo : Repo} {plan : ResumePlan} (h : Grows base a)
    (hoffer : Offered a job) (hhandoff : plan.handoff = false)
    (hknown : ∀ x ∈ (Candidate.resume plan).known, x = .passed job.id ∨ x ∈ a) :
    Plans job base a (planChain job repo plan) := by
  have hyes : ∀ {a'}, Grows a a' → Fact.passed job.id ∈ a' →
      Planned a' job (.ok (.yes plan)) := by
    intro a' h hpassed
    refine ⟨fun p hp => ?_, fun _ hr => by cases hr⟩
    cases hp
    refine ⟨hhandoff, fun x hx => ?_⟩
    rcases hknown x hx with rfl | hx
    · exact hpassed
    · exact h.mem hx
  refine Plans.after (peaceful_ask rfl) h fun z a1 h1 => ?_
  refine follows_bind.2 (follows_read rfl (fun chain a2 _ h2 hlearn => ?_)
    fun _ _ h' => ⟨((h.trans h1).trans h').grows, planned_error⟩)
  have h12 := h1.trans h2
  dsimp only [onOk]
  split
  · refine follows_bind.2 ((follows_operatorRequeued (hoffer.grows h12)).mono fun r a3 h3 => ?_)
    have h13 : Grows a a3 := h12.trans h3.1
    cases r with
    | error e => exact ⟨(h.trans h13).grows, planned_error⟩
    | ok requeued =>
      cases requeued with
      | true => exact ⟨(h.trans h13).grows, hyes h13 (h3.2 rfl)⟩
      | false => exact plans_giveUpChain (h.trans h13) (hoffer.grows h13)
  · rename_i hceiling
    refine ⟨(h.trans h12).grows, hyes h12 (hlearn _ ⟨?_, rfl⟩)⟩
    cases htoo : chain.tooMany <;> simp_all

theorem plans_resumePlan (hoffer : Offered a job) : Plans job a a (resumePlan job) := by
  have h0 : Grows a a := Keeps.refl _ a
  unfold resumePlan
  split
  · exact ⟨h0.grows, planned_no⟩
  · rename_i session hsession
    refine Plans.after (peaceful_sql rfl) h0 fun repo a1 h1 => ?_
    cases repo with
    | none => exact ⟨h1.grows, planned_no⟩
    | some repo =>
      refine follows_bind.2 (follows_read rfl (fun origin a2 _ h2 hlearn => ?_)
        fun _ _ h => ⟨(h1.trans h).grows, planned_error⟩)
      have h02 := h1.trans h2
      refine follows_bind.2 (follows_read rfl (fun sha a3 _ h3 hpinned => ?_)
        fun _ _ h => ⟨(h02.trans h).grows, planned_error⟩)
      have h03 := h02.trans h3
      cases sha with
      | none => exact plans_retireGone h03 (hoffer.grows h03)
      | some sha =>
        refine Plans.after (peaceful_tree rfl) h03 fun there a4 h4 => ?_
        have h04 := h03.trans h4
        cases there with
        | false => exact plans_retireGone h04 (hoffer.grows h04)
        | true =>
          refine Plans.after (peaceful_ask rfl) h04 fun inside a5 h5 => ?_
          have h05 := h04.trans h5
          cases inside with
          | false => exact plans_retireGone h05 (hoffer.grows h05)
          | true =>
            refine plans_planChain h05 (hoffer.grows h05) rfl fun x hx => ?_
            have hlater := (h3.trans h4).trans h5
            rcases hx with hx | rfl | rfl | rfl | ⟨f, hkind, hf, rfl⟩
            · exact Or.inr (h05.mem (hoffer x (hsession ▸ hx)))
            · exact Or.inl rfl
            · exact Or.inr ((h4.trans h5).mem (hpinned _ ⟨sha, rfl, rfl⟩))
            · have hoffered : Fact.offered job.id job.val.kind job.val.findingId ∈ a1 :=
                h1.mem (hoffer _ (Or.inl rfl))
              exact Or.inr (hlater.mem (hlearn _ (Or.inr ⟨Or.inr ⟨_, _, hoffered⟩, rfl⟩)))
            · have hroot : Fact.rooted job.id f ∈ a1 :=
                h1.mem (hoffer _ (Or.inr (Or.inr (Or.inr (Or.inr ⟨.fix, f, hkind, hf, rfl⟩)))))
              have hagrees := hlearn _ (Or.inl ⟨f, hroot, rfl⟩)
              exact Or.inr (hlater.mem hagrees)

end

theorem follows_recordHarvestFailure {fid : Nat} {key : Text} (hcalm : Calm a) :
    Follows protocol a (recordHarvestFailure fid key) fun r a' =>
      Calm a' ∧ (r = .ok false → Grows a a') := by
  refine Peaceful.bind (quiet_attempt (peaceful_recordHarvestAttempt _ _)) ?_
    fun _ _ h => ⟨h.calm hcalm, fun _ => h⟩
  intro r a1 h1
  have hcalm1 := h1.calm hcalm
  cases r with
  | error e => exact ⟨hcalm1, fun _ => h1⟩
  | ok streak =>
    dsimp only
    split
    · exact ⟨hcalm1, fun _ => h1⟩
    · refine follows_bind.2 (follows_ask.2 ⟨trivial, fun now => ?_⟩)
      refine follows_bind.2 (follows_sqlResult.2 ⟨trivial, fun b _ => ?_, fun e => ?_⟩)
      · have hstamp : Settles a1 (a1.next (.store (.markPrHarvested fid now)) (.ok b)) :=
          settles_next rfl rfl
        refine Peaceful.bind (peaceful_log rfl) ?_ ?_
        · exact fun _ a2 h2 => ⟨h2.calm (hstamp.calm hcalm1), fun h => by cases h⟩
        · exact fun _ a2 h2 => ⟨h2.calm (hstamp.calm hcalm1), fun h => by cases h⟩
      · have h2 : Grows a1 (a1.next (.store (.markPrHarvested fid now)) (.error e)) :=
          grows_error rfl
        exact ⟨h2.calm hcalm1, fun _ => h1.trans h2⟩

/-- What is known of a picked finding and its suspended attempts, while they are gone through. -/
structure Picking (a : Memory) (kind : FindingJobKind) (fid : Nat) (list : List (Row Job)) :
    Prop where
  calm : Calm a
  due : kind.due fid ∈ a
  nodup : (list.map Row.id).Nodup
  offered : ∀ job ∈ list, job.val.findingId = some fid → job.val.kind = .finding kind →
    Offered a job

section
variable {kind : FindingJobKind} {fid : Nat} {job : Row Job} {rest : List (Row Job)}

theorem Picking.tail (h : Picking a kind fid (job :: rest)) : Picking a kind fid rest := by
  have hnodup := h.nodup
  rw [List.map_cons, List.nodup_cons] at hnodup
  exact ⟨h.calm, h.due, hnodup.2, fun j hj => h.offered j (by simp [hj])⟩

theorem Picking.grows {b : Memory} (h : Picking a kind fid rest) (hab : Grows a b) :
    Picking b kind fid rest :=
  ⟨hab.calm h.calm, hab.mem h.due, h.nodup, fun j hj hf hk => (h.offered j hj hf hk).grows hab⟩

theorem Picking.planned {b : Memory} (h : Picking a kind fid (job :: rest))
    (hab : Keeps (onPlan job) a b) : Picking b kind fid rest := by
  have hnodup := h.nodup
  rw [List.map_cons, List.nodup_cons] at hnodup
  refine ⟨hab.calm h.calm, hab.known _ h.due ?_, hnodup.2, fun other hother hf hk => ?_⟩
  · cases kind <;> simp [Fact.onEnd, FindingJobKind.due]
  · refine (h.offered other (by simp [hother]) hf hk).keeps hab fun heq => hnodup.1 ?_
    exact heq ▸ List.mem_map_of_mem hother

/-- Giving up the claim on a finding undoes nothing its suspended fixes are listed for. -/
theorem Picking.released {b : Memory} (h : Picking a .fix fid rest)
    (hab : Keeps (fun x => x.isHeld fid) a b) : Picking b .fix fid rest := by
  refine ⟨hab.calm h.calm, hab.known _ h.due ?_, h.nodup, fun job hjob hf hk x hx => ?_⟩
  · simp [Fact.isHeld, FindingJobKind.due]
  · refine hab.known x (h.offered job hjob hf hk x hx) ?_
    rcases hx with rfl | rfl | rfl | ⟨file, -, rfl⟩ | ⟨k, f, hk', -, rfl⟩
    · simp [Fact.isHeld]
    · simp [Fact.isHeld]
    · simp [Fact.isHeld]
    · simp [Fact.isHeld]
    · cases hk.symm.trans hk'
      simp [Fact.isHeld]

theorem follows_countGivenUpChain {why : Text} (h : Picking a kind fid rest)
    (hhold : kind = .fix → Fact.rooted job.id fid ∈ a) (hsole : Fact.sole job.id ∈ a) :
    Follows protocol a (countGivenUpChain kind fid job.id why) fun r a' =>
      Calm a' ∧ (r = .ok false → Picking a' kind fid rest) := by
  cases kind with
  | recheck =>
    exact (follows_handleRecheckFailure h.calm h.due budgeted_none).mono fun r a' h' =>
      ⟨h'.1, fun hr => h.grows (h'.2 hr)⟩
  | fix =>
    refine follows_bind.2 (follows_attempt.2 ?_)
    refine (follows_recordFixFailure ⟨hhold rfl, Or.inr h.due, Or.inl hsole⟩).mono
      fun r a' h' => ?_
    cases r with
    | error e => exact ⟨h'.1.calm h.calm, fun _ => h.released (h'.2 (by simp))⟩
    | ok blocked =>
      refine ⟨h'.1.calm h.calm, fun hr => h.released (h'.2 ?_)⟩
      cases hr
      simp
  | harvest =>
    exact (follows_recordHarvestFailure h.calm).mono fun r a' h' =>
      ⟨h'.1, fun hr => h.grows (h'.2 hr)⟩
  | engage =>
    refine follows_bind.2 (follows_ask.2 ⟨trivial, fun now => ?_⟩)
    refine (peaceful_sqlResult rfl).bind (fun r a1 h1 => ?_)
      fun _ _ h' => ⟨h'.calm h.calm, fun _ => h.grows h'⟩
    cases r with
    | ok _ => exact ⟨h1.calm h.calm, fun hr => by cases hr⟩
    | error e => exact ⟨h1.calm h.calm, fun _ => h.grows h1⟩

end

/-- A pick leaves no merge half-recorded, and knows what its candidate is picked for. -/
def Picks (r : Except Text (Option Candidate)) (a : Memory) : Prop :=
  Calm a ∧ ∀ candidate, r = .ok (some candidate) → ∀ x ∈ candidate.known, x ∈ a

theorem picks_error {e : Text} (hcalm : Calm a) : Picks (.error e) a :=
  ⟨hcalm, fun _ h => by cases h⟩

theorem picks_none (hcalm : Calm a) : Picks (.ok none) a := ⟨hcalm, fun _ h => by cases h⟩

theorem picks_plan {plan : ResumePlan} {job : Row Job} (hcalm : Calm a)
    (hplan : Planned a job (.ok (.yes plan))) : Picks (.ok (some (.resume plan))) a := by
  refine ⟨hcalm, fun candidate h => ?_⟩
  cases h
  exact (hplan.yes plan rfl).2

theorem follows_resumeFinding {kind : FindingJobKind} {fid : Nat} {list : List (Row Job)}
    (h : Picking a kind fid list) :
    Follows protocol a (resumeFinding kind fid list) Picks := by
  induction list generalizing a with
  | nil =>
    refine ⟨h.calm, fun candidate hc x hx => ?_⟩
    cases hc
    cases hx
    exact h.due
  | cons job rest ih =>
    unfold resumeFinding
    split
    · rename_i hmatch
      obtain ⟨hf, hk⟩ : job.val.findingId = some fid ∧ job.val.kind = .finding kind := by
        simpa using hmatch
      have hoffer := h.offered job (by simp) hf hk
      refine follows_bind.2 ((plans_resumePlan hoffer).mono fun r a1 h1 => ?_)
      have hcalm1 := h1.1.calm h.calm
      have hpick1 := h.planned h1.1
      cases r with
      | error e => exact picks_error hcalm1
      | ok resumable =>
        cases resumable with
        | yes plan => exact picks_plan hcalm1 h1.2
        | no => exact ih hpick1
        | gaveUp why =>
          have hroot : kind = .fix → Fact.rooted job.id fid ∈ a1 := by
            rintro rfl
            have hrooted : Fact.rooted job.id fid ∈ a :=
              hoffer _ (Or.inr (Or.inr (Or.inr (Or.inr ⟨.fix, fid, hk, hf, rfl⟩))))
            exact h1.1.known _ hrooted (by simp [Fact.onEnd])
          refine follows_bind.2 ((follows_countGivenUpChain hpick1 hroot
            (h1.2.gaveUp why rfl)).mono fun r a2 h2 => ?_)
          cases r with
          | error e => exact picks_error h2.1
          | ok ended =>
            cases ended with
            | true => exact picks_none h2.1
            | false => exact ih (h2.2 rfl)
    · exact ih h.tail

theorem follows_findingPick {kind : FindingJobKind} {fid : Nat} (hcalm : Calm a)
    (hdue : kind.due fid ∈ a) : Follows protocol a (findingPick kind fid) Picks := by
  refine follows_bind.2 (follows_read rfl (fun list a1 hlist h1 hlearn => ?_)
    fun _ _ h => picks_error (h.calm hcalm))
  exact follows_resumeFinding ⟨h1.calm hcalm, h1.mem hdue, nodup_resumable hlist,
    fun job hjob _ _ x hx => hlearn x ⟨job, hjob, hx⟩⟩

theorem follows_pickResume {list : List (Row Job)} (hcalm : Calm a)
    (hnodup : (list.map Row.id).Nodup) (hoffered : ∀ job ∈ list, Offered a job) :
    Follows protocol a (pickResume list) Picks := by
  induction list generalizing a with
  | nil => exact picks_none hcalm
  | cons job rest ih =>
    rw [List.map_cons, List.nodup_cons] at hnodup
    refine follows_bind.2 ((plans_resumePlan (hoffered job (by simp))).mono fun r a1 h1 => ?_)
    have hcalm1 := h1.1.calm hcalm
    have hrest : Follows protocol a1 (pickResume rest) Picks := by
      refine ih hcalm1 hnodup.2 fun other hother => ?_
      refine (hoffered other (by simp [hother])).keeps h1.1 fun heq => hnodup.1 ?_
      exact heq ▸ List.mem_map_of_mem hother
    cases r with
    | error e => exact picks_error hcalm1
    | ok resumable =>
      cases resumable with
      | yes plan => exact picks_plan hcalm1 h1.2
      | gaveUp why => exact hrest
      | no => exact hrest

theorem follows_flagged {list : List (Row Finding)} :
    Follows protocol a (flagged list) fun r a' =>
      Grows a a' ∧ ∀ found, r = .ok found → ∀ p ∈ found, p.2 ∈ list := by
  induction list generalizing a with
  | nil => exact ⟨Keeps.refl _ a, fun found h p hp => by cases h; cases hp⟩
  | cons row rest ih =>
    refine (peaceful_sql rfl).bind (fun ps a1 h1 => ?_) fun _ _ h => ⟨h, fun _ h => by cases h⟩
    refine follows_bind.2 (ih.mono fun r a2 h2 => ?_)
    have h := h1.trans h2.1
    cases r with
    | error e => exact ⟨h, fun _ h => by cases h⟩
    | ok others =>
      have hothers : ∀ p ∈ others, p.2 ∈ row :: rest :=
        fun p hp => List.mem_cons_of_mem _ (h2.2 others rfl p hp)
      dsimp only [onOk]
      split
      · split
        · refine ⟨h, fun found hfound p hp => ?_⟩
          cases hfound
          rcases List.mem_cons.1 hp with rfl | hp
          · simp
          · exact hothers p hp
        · exact ⟨h, fun found hfound => by cases hfound; exact hothers⟩
      · exact ⟨h, fun found hfound => by cases hfound; exact hothers⟩

theorem follows_listAttention :
    Follows protocol a listAttention fun r a' =>
      Grows a a' ∧ ∀ found, r = .ok found → ∀ row ∈ found, Fact.held row.id .prOpen ∈ a' := by
  refine follows_bind.2 (follows_read rfl (fun list a1 _ h1 hlearn => ?_)
    fun _ _ h => ⟨h, fun _ h => by cases h⟩)
  refine follows_bind.2 (follows_flagged.mono fun r a2 h2 => ?_)
  cases r with
  | error e => exact ⟨h1.trans h2.1, fun _ h => by cases h⟩
  | ok found =>
    refine ⟨h1.trans h2.1, fun out hout row hrow => ?_⟩
    cases hout
    obtain ⟨p, hp, rfl⟩ := List.mem_map.1 hrow
    have hmem := h2.2 found rfl p ((List.mem_insertionSort _).1 hp)
    exact h2.1.mem (hlearn _ ⟨p.2, hmem, Or.inl ⟨rfl, rfl⟩⟩)

structure Tiers.Known (tiers : Tiers) (a : Memory) : Prop where
  rechecking : ∀ row ∈ tiers.rechecking, FindingJobKind.recheck.due row.id ∈ a
  attention : ∀ row ∈ tiers.attention, FindingJobKind.engage.due row.id ∈ a
  pendingHarvest : ∀ row ∈ tiers.pendingHarvest, FindingJobKind.harvest.due row.id ∈ a
  queued : ∀ row ∈ tiers.queued, FindingJobKind.fix.due row.id ∈ a

theorem follows_readTiers :
    Follows protocol a readTiers fun r a' =>
      Grows a a' ∧ ∀ tiers, r = .ok tiers → tiers.Known a' := by
  refine follows_bind.2 (follows_read rfl (fun rechecking a1 _ h1 hrecheck => ?_)
    fun _ _ h => ⟨h, fun _ h => by cases h⟩)
  refine follows_bind.2 (follows_listAttention.mono fun r a2 h2 => ?_)
  have h12 := h1.trans h2.1
  cases r with
  | error e => exact ⟨h12, fun _ h => by cases h⟩
  | ok attention =>
    refine follows_bind.2 (follows_read rfl (fun harvest a3 _ h3 hharvest => ?_)
      fun _ _ h => ⟨h12.trans h, fun _ h => by cases h⟩)
    refine follows_bind.2 (follows_read rfl (fun queued a4 _ h4 hqueued => ?_)
      fun _ _ h => ⟨(h12.trans h3).trans h, fun _ h => by cases h⟩)
    refine ⟨(h12.trans h3).trans h4, fun tiers htiers => ?_⟩
    cases htiers
    exact {
      rechecking := fun row hrow =>
        ((h2.1.trans h3).trans h4).mem (hrecheck _ ⟨row, hrow, Or.inl ⟨rfl, rfl⟩⟩)
      attention := fun row hrow => (h3.trans h4).mem (h2.2 attention rfl row hrow)
      pendingHarvest := fun row hrow => h4.mem (hharvest _ ⟨row, hrow, rfl⟩)
      queued := fun row hrow => hqueued _ ⟨row, hrow, Or.inr (Or.inl ⟨rfl, rfl⟩)⟩ }

def Tiers.of (tiers : Tiers) : FindingJobKind → List (Row Finding)
  | .recheck => tiers.rechecking
  | .engage => tiers.attention
  | .harvest => tiers.pendingHarvest
  | .fix => tiers.queued

theorem mem_of_pick {tiers : Tiers} {kind : FindingJobKind} {fid : Nat}
    (h : tiers.pick = some (kind, fid)) : ∃ row ∈ tiers.of kind, row.id = fid := by
  have hover : ∀ {list : List (Row Finding)} {row}, overridden list = some row → row ∈ list :=
    fun h => List.mem_of_find?_eq_some h
  simp only [Tiers.pick, Option.or_eq_some_iff, Option.map_eq_some_iff, Prod.mk.injEq] at h
  rcases h with ⟨row, hrow, rfl, rfl⟩ | ⟨-, h⟩
  · exact ⟨row, hover hrow, rfl⟩
  rcases h with ⟨row, hrow, rfl, rfl⟩ | ⟨-, h⟩
  · exact ⟨row, hover hrow, rfl⟩
  rcases h with ⟨row, hrow, rfl, rfl⟩ | ⟨-, h⟩
  · exact ⟨row, hover hrow, rfl⟩
  rcases h with ⟨row, hrow, rfl, rfl⟩ | ⟨-, h⟩
  · exact ⟨row, hover hrow, rfl⟩
  rcases h with ⟨row, hrow, rfl, rfl⟩ | ⟨-, h⟩
  · exact ⟨row, List.mem_of_head? hrow, rfl⟩
  rcases h with ⟨row, hrow, rfl, rfl⟩ | ⟨-, h⟩
  · exact ⟨row, List.mem_of_head? hrow, rfl⟩
  rcases h with ⟨row, hrow, rfl, rfl⟩ | ⟨-, row, hrow, rfl, rfl⟩
  · exact ⟨row, List.mem_of_getLast? hrow, rfl⟩
  · exact ⟨row, List.mem_of_getLast? hrow, rfl⟩

theorem Tiers.Known.due {tiers : Tiers} (h : tiers.Known a) (kind : FindingJobKind) :
    ∀ row ∈ tiers.of kind, kind.due row.id ∈ a := by
  cases kind with
  | recheck => exact h.rechecking
  | engage => exact h.attention
  | harvest => exact h.pendingHarvest
  | fix => exact h.queued

theorem Tiers.Known.pick {tiers : Tiers} {kind : FindingJobKind} {fid : Nat}
    (h : tiers.Known a) (hpick : tiers.pick = some (kind, fid)) : kind.due fid ∈ a := by
  obtain ⟨row, hrow, rfl⟩ := mem_of_pick hpick
  exact h.due kind row hrow

def Selects (r : Except Text Selection) (a : Memory) : Prop :=
  Calm a ∧ ∀ candidate, r = .ok (.picked candidate) → ∀ x ∈ candidate.known, x ∈ a

theorem selects_error {e : Text} (hcalm : Calm a) : Selects (.error e) a :=
  ⟨hcalm, fun _ h => by cases h⟩

theorem Picks.selects {candidate : Candidate} (h : Picks (.ok (some candidate)) a) :
    Selects (.ok (.picked candidate)) a := by
  refine ⟨h.1, fun c hc => ?_⟩
  cases hc
  exact h.2 candidate rfl

theorem follows_selectBackground (hcalm : Calm a) :
    Follows protocol a selectBackground Selects := by
  refine follows_bind.2 (follows_read rfl (fun list a1 hlist h1 hlearn => ?_)
    fun _ _ h => selects_error (h.calm hcalm))
  have hoffered : ∀ job ∈ list, Offered a1 job := fun job hjob x hx => hlearn x ⟨job, hjob, hx⟩
  refine follows_bind.2 ((follows_pickResume (h1.calm hcalm) (nodup_resumable hlist)
    hoffered).mono fun r a2 h2 => ?_)
  cases r with
  | error e => exact selects_error h2.1
  | ok picked =>
    cases picked with
    | some candidate => exact h2.selects
    | none =>
      refine follows_bind.2 (follows_tryAsk.2 ⟨trivial, fun pick => ?_, fun e => ?_⟩)
      · cases pick with
        | none => exact ⟨h2.1, fun _ h => by cases h⟩
        | some pick =>
          refine ⟨h2.1, fun c hc x hx => ?_⟩
          cases hc
          exact hx.elim
      · exact selects_error h2.1

theorem follows_select (hcalm : Calm a) : Follows protocol a select Selects := by
  refine follows_bind.2 (follows_readTiers.mono fun r a1 h1 => ?_)
  have hcalm1 := h1.1.calm hcalm
  cases r with
  | error e => exact selects_error hcalm1
  | ok tiers =>
    dsimp only [onOk]
    split
    · rename_i kind fid hpick
      refine follows_bind.2 ((follows_findingPick hcalm1 ((h1.2 tiers rfl).pick hpick)).mono
        fun r a2 h2 => ?_)
      cases r with
      | error e => exact selects_error h2.1
      | ok picked =>
        cases picked with
        | some candidate => exact h2.selects
        | none => exact ⟨h2.1, fun _ h => by cases h⟩
    · exact follows_selectBackground hcalm1

end Hunter
