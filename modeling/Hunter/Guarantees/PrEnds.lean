import Hunter.Effect.Runs
import Hunter.Knowledge
import Hunter.Replay
set_option autoImplicit false

namespace Hunter
open Effect

/-! What a pass of `sync_prs` makes of a PR's end. -/

/-- The number and state of each finding's PR, as the forge last reported its end. -/
abbrev Reports := Nat → Option (Int × PrPhase)

def Call.reported : {β : Type} → Call β → β → Reports → Reports
  | _, .ask (.viewPrSync fid prNumber), .ok pr, ends =>
    if pr.state = .opened then ends else Function.update ends fid (some (prNumber, pr.state))
  | _, _, _, ends => ends

def Call.syncs (fid : Nat) : {β : Type} → Call β → Prop
  | _, .ask (.viewPrSync f _) => f = fid
  | _, .ask _ => True
  | _, .store (.setFindingStatus f _) | _, .store (.setAnchoredVerdict f _ _ _)
  | _, .store (.markPrMerged f _ _) | _, .store (.markPrClosed f _ _)
  | _, .store (.syncPrOpen f _) => f = fid
  | _, .store (.getPrState _) | _, .store (.getRepoById _) => True
  | _, _ => False

def Hears {β : Type} (c : Call β) (x : World × Reports) (b : β) (y : World × Reports) : Prop :=
  CallStep c x.1 b y.1 ∧ y.2 = c.reported b x.2

def PrState.records (p : PrState) (prNumber : Int) (phase : PrPhase) : Prop :=
  p.prNumber = some prNumber ∧ p.state = some phase

/-- `mark_pr_merged` fails on no finding set `merged` before its row is. -/
def Call.recordsMerge : {β : Type} → Call β → World → β → Prop
  | _, .store (.markPrMerged fid prNumber _), w, .error _ =>
    ∀ f, w.store.finding? fid = some f → f.status = .merged →
      ∃ p, f.prState = some p ∧ p.records prNumber .merged
  | _, _, _, _ => True

def Records {β : Type} (c : Call β) (x : World × Reports) (b : β) (y : World × Reports) : Prop :=
  Hears c x b y ∧ c.recordsMerge x.1 b

/-- The next sync looks at the finding again, or its row records this end and it waits for its
harvest, unless it had that. -/
def Store.KeepsEnd (s : Store) (fid : Nat) (prNumber : Int) (phase : PrPhase) : Prop :=
  ∃ f, s.finding? fid = some f ∧ (f.status = .prOpen ∨
    ∃ p, f.prState = some p ∧ p.records prNumber phase ∧
      (p.harvestedAt.isSome ∨ ⟨fid, f⟩ ∈ s.listPendingHarvest))

def Finding.prColumns (f : Finding) :
    FindingStatus × Option Text × Option (Option Int × Option PrPhase × Option Int) :=
  (f.status, f.prUrl, f.prState.map fun p => (p.prNumber, p.state, p.harvestedAt))

/-- Syncs after one another. In between anything may happen; a finding that is harvested, moved or
given another PR there is no longer watched. -/
inductive Passes (step : {β : Type} → Call β → World × Reports → β → World × Reports → Prop) :
    World × Reports → Prop
  | start (w : World) : Passes step (w, fun _ => none)
  | pass {x y : World × Reports} {r : Except Text Unit} :
      Passes step x → Runs step syncPrs x r y → Passes step y
  | meanwhile {w w' : World} {ends ends' : Reports} : Passes step (w, ends) →
      (∀ fid e, ends' fid = some e → ends fid = some e ∧
        (w'.store.finding? fid).map Finding.prColumns =
          (w.store.finding? fid).map Finding.prColumns) →
      Passes step (w', ends')

/-- A reported end that is kept, and the PR's url with it. -/
def Watches (x : World × Reports) (fid : Nat) : Prop :=
  ∀ prNumber phase, x.2 fid = some (prNumber, phase) →
    x.1.store.KeepsEnd fid prNumber phase ∧
      (x.1.store.finding? fid).any (fun f => f.url.isSome) = true

theorem mem_listPendingHarvest {s : Store} {row : Row Finding} :
    row ∈ s.listPendingHarvest ↔
      s.finding? row.id = some row.val ∧ Store.pendingHarvest row.val = true := by
  simp [Store.listPendingHarvest, List.mem_insertionSort, Store.finding?]

section
variable {α β : Type} {x y : World × Reports} {fid : Nat} {f : Finding} {prNumber : Int}

theorem records_ask {q : Query β} {k : β → Act α} {r : Except Text α}
    (h : Runs Records (.call (.ask q) k) x r y) :
    ∃ b, Runs Records (k b) (x.1, (Call.ask q).reported b x.2) r y := by
  cases h with
  | @call _ _ _ b _ t _ _ hstep hrest =>
    obtain ⟨w, ends⟩ := t
    obtain ⟨⟨hcall, hends⟩, -⟩ := hstep
    obtain rfl : w = x.1 := hcall.leaves
    obtain rfl : ends = _ := hends
    exact ⟨b, hrest⟩

theorem records_store {c : StoreCall β} {k : Except Text β → Act α} {r : Except Text α}
    (h : Runs Records (.call (.store c) k) x r y) :
    (∃ b s, c.apply x.1.store = some (b, s) ∧
      Runs Records (k (.ok b)) ({ x.1 with store := s }, x.2) r y) ∨
    ∃ e, (Call.store c).recordsMerge x.1 (.error e) ∧ Runs Records (k (.error e)) x r y := by
  cases h with
  | @call _ _ _ b _ t _ _ hstep hrest =>
    obtain ⟨w, ends⟩ := t
    obtain ⟨⟨hcall, hends⟩, hrecords⟩ := hstep
    obtain rfl : ends = x.2 := hends
    rcases hcall.leaves with ⟨b, s, rfl, happly, rfl⟩ | ⟨⟨e, rfl⟩, rfl⟩
    · exact Or.inl ⟨b, s, happly, hrest⟩
    · exact Or.inr ⟨e, hrecords, hrest⟩

theorem watches_of_open (hf : x.1.store.finding? fid = some f) (hopen : f.status = .prOpen)
    (hurl : f.url.isSome = true) : Watches x fid :=
  fun _ _ _ => ⟨⟨f, hf, Or.inl hopen⟩, by rw [hf]; exact hurl⟩

theorem watches_of_row (hf : x.1.store.finding? fid = some f) (hurl : f.url.isSome = true)
    {phase : PrPhase} (hends : x.2 fid = some (prNumber, phase)) {p : PrState}
    (hp : f.prState = some p) (hrecords : p.records prNumber phase)
    (hwaits : p.harvestedAt.isSome ∨ Store.pendingHarvest f = true) : Watches x fid := by
  intro n phase' hreported
  cases hends.symm.trans hreported
  exact ⟨⟨f, hf, Or.inr ⟨p, hp, hrecords,
    hwaits.imp_right fun h => mem_listPendingHarvest.2 ⟨hf, h⟩⟩⟩, by rw [hf]; exact hurl⟩

theorem PrState.records_ended (p : PrState) (phase : PrPhase) (prNumber syncedAt : Int) :
    (p.ended phase prNumber syncedAt).records prNumber phase := by
  refine ⟨?_, rfl⟩
  unfold ended forNumber
  split <;> rfl

theorem waits_of_records {p : PrState} (hp : f.prState = some p) {phase : PrPhase}
    (hrecords : p.records prNumber phase)
    (hstatus : f.status = .merged ∨ phase = .closed ∧ f.status = .closed) :
    p.harvestedAt.isSome ∨ Store.pendingHarvest f = true := by
  cases hstamp : p.harvestedAt with
  | some t => exact Or.inl rfl
  | none =>
    right
    rcases hstatus with hmerged | ⟨rfl, hclosed⟩
    · simp [Store.pendingHarvest, hp, hstamp, hmerged]
    · simp [Store.pendingHarvest, hp, hstamp, hclosed, hrecords.2]

theorem watches_syncMerged {r : Except Text Unit} (hf : x.1.store.finding? fid = some f)
    (hopen : f.status = .prOpen) (hurl : f.url.isSome = true)
    (hends : x.2 fid = some (prNumber, .merged))
    (h : Runs Records (syncMerged fid prNumber) x r y) : Watches y fid := by
  obtain ⟨now, h⟩ := records_ask h
  rcases records_store h with ⟨_, s, happly, h⟩ | ⟨e, -, h⟩
  · cases happly
    have hf' : (x.1.store.setFindingStatus fid .merged).finding? fid =
        some { f with status := .merged } := by simp [Store.setFindingStatus, hf]
    rcases records_store h with ⟨_, t, happly, h⟩ | ⟨e, hrecords, h⟩
    · cases happly
      cases h
      have hrow := (f.prState.getD {}).records_ended .merged prNumber now
      refine watches_of_row (f := { f with
          status := .merged
          prState := some ((f.prState.getD {}).ended .merged prNumber now) })
        ?_ hurl hends rfl hrow (waits_of_records rfl hrow (Or.inl rfl))
      simp [Store.markPrMerged, Store.markPrEnded, hf', Finding.upsertPr]
    · cases h
      obtain ⟨p, hp, hrow⟩ := hrecords _ hf' rfl
      exact watches_of_row hf' hurl hends hp hrow (waits_of_records hp hrow (Or.inl rfl))
  · rcases records_store h with ⟨_, t, happly, h⟩ | ⟨e, -, h⟩
    · cases happly
      cases h
      refine watches_of_open (f := f.upsertPr fun p => p.ended .merged prNumber now) ?_ hopen hurl
      simp [Store.markPrMerged, Store.markPrEnded, hf]
    · cases h
      exact watches_of_open hf hopen hurl

theorem watches_syncClosed {r : Except Text Unit} (hf : x.1.store.finding? fid = some f)
    (hopen : f.status = .prOpen) (hurl : f.url.isSome = true)
    (hends : x.2 fid = some (prNumber, .closed))
    (h : Runs Records (syncClosed fid prNumber) x r y) : Watches y fid := by
  obtain ⟨now, h⟩ := records_ask h
  rcases records_store h with ⟨_, s, happly, h⟩ | ⟨e, -, h⟩
  · cases happly
    have hrow := (f.prState.getD {}).records_ended .closed prNumber now
    have hf' : (x.1.store.markPrClosed fid prNumber now).finding? fid =
        some (f.upsertPr fun p => p.ended .closed prNumber now) := by
      simp [Store.markPrClosed, Store.markPrEnded, hf]
    rcases records_store h with ⟨_, t, happly, h⟩ | ⟨e, -, h⟩
    · cases happly
      cases h
      refine watches_of_row (f := (f.upsertPr fun p => p.ended .closed prNumber now).setVerdict
          .closed "PR closed without merge; awaiting harvest".toList none)
        ?_ hurl hends rfl hrow (waits_of_records rfl hrow (Or.inr ⟨rfl, rfl⟩))
      simp [Store.setAnchoredVerdict, hf']
    · cases h
      exact watches_of_open hf' hopen hurl
  · cases h
    exact watches_of_open hf hopen hurl

theorem watches_syncOpen {r : Except Text Unit} {pr : PrView}
    (hf : x.1.store.finding? fid = some f) (hopen : f.status = .prOpen)
    (hurl : f.url.isSome = true) (h : Runs Records (syncOpen fid prNumber pr) x r y) :
    Watches y fid := by
  have hread : ∀ {prev : Option PrState} {x : World × Reports},
      x.1.store.finding? fid = some f →
      Runs Records (do
        let since ← ask .now
        let syncedAt ← ask .now
        logWriteFailure (.syncPrOpen fid (syncData prev pr prNumber since syncedAt))) x r y →
      Watches y fid := by
    intro prev x hf h
    obtain ⟨since, h⟩ := records_ask h
    obtain ⟨syncedAt, h⟩ := records_ask h
    rcases records_store h with ⟨_, s, happly, h⟩ | ⟨e, -, h⟩
    · cases happly
      cases h
      refine watches_of_open (f := f.upsertPr fun p =>
        p.synced (syncData prev pr prNumber since syncedAt)) ?_ hopen hurl
      simp [Store.syncPrOpen, hf]
    · cases h
      exact watches_of_open hf hopen hurl
  rcases records_store h with ⟨prev, s, happly, h⟩ | ⟨e, -, h⟩
  · cases happly
    exact hread hf h
  · exact hread hf h

theorem watches_syncPr {r : Except Text Unit} (hf : x.1.store.finding? fid = some f)
    (hopen : f.status = .prOpen) (hwatches : Watches x fid)
    (h : Runs Records (syncPr fid f) x r y) : Watches y fid := by
  unfold syncPr at h
  cases hurl : f.url with
  | none =>
    -- no end was reported of a PR without a url
    have hunreported : x.2 fid = none := by
      cases hends : x.2 fid with
      | none => rfl
      | some e =>
        obtain ⟨-, hkept⟩ := hwatches e.1 e.2 hends
        simp [hf, hurl] at hkept
    simp only [hurl] at h
    rcases records_store h with ⟨_, s, happly, h⟩ | ⟨e, -, h⟩ <;> cases h <;>
    · intro n phase hends
      cases hunreported.symm.trans hends
  | some url =>
    have hsome : f.url.isSome = true := by simp [hurl]
    have hstays : ∀ {z : World × Reports}, z.1 = x.1 → Watches z fid := fun hz =>
      watches_of_open (by rw [hz]; exact hf) hopen hsome
    simp only [hurl] at h
    rcases records_store h with ⟨repo, s, happly, h⟩ | ⟨e, -, h⟩
    · cases happly
      cases hrepo : (x.1.store.repo? f.repoId).filter fun r => !r.deleted with
      | none =>
        simp only [hrepo] at h
        cases h
        exact hstays rfl
      | some repo =>
        simp only [hrepo] at h
        obtain ⟨parsed, h⟩ := records_ask h
        cases parsed with
        | none =>
          cases h
          exact hstays rfl
        | some n =>
          obtain ⟨view, h⟩ := records_ask h
          cases view with
          | error e =>
            cases h
            exact hstays rfl
          | ok pr =>
            have hends : pr.state ≠ .opened →
                (Call.ask (.viewPrSync fid n)).reported (.ok pr) x.2 fid = some (n, pr.state) := by
              intro hended
              simp [Call.reported, hended]
            dsimp only [Prog.bind] at h
            change Runs Records _ (x.1, (Call.ask (.viewPrSync fid n)).reported (.ok pr) x.2) r y
              at h
            generalize (Call.ask (.viewPrSync fid n)).reported (.ok pr) x.2 = ends at h hends
            cases hphase : pr.state <;> simp only [hphase] at h hends
            · exact watches_syncOpen (x := (x.1, ends)) hf hopen hsome h
            · exact watches_syncMerged (x := (x.1, ends)) hf hopen hsome (hends (by simp)) h
            · exact watches_syncClosed (x := (x.1, ends)) hf hopen hsome (hends (by simp)) h
    · cases h
      exact hstays rfl

def SyncsOnly (fid : Nat) (x y : World × Reports) : Prop :=
  ∀ g ≠ fid, y.1.store.finding? g = x.1.store.finding? g ∧ y.2 g = x.2 g

theorem only_syncPr (fid : Nat) (f : Finding) : Only (Call.syncs fid) (syncPr fid f) := by
  unfold syncPr
  cases f.url with
  | none => exact ⟨rfl, fun _ => trivial⟩
  | some url =>
    refine ⟨trivial, fun repo => ?_⟩
    rcases repo with _ | _ | _
    · trivial
    · trivial
    · refine ⟨trivial, fun parsed => ?_⟩
      cases parsed with
      | none => trivial
      | some prNumber =>
        refine ⟨rfl, fun view => ?_⟩
        cases view with
        | error e => trivial
        | ok pr =>
          dsimp only [Prog.bind]
          cases pr.state with
          | merged => exact ⟨trivial, fun _ => ⟨rfl, fun _ => ⟨rfl, fun _ => trivial⟩⟩⟩
          | closed =>
            refine ⟨trivial, fun _ => ⟨rfl, fun answer => ?_⟩⟩
            cases answer with
            | error e => trivial
            | ok _ => exact ⟨rfl, fun _ => trivial⟩
          | opened =>
            refine ⟨trivial, fun prev => ?_⟩
            cases prev <;> exact ⟨trivial, fun _ => ⟨trivial, fun _ => ⟨rfl, fun _ => trivial⟩⟩⟩

theorem syncsOnly_of_syncs {γ : Type} (c : Call γ) (x : World × Reports) (b : γ)
    (y : World × Reports) (hc : c.syncs fid) (h : Records c x b y) : SyncsOnly fid x y := by
  obtain ⟨⟨hcall, hends⟩, -⟩ := h
  intro g hg
  cases c with
  | tree c => exact hc.elim
  | ask q =>
    rw [show y.1 = x.1 from hcall.leaves, hends]
    refine ⟨rfl, ?_⟩
    cases q with
    | viewPrSync f n =>
      cases hc
      cases b with
      | error e => rfl
      | ok pr =>
        simp only [Call.reported]
        split
        · rfl
        · exact Function.update_of_ne hg _ _
    | _ => rfl
  | store c =>
    refine ⟨?_, by rw [hends]; rfl⟩
    rcases hcall.leaves with ⟨v, s, rfl, happly, hy⟩ | ⟨-, hy⟩
    · rw [hy]
      cases c with
      | setFindingStatus f _ | setAnchoredVerdict f _ _ _ | markPrMerged f _ _
      | markPrClosed f _ _ | syncPrOpen f _ =>
        cases hc
        cases happly
        simp [Store.setFindingStatus, Store.setAnchoredVerdict, Store.markPrMerged,
          Store.markPrClosed, Store.markPrEnded, Store.syncPrOpen, hg.symm]
      | getPrState | getRepoById =>
        cases happly
        rfl
      | _ => exact hc.elim
    · rw [hy]

theorem syncsOnly_syncPr {r : Except Text Unit} (h : Runs Records (syncPr fid f) x r y) :
    SyncsOnly fid x y :=
  h.keeps (R := SyncsOnly fid) (fun _ _ _ => ⟨rfl, rfl⟩)
    (fun _ _ _ h h' g hg => ⟨(h' g hg).1.trans (h g hg).1, (h' g hg).2.trans (h g hg).2⟩)
    syncsOnly_of_syncs (only_syncPr fid f)

theorem SyncsOnly.watches {g : Nat} (h : SyncsOnly fid x y) (hg : g ≠ fid) (hx : Watches x g) :
    Watches y g := by
  obtain ⟨hf, hends⟩ := h g hg
  intro n phase hreported
  rw [hends] at hreported
  obtain ⟨⟨f, hrow, hkept⟩, hurl⟩ := hx n phase hreported
  refine ⟨⟨f, hf.trans hrow, hkept.imp_right ?_⟩, by rw [hf]; exact hurl⟩
  rintro ⟨p, hp, hrecords, hwaits⟩
  refine ⟨p, hp, hrecords, hwaits.imp_right fun hlisted => ?_⟩
  exact mem_listPendingHarvest.2 ⟨hf.trans hrow, (mem_listPendingHarvest.1 hlisted).2⟩

theorem watches_syncEach {list : List (Row Finding)} {r : Except Text Unit}
    (hnodup : (list.map Row.id).Nodup)
    (hlist : ∀ row ∈ list, x.1.store.finding? row.id = some row.val ∧ row.val.status = .prOpen)
    (hwatches : ∀ g, Watches x g) (h : Runs Records (syncEach list) x r y) :
    ∀ g, Watches y g := by
  induction list generalizing x with
  | nil =>
    cases h
    exact hwatches
  | cons row rest ih =>
    obtain ⟨hrow, hopen⟩ := hlist row List.mem_cons_self
    obtain ⟨hfresh, hrest⟩ := List.nodup_cons.1 hnodup
    have hpr : ∀ {r : Except Text Unit} {z : World × Reports},
        Runs Records (syncPr row.id row.val) x r z → ∀ g, Watches z g := by
      intro r z hrun g
      by_cases hg : g = row.id
      · subst hg
        exact watches_syncPr hrow hopen (hwatches _) hrun
      · exact (syncsOnly_syncPr hrun).watches hg (hwatches g)
    rcases Runs.of_bind h with ⟨_, z, hrun, hall⟩ | ⟨e, rfl, hrun⟩
    · refine ih hrest (fun other hother => ?_) (hpr hrun) hall
      have hne : other.id ≠ row.id := fun heq => hfresh (heq ▸ List.mem_map_of_mem hother)
      obtain ⟨hf, hstatus⟩ := hlist other (List.mem_cons_of_mem _ hother)
      exact ⟨((syncsOnly_syncPr hrun) other.id hne).1.trans hf, hstatus⟩
    · exact hpr hrun

theorem watches_syncPrs {r : Except Text Unit} (hwatches : ∀ g, Watches x g)
    (h : Runs Records syncPrs x r y) : ∀ g, Watches y g := by
  rcases records_store h with ⟨list, s, happly, h⟩ | ⟨e, -, h⟩
  · cases happly
    refine watches_syncEach ?_ (fun row hrow => mem_findingsWithStatus.1 hrow) hwatches h
    rw [Store.findingsWithStatus, List.map_reverse, List.nodup_reverse]
    exact nodup_filter_rows _
  · cases h
    exact hwatches

theorem watches_of_prColumns {w w' : World} {ends ends' : Reports} {g : Nat}
    (hends : ∀ e, ends' g = some e → ends g = some e ∧
      (w'.store.finding? g).map Finding.prColumns = (w.store.finding? g).map Finding.prColumns)
    (h : Watches (w, ends) g) : Watches (w', ends') g := by
  intro n phase hreported
  obtain ⟨hbefore, hcolumns⟩ := hends (n, phase) hreported
  obtain ⟨⟨f, hf, hkept⟩, hurl⟩ := h n phase hbefore
  simp only at hf hurl
  rw [hf, Option.map_some] at hcolumns
  obtain ⟨f', hf', heq⟩ := Option.map_eq_some_iff.1 hcolumns
  simp only [Finding.prColumns, Prod.mk.injEq] at heq
  obtain ⟨hstatus, hprUrl, hrow⟩ := heq
  refine ⟨⟨f', hf', ?_⟩, ?_⟩
  · rw [hstatus]
    refine hkept.imp_right ?_
    rintro ⟨p, hp, hrecords, hwaits⟩
    rw [hp, Option.map_some] at hrow
    obtain ⟨p', hp', heq'⟩ := Option.map_eq_some_iff.1 hrow
    simp only [Prod.mk.injEq] at heq'
    obtain ⟨hnumber, hstate, hstamp⟩ := heq'
    refine ⟨p', hp', ⟨hnumber.trans hrecords.1, hstate.trans hrecords.2⟩, ?_⟩
    rw [hstamp]
    refine hwaits.imp_right fun hlisted => mem_listPendingHarvest.2 ⟨hf', ?_⟩
    have hpending := (mem_listPendingHarvest.1 hlisted).2
    simp only [Store.pendingHarvest, hp, hp', Option.any_some, hstamp, hstatus, hstate] at *
    exact hpending
  · rw [hf] at hurl
    simp only [Option.any_some, Finding.url] at hurl
    simp only [hf', Option.any_some, Finding.url, hprUrl]
    exact hurl

/-- Where `mark_pr_merged` fails on no finding already set `merged`, every end that the forge
reported is kept for its harvest. -/
theorem prEnds_kept (h : Passes Records x) {phase : PrPhase}
    (hends : x.2 fid = some (prNumber, phase)) : x.1.store.KeepsEnd fid prNumber phase := by
  suffices hwatches : ∀ g, Watches x g from (hwatches fid prNumber phase hends).1
  clear hends
  induction h with
  | start w =>
    intro g n phase hreported
    cases hreported
  | pass _ hrun ih => exact watches_syncPrs ih hrun
  | meanwhile _ hends ih => exact fun g => watches_of_prColumns (hends g) (ih g)

end

def hearing (o : Outside) : Machine.Reply Call (World × Reports) where
  answer c x := (o.reply.answer c x.1).map fun r => (r.1, r.2, c.reported r.1 x.2)

theorem hears_hearing (o : Outside) {β : Type} (c : Call β) (x : World × Reports) (b : β)
    (y : World × Reports) (h : (hearing o).answer c x = some (b, y)) : Hears c x b y := by
  obtain ⟨r, hr, heq⟩ := Option.map_eq_some_iff.1 h
  cases heq
  exact ⟨o.faithful_reply c x.1 r.1 r.2 hr, rfl⟩

theorem records_hearing {o : Outside} (hfails : ∀ {β : Type} (c : StoreCall β), o.fails c = false)
    {β : Type} (c : Call β) (x : World × Reports) (b : β) (y : World × Reports)
    (h : (hearing o).answer c x = some (b, y)) : Records c x b y := by
  refine ⟨hears_hearing o c x b y h, ?_⟩
  obtain ⟨r, hr, heq⟩ := Option.map_eq_some_iff.1 h
  cases heq
  cases c with
  | store c =>
    cases c with
    | markPrMerged =>
      simp only [Outside.reply, Outside.answerCall, hfails, StoreCall.apply] at hr
      split at hr
      · cases hr
      · cases hr
        trivial
    | _ => trivial
  | _ => trivial

def StoreCall.marksMerge : {β : Type} → StoreCall β → Bool
  | _, .markPrMerged _ _ _ => true
  | _, _ => false

def unrecordedMerge : Outside := { mergedView with fails := StoreCall.marksMerge }

def shippedWorld : World := shippedFinding.state

def passed (o : Outside) : World × Reports :=
  (Machine.replay (hearing o) syncPrs (shippedWorld, fun _ => none)).2

set_option maxRecDepth 4000 in
/-- Recorded, the merge waits for its harvest. -/
theorem prEnds_kept_merged : (passed mergedView).1.store.KeepsEnd 0 1 .merged :=
  prEnds_kept (.pass (.start shippedWorld)
    (runs_replay (records_hearing fun _ => rfl) (x := ()) rfl)) rfl

set_option maxRecDepth 4000 in
/-- A finding set `merged` whose row was not written is in no list. -/
theorem prEnd_lost : ¬ ∀ x, Passes Hears x → ∀ fid prNumber phase,
    x.2 fid = some (prNumber, phase) → x.1.store.KeepsEnd fid prNumber phase := by
  intro h
  have hrun : Runs Hears syncPrs (shippedWorld, fun _ => none) (.ok ()) (passed unrecordedMerge) :=
    runs_replay (hears_hearing _) rfl
  obtain ⟨f, hf, hkept⟩ := h _ (.pass (.start shippedWorld) hrun) 0 1 .merged rfl
  cases hf
  rcases hkept with hopen | ⟨p, hp, -⟩
  · cases hopen
  · cases hp

end Hunter
