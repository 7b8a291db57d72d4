import Hunter.Alone
import Hunter.Changes.Findings
import Hunter.Replay
import Hunter.Scheduler.Counts
import Hunter.Scheduler.Entries
set_option autoImplicit false

namespace Hunter
open Effect

/-! What an ingest counts. -/

theorem findIdx?_rows {α : Type} (table : List α) (p : α → Bool) :
    ((rows table).find? fun row => p row.val).map Row.id = table.findIdx? p := by
  suffices h : ∀ n, ((table.zipIdx n).find? fun x => p x.1).map Prod.snd =
      (table.findIdx? p).map (· + n) by
    have h0 := h 0
    simp only [Nat.add_zero, Option.map_id'] at h0
    rw [← h0, rows, List.find?_map, Option.map_map]
    rfl
  induction table with
  | nil => simp
  | cons x rest ih =>
    intro n
    by_cases hx : p x = true
    · simp [hx, List.findIdx?_cons]
    · simp only [List.zipIdx_cons, List.find?_cons, hx, List.findIdx?_cons, ih]
      cases rest.findIdx? p with
      | none => simp
      | some i => simp; omega

def Finding.key (f : Finding) : FindingType × Text := (f.type, f.report.fingerprint)

namespace Store

def keys (s : Store) : List (FindingType × Text) := s.findings.map Finding.key

def lead (s : Store) (k : FindingType × Text) : Option Nat := s.keys.findIdx? fun k' => k' = k

section
variable {s s' : Store} {k : FindingType × Text} {i : Nat} {f : Finding}

theorem lead_some (h : s.lead k = some i) : ∃ f, s.finding? i = some f ∧ f.key = k := by
  obtain ⟨hlt, hkey, -⟩ := List.findIdx?_eq_some_iff_getElem.1 h
  simp only [keys, List.length_map] at hlt
  refine ⟨s.findings[i], List.getElem?_eq_getElem hlt, ?_⟩
  simpa [keys] using hkey

theorem lead_eq_none_iff : s.lead k = none ↔ k ∉ s.keys := by
  rw [lead, List.findIdx?_eq_none_iff]
  constructor
  · intro h hk
    simpa using h k hk
  · intro h k' hk'
    simpa using fun heq : k' = k => h (heq ▸ hk')

theorem lead_of_prefix (hkeys : s.keys <+: s'.keys) (h : s.lead k = some i) :
    s'.lead k = some i := by
  obtain ⟨more, hmore⟩ := hkeys
  rw [lead, ← hmore, List.findIdx?_append, show s.keys.findIdx? _ = some i from h]
  rfl

theorem mem_keys (h : s.finding? i = some f) : f.key ∈ s.keys :=
  List.mem_map_of_mem (List.mem_of_getElem? h)

theorem upsertFinding_eq (repoId : Nat) (row : FindingInsert) (type : FindingType) :
    s.upsertFinding repoId row type =
      match s.lead (type, row.fingerprint) with
      | some i => (s, (i, false))
      | none =>
        (s.addFinding { type := type, repoId := repoId, report := row, status := .new },
          (s.findings.length, true)) := by
  have hlead : s.lead (type, row.fingerprint) = ((rows s.findings).find? fun r =>
      r.val.type = type && r.val.report.fingerprint = row.fingerprint).map Row.id := by
    rw [lead, keys, List.findIdx?_map, ← findIdx?_rows]
    simp [Finding.key]
  rw [hlead, upsertFinding]
  cases (rows s.findings).find? fun r =>
    r.val.type = type && r.val.report.fingerprint = row.fingerprint <;> rfl

theorem keys_addFinding (f : Finding) : (s.addFinding f).keys = s.keys ++ [f.key] := by
  simp [keys, addFinding]

theorem keys_modifyFinding {u : Finding → Finding} (hu : ∀ f, (u f).key = f.key) :
    (s.modifyFinding i u).keys = s.keys := by
  refine List.ext_getElem? fun k => ?_
  simp only [keys, modifyFinding, List.getElem?_map, List.getElem?_modify]
  cases s.findings[k]? with
  | none => rfl
  | some f => by_cases hi : i = k <;> simp [hi, hu]

theorem keys_updateFindingIf {p : Finding → Bool} {u : Finding → Finding}
    (hu : ∀ f, (u f).key = f.key) : (s.updateFindingIf i p u).1.keys = s.keys := by
  unfold updateFindingIf
  split
  · exact keys_modifyFinding hu
  · rfl

@[simp] theorem keys_reopenSuppressed {row : FindingInsert} :
    (s.reopenSuppressed i row).1.keys = s.keys := keys_updateFindingIf fun _ => rfl

@[simp] theorem keys_refreshDepUpdate {row : FindingInsert} :
    (s.refreshDepUpdate i row).1.keys = s.keys := keys_updateFindingIf fun _ => rfl

end

/-- Whether an entry filed again reopens this finding, going by what git says. -/
def lapsed (git : Nat → VerdictAnchor → Text → GitDiff) (s : Store) (repoId : Nat)
    (job : Option Nat) (fid : Nat) : Bool :=
  match job, s.finding? fid with
  | some job, some f =>
    f.status.isSuppressed &&
      match f.anchor, s.pinnedSha job, (s.repo? repoId).filter fun r => !r.deleted with
      | some anchor, some sha, some _ =>
        !anchor.files.isEmpty && (anchor.changed (git repoId anchor sha)).isSome
      | _, _, _ => false
  | _, _ => false

variable (lapses : Store → Nat → Bool) (repoId : Nat)

def fileRow (type : FindingType) (row : FindingInsert) (acc : Store × IngestResult) :
    Store × IngestResult :=
  match acc.1.lead (type, row.fingerprint) with
  | none =>
    (acc.1.addFinding { type := type, repoId := repoId, report := row, status := .new },
      acc.2.countInserted)
  | some i =>
    if lapses acc.1 i then
      ((acc.1.reopenSuppressed i row).1, acc.2.countDuplicate.countReopened)
    else if type = .depUpdate then
      ((acc.1.refreshDepUpdate i row).1,
        if (acc.1.refreshDepUpdate i row).2 then acc.2.countDuplicate.countRefreshed
        else acc.2.countDuplicate)
    else (acc.1, acc.2.countDuplicate)

def fileEntry (acc : Store × IngestResult) : ScanEntry → Store × IngestResult
  | none => (acc.1, acc.2.countInvalid)
  | some (type, row) => fileRow lapses repoId type row acc

def fileAll (entries : List ScanEntry) (acc : Store × IngestResult) : Store × IngestResult :=
  entries.foldl (fileEntry lapses repoId) acc

end Store

def Call.gitSays (git : Nat → VerdictAnchor → Text → GitDiff) : {β : Type} → Call β → β → Prop
  | _, .tree (.diffNames repoId anchor at_), diff => diff = git repoId anchor at_
  | _, _, _ => True

def LandsBy (git : Nat → VerdictAnchor → Text → GitDiff) {β : Type} (c : Call β) (w : World) (b : β)
    (w' : World) : Prop :=
  Lands c w b w' ∧ c.gitSays git b

/-- `p` ends with `a`, undisturbed, git being `git`. -/
abbrev EndsBy (git : Nat → VerdictAnchor → Text → GitDiff) {α : Type} (p : Act α) (w : World)
    (a : α) (w' : World) : Prop :=
  Runs (LandsBy git) p w (.ok a) w'

/-- Which answers of git a run relies on. -/
structure Relies (step : {β : Type} → Call β → World → β → World → Prop)
    (git : Nat → VerdictAnchor → Text → GitDiff) (reopen : Bool) : Prop where
  lands : ∀ {β : Type} {c : Call β} {w w' : World} {b : β}, step c w b w' → Lands c w b w'
  diff : reopen = true → ∀ {repoId : Nat} {anchor : VerdictAnchor} {at_ : Text} {w w' : World}
    {b : GitDiff}, step (.tree (.diffNames repoId anchor at_)) w b w' → b = git repoId anchor at_

theorem relies_landsBy (git : Nat → VerdictAnchor → Text → GitDiff) (reopen : Bool) :
    Relies (LandsBy git) git reopen where
  lands h := h.1
  diff _ _ _ _ _ _ _ h := h.2

theorem relies_lands (git : Nat → VerdictAnchor → Text → GitDiff) : Relies Lands git false where
  lands h := h
  diff h := nomatch h

def reopening (git : Nat → VerdictAnchor → Text → GitDiff) (repoId : Nat) (job : Option Nat)
    (reopen : Bool) (s : Store) (fid : Nat) : Bool :=
  reopen && s.lapsed git repoId job fid

section
variable {step : {β : Type} → Call β → World → β → World → Prop}
  {git : Nat → VerdictAnchor → Text → GitDiff} {reopen : Bool} {repoId : Nat} {job : Option Nat}
  {w w' : World} {α β : Type}

theorem Relies.store (hstep : Relies step git reopen) {c : StoreCall β} {k : Except Text β → Act α}
    {r : Except Text α} (h : Runs step (.call (.store c) k) w r w') :
    ∃ b s v, c.apply w.store = some (b, s) ∧ v.store = s ∧ Runs step (k (.ok b)) v r w' := by
  cases h with
  | call hcall hrest =>
    obtain ⟨-, b, s, rfl, happly, rfl⟩ := lands_store.1 (hstep.lands hcall)
    exact ⟨b, s, _, happly, rfl, hrest⟩

theorem Relies.sql (hstep : Relies step git reopen) {c : StoreCall β} {f : β → Act α}
    {r : Except Text α} (h : Runs step (sql c >>= f) w r w') :
    ∃ b s v, c.apply w.store = some (b, s) ∧ v.store = s ∧ Runs step (f b) v r w' :=
  hstep.store h

theorem Relies.read (hstep : Relies step git reopen) {c : StoreCall β} {f : β → Act α}
    {r : Except Text α} {b : β} (hread : c.apply w.store = some (b, w.store))
    (h : Runs step (Hunter.sql c >>= f) w r w') :
    ∃ v, v.store = w.store ∧ Runs step (f b) v r w' := by
  obtain ⟨b', s, v, happly, hv, hrest⟩ := hstep.sql h
  rw [hread] at happly
  cases happly
  exact ⟨v, hv, hrest⟩

theorem Relies.changedSince (hstep : Relies step git true) {anchor : VerdictAnchor} {at_ : Text}
    {r : Except Text (Option Changed)} (h : Runs step (changedSince repoId anchor at_) w r w') :
    w'.store = w.store ∧ r = .ok (if anchor.files.isEmpty then none
      else anchor.changed (git repoId anchor at_)) := by
  unfold Hunter.changedSince at h
  split at h
  · rename_i hempty
    cases h
    exact ⟨rfl, by rw [if_pos hempty]⟩
  · rename_i hfiles
    cases h with
    | call hcall hrest =>
      cases hrest
      have hstore := (hstep.lands hcall).1.leaves
      rw [hstep.diff rfl hcall]
      exact ⟨hstore, by rw [if_neg hfiles]⟩

theorem Relies.reopenChanged (hstep : Relies step git true) {fid : Nat} {row : FindingInsert}
    {f : Finding} {anchor : VerdictAnchor} {sha : Text} {r : Except Text Bool} {lapses : Bool}
    (hf : w.store.finding? fid = some f) (hsuppressed : f.status.isSuppressed = true)
    (hlapses : lapses = (if anchor.files.isEmpty then none
      else anchor.changed (git repoId anchor sha)).isSome)
    (h : Runs step (Hunter.changedSince repoId anchor sha >>= fun changed =>
      if changed.isSome then Hunter.sql (.reopenSuppressed fid row) else pure false) w r w') :
    r = .ok lapses ∧
      w'.store = if lapses then (w.store.reopenSuppressed fid row).1 else w.store := by
  rcases Runs.of_bind h with ⟨changed, v, hchanged, hrest⟩ | ⟨e, -, hchanged⟩
  · obtain ⟨hv, heq⟩ := hstep.changedSince hchanged
    cases heq
    rw [← hlapses] at hrest
    cases lapses with
    | false =>
      cases hrest
      exact ⟨rfl, hv⟩
    | true =>
      obtain ⟨b, s, u, happly, hu, hdone⟩ := hstep.store hrest
      cases happly
      cases hdone
      have hany : (v.store.finding? fid).any (fun f => f.status.isSuppressed) = true := by
        rw [hv, hf]
        exact hsuppressed
      refine ⟨?_, by rw [hu, hv]; rfl⟩
      rw [Store.reopenSuppressed, Store.updateFindingIf, if_pos hany]
  · cases (hstep.changedSince hchanged).2

theorem Relies.reopenIfChanged (hstep : Relies step git true) {fid : Nat} {row : FindingInsert}
    {r : Except Text Bool} (h : Runs step (reopenIfChanged repoId fid job row) w r w') :
    r = .ok (w.store.lapsed git repoId job fid) ∧
      w'.store = if w.store.lapsed git repoId job fid then (w.store.reopenSuppressed fid row).1
        else w.store := by
  unfold Hunter.reopenIfChanged at h
  match job, h with
  | none, h =>
    cases h
    exact ⟨rfl, rfl⟩
  | some job, h =>
    obtain ⟨v, hv, h⟩ := hstep.read rfl h
    cases hf : w.store.finding? fid with
    | none =>
      simp only [hf] at h
      cases h
      simp [Store.lapsed, hf, hv]
    | some f =>
      simp only [hf] at h
      by_cases hsuppressed : f.status.isSuppressed = true
      · simp only [hsuppressed, Bool.not_true, Bool.false_eq_true, if_false] at h
        obtain ⟨v1, hv1, h⟩ := hstep.read rfl h
        rw [hv] at hv1
        simp only [hv, hf, Option.bind_some] at h
        cases hanchor : f.anchor with
        | none =>
          simp only [hanchor] at h
          cases h
          simp [Store.lapsed, hf, hanchor, hv1]
        | some anchor =>
          simp only [hanchor] at h
          obtain ⟨v2, hv2, h⟩ := hstep.read rfl h
          rw [hv1] at hv2
          simp only [hv1] at h
          cases hsha : w.store.pinnedSha job with
          | none =>
            simp only [hsha] at h
            cases h
            simp [Store.lapsed, hf, hsha, hv2]
          | some sha =>
            simp only [hsha] at h
            obtain ⟨v3, hv3, h⟩ := hstep.read rfl h
            rw [hv2] at hv3
            simp only [hv2] at h
            cases hrepo : (w.store.repo? repoId).filter fun r => !r.deleted with
            | none =>
              simp only [hrepo] at h
              cases h
              simp [Store.lapsed, hf, hrepo, hv3]
            | some repo =>
              simp only [hrepo] at h
              have hlapsed : w.store.lapsed git repoId (some job) fid =
                  (if anchor.files.isEmpty then none
                    else anchor.changed (git repoId anchor sha)).isSome := by
                cases hfiles : anchor.files.isEmpty <;>
                  simp [Store.lapsed, hf, hsuppressed, hanchor, hsha, hrepo, hfiles]
              rw [← hv3] at hf
              rw [← hv3] at hlapsed ⊢
              exact hstep.reopenChanged hf hsuppressed hlapsed h
      · simp only [hsuppressed] at h
        cases h
        simp [Store.lapsed, hf, hsuppressed, hv]

theorem Relies.reopens (hstep : Relies step git reopen) {fid : Nat} {row : FindingInsert}
    {r : Except Text Bool} (h : Runs step (reopens repoId fid job reopen row) w r w') :
    r = .ok (reopening git repoId job reopen w.store fid) ∧
      w'.store = if reopening git repoId job reopen w.store fid then
        (w.store.reopenSuppressed fid row).1 else w.store := by
  unfold Hunter.reopens at h
  cases reopen with
  | false =>
    cases h
    exact ⟨rfl, rfl⟩
  | true =>
    rcases Runs.of_bind h with ⟨x, v, hreopen, hrest⟩ | ⟨e, -, hreopen⟩
    · obtain ⟨r', hr', hrun⟩ := hreopen.of_attempt
      cases hr'
      obtain ⟨rfl, hstore⟩ := hstep.reopenIfChanged hrun
      cases hrest
      simpa [reopening] using hstore
    · obtain ⟨r', hr', -⟩ := hreopen.of_attempt
      cases hr'

theorem Relies.countRefresh (hstep : Relies step git reopen) {fid : Nat} {type : FindingType}
    {row : FindingInsert} {result : IngestResult} {r : Except Text IngestResult}
    (h : Runs step (countRefresh fid type row result) w r w') :
    ∃ result', r = .ok result' ∧ (w'.store, result') = if type = .depUpdate then
      ((w.store.refreshDepUpdate fid row).1,
        if (w.store.refreshDepUpdate fid row).2 then result.countRefreshed else result)
      else (w.store, result) := by
  unfold Hunter.countRefresh at h
  split at h
  · rename_i htype
    obtain ⟨b, s, v, happly, hv, h⟩ := hstep.store h
    cases happly
    rw [if_pos htype]
    cases hchanged : (w.store.refreshDepUpdate fid row).2 <;>
    · simp only [hchanged] at h
      cases h
      exact ⟨_, rfl, by rw [hv]; rfl⟩
  · rename_i htype
    cases h
    exact ⟨_, rfl, by rw [if_neg htype]⟩

theorem Relies.countRow (hstep : Relies step git reopen) {type : FindingType}
    {row : FindingInsert} {result : IngestResult} {r : Except Text IngestResult}
    (h : Runs step (countRow repoId job reopen type row result) w r w') :
    ∃ result', r = .ok result' ∧ (w'.store, result') =
      Store.fileRow (reopening git repoId job reopen) repoId type row (w.store, result) := by
  obtain ⟨b, s, v, happly, hv, h⟩ := hstep.store h
  simp only [StoreCall.apply, Store.upsertFinding_eq, Option.some.injEq, Prod.mk.injEq] at happly
  obtain ⟨rfl, rfl⟩ := happly
  unfold Store.fileRow
  cases hlead : w.store.lead (type, row.fingerprint) with
  | none =>
    simp only [hlead] at h hv
    cases h
    exact ⟨_, rfl, by rw [hv]⟩
  | some fid =>
    simp only [hlead] at h hv
    change Runs step (Hunter.reopens repoId fid job reopen row >>= _) v r w' at h
    rcases Runs.of_bind h with ⟨reopened, u, hreopens, hrest⟩ | ⟨e, -, hreopens⟩
    · obtain ⟨heq, hu⟩ := hstep.reopens hreopens
      cases heq
      rw [hv] at hrest hu
      cases hlapses : reopening git repoId job reopen w.store fid with
      | true =>
        simp only [hlapses, if_true] at hrest hu
        cases hrest
        exact ⟨_, rfl, by simp [hlapses, hu]⟩
      | false =>
        simp only [hlapses, Bool.false_eq_true, if_false] at hrest hu
        obtain ⟨result', hr, heq⟩ := hstep.countRefresh hrest
        rw [hu] at heq
        exact ⟨result', hr, by simpa [hlapses] using heq⟩
    · cases (hstep.reopens hreopens).1

theorem Relies.countEntries (hstep : Relies step git reopen) {entries : List ScanEntry}
    {result : IngestResult} {r : Except Text IngestResult}
    (h : Runs step (countEntries repoId job reopen entries result) w r w') :
    ∃ result', r = .ok result' ∧ (w'.store, result') =
      Store.fileAll (reopening git repoId job reopen) repoId entries (w.store, result) := by
  induction entries generalizing w result with
  | nil =>
    cases h
    exact ⟨result, rfl, rfl⟩
  | cons entry rest ih =>
    match entry with
    | none => exact ih h
    | some (type, row) =>
      rcases Runs.of_bind h with ⟨result1, v, hrow, hrest⟩ | ⟨e, -, hrow⟩
      · obtain ⟨_, heq, hfile⟩ := hstep.countRow hrow
        cases heq
        obtain ⟨result', hr, hall⟩ := ih hrest
        refine ⟨result', hr, ?_⟩
        rw [hall, hfile]
        rfl
      · obtain ⟨_, heq, -⟩ := hstep.countRow hrow
        cases heq

end

def validEntries (entries : List ScanEntry) : List (FindingType × FindingInsert) :=
  entries.filterMap id

def entryKey (e : FindingType × FindingInsert) : FindingType × Text := (e.1, e.2.fingerprint)

namespace Store
variable {lapses : Store → Nat → Bool} {repoId : Nat} {s t : Store}

/-- What an ingest leaves of a row: no finding becomes suppressed. -/
structure Unsuppressed (f f' : Finding) : Prop where
  suppressed : f'.status.isSuppressed = true → f.status.isSuppressed = true ∧ f'.anchor = f.anchor

/-- An entry leaves the rows in place, and may append one. -/
structure Continues (s t : Store) : Prop where
  keys : s.keys <+: t.keys
  rows : ∀ i f, s.finding? i = some f → ∃ f', t.finding? i = some f' ∧ Unsuppressed f f'
  jobs : t.jobs = s.jobs
  repos : t.repos = s.repos

theorem Continues.refl (s : Store) : Continues s s where
  keys := List.prefix_refl _
  rows _ f hf := ⟨f, hf, ⟨fun h => ⟨h, rfl⟩⟩⟩
  jobs := rfl
  repos := rfl

theorem Continues.trans {u : Store} (h : Continues s t) (h' : Continues t u) : Continues s u where
  keys := h.keys.trans h'.keys
  rows i f hf := by
    obtain ⟨f', hf', hff'⟩ := h.rows i f hf
    obtain ⟨f'', hf'', hff''⟩ := h'.rows i f' hf'
    refine ⟨f'', hf'', ⟨fun hsuppressed => ?_⟩⟩
    obtain ⟨h1, hanchor⟩ := hff''.suppressed hsuppressed
    obtain ⟨h2, hanchor'⟩ := hff'.suppressed h1
    exact ⟨h2, hanchor.trans hanchor'⟩
  jobs := h'.jobs.trans h.jobs
  repos := h'.repos.trans h.repos

theorem continues_addFinding (f : Finding) : Continues s (s.addFinding f) where
  keys := by
    rw [keys_addFinding]
    exact List.prefix_append _ _
  rows i g hg := by
    refine ⟨g, ?_, ⟨fun h => ⟨h, rfl⟩⟩⟩
    rw [finding?_addFinding, if_neg]
    · exact hg
    · rintro rfl
      simp [finding?] at hg
  jobs := rfl
  repos := rfl

theorem continues_updateFindingIf {i : Nat} {p : Finding → Bool} {u : Finding → Finding}
    (hkey : ∀ f, (u f).key = f.key) (hu : ∀ f, Unsuppressed f (u f)) :
    Continues s (s.updateFindingIf i p u).1 where
  keys := by
    have hkeys : (s.updateFindingIf i p u).1.keys = s.keys := keys_updateFindingIf hkey
    exact hkeys ▸ List.prefix_refl _
  rows n f hf := by
    rw [finding?_updateFindingIf, hf]
    by_cases hin : i = n
    · by_cases hp : p f = true
      · exact ⟨u f, by simp [hin, hp], hu f⟩
      · exact ⟨f, by simp [hp], ⟨fun h => ⟨h, rfl⟩⟩⟩
    · exact ⟨f, by simp [hin], ⟨fun h => ⟨h, rfl⟩⟩⟩
  jobs := jobs_updateFindingIf
  repos := repos_updateFindingIf

theorem continues_reopenSuppressed {i : Nat} {row : FindingInsert} :
    Continues s (s.reopenSuppressed i row).1 :=
  continues_updateFindingIf (fun _ => rfl) fun _ => ⟨fun h => by cases h⟩

theorem continues_refreshDepUpdate {i : Nat} {row : FindingInsert} :
    Continues s (s.refreshDepUpdate i row).1 := by
  refine continues_updateFindingIf (fun _ => rfl) fun f => ⟨fun h => ⟨?_, rfl⟩⟩
  simp only [Finding.refreshDep] at h
  split at h
  · cases h
  · exact h

theorem continues_fileEntry (acc : Store × IngestResult) (entry : ScanEntry) :
    Continues acc.1 (fileEntry lapses repoId acc entry).1 := by
  match entry with
  | none => exact Continues.refl _
  | some (type, row) =>
    simp only [fileEntry, fileRow]
    split
    · exact continues_addFinding _
    · split
      · exact continues_reopenSuppressed
      · split
        · exact continues_refreshDepUpdate
        · exact Continues.refl _

theorem Continues.lapsed (h : Continues s t) {git : Nat → VerdictAnchor → Text → GitDiff}
    {job : Option Nat} {i : Nat} {f : Finding} (hf : s.finding? i = some f)
    (hlapsed : t.lapsed git repoId job i = true) : s.lapsed git repoId job i = true := by
  obtain ⟨f', hf', hff'⟩ := h.rows i f hf
  have hpinned : ∀ job, t.pinnedSha job = s.pinnedSha job := by
    intro job
    simp only [pinnedSha, job?, h.jobs]
  have hrepo : t.repo? repoId = s.repo? repoId := by simp only [repo?, h.repos]
  cases job with
  | none => cases hlapsed
  | some job =>
    simp only [Store.lapsed, hf', hpinned, hrepo, Bool.and_eq_true] at hlapsed
    obtain ⟨hsuppressed, hanchor⟩ := hff'.suppressed hlapsed.1
    simp only [Store.lapsed, hf, hsuppressed, Bool.true_and]
    rw [← hanchor]
    exact hlapsed.2

theorem counted_fileEntry (acc : Store × IngestResult) (entry : ScanEntry) :
    let r := (fileEntry lapses repoId acc entry).2
    r.inserted + r.duplicates + r.invalid =
      acc.2.inserted + acc.2.duplicates + acc.2.invalid + 1 := by
  match entry with
  | none => rfl
  | some (type, row) =>
    simp only [fileEntry, fileRow]
    split
    · simp only [IngestResult.countInserted]
      omega
    · split
      · simp only [IngestResult.countReopened, IngestResult.countDuplicate]
        omega
      · split
        · split <;>
          · simp only [IngestResult.countRefreshed, IngestResult.countDuplicate]
            omega
        · simp only [IngestResult.countDuplicate]
          omega

theorem counted_fileAll (entries : List ScanEntry) (acc : Store × IngestResult) :
    let r := (fileAll lapses repoId entries acc).2
    r.inserted + r.duplicates + r.invalid =
      acc.2.inserted + acc.2.duplicates + acc.2.invalid + entries.length := by
  induction entries generalizing acc with
  | nil => rfl
  | cons entry rest ih =>
    have hstep := @counted_fileEntry lapses repoId acc entry
    have hrest := ih (fileEntry lapses repoId acc entry)
    simp only [fileAll, List.foldl_cons, List.length_cons] at hrest hstep ⊢
    omega

/-- The row of an inserted entry; a later entry may bring a dependency update up to date. -/
structure FiledAs (repoId : Nat) (e : FindingType × FindingInsert) (f : Finding) : Prop where
  key : f.key = entryKey e
  repoId : f.repoId = repoId
  new : f.status = .new
  report : e.1 ≠ .depUpdate → f.report = e.2

/-- The entries `inserted` of `done` were filed, behind the rows of `s`. -/
structure Inserts (repoId : Nat) (s : Store) (done : List ScanEntry)
    (inserted : List (FindingType × FindingInsert)) (acc : Store × IngestResult) : Prop where
  sublist : inserted.Sublist (validEntries done)
  count : acc.2.inserted = inserted.length
  keys : acc.1.keys = s.keys ++ inserted.map entryKey
  filed : ∀ j e, inserted[j]? = some e →
    ∃ f, acc.1.finding? (s.findings.length + j) = some f ∧ FiledAs repoId e f
  nodup : (inserted.map entryKey).Nodup
  fresh : ∀ e ∈ inserted, entryKey e ∉ s.keys
  covered : ∀ e ∈ validEntries done, entryKey e ∈ acc.1.keys

theorem inserts_start (repoId : Nat) (s : Store) : Inserts repoId s [] [] (s, {}) where
  sublist := List.Sublist.refl _
  count := rfl
  keys := by simp
  filed := by simp
  nodup := List.nodup_nil
  fresh := by simp
  covered := by simp [validEntries]

theorem filedAs_unsuppressed {e : FindingType × FindingInsert} {f : Finding}
    (h : FiledAs repoId e f) : f.status.isSuppressed = false := by
  rw [h.new]
  rfl

theorem filedAs_refresh {e : FindingType × FindingInsert} {f : Finding} {row : FindingInsert}
    (h : FiledAs repoId e f) (htype : f.type = .depUpdate) :
    FiledAs repoId e (f.refreshDep row) where
  key := h.key
  repoId := h.repoId
  new := by simp [Finding.refreshDep, h.new]
  report he := absurd ((congrArg Prod.fst h.key).symm.trans htype) he

theorem Inserts.duplicate {done : List ScanEntry} {inserted : List (FindingType × FindingInsert)}
    {acc : Store × IngestResult} (h : Inserts repoId s done inserted acc)
    {e : FindingType × FindingInsert} {r : IngestResult} (hkeys : t.keys = acc.1.keys)
    (hkey : entryKey e ∈ acc.1.keys) (hr : r.inserted = acc.2.inserted)
    (hrows : ∀ i e' f, acc.1.finding? i = some f → FiledAs repoId e' f →
      ∃ f', t.finding? i = some f' ∧ FiledAs repoId e' f') :
    Inserts repoId s (done ++ [some e]) inserted (t, r) where
  sublist := by
    rw [validEntries, List.filterMap_append]
    exact h.sublist.trans (List.sublist_append_left _ _)
  count := hr.trans h.count
  keys := hkeys.trans h.keys
  filed j e' he' := by
    obtain ⟨f, hf, hfiled⟩ := h.filed j e' he'
    exact hrows _ e' f hf hfiled
  nodup := h.nodup
  fresh := h.fresh
  covered e' he' := by
    rw [validEntries, List.filterMap_append] at he'
    rcases List.mem_append.1 he' with he' | he'
    · exact hkeys ▸ h.covered e' he'
    · obtain rfl : e' = e := by simpa using he'
      exact hkeys ▸ hkey

theorem Inserts.insert {done : List ScanEntry} {inserted : List (FindingType × FindingInsert)}
    {acc : Store × IngestResult} (h : Inserts repoId s done inserted acc)
    {e : FindingType × FindingInsert} (hkey : entryKey e ∉ acc.1.keys) :
    Inserts repoId s (done ++ [some e]) (inserted ++ [e])
      (acc.1.addFinding { type := e.1, repoId := repoId, report := e.2, status := .new },
        acc.2.countInserted) where
  sublist := by
    rw [validEntries, List.filterMap_append]
    exact h.sublist.append (List.Sublist.refl _)
  count := by simp [IngestResult.countInserted, h.count]
  keys := by
    rw [keys_addFinding, h.keys, List.map_append, List.append_assoc]
    rfl
  filed j e' he' := by
    have hlength : acc.1.findings.length = s.findings.length + inserted.length := by
      simpa [Store.keys] using congrArg List.length h.keys
    rw [List.getElem?_append] at he'
    rw [finding?_addFinding]
    split at he'
    · rename_i hlt
      rw [if_neg (by omega)]
      exact h.filed j e' he'
    · obtain ⟨hj, rfl⟩ : j = inserted.length ∧ e = e' := by
        simp only [List.getElem?_singleton] at he'
        split at he'
        · exact ⟨by omega, Option.some.inj he'⟩
        · cases he'
      rw [if_pos (by omega)]
      exact ⟨_, rfl, rfl, rfl, rfl, fun _ => rfl⟩
  nodup := by
    rw [List.map_append]
    refine h.nodup.append (List.nodup_singleton _) ?_
    simp only [List.map_cons, List.map_nil, List.disjoint_singleton]
    intro hmem
    exact hkey (h.keys ▸ List.mem_append_right _ hmem)
  fresh e' he' := by
    rcases List.mem_append.1 he' with he' | he'
    · exact h.fresh e' he'
    · obtain rfl := List.mem_singleton.1 he'
      exact fun hmem => hkey (h.keys ▸ List.mem_append_left _ hmem)
  covered e' he' := by
    rw [validEntries, List.filterMap_append] at he'
    rw [keys_addFinding]
    rcases List.mem_append.1 he' with he' | he'
    · exact List.mem_append_left _ (h.covered e' he')
    · obtain rfl : e' = e := by simpa using he'
      exact List.mem_append_right _ (List.mem_singleton_self _)

theorem Inserts.invalid {done : List ScanEntry} {inserted : List (FindingType × FindingInsert)}
    {acc : Store × IngestResult} (h : Inserts repoId s done inserted acc) :
    Inserts repoId s (done ++ [none]) inserted (acc.1, acc.2.countInvalid) := by
  have hvalid : validEntries (done ++ [none]) = validEntries done := by simp [validEntries]
  exact ⟨hvalid ▸ h.sublist, h.count, h.keys, h.filed, h.nodup, h.fresh, hvalid ▸ h.covered⟩

theorem Inserts.fileEntry {done : List ScanEntry} {inserted : List (FindingType × FindingInsert)}
    {acc : Store × IngestResult} (h : Inserts repoId s done inserted acc)
    (lapses : Store → Nat → Bool) (entry : ScanEntry) :
    ∃ inserted', Inserts repoId s (done ++ [entry]) inserted'
      (fileEntry lapses repoId acc entry) := by
  match entry with
  | none => exact ⟨inserted, h.invalid⟩
  | some (type, row) =>
    simp only [Store.fileEntry, fileRow]
    cases hlead : acc.1.lead (type, row.fingerprint) with
    | none => exact ⟨inserted ++ [(type, row)], h.insert (lead_eq_none_iff.1 hlead)⟩
    | some i =>
      obtain ⟨g, hg, hkey⟩ := lead_some hlead
      have hmem : entryKey (type, row) ∈ acc.1.keys := by
        rw [entryKey, ← hkey]
        exact mem_keys hg
      refine ⟨inserted, ?_⟩
      dsimp only
      split
      · refine h.duplicate keys_reopenSuppressed hmem rfl fun n e' f hf hfiled => ?_
        refine ⟨f, ?_, hfiled⟩
        rw [reopenSuppressed, finding?_updateFindingIf, hf]
        simp [filedAs_unsuppressed hfiled]
      · split
        · rename_i htype
          refine h.duplicate keys_refreshDepUpdate hmem ?_ fun n e' f hf hfiled => ?_
          · split <;> rfl
          · rw [refreshDepUpdate, finding?_updateFindingIf, hf]
            by_cases hin : i = n
            · subst hin
              obtain rfl : g = f := Option.some.inj (hg.symm.trans hf)
              rw [if_pos rfl, Option.map_some]
              refine ⟨_, rfl, ?_⟩
              split
              · exact filedAs_refresh hfiled ((congrArg Prod.fst hkey).trans htype)
              · exact hfiled
            · rw [if_neg hin]
              exact ⟨f, rfl, hfiled⟩
        · exact h.duplicate rfl hmem rfl fun n e' f hf hfiled => ⟨f, hf, hfiled⟩

theorem inserts_fileAll (entries : List ScanEntry) : ∃ inserted,
    Inserts repoId s entries inserted (fileAll lapses repoId entries (s, {})) := by
  suffices h : ∀ (done : List ScanEntry) (inserted : List (FindingType × FindingInsert))
      (acc : Store × IngestResult), Inserts repoId s done inserted acc →
      ∃ inserted', Inserts repoId s (done ++ entries) inserted'
        (fileAll lapses repoId entries acc) from h [] [] (s, {}) (inserts_start repoId s)
  induction entries with
  | nil =>
    intro done inserted acc h
    exact ⟨inserted, by simpa [fileAll] using h⟩
  | cons entry rest ih =>
    intro done inserted acc h
    obtain ⟨inserted', h'⟩ := h.fileEntry lapses entry
    simpa [fileAll] using ih (done ++ [entry]) inserted' _ h'

def Settled (lapses : Store → Nat → Bool) (s : Store) (e : FindingType × FindingInsert) : Prop :=
  ∃ i, s.lead (entryKey e) = some i ∧ lapses s i = false

section
variable {git : Nat → VerdictAnchor → Text → GitDiff} {job : Option Nat} {reopen : Bool}

theorem Settled.continues {e : FindingType × FindingInsert}
    (h : Settled (reopening git repoId job reopen) s e) (hst : Continues s t) :
    Settled (reopening git repoId job reopen) t e := by
  obtain ⟨i, hlead, hlapses⟩ := h
  obtain ⟨f, hf, -⟩ := lead_some hlead
  refine ⟨i, lead_of_prefix hst.keys hlead, ?_⟩
  rw [reopening, Bool.and_eq_false_iff] at hlapses ⊢
  refine hlapses.imp_right fun hlapsed => ?_
  rw [← Bool.not_eq_true] at hlapsed ⊢
  exact fun h => hlapsed (hst.lapsed hf h)

theorem not_lapsed_of_new {i : Nat} {f : Finding} (hf : s.finding? i = some f)
    (hnew : f.status.isSuppressed = false) : s.lapsed git repoId job i = false := by
  cases job with
  | none => rfl
  | some job => simp [lapsed, hf, hnew]

theorem lead_addFinding {k : FindingType × Text} (h : s.lead k = none) {f : Finding}
    (hkey : f.key = k) :
    (s.addFinding f).lead k = some s.findings.length := by
  rw [lead, keys_addFinding, List.findIdx?_append, show s.keys.findIdx? _ = none from h]
  simp [hkey, keys]

theorem settled_fileRow (acc : Store × IngestResult) (e : FindingType × FindingInsert) :
    Settled (reopening git repoId job reopen)
      (fileEntry (reopening git repoId job reopen) repoId acc (some e)).1 e := by
  by_cases hsettled : Settled (reopening git repoId job reopen) acc.1 e
  · exact hsettled.continues (continues_fileEntry acc (some e))
  simp only [fileEntry, fileRow]
  cases hlead : acc.1.lead (e.1, e.2.fingerprint) with
  | none =>
    refine ⟨acc.1.findings.length, lead_addFinding hlead rfl, ?_⟩
    have hrow := finding?_addFinding acc.1 acc.1.findings.length
      { type := e.1, repoId := repoId, report := e.2, status := .new }
    rw [if_pos rfl] at hrow
    rw [reopening, not_lapsed_of_new hrow rfl, Bool.and_false]
  | some i =>
    have hlapses : reopening git repoId job reopen acc.1 i = true := by
      by_contra hnot
      exact hsettled ⟨i, hlead, by simpa using hnot⟩
    simp only [hlapses, if_true]
    refine ⟨i, ?_, ?_⟩
    · exact lead_of_prefix continues_reopenSuppressed.keys hlead
    · obtain ⟨f, hf, -⟩ := lead_some hlead
      have hrow : (acc.1.reopenSuppressed i e.2).1.finding? i = some
          (if f.status.isSuppressed then { f with
            status := .new, verdictReason := none, report := e.2.reopen f.report, anchor := none }
          else f) := by
        rw [reopenSuppressed, finding?_updateFindingIf, if_pos rfl, hf, Option.map_some]
      rw [reopening, not_lapsed_of_new hrow, Bool.and_false]
      cases hsuppressed : f.status.isSuppressed with
      | true => rfl
      | false => simp [hsuppressed]

theorem fileEntry_settled {acc : Store × IngestResult} {e : FindingType × FindingInsert}
    (h : Settled lapses acc.1 e) :
    (fileEntry lapses repoId acc (some e)).2.inserted = acc.2.inserted ∧
      (fileEntry lapses repoId acc (some e)).2.reopened = acc.2.reopened := by
  obtain ⟨i, hlead, hlapses⟩ := h
  simp only [fileEntry, fileRow, show acc.1.lead (e.1, e.2.fingerprint) = some i from hlead,
    hlapses, Bool.false_eq_true, if_false]
  split
  · split <;> exact ⟨rfl, rfl⟩
  · exact ⟨rfl, rfl⟩

/-- After an ingest, its entries are settled. -/
theorem settled_fileAll (entries : List ScanEntry) (acc : Store × IngestResult) :
    Continues acc.1 (fileAll (reopening git repoId job reopen) repoId entries acc).1 ∧
      ∀ e ∈ validEntries entries, Settled (reopening git repoId job reopen)
        (fileAll (reopening git repoId job reopen) repoId entries acc).1 e := by
  induction entries generalizing acc with
  | nil => exact ⟨Continues.refl _, by simp [validEntries]⟩
  | cons entry rest ih =>
    obtain ⟨hrest, hsettled⟩ := ih (fileEntry (reopening git repoId job reopen) repoId acc entry)
    refine ⟨(continues_fileEntry acc entry).trans hrest, fun e he => ?_⟩
    match entry with
    | none => exact hsettled e he
    | some e' =>
      rcases List.mem_cons.1 (show e ∈ e' :: validEntries rest from he) with rfl | he
      · exact (settled_fileRow acc e).continues hrest
      · exact hsettled e he

/-- Settled entries insert nothing and reopen nothing. -/
theorem fileAll_settled {entries : List ScanEntry} {acc : Store × IngestResult}
    (h : ∀ e ∈ validEntries entries, Settled (reopening git repoId job reopen) acc.1 e) :
    (fileAll (reopening git repoId job reopen) repoId entries acc).2.inserted = acc.2.inserted ∧
      (fileAll (reopening git repoId job reopen) repoId entries acc).2.reopened =
        acc.2.reopened := by
  induction entries generalizing acc with
  | nil => exact ⟨rfl, rfl⟩
  | cons entry rest ih =>
    match entry with
    | none => exact @ih (acc.1, acc.2.countInvalid) h
    | some e =>
      have hvalid : validEntries (some e :: rest) = e :: validEntries rest := rfl
      have hstep : Continues acc.1
          (fileEntry (reopening git repoId job reopen) repoId acc (some e)).1 :=
        continues_fileEntry acc (some e)
      obtain ⟨hinserted, hreopened⟩ := @fileEntry_settled (reopening git repoId job reopen) repoId
        acc e (h e (by simp [hvalid]))
      obtain ⟨hinserted', hreopened'⟩ := ih fun e' he' =>
        (h e' (by simp [hvalid, he'])).continues hstep
      exact ⟨hinserted'.trans hinserted, hreopened'.trans hreopened⟩

end

end Store

section
variable {git : Nat → VerdictAnchor → Text → GitDiff} {repoId : Nat} {job : Option Nat}
  {reopen : Bool} {w w' : World} {r : IngestResult}

theorem EndsBy.countEntries {entries : List ScanEntry}
    (h : EndsBy git (countIngest repoId job reopen (.entries entries)) w r w') :
    (w'.store, r) =
      Store.fileAll (reopening git repoId job reopen) repoId entries (w.store, {}) := by
  obtain ⟨r', hr, hall⟩ := (relies_landsBy git reopen).countEntries h
  cases hr
  exact hall

/-- Every entry of a findings file is counted once, the rows added are those of the entries
counted as inserted, and a second ingest inserts and reopens nothing. -/
theorem ingest_accounted (parseF64 : Text → Option Double) (types : EntryTypes) (doc : Json)
    (h : EndsBy git (countIngest repoId job reopen (readFindings parseF64 types doc)) w r w') :
    match doc with
    | .array entries =>
      r.inserted + r.duplicates + r.invalid = entries.length ∧
      (∃ inserted : List (FindingType × FindingInsert), inserted.length = r.inserted ∧
        inserted.Sublist (validEntries (entries.map (readEntry parseF64 types))) ∧
        w'.store.keys = w.store.keys ++ inserted.map entryKey ∧
        (∀ j e, inserted[j]? = some e → ∃ f,
          w'.store.finding? (w.store.findings.length + j) = some f ∧
            Store.FiledAs repoId e f) ∧
        (inserted.map entryKey).Nodup ∧ ∀ e ∈ inserted, entryKey e ∉ w.store.keys) ∧
      ∀ r' w'', EndsBy git (countIngest repoId job reopen (readFindings parseF64 types doc))
        w' r' w'' → r'.inserted = 0 ∧ r'.reopened = 0
    | _ => r = { invalid := 1 } ∧ w' = w := by
  cases doc with
  | array entries =>
    have hfirst := EndsBy.countEntries h
    have hstore : w'.store = _ := congrArg Prod.fst hfirst
    have hresult : r = _ := congrArg Prod.snd hfirst
    refine ⟨?_, ?_, fun r' w'' hagain => ?_⟩
    · have hcounted := @Store.counted_fileAll (reopening git repoId job reopen) repoId
        (entries.map (readEntry parseF64 types)) (w.store, {})
      simpa [hresult] using hcounted
    · obtain ⟨inserted, hinserts⟩ := @Store.inserts_fileAll (reopening git repoId job reopen)
        repoId w.store (entries.map (readEntry parseF64 types))
      refine ⟨inserted, ?_, hinserts.sublist, ?_, ?_, hinserts.nodup, hinserts.fresh⟩
      · rw [hresult, ← hinserts.count]
      · rw [hstore, hinserts.keys]
      · rw [hstore]
        exact hinserts.filed
    · have hsecond := EndsBy.countEntries hagain
      have hresult' : r' = _ := congrArg Prod.snd hsecond
      rw [hresult', hstore]
      exact Store.fileAll_settled (Store.settled_fileAll _ _).2
  | _ =>
    cases h
    exact ⟨rfl, rfl⟩

end

theorem alone_landsBy (git : Nat → VerdictAnchor → Text → GitDiff) {β : Type} (c : Call β)
    (w : World) (b : β) (w' : World) (h : alone.answer c w = some (b, w')) :
    LandsBy git c w b w' := by
  refine ⟨alone_lands c w b w' h, ?_⟩
  cases c with
  | tree c => cases h
  | _ => trivial

def logicBug : Json :=
  .object [("fingerprint".toList, .string "a".toList), ("bug_class".toList, .string "logic".toList),
    ("severity".toList, .string "low".toList)]

def reportedTwice : Json := .array [logicBug, .null, logicBug]

def ingestTwice : Act IngestResult :=
  countIngest 0 none false (readFindings (fun _ => none) (.fixed .bug) reportedTwice)

/-- One entry inserted, one duplicate, one invalid. -/
theorem ingest_accounted_twice :
    ∃ w' r, EndsBy (fun _ _ _ => .failed) ingestTwice repoWorld r w' ∧
      r = { inserted := 1, duplicates := 1, invalid := 1 } ∧
      ∀ r' w'', EndsBy (fun _ _ _ => .failed) ingestTwice w' r' w'' → r'.inserted = 0 := by
  have hrun : EndsBy (fun _ _ _ => .failed) ingestTwice repoWorld
      { inserted := 1, duplicates := 1, invalid := 1 }
      (Machine.replay alone ingestTwice repoWorld).2 :=
    runs_replay (alone_landsBy _) rfl
  refine ⟨_, _, hrun, rfl, fun r' w'' hagain => ?_⟩
  exact ((ingest_accounted (fun _ => none) (.fixed .bug) reportedTwice hrun).2.2 r' w'' hagain).1

end Hunter
