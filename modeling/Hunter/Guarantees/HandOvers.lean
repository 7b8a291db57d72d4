import Hunter.Changes.Jobs
import Hunter.Changes.Repos
import Hunter.Guarantees.DepScans
import Mathlib.Data.List.Induction
set_option autoImplicit false

namespace Hunter

def strongestOverride (own : Option BudgetOverride) (given : List (Option BudgetOverride)) :
    Option BudgetOverride :=
  given.foldl Finding.strongerOverride own

namespace Store
variable {s : Store} {repoId : Nat} {moves : List ProposedMove} {pairs : List (Nat × Nat)}

/-- The overrides of the sources that hand over to `k`. -/
def handedTo (s : Store) (pairs : List (Nat × Nat)) (k : Nat) : List (Option BudgetOverride) :=
  (pairs.filter fun pair => pair.2 = k).map fun pair =>
    (s.finding? pair.1).bind Finding.budgetOverride

/-- A source is superseded; a target is queued with the strongest override. -/
def handedOver (s : Store) (pairs : List (Nat × Nat)) (k : Nat) (f : Finding) : Finding :=
  match pairs.find? fun pair => pair.1 = k with
  | some pair => { f with status := .superseded, verdictReason := some (handOverReason pair.2) }
  | none =>
    if pairs.any fun pair => pair.2 = k then
      { f with
        status := .queued
        budgetOverride := strongestOverride f.budgetOverride (s.handedTo pairs k) }
    else f

/-- Pairs of distinct queued sources and open targets. -/
structure HandsOver (s : Store) (pairs : List (Nat × Nat)) : Prop where
  nodup : (pairs.map Prod.fst).Nodup
  source : ∀ pair ∈ pairs, s.statuses pair.1 = some .queued
  target : ∀ pair ∈ pairs, s.statuses pair.2 = some .new

theorem handsOver_handOverPairs : s.HandsOver (s.handOverPairs repoId moves) where
  nodup := nodup_handOverPairs
  source _ h := (mem_handOverPairs h).1
  target _ h := (mem_handOverPairs h).2

theorem HandsOver.perm {order : List (Nat × Nat)} (h : s.HandsOver pairs)
    (hperm : order.Perm pairs) : s.HandsOver order where
  nodup := (hperm.map Prod.fst).nodup_iff.2 h.nodup
  source pair hpair := h.source pair (hperm.mem_iff.1 hpair)
  target pair hpair := h.target pair (hperm.mem_iff.1 hpair)

theorem HandsOver.ne (h : s.HandsOver pairs) {p q : Nat × Nat} (hp : p ∈ pairs) (hq : q ∈ pairs) :
    p.1 ≠ q.2 := by
  intro heq
  have hqueued := h.source p hp
  rw [heq, h.target q hq] at hqueued
  cases hqueued

theorem HandsOver.find? (h : s.HandsOver pairs) {pair : Nat × Nat} (hpair : pair ∈ pairs) :
    (pairs.find? fun p => p.1 = pair.1) = some pair := by
  obtain ⟨found, hfound⟩ : ∃ p, (pairs.find? fun p => p.1 = pair.1) = some p :=
    Option.isSome_iff_exists.1 (List.find?_isSome.2 ⟨pair, hpair, by simp⟩)
  have hkey : found.1 = pair.1 := by simpa using List.find?_some hfound
  rw [hfound, List.inj_on_of_nodup_map h.nodup (List.mem_of_find?_eq_some hfound) hpair hkey]

theorem find?_target (h : s.HandsOver pairs) {pair : Nat × Nat} (hpair : pair ∈ pairs) :
    (pairs.find? fun p => p.1 = pair.2) = none := by
  rw [List.find?_eq_none]
  intro p hp
  simpa using h.ne hp hpair

theorem statuses_eq_some {k : Nat} {status : FindingStatus} (h : s.statuses k = some status) :
    ∃ f, s.finding? k = some f ∧ f.status = status :=
  Option.map_eq_some_iff.1 h

theorem finding?_handOver {acc : Store × Nat} {pair : Nat × Nat} {f g : Finding}
    (hsource : acc.1.finding? pair.1 = some f) (hqueued : f.status = .queued)
    (htarget : acc.1.finding? pair.2 = some g) (hopen : g.status = .new ∨ g.status = .queued)
    (hne : pair.1 ≠ pair.2) :
    (handOver acc pair).2 = acc.2 + 1 ∧ ∀ k, (handOver acc pair).1.finding? k =
      if k = pair.1 then
        some { f with status := .superseded, verdictReason := some (handOverReason pair.2) }
      else if k = pair.2 then
        some { g with
          status := .queued
          budgetOverride := Finding.strongerOverride g.budgetOverride f.budgetOverride }
      else acc.1.finding? k := by
  have hopen' : ((g.status = .new : Bool) || (g.status = .queued : Bool)) = true := by
    simpa using hopen
  simp only [handOver, updateFindingIf, hsource, hqueued, Option.any_some, decide_true, if_true,
    finding?_modifyFinding, if_neg hne, htarget, hopen', Option.map_some, Option.bind_some]
  refine ⟨trivial, fun k => ?_⟩
  by_cases hk : pair.1 = k
  · subst hk
    simp [hne.symm, hsource]
  · by_cases hk' : pair.2 = k
    · subst hk'
      simp [hne, hne.symm, htarget]
    · simp [hk, hk', Ne.symm hk, Ne.symm hk']

section
variable {pair : Nat × Nat} {f : Finding} {k : Nat}

theorem handedOver_append_source (hfresh : (pairs.find? fun p => p.1 = pair.1) = none) :
    s.handedOver (pairs ++ [pair]) pair.1 f =
      { f with status := .superseded, verdictReason := some (handOverReason pair.2) } := by
  simp [handedOver, List.find?_append, hfresh]

theorem handedTo_append_target :
    s.handedTo (pairs ++ [pair]) pair.2 =
      s.handedTo pairs pair.2 ++ [(s.finding? pair.1).bind Finding.budgetOverride] := by
  simp [handedTo, List.filter_append]

theorem budgetOverride_handedOver (hunsourced : (pairs.find? fun p => p.1 = k) = none) :
    (s.handedOver pairs k f).budgetOverride =
      strongestOverride f.budgetOverride (s.handedTo pairs k) := by
  simp only [handedOver, hunsourced]
  split
  · rfl
  · rename_i hnone
    have hempty : (pairs.filter fun p => p.2 = k) = [] := by
      rw [List.filter_eq_nil_iff]
      exact fun p hp hk => hnone (List.any_eq_true.2 ⟨p, hp, hk⟩)
    rw [handedTo, hempty]
    rfl

theorem handedOver_append_target (hunsourced : (pairs.find? fun p => p.1 = pair.2) = none)
    (hne : pair.1 ≠ pair.2) :
    s.handedOver (pairs ++ [pair]) pair.2 f =
      { s.handedOver pairs pair.2 f with
        status := .queued
        budgetOverride := Finding.strongerOverride (s.handedOver pairs pair.2 f).budgetOverride
          ((s.finding? pair.1).bind Finding.budgetOverride) } := by
  rw [budgetOverride_handedOver hunsourced]
  have hany : ((pairs ++ [pair]).any fun p => p.2 = pair.2) = true := by simp
  have hfind : ((pairs ++ [pair]).find? fun p => p.1 = pair.2) = none := by
    simp [List.find?_append, hunsourced, hne]
  simp only [handedOver, hfind, hunsourced, hany, if_true, handedTo_append_target,
    strongestOverride, List.foldl_append, List.foldl_cons, List.foldl_nil]
  split <;> rfl

theorem handedOver_append_other (hsource : pair.1 ≠ k) (htarget : pair.2 ≠ k) :
    s.handedOver (pairs ++ [pair]) k f = s.handedOver pairs k f := by
  have hfind : ((pairs ++ [pair]).find? fun p => p.1 = k) = pairs.find? fun p => p.1 = k := by
    simp [List.find?_append, hsource]
  have hany : ((pairs ++ [pair]).any fun p => p.2 = k) = pairs.any fun p => p.2 = k := by
    simp [htarget]
  have hgiven : s.handedTo (pairs ++ [pair]) k = s.handedTo pairs k := by
    simp [handedTo, List.filter_append, htarget]
  simp only [handedOver, hfind, hany, hgiven]

end

/-- A run of the hand-over, from its first pair to its last. -/
theorem finding?_foldl_handOver_eq (h : s.HandsOver pairs) :
    (pairs.foldl handOver (s, 0)).2 = pairs.length ∧ ∀ k,
      (pairs.foldl handOver (s, 0)).1.finding? k = (s.finding? k).map (s.handedOver pairs k) := by
  induction pairs using List.reverseRecOn with
  | nil =>
    refine ⟨rfl, fun k => ?_⟩
    have hid : s.handedOver [] k = id := rfl
    rw [hid, Option.map_id]
    rfl
  | append_singleton pairs pair ih =>
    have hpair : pair ∈ pairs ++ [pair] := by simp
    have hold : ∀ p ∈ pairs, p ∈ pairs ++ [pair] := fun p hp => List.mem_append_left _ hp
    have hnodup := h.nodup
    rw [List.map_append, List.nodup_append] at hnodup
    obtain ⟨hcount, hrows⟩ := ih
      ⟨hnodup.1, fun p hp => h.source p (hold p hp), fun p hp => h.target p (hold p hp)⟩
    obtain ⟨f, hf, hqueued⟩ := statuses_eq_some (h.source pair hpair)
    obtain ⟨g, hg, hnew⟩ := statuses_eq_some (h.target pair hpair)
    have hne : pair.1 ≠ pair.2 := h.ne hpair hpair
    have hfresh : (pairs.find? fun p => p.1 = pair.1) = none := by
      rw [List.find?_eq_none]
      intro p hp
      simpa using hnodup.2.2 p.1 (List.mem_map_of_mem hp) pair.1 (by simp)
    have hunsourced : (pairs.find? fun p => p.1 = pair.2) = none := by
      rw [List.find?_eq_none]
      intro p hp
      simpa using h.ne (hold p hp) hpair
    have hsource : s.handedOver pairs pair.1 f = f := by
      have huntargeted : (pairs.any fun p => p.2 = pair.1) = false := by
        rw [List.any_eq_false]
        intro p hp
        simpa using (h.ne hpair (hold p hp)).symm
      simp [handedOver, hfresh, huntargeted]
    have hopen : (s.handedOver pairs pair.2 g).status = .new ∨
        (s.handedOver pairs pair.2 g).status = .queued := by
      simp only [handedOver, hunsourced]
      split
      · exact Or.inr rfl
      · exact Or.inl hnew
    have hsourceRow : (pairs.foldl handOver (s, 0)).1.finding? pair.1 = some f := by
      rw [hrows, hf, Option.map_some, hsource]
    have htargetRow : (pairs.foldl handOver (s, 0)).1.finding? pair.2 =
        some (s.handedOver pairs pair.2 g) := by
      rw [hrows, hg, Option.map_some]
    have hstep := finding?_handOver hsourceRow hqueued htargetRow hopen hne
    rw [List.foldl_append]
    refine ⟨by simpa [hcount] using hstep.1, fun k => ?_⟩
    rw [List.foldl_cons, List.foldl_nil, hstep.2 k, hrows k]
    by_cases hk : k = pair.1
    · subst hk
      rw [if_pos rfl, hf, Option.map_some, handedOver_append_source hfresh]
    · rw [if_neg hk]
      by_cases hkt : k = pair.2
      · subst hkt
        rw [if_pos rfl, hg, Option.map_some, handedOver_append_target hunsourced hne, hf]
        rfl
      · rw [if_neg hkt]
        congr 1
        funext x
        exact (handedOver_append_other (Ne.symm hk) (Ne.symm hkt)).symm

theorem finding?_handOverQueuedDepUpdates (k : Nat) :
    (s.handOverQueuedDepUpdates repoId moves).1.finding? k =
      (s.finding? k).map (s.handedOver (s.handOverPairs repoId moves) k) :=
  (finding?_foldl_handOver_eq handsOver_handOverPairs).2 k

theorem handedOver_target (h : s.HandsOver pairs) {pair : Nat × Nat} (hpair : pair ∈ pairs)
    (f : Finding) :
    s.handedOver pairs pair.2 f =
      { f with
        status := .queued
        budgetOverride := strongestOverride f.budgetOverride (s.handedTo pairs pair.2) } := by
  have hany : (pairs.any fun p => p.2 = pair.2) = true :=
    List.any_eq_true.2 ⟨pair, hpair, by simp⟩
  simp [handedOver, find?_target h hpair, hany]

end Store

end Hunter
