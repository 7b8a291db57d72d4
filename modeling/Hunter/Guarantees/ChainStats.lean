import Hunter.Guarantees.LiveTrees
import Hunter.Recursive
set_option autoImplicit false

namespace Hunter
open Recursive

/-! What the links of a chain say of its cost. -/

structure ChainRow where
  id : Nat
  resumedFrom : Option Nat
  kind : JobKind
  depth : Nat
  deriving DecidableEq

def ChainRow.ofJob (depth : Nat) (row : Row Job) : ChainRow :=
  ⟨row.id, row.val.resumedFrom, row.val.kind, depth⟩

def chainStart (table : List (Row Job)) (id : Nat) : List ChainRow :=
  (table.filter fun row => row.id = id).map (ChainRow.ofJob 0)

def chainJoin (table : List (Row Job)) (c : ChainRow) : List ChainRow :=
  if c.depth < resumeChainMaxDepth then
    (table.filter fun row =>
      row.val.kind = c.kind && (c.resumedFrom = some row.id || row.val.resumedFrom = some c.id)).map
        (ChainRow.ofJob (c.depth + 1))
  else []

def chainQuery (table : List (Row Job)) (fuel id : Nat) : Option (List ChainRow) :=
  eval (chainJoin table) fuel (chainStart table id)

def chainTotals (table : List (Row Job)) (p : Nat → Bool) : ResumeChainStats :=
  let chain := (table.filter fun row => p row.id).map Row.val
  { total := (chain.map fun j => j.tokensNew.getD 0).sum
    attempts := chain.countP Job.counted
    maxSingle := ((chain.filterMap Job.tokensNew).max?).getD 0 }

/-- The depth is what ends the query, whatever the rows name as their predecessors. -/
theorem chainQuery_ends (table : List (Row Job)) (id : Nat) :
    ∃ fuel result, chainQuery table fuel id = some result := by
  let domain := ((List.range (resumeChainMaxDepth + 1)).flatMap fun depth =>
    table.map (ChainRow.ofJob depth)).toFinset
  have hdomain : ∀ c, c ∈ domain ↔
      ∃ depth ≤ resumeChainMaxDepth, ∃ row ∈ table, ChainRow.ofJob depth row = c := by
    intro c
    simp only [domain, List.mem_toFinset, List.mem_flatMap, List.mem_range, List.mem_map,
      Nat.lt_add_one_iff]
  suffices hends : ∃ result, eval (chainJoin table) domain.card (chainStart table id) = some result
    from ⟨domain.card, hends⟩
  refine eval_ends (fun c _ d hd => ?_) fun c hc => ?_
  · unfold chainJoin at hd
    split at hd
    · rename_i hdepth
      obtain ⟨row, hrow, rfl⟩ := List.mem_map.1 hd
      exact (hdomain _).2 ⟨_, hdepth, row, (List.mem_filter.1 hrow).1, rfl⟩
    · cases hd
  · obtain ⟨row, hrow, rfl⟩ := List.mem_map.1 hc
    exact (hdomain _).2 ⟨0, Nat.zero_le _, row, (List.mem_filter.1 hrow).1, rfl⟩

namespace Store

def Linked (s : Store) (a b : Nat) : Prop :=
  ∃ j k, s.job? a = some j ∧ s.job? b = some k ∧ k.kind = j.kind ∧
    (j.resumedFrom = some b ∨ k.resumedFrom = some a)

variable {s : Store} {a b id n : Nat}

theorem Linked.symm (h : s.Linked a b) : s.Linked b a := by
  obtain ⟨j, k, hj, hk, hkind, hlink⟩ := h
  exact ⟨k, j, hk, hj, hkind.symm, hlink.symm⟩

theorem Linked.kind {j : Job} (h : s.Linked a b) (hj : s.job? a = some j) :
    ∃ k, s.job? b = some k ∧ k.kind = j.kind := by
  obtain ⟨j', k, hj', hk, hkind, -⟩ := h
  obtain rfl : j' = j := Option.some.inj (hj'.symm.trans hj)
  exact ⟨k, hk, hkind⟩

theorem kind_of_steps {j : Job} (h : Steps s.Linked a n b) (hj : s.job? a = some j) :
    ∃ k, s.job? b = some k ∧ k.kind = j.kind := by
  induction h with
  | refl => exact ⟨j, hj, rfl⟩
  | tail _ hstep ih =>
    obtain ⟨k, hk, hkind⟩ := ih
    obtain ⟨l, hl, hkind'⟩ := hstep.kind hk
    exact ⟨l, hl, hkind'.trans hkind⟩

theorem isSome_of_steps (h : Steps s.Linked a n b) : (s.job? a).isSome = (s.job? b).isSome := by
  induction h with
  | refl => rfl
  | tail _ hstep ih =>
    obtain ⟨j, k, hj, hk, -⟩ := hstep
    rw [ih, hj, hk]
    rfl

def WalkedTo (s : Store) (id : Nat) (c : ChainRow) : Prop :=
  ∃ j, s.job? c.id = some j ∧ c = .ofJob c.depth ⟨c.id, j⟩ ∧ c.depth ≤ resumeChainMaxDepth ∧
    Steps s.Linked id c.depth c.id

theorem mem_chainStart {c : ChainRow} :
    c ∈ chainStart (rows s.jobs) id ↔ ∃ j, s.job? id = some j ∧ c = .ofJob 0 ⟨id, j⟩ := by
  simp only [chainStart, List.mem_map, List.mem_filter, mem_rows, decide_eq_true_eq]
  constructor
  · rintro ⟨⟨rid, j⟩, ⟨hj, rfl⟩, rfl⟩
    exact ⟨j, hj, rfl⟩
  · rintro ⟨j, hj, rfl⟩
    exact ⟨⟨id, j⟩, ⟨hj, rfl⟩, rfl⟩

theorem mem_chainJoin {c d : ChainRow} : d ∈ chainJoin (rows s.jobs) c ↔
    c.depth < resumeChainMaxDepth ∧ ∃ k, s.job? d.id = some k ∧ d = .ofJob (c.depth + 1) ⟨d.id, k⟩ ∧
      k.kind = c.kind ∧ (c.resumedFrom = some d.id ∨ k.resumedFrom = some c.id) := by
  unfold chainJoin
  split
  · rename_i hdepth
    simp only [hdepth, true_and, List.mem_map, List.mem_filter, mem_rows, Bool.and_eq_true,
      Bool.or_eq_true, decide_eq_true_eq]
    constructor
    · rintro ⟨⟨rid, k⟩, ⟨hk, hkind, hlink⟩, rfl⟩
      exact ⟨k, hk, rfl, hkind, hlink⟩
    · rintro ⟨k, hk, hd, hkind, hlink⟩
      exact ⟨⟨d.id, k⟩, ⟨hk, hkind, hlink⟩, hd.symm⟩
  · rename_i hdepth
    simp [hdepth]

theorem walkedTo_iff {c : ChainRow} :
    s.WalkedTo id c ↔ Derives (chainJoin (rows s.jobs)) (chainStart (rows s.jobs) id) c := by
  constructor
  · rintro ⟨j, hj, hc, hdepth, hsteps⟩
    obtain ⟨cid, from?, kind, depth⟩ := c
    simp only at hj hc hdepth hsteps
    induction hsteps generalizing j from? kind with
    | refl => exact ⟨_, mem_chainStart.2 ⟨j, hj, hc⟩, .refl⟩
    | tail hsteps hstep ih =>
      obtain ⟨i, k, hi, hk, hkind, hlink⟩ := hstep
      obtain ⟨y, hy, hpath⟩ := ih i _ _ hi rfl (by omega)
      refine ⟨y, hy, hpath.tail (mem_chainJoin.2 ?_)⟩
      obtain rfl : k = j := Option.some.inj (hk.symm.trans hj)
      exact ⟨hdepth, k, hk, hc, hkind, hlink⟩
  · rintro ⟨y, hy, hpath⟩
    obtain ⟨j, hj, rfl⟩ := mem_chainStart.1 hy
    induction hpath with
    | refl => exact ⟨j, hj, rfl, Nat.zero_le _, .refl⟩
    | @tail c d _ hstep ih =>
      obtain ⟨i, hi, hc, -, hsteps⟩ := ih
      obtain ⟨hdepth, k, hk, hd, hkind, hlink⟩ := mem_chainJoin.1 hstep
      have hdepthd : d.depth = c.depth + 1 := by rw [hd]; rfl
      refine ⟨k, hk, by rw [hdepthd]; exact hd, by omega, ?_⟩
      rw [hdepthd]
      refine hsteps.tail ⟨i, k, hi, hk, ?_, ?_⟩
      · rw [hkind, hc]
        rfl
      · rw [hc] at hlink
        exact hlink

theorem mem_widen {kind : JobKind} {chain : List Nat} : b ∈ s.widen kind chain ↔
    ∃ k, s.job? b = some k ∧ (b ∈ chain ∨ k.kind = kind ∧ ∃ a ∈ chain,
      k.resumedFrom = some a ∨ ∃ j, s.job? a = some j ∧ j.resumedFrom = some b) := by
  simp only [widen, adjacentTo, List.mem_map, List.mem_filter, mem_rows, Bool.or_eq_true,
    List.contains_iff_mem, Bool.and_eq_true, decide_eq_true_eq, List.any_eq_true,
    Option.any_eq_true]
  constructor
  · rintro ⟨⟨rid, k⟩, ⟨hk, hin⟩, rfl⟩
    exact ⟨k, hk, hin⟩
  · rintro ⟨k, hk, hin⟩
    exact ⟨⟨b, k⟩, ⟨hk, hin⟩, rfl⟩

theorem mem_iterate_widen {j : Job} (hj : s.job? id = some j) :
    b ∈ (s.widen j.kind)^[n] [id] ↔ ∃ m ≤ n, Steps s.Linked id m b := by
  induction n generalizing b with
  | zero =>
    simp only [Function.iterate_zero, id_eq, List.mem_singleton, Nat.le_zero]
    constructor
    · rintro rfl
      exact ⟨0, rfl, .refl⟩
    · rintro ⟨m, rfl, hsteps⟩
      cases hsteps
      rfl
  | succ n ih =>
    rw [Function.iterate_succ_apply', mem_widen]
    constructor
    · rintro ⟨k, hk, hmem | ⟨hkind, a, ha, hlink⟩⟩
      · obtain ⟨m, hmn, hm⟩ := ih.1 hmem
        exact ⟨m, by omega, hm⟩
      · obtain ⟨m, hmn, hm⟩ := ih.1 ha
        obtain ⟨i, hi, hikind⟩ := kind_of_steps hm hj
        refine ⟨m + 1, by omega, hm.tail ⟨i, k, hi, hk, hkind.trans hikind.symm, ?_⟩⟩
        rcases hlink with hlink | ⟨i', hi', hlink⟩
        · exact Or.inr hlink
        · obtain rfl : i' = i := Option.some.inj (hi'.symm.trans hi)
          exact Or.inl hlink
    · rintro ⟨m, hmn, hm⟩
      obtain ⟨k, hk, hkind⟩ := kind_of_steps hm hj
      refine ⟨k, hk, ?_⟩
      cases hm with
      | refl => exact Or.inl (ih.2 ⟨0, Nat.zero_le _, .refl⟩)
      | @tail m a _ hm hstep =>
        refine Or.inr ⟨hkind, a, ih.2 ⟨m, by omega, hm⟩, ?_⟩
        obtain ⟨i, k', hi, hk', -, hlink⟩ := hstep
        obtain rfl : k' = k := Option.some.inj (hk'.symm.trans hk)
        exact hlink.symm.imp (fun h => h) fun h => ⟨i, hi, h⟩

theorem mem_chainIds : b ∈ s.chainIds id ↔
    (s.job? b).isSome = true ∧ ∃ m ≤ resumeChainMaxDepth, Steps s.Linked id m b := by
  unfold chainIds
  cases hj : s.job? id with
  | none =>
    simp only [List.not_mem_nil, false_iff, not_and]
    rintro hb ⟨m, -, hm⟩
    rw [← isSome_of_steps hm, hj] at hb
    cases hb
  | some j =>
    simp only [mem_iterate_widen hj]
    constructor
    · rintro ⟨m, hmn, hm⟩
      exact ⟨by rw [← isSome_of_steps hm, hj]; rfl, m, hmn, hm⟩
    · exact And.right

theorem job?_filter_rows (p : Row Job → Bool) :
    (((rows s.jobs).filter p).map Row.id).filterMap s.job? =
      ((rows s.jobs).filter p).map Row.val := by
  rw [List.filterMap_map, ← List.filterMap_eq_map]
  refine List.filterMap_congr fun row hrow => ?_
  exact mem_rows.1 (List.mem_filter.1 hrow).1

theorem filter_contains_rows (p : Row Job → Bool) :
    ((rows s.jobs).filter fun row => (((rows s.jobs).filter p).map Row.id).contains row.id) =
      (rows s.jobs).filter p := by
  refine List.filter_congr fun row hrow => ?_
  rw [Bool.eq_iff_iff, List.contains_iff_mem, List.mem_map]
  constructor
  · rintro ⟨⟨rid, j⟩, hmem, rfl⟩
    obtain ⟨hrow', hp⟩ := List.mem_filter.1 hmem
    obtain rfl : j = row.val := Option.some.inj ((mem_rows.1 hrow').symm.trans (mem_rows.1 hrow))
    exact hp
  · intro hp
    exact ⟨row, List.mem_filter.2 ⟨hrow, hp⟩, rfl⟩

/-- The model's totals are those over its chain's ids. -/
theorem resumeChainStats_eq :
    s.resumeChainStats id = chainTotals (rows s.jobs) (s.chainIds id).contains := by
  have hids : (s.chainIds id).filterMap s.job? =
      ((rows s.jobs).filter fun row => (s.chainIds id).contains row.id).map Row.val := by
    unfold chainIds
    cases s.job? id with
    | none => simp
    | some j =>
      dsimp only
      rw [resumeChainMaxDepth, Function.iterate_succ_apply', widen, filter_contains_rows,
        job?_filter_rows]
  simp only [resumeChainStats, hids, chainTotals]

theorem chainTotals_congr {p q : Nat → Bool} (h : ∀ id j, s.job? id = some j → p id = q id) :
    chainTotals (rows s.jobs) p = chainTotals (rows s.jobs) q := by
  have hrows : ((rows s.jobs).filter fun row => p row.id) =
      (rows s.jobs).filter fun row => q row.id :=
    List.filter_congr fun row hrow => h row.id row.val (mem_rows.1 hrow)
  simp only [chainTotals, hrows]

/-- What the query computes is what the model states. -/
theorem chainTotals_chainQuery {fuel : Nat} {result : List ChainRow}
    (h : chainQuery (rows s.jobs) fuel id = some result) :
    chainTotals (rows s.jobs) (result.map ChainRow.id).contains = s.resumeChainStats id := by
  obtain ⟨-, hresult⟩ := eval_exact h
  rw [resumeChainStats_eq]
  refine chainTotals_congr fun b k hk => ?_
  rw [Bool.eq_iff_iff, List.contains_iff_mem, List.contains_iff_mem, List.mem_map, mem_chainIds]
  constructor
  · rintro ⟨c, hc, rfl⟩
    obtain ⟨-, -, -, hdepth, hsteps⟩ := walkedTo_iff.2 ((hresult c).1 hc)
    exact ⟨by rw [hk]; rfl, c.depth, hdepth, hsteps⟩
  · rintro ⟨-, m, hm, hsteps⟩
    exact ⟨.ofJob m ⟨b, k⟩, (hresult _).2 (walkedTo_iff.1 ⟨k, hk, rfl, hm, hsteps⟩), rfl⟩

/-- The jobs of `id`'s kind that links connect it to, however long the way. -/
noncomputable def component (s : Store) (id : Nat) : Finset Nat := by
  classical
  exact (Finset.range s.jobs.length).filter (Relation.ReflTransGen s.Linked id)

theorem mem_component : b ∈ s.component id ↔
    (s.job? b).isSome = true ∧ Relation.ReflTransGen s.Linked id b := by
  classical
  simp [component, job?]

instance : Std.Symm s.Linked := ⟨fun _ _ => Linked.symm⟩

theorem component_eq (h : b ∈ s.component a) : s.component b = s.component a := by
  have hab := (mem_component.1 h).2
  have hba : Relation.ReflTransGen s.Linked b a := Std.Symm.symm _ _ hab
  ext c
  rw [mem_component, mem_component]
  exact and_congr_right fun _ => ⟨hab.trans, hba.trans⟩

theorem card_component_le : (s.component id).card ≤ s.jobs.length := by
  have hsub : s.component id ⊆ Finset.range s.jobs.length := by
    classical
    exact Finset.filter_subset _ _
  simpa using Finset.card_le_card hsub

/-- A chain with no more links than the query follows is summed up whole. -/
theorem mem_chainIds_of_short (h : (s.component id).card ≤ resumeChainMaxDepth + 1) :
    b ∈ s.chainIds id ↔ b ∈ s.component id := by
  rw [mem_chainIds, mem_component]
  refine and_congr_right fun hb => ?_
  constructor
  · rintro ⟨m, -, hm⟩
    exact hm.reaches
  · intro hpath
    refine (Steps.short (fun x => ?_) h).1 hpath
    rw [mem_component]
    refine and_iff_right_of_imp fun hx => ?_
    obtain ⟨m, hm⟩ := reaches_iff.1 hpath
    obtain ⟨m', hm'⟩ := reaches_iff.1 hx
    rw [← isSome_of_steps hm', isSome_of_steps hm]
    exact hb

open Classical in
theorem resumeChainStats_component (h : (s.component id).card ≤ resumeChainMaxDepth + 1) :
    s.resumeChainStats id = chainTotals (rows s.jobs) fun b => decide (b ∈ s.component id) := by
  rw [resumeChainStats_eq]
  refine chainTotals_congr fun b _ _ => ?_
  rw [Bool.eq_iff_iff, List.contains_iff_mem, decide_eq_true_eq]
  exact mem_chainIds_of_short h

end Store

open Classical in
/-- The query ends on any table, and a chain within its depth costs the same whichever job of it
is asked about: what all of it did. -/
theorem resumeChainStats_exact :
    (∀ (table : List (Row Job)) (id : Nat),
      ∃ fuel result, chainQuery table fuel id = some result) ∧
    ∀ (s : Store) (id fuel : Nat) (result : List ChainRow),
      chainQuery (rows s.jobs) fuel id = some result →
      chainTotals (rows s.jobs) (result.map ChainRow.id).contains = s.resumeChainStats id ∧
      ((s.component id).card ≤ resumeChainMaxDepth + 1 →
        s.resumeChainStats id =
            chainTotals (rows s.jobs) (fun b => decide (b ∈ s.component id)) ∧
          ∀ b ∈ s.component id, s.resumeChainStats b = s.resumeChainStats id) := by
  refine ⟨chainQuery_ends, fun s id fuel result hquery =>
    ⟨Store.chainTotals_chainQuery hquery, fun hshort => ?_⟩⟩
  refine ⟨Store.resumeChainStats_component hshort, fun b hb => ?_⟩
  have hcomponent := Store.component_eq hb
  rw [Store.resumeChainStats_component hshort,
    Store.resumeChainStats_component (by rwa [hcomponent]),
    hcomponent]

theorem linked_heldChain {status : FindingStatus} {n k : Nat} (h : k + 1 < n) :
    (heldChain status n).Linked k (k + 1) :=
  ⟨_, _, job?_heldChain.2 ⟨by omega, rfl⟩, job?_heldChain.2 ⟨h, rfl⟩, rfl, Or.inr rfl⟩

/-- A fix resumed twice. -/
theorem resumeChainStats_exact_thrice :
    (heldChain .queued 3).resumeChainStats 2 = (heldChain .queued 3).resumeChainStats 0 := by
  obtain ⟨fuel, result, hquery⟩ := resumeChainStats_exact.1 (rows (heldChain .queued 3).jobs) 0
  refine ((resumeChainStats_exact.2 _ 0 fuel result hquery).2 ?_).2 2 ?_
  · exact Store.card_component_le.trans (by decide)
  · refine Store.mem_component.2 ⟨rfl, ?_⟩
    exact (Relation.ReflTransGen.single (linked_heldChain (by decide))).tail
      (linked_heldChain (by decide))

end Hunter
