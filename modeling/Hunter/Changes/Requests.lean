import Hunter.Daemon
import Hunter.Changes.Findings
import Hunter.Changes.Jobs
set_option autoImplicit false

namespace Hunter

def FindingStatus.operatorMoves (source target : FindingStatus) : Prop :=
  source.awaitsVerdict ∧ target.isVerdict ∨ source = .new ∧ target = .rechecking ∨
    source = .queued ∧ target = .new

structure OperatorChange (x x' : Finding) : Prop where
  type : x'.type = x.type
  repoId : x'.repoId = x.repoId
  report : x'.report = x.report
  prUrl : x'.prUrl = x.prUrl
  prState : x'.prState = x.prState
  anchor : x'.anchor = x.anchor ∨ x'.anchor = none ∧ x.status.awaitsVerdict
  status : x'.status = x.status ∨ x.status.operatorMoves x'.status

theorem OperatorChange.refl (x : Finding) : OperatorChange x x :=
  ⟨rfl, rfl, rfl, rfl, rfl, Or.inl rfl, Or.inl rfl⟩

variable {s s' : Store} {r : Request}

open Store in
theorem Accepts.edits (h : Accepts s r s') : Edits (fun _ => OperatorChange) s s' := by
  have hrefl : ∀ (_ : Nat) x, OperatorChange x x := fun _ => OperatorChange.refl
  have hsame : ∀ {x x' : Finding}, x' = { x with budgetOverride := x'.budgetOverride } →
      OperatorChange x x' := by
    intro x x' h
    rw [h]
    exact ⟨rfl, rfl, rfl, rfl, rfl, Or.inl rfl, Or.inl rfl⟩
  cases h with
  | verdict hsource htarget _ _ =>
    unfold applyVerdict
    split
    · refine edits_updateFindingIf hrefl fun x hx => ?_
      obtain rfl := of_decide_eq_true hx
      exact ⟨rfl, rfl, rfl, rfl, rfl, Or.inr ⟨rfl, hsource⟩, Or.inr (Or.inl ⟨hsource, htarget⟩)⟩
    · refine edits_updateFindingIf hrefl fun x hx => ?_
      obtain rfl := of_decide_eq_true hx
      exact ⟨rfl, rfl, rfl, rfl, rfl, Or.inl rfl, Or.inr (Or.inl ⟨hsource, htarget⟩)⟩
  | recheck =>
    refine edits_updateFindingIf hrefl fun x hx => ?_
    exact ⟨rfl, rfl, rfl, rfl, rfl, Or.inl rfl,
      Or.inr (Or.inr (Or.inl ⟨of_decide_eq_true hx, rfl⟩))⟩
  | unqueue =>
    refine edits_updateFindingIf hrefl fun x hx => ?_
    exact ⟨rfl, rfl, rfl, rfl, rfl, Or.inl rfl,
      Or.inr (Or.inr (Or.inr ⟨of_decide_eq_true hx, rfl⟩))⟩
  | override => exact edits_modifyFinding hrefl fun x _ => hsame rfl
  | clearOverrides => exact edits_map _ fun _ x => hsame rfl
  | addRepo | updateRepo | fullHunt => exact edits_sameFindings hrefl rfl
  | deleteRepo => exact edits_sameFindings hrefl findings_softDeleteRepo
  | reapRepo => exact edits_sameFindings hrefl findings_forgetDeletedRepo

theorem Accepts.jobs (h : Accepts s r s') : s'.jobs = s.jobs := by
  cases h with
  | verdict =>
    unfold Store.applyVerdict
    split <;> exact Store.jobs_updateFindingIf
  | recheck => exact Store.jobs_updateFindingIf
  | unqueue => exact Store.jobs_updateFindingIf
  | deleteRepo => exact Store.jobs_softDeleteRepo
  | reapRepo => exact Store.jobs_forgetDeletedRepo
  | _ => rfl

theorem Accepts.length (h : Accepts s r s') : s'.findings.length = s.findings.length := by
  cases h with
  | verdict =>
    unfold Store.applyVerdict
    split <;> exact Store.length_updateFindingIf
  | recheck => exact Store.length_updateFindingIf
  | unqueue => exact Store.length_updateFindingIf
  | override => exact Store.length_modifyFinding
  | clearOverrides => simp [Store.clearAllOverrides]
  | addRepo | updateRepo | fullHunt => rfl
  | deleteRepo => exact congrArg List.length Store.findings_softDeleteRepo
  | reapRepo => exact congrArg List.length Store.findings_forgetDeletedRepo

/-- A row after a request is the row before it, moved at most as an operator may. -/
theorem Accepts.finding {f : Nat} {x' : Finding} (h : Accepts s r s')
    (hx' : s'.finding? f = some x') : ∃ x, s.finding? f = some x ∧ OperatorChange x x' := by
  rcases h.edits.back hx' with hnone | hx
  · have hge : s.findings.length ≤ f := by simpa [Store.finding?] using hnone
    have hlt : f < s'.findings.length := by
      simp only [Store.finding?, List.getElem?_eq_some_iff] at hx'
      exact hx'.1
    have := h.length
    omega
  · exact hx

theorem Accepts.prRow (h : Accepts s r s') (f : Nat) : s'.prRow f = s.prRow f := by
  simp only [Store.prRow]
  cases hx' : s'.finding? f with
  | some x' =>
    obtain ⟨x, hx, hchange⟩ := h.finding hx'
    simp [hx, hchange.prState]
  | none =>
    cases hx : s.finding? f with
    | none => rfl
    | some x =>
      obtain ⟨y, hy, -⟩ := h.edits f x hx
      cases hx'.symm.trans hy

end Hunter
