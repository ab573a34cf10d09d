/-
  BasisHawk.Reconciliation.Control
  ────────────────────────────────
  The writes of `execution_control` (`storage.py`), each one transaction.

  Administrators, the API, the private streams and the executors share this
  row.  Most of its writers look at it first; `set_execution_control` does not.

  Main results:
    • `ControlOp.apply_paused` — which writes keep a pause.
-/
import BasisHawk.MultiLeg.Rows

namespace BasisHawk.Reconciliation

open Domain
open MultiLeg (ExecutionControlRow)

/-- The row, which may not be there yet. -/
abbrev Control : Type := Option ExecutionControlRow

namespace Control

/-- The row says `paused`. -/
def Paused (c : Control) : Prop := ∃ row ∈ c, row.state = .paused

instance (c : Control) : Decidable c.Paused :=
  inferInstanceAs (Decidable (∃ row ∈ c, row.state = .paused))

/-- The row says `ready`. -/
def Ready (c : Control) : Prop := ∃ row ∈ c, row.state = .ready

instance (c : Control) : Decidable c.Ready :=
  inferInstanceAs (Decidable (∃ row ∈ c, row.state = .ready))

/-- `set_execution_control`: unconditional. -/
def setExecutionControl (state : ControlState) (reason : String) : Control → Control :=
  fun _ => some ⟨state, reason⟩

/-- `request_execution_reconciliation`: leaves a pause alone. -/
def requestExecutionReconciliation (reason : String) : Control → Control
  | none => some ⟨.reconciling, reason⟩
  | some row => if row.state = .paused then some row else some ⟨.reconciling, reason⟩

/-- The reason an update pauses the execution with. -/
def updateReason : String := "software update requested"

/-- `request_post_update_reconciliation`: ends the pause of an update. -/
def requestPostUpdateReconciliation : Control → Control
  | some row =>
      if row.state = .paused ∧ row.reason = updateReason then
        some ⟨.reconciling, "software update completed; fresh safety reconciliation required"⟩
      else some row
  | none => none

/-- `request_software_update`. -/
def requestSoftwareUpdate (allowExistingPause : Bool) : Control → Control
  | some row =>
      if row.state = .ready
          ∨ (allowExistingPause ∧ row.state = .paused ∧ row.reason = updateReason) then
        some ⟨.paused, updateReason⟩
      else some row
  | none => none

/-- What `set_private_stream_state` does when a stream is not connected. -/
def streamDisconnected : Control → Control
  | some row =>
      if row.state = .ready then some ⟨.paused,
        "private account event stream disconnected; REST reconciliation is required"⟩
      else some row
  | none => none

/-- What `plan_internal_transfer` does when it stores a new transfer. -/
def planInternalTransfer : Control → Control
  | some row =>
      if row.state = .paused then some row
      else some ⟨.paused, "internal account transfer requires balance confirmation"⟩
  | none => some ⟨.paused, "internal account transfer requires balance confirmation"⟩

/-- What `begin_execution_task_compensation` and a manual review of the
multi-leg executor do. -/
def multiLegPause (failureCode : String) : Control → Control
  | some _ => some ⟨.paused, failureCode⟩
  | none => none

end Control

/-- The writes of the other actors. -/
inductive ControlOp where
  /-- `POST /api/system/execution/pause`, and a confirmed emergency close. -/
  | pause (reason : String)
  /-- `POST /api/system/execution/resume`. -/
  | resume
  | requestReconciliation (reason : String)
  | postUpdate
  | softwareUpdate (allowExistingPause : Bool)
  | streamDisconnected
  | planTransfer
  | multiLegPause (failureCode : String)

/-- The transaction of a write. -/
def ControlOp.apply : ControlOp → Control → Control
  | .pause reason => Control.setExecutionControl .paused reason
  | .resume => Control.setExecutionControl .reconciling
      "administrator requested a fresh safety reconciliation"
  | .requestReconciliation reason => Control.requestExecutionReconciliation reason
  | .postUpdate => Control.requestPostUpdateReconciliation
  | .softwareUpdate allowExistingPause => Control.requestSoftwareUpdate allowExistingPause
  | .streamDisconnected => Control.streamDisconnected
  | .planTransfer => Control.planInternalTransfer
  | .multiLegPause failureCode => Control.multiLegPause failureCode

/-- An explicit end of a pause. -/
def ControlOp.lifts : ControlOp → Bool
  | .resume | .postUpdate => true
  | _ => false

/-- Only an explicit resume or the end of an update takes a pause away. -/
theorem ControlOp.apply_paused {op : ControlOp} (hop : op.lifts = false) {c : Control}
    (hc : c.Paused) : (op.apply c).Paused := by
  obtain ⟨row, hrow, hstate⟩ := hc
  cases hrow
  cases op with
  | pause reason => exact ⟨_, rfl, rfl⟩
  | resume => cases hop
  | requestReconciliation reason =>
      simp only [apply, Control.requestExecutionReconciliation, hstate, if_true]
      exact ⟨row, rfl, hstate⟩
  | postUpdate => cases hop
  | softwareUpdate allow =>
      simp only [apply, Control.requestSoftwareUpdate]
      split
      · exact ⟨_, rfl, rfl⟩
      · exact ⟨row, rfl, hstate⟩
  | streamDisconnected =>
      simp only [apply, Control.streamDisconnected]
      split
      · exact ⟨_, rfl, rfl⟩
      · exact ⟨row, rfl, hstate⟩
  | planTransfer =>
      simp only [apply, Control.planInternalTransfer, hstate, if_true]
      exact ⟨row, rfl, hstate⟩
  | multiLegPause failureCode => exact ⟨_, rfl, rfl⟩

/-- None of the other actors makes the execution ready. -/
theorem ControlOp.apply_ready {op : ControlOp} {c : Control} (h : (op.apply c).Ready) :
    c.Ready := by
  obtain ⟨row, hrow, hstate⟩ := h
  -- No operation makes a row `ready`: it writes another state or leaves the row.
  cases op with
  | pause reason =>
      cases hrow
      cases hstate
  | resume =>
      cases hrow
      cases hstate
  | requestReconciliation reason =>
      cases c with
      | none =>
          cases hrow
          cases hstate
      | some old =>
          simp only [apply, Control.requestExecutionReconciliation] at hrow
          split at hrow <;> cases hrow
          · exact ⟨_, rfl, hstate⟩
          · cases hstate
  | postUpdate =>
      cases c with
      | none => cases hrow
      | some old =>
          simp only [apply, Control.requestPostUpdateReconciliation] at hrow
          split at hrow <;> cases hrow
          · cases hstate
          · exact ⟨_, rfl, hstate⟩
  | softwareUpdate allow =>
      cases c with
      | none => cases hrow
      | some old =>
          simp only [apply, Control.requestSoftwareUpdate] at hrow
          split at hrow <;> cases hrow
          · cases hstate
          · exact ⟨_, rfl, hstate⟩
  | streamDisconnected =>
      cases c with
      | none => cases hrow
      | some old =>
          simp only [apply, Control.streamDisconnected] at hrow
          split at hrow <;> cases hrow
          · cases hstate
          · exact ⟨_, rfl, hstate⟩
  | planTransfer =>
      cases c with
      | none =>
          cases hrow
          cases hstate
      | some old =>
          simp only [apply, Control.planInternalTransfer] at hrow
          split at hrow <;> cases hrow
          · exact ⟨_, rfl, hstate⟩
          · cases hstate
  | multiLegPause failureCode =>
      cases c with
      | none => cases hrow
      | some old =>
          cases hrow
          cases hstate

end BasisHawk.Reconciliation
