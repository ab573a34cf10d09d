/-
  BasisHawk.Transfers.Evolution
  ─────────────────────────────
  What one step can do to the transfers, whoever takes it.

  Main results:
    • `serve_evolves`, `Act.apply_evolves` — rows stay, keep what was asked
      for, never leave a terminal status, and keep the balance they expect,
    • `serve_completed` — only `finalize_internal_transfer` completes a row,
    • `Act.apply_cases` — a planned row fits the limits in force.
-/
import BasisHawk.Transfers.Service

namespace BasisHawk.Transfers

open Domain Lib
open Reconciliation (Account LiveSnapshot)

/-! ## §1. One row. -/

/-- What can become of a row. -/
structure Moves (row row' : InternalTransferRow) : Prop where
  id : row'.id = row.id
  account : row'.account = row.account
  direction : row'.direction = row.direction
  amount : row'.amount = row.amount
  createdAt : row'.createdAt = row.createdAt
  /-- Terminal statuses are absorbing. -/
  terminal : row.status.isTerminal → row' = row
  /-- Once submitted, a transfer is never planned again, and the balance it has
  to reach is fixed. -/
  started : row.status ≠ .planned →
    row'.status ≠ .planned ∧ row'.expectedTargetBalance = row.expectedTargetBalance

namespace Moves

theorem refl (row : InternalTransferRow) : Moves row row :=
  ⟨rfl, rfl, rfl, rfl, rfl, fun _ => rfl, fun h => ⟨h, rfl⟩⟩

/-- What a row goes through can be put together. -/
theorem trans {a b c : InternalTransferRow} (h : Moves a b) (h' : Moves b c) : Moves a c where
  id := h'.id.trans h.id
  account := h'.account.trans h.account
  direction := h'.direction.trans h.direction
  amount := h'.amount.trans h.amount
  createdAt := h'.createdAt.trans h.createdAt
  terminal := by
    intro ht
    have hb := h.terminal ht
    rw [h'.terminal (hb ▸ ht), hb]
  started := by
    intro hs
    obtain ⟨hb, he⟩ := h.started hs
    obtain ⟨hc, he'⟩ := h'.started hb
    exact ⟨hc, he'.trans he⟩

variable {row : InternalTransferRow}

/-- A planned row that is submitted takes its balances and its expected arrival.
-/
theorem submitted (hstatus : row.status = .planned) (source target : ℚ) (now : Int) :
    Moves row (Desk.submittedRow row source target now) :=
  ⟨rfl, rfl, rfl, rfl, rfl, fun h => (by rw [hstatus] at h; cases h),
    fun h => absurd hstatus h⟩

/-- An awaiting row may take the identifier of the exchange. -/
theorem recorded (hstatus : row.status.isAwaiting) (remoteId : String) (now : Int) :
    Moves row (Desk.recordedRow row remoteId now) := by
  refine ⟨rfl, rfl, rfl, rfl, rfl, fun h => ?_, fun _ => ⟨nofun, rfl⟩⟩
  rw [TransferStatus.isTerminal_of_isAwaiting hstatus] at h
  cases h

/-- An open row may end, for good. -/
theorem finalized (hopen : row.status.isTerminal = false) {status : TransferStatus}
    (hterm : status.isTerminal) (code : Option String) (now : Int) :
    Moves row (Desk.finalizedRow row status code now) := by
  refine ⟨rfl, rfl, rfl, rfl, rfl, fun h => (by rw [hopen] at h; cases h), fun _ => ⟨?_, rfl⟩⟩
  show status ≠ .planned
  rintro rfl
  cases hterm

end Moves

/-! ## §2. The table. -/

/-- What can become of the table in one step. -/
structure Evolves (d d' : Desk) : Prop where
  unique : Table.Unique d'.rows
  kept : ∀ row ∈ d.rows, ∃ row' ∈ d'.rows, Moves row row'
  origin : ∀ row' ∈ d'.rows, (∃ row ∈ d.rows, Moves row row')
    ∨ (row'.status = .planned ∧ ∀ row ∈ d.rows, row.id ≠ row'.id)

namespace Evolves

variable {d d' : Desk}

/-- A desk with the same rows has not moved. -/
theorem of_rows_eq (hu : Table.Unique d.rows) (h : d'.rows = d.rows) : Evolves d d' := by
  refine ⟨h ▸ hu, ?_, ?_⟩
  · rw [h]
    exact fun row hrow => ⟨row, hrow, .refl row⟩
  · rw [h]
    exact fun row hrow => .inl ⟨row, hrow, .refl row⟩

/-- One row moves. -/
theorem put (hu : Table.Unique d.rows) {row new : InternalTransferRow} (hrow : row ∈ d.rows)
    (hm : Moves row new) (h : d'.rows = Table.put d.rows new) : Evolves d d' := by
  have hkey : key row = key new := hm.id.symm
  refine ⟨h ▸ hu.put new, ?_, ?_⟩
  · intro old hold
    rw [h]
    by_cases heq : old = row
    · exact ⟨new, Table.mem_put.mpr (.inl ⟨rfl, row, hrow, hkey⟩), heq ▸ hm⟩
    · exact ⟨old, (Table.mem_put_of_unique hu hrow hkey).mpr (.inr ⟨hold, heq⟩), .refl old⟩
  · intro row' hrow'
    rw [h] at hrow'
    rcases (Table.mem_put_of_unique hu hrow hkey).mp hrow' with rfl | ⟨hold, -⟩
    · exact .inl ⟨row, hrow, hm⟩
    · exact .inl ⟨row', hold, .refl row'⟩

/-- A planned row is stored. -/
theorem append (hu : Table.Unique d.rows) {new : InternalTransferRow}
    (hstatus : new.status = .planned) (hnew : ∀ old ∈ d.rows, old.id ≠ new.id)
    (h : d'.rows = d.rows ++ [new]) : Evolves d d' := by
  refine ⟨?_, ?_, ?_⟩
  · rw [h]
    unfold Table.Unique
    rw [List.map_append, List.nodup_append]
    refine ⟨hu, List.nodup_singleton _, fun k hk k' hk' => ?_⟩
    obtain ⟨old, hold, rfl⟩ := List.mem_map.mp hk
    rw [List.mem_singleton.mp hk']
    exact hnew old hold
  · intro row hrow
    rw [h]
    exact ⟨row, List.mem_append_left _ hrow, .refl row⟩
  · intro row' hrow'
    rw [h] at hrow'
    rcases List.mem_append.mp hrow' with hold | hlast
    · exact .inl ⟨row', hold, .refl row'⟩
    · rw [List.mem_singleton.mp hlast]
      exact .inr ⟨hstatus, hnew⟩

end Evolves

/-! ## §3. Every step. -/

variable {d d' : Desk} {now : Int}

/-- An operation of a worker. -/
theorem serve_evolves (hu : Table.Unique d.rows) {o : Op} {r : Rep o} (h : serve o now d r d') :
    Evolves d d' := by
  cases o with
  | nextInternalTransfer statuses => exact .of_rows_eq hu (h.2 ▸ rfl)
  | now => exact .of_rows_eq hu (h.2 ▸ rfl)
  | prepareSubmission id source target =>
      rcases commit_cases h with ⟨row, -, htx⟩ | ⟨e, -, -, rfl⟩
      · rcases Desk.prepare_ok htx with ⟨-, rfl⟩ | ⟨row, hrow, -, hstatus, -, rfl⟩
        · exact .of_rows_eq hu rfl
        · exact .put hu hrow (.submitted hstatus source target now) rfl
      · exact .of_rows_eq hu rfl
  | recordRemoteId id remoteId =>
      rcases commit_cases h with ⟨row, -, htx⟩ | ⟨e, -, -, rfl⟩
      · obtain ⟨row, hrow, -, hstatus, rfl, rfl⟩ := Desk.record_ok htx
        exact .put hu hrow (.recorded hstatus remoteId now) rfl
      · exact .of_rows_eq hu rfl
  | finalize id status code =>
      rcases commit_cases h with ⟨row, -, htx⟩ | ⟨e, -, -, rfl⟩
      · obtain ⟨hterm, row, hrow, -, ⟨-, -, rfl⟩ | ⟨hopen, rfl, rfl⟩⟩ := Desk.finalize_ok htx
        · exact .of_rows_eq hu rfl
        · exact .put hu hrow (.finalized hopen hterm code now) rfl
      · exact .of_rows_eq hu rfl
  | _ => exact .of_rows_eq hu (h ▸ rfl)

/-- A worker stores no row. -/
theorem serve_old (hu : Table.Unique d.rows) {o : Op} {r : Rep o} (h : serve o now d r d')
    {row' : InternalTransferRow} (hrow' : row' ∈ d'.rows) : ∃ row ∈ d.rows, row.id = row'.id := by
  have hids : d'.rows.map key = d.rows.map key := by
    cases o with
    | nextInternalTransfer statuses => rw [h.2]
    | now => rw [h.2]
    | prepareSubmission id source target =>
        rcases commit_cases h with ⟨row, -, htx⟩ | ⟨e, -, -, rfl⟩
        · rcases Desk.prepare_ok htx with ⟨-, rfl⟩ | ⟨row, -, -, -, -, rfl⟩
          · rfl
          · exact Table.map_key_put
        · rfl
    | recordRemoteId id remoteId =>
        rcases commit_cases h with ⟨row, -, htx⟩ | ⟨e, -, -, rfl⟩
        · obtain ⟨row, -, -, -, -, rfl⟩ := Desk.record_ok htx
          exact Table.map_key_put
        · rfl
    | finalize id status code =>
        rcases commit_cases h with ⟨row, -, htx⟩ | ⟨e, -, -, rfl⟩
        · obtain ⟨-, row, -, -, ⟨-, -, rfl⟩ | ⟨-, -, rfl⟩⟩ := Desk.finalize_ok htx
          · rfl
          · exact Table.map_key_put
        · rfl
    | _ => rw [show d' = d from h]
  have hmem : key row' ∈ d.rows.map key := hids ▸ List.mem_map_of_mem hrow'
  obtain ⟨row, hrow, hk⟩ := List.mem_map.mp hmem
  exact ⟨row, hrow, hk⟩

/-- A row that an operation leaves completed was completed before, or the
operation is the one that completes it. -/
theorem serve_completed (hu : Table.Unique d.rows) {o : Op} {r : Rep o} (h : serve o now d r d')
    {row' : InternalTransferRow} (hrow' : row' ∈ d'.rows) (hdone : row'.status = .completed) :
    row' ∈ d.rows ∨ ∃ row ∈ d.rows, row.status.isTerminal = false
      ∧ ∃ code, o = .finalize row.id .completed code
        ∧ row' = Desk.finalizedRow row .completed code now := by
  cases o with
  | nextInternalTransfer statuses => exact .inl (h.2 ▸ hrow')
  | now => exact .inl (h.2 ▸ hrow')
  -- A submission leaves its row submitting.
  | prepareSubmission id source target =>
      left
      rcases commit_cases h with ⟨row, -, htx⟩ | ⟨e, -, -, rfl⟩
      · rcases Desk.prepare_ok htx with ⟨-, rfl⟩ | ⟨row, hrow, -, -, -, rfl⟩
        · exact hrow'
        · have hkey : key row = key (Desk.submittedRow row source target now) := rfl
          rcases (Table.mem_put_of_unique hu hrow hkey).mp hrow' with rfl | ⟨hold, -⟩
          · cases hdone
          · exact hold
      · exact hrow'
  -- A remote id completes nothing.
  | recordRemoteId id remoteId =>
      left
      rcases commit_cases h with ⟨row, -, htx⟩ | ⟨e, -, -, rfl⟩
      · obtain ⟨row, hrow, -, -, rfl, rfl⟩ := Desk.record_ok htx
        have hkey : key row = key (Desk.recordedRow row remoteId now) := rfl
        rcases (Table.mem_put_of_unique hu hrow hkey).mp hrow' with rfl | ⟨hold, -⟩
        · cases hdone
        · exact hold
      · exact hrow'
  -- The one operation that ends a transfer.
  | finalize id status code =>
      rcases commit_cases h with ⟨row, -, htx⟩ | ⟨e, -, -, rfl⟩
      · obtain ⟨hterm, row, hrow, hid, ⟨-, -, rfl⟩ | ⟨hopen, rfl, rfl⟩⟩ := Desk.finalize_ok htx
        · exact .inl hrow'
        · have hkey : key row = key (Desk.finalizedRow row status code now) := rfl
          rcases (Table.mem_put_of_unique hu hrow hkey).mp hrow' with rfl | ⟨hold, -⟩
          · have hstatus : status = .completed := hdone
            subst hstatus hid
            exact .inr ⟨row, hrow, hopen, code, rfl, rfl⟩
          · exact .inl hold
      · exact .inl hrow'
  | _ => exact .inl ((show d' = d from h) ▸ hrow')

/-- The instant lies in its own day. -/
theorem mem_day (t : Int) : dayStart t ≤ t ∧ t < dayStart t + day := by
  have hnonneg := Int.emod_nonneg t (show day ≠ 0 by decide)
  have hlt := Int.emod_lt_of_pos t (show (0 : Int) < day by decide)
  unfold dayStart
  omega

/-- A new row counts against its own day. -/
theorem usedOn_append {rows : List InternalTransferRow} {row : InternalTransferRow}
    (hstatus : row.status = .planned) :
    usedOn (dayStart row.createdAt) (rows ++ [row])
      = usedOn (dayStart row.createdAt) rows + row.amount := by
  have hcounts : row.countsOn (dayStart row.createdAt) := by
    obtain ⟨hle, hlt⟩ := mem_day row.createdAt
    exact ⟨hle, hlt, by rw [hstatus]; nofun⟩
  unfold usedOn
  rw [List.filter_append, List.map_append, List.sum_append]
  simp [hcounts]

/-- Another actor leaves the rows alone, or stores a planned one, which fits the
limits in force, as the day does on which it is created. -/
theorem Act.apply_cases (a : Act) (d : Desk) :
    (a.apply d).rows = d.rows
      ∨ ∃ row, row.status = .planned ∧ (∀ old ∈ d.rows, old.id ≠ row.id)
        ∧ (a.apply d).rows = d.rows ++ [row]
        ∧ ∃ limits ∈ (a.apply d).limits, (∀ stored ∈ d.limits, limits = stored)
          ∧ row.amount ≤ limits.perRequestLimit
          ∧ usedOn (dayStart row.createdAt) (a.apply d).rows ≤ limits.dailyLimit := by
  cases a with
  | plan q observedAt =>
      rcases commit_cases (Prod.mk.eta (p := commit (Desk.planInternalTransfer q observedAt) d)).symm with
        ⟨⟨row, created⟩, -, htx⟩ | ⟨e, -, -, hd⟩
      · rcases Desk.planInternalTransfer_ok htx with
          ⟨-, -, hd⟩ | ⟨-, hstatus, hat, -, hnew, limits, hd, hstored, hper, hday⟩
        · exact .inl (congrArg Desk.rows hd)
        · rw [show (Act.plan q observedAt).apply d = _ from hd]
          refine .inr ⟨row, hstatus, hnew, rfl, limits, rfl, hstored, hper, ?_⟩
          rw [usedOn_append hstatus, hat]
          exact hday
      · exact .inl (congrArg Desk.rows hd)
  | saveLimits p q =>
      rcases commit_cases (Prod.mk.eta (p := commit (Desk.saveTransferLimits p q) d)).symm with
        ⟨value, -, htx⟩ | ⟨e, -, -, hd⟩
      · rw [show (Act.saveLimits p q).apply d = _ from Desk.saveTransferLimits_ok htx]
        exact .inl rfl
      · exact .inl (congrArg Desk.rows hd)

/-- A step of another actor. -/
theorem Act.apply_evolves (hu : Table.Unique d.rows) (a : Act) : Evolves d (a.apply d) := by
  rcases a.apply_cases d with h | ⟨row, hstatus, hnew, h, -⟩
  · exact .of_rows_eq hu h
  · exact .append hu hstatus hnew h

end BasisHawk.Transfers
