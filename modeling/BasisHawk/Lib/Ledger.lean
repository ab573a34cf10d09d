/-
  BasisHawk.Lib.Ledger
  ────────────────────
  A ledger of keyed entries into which batches are recorded.

  An entry whose key is new is appended; one whose key is known must be the
  entry that is there, and is passed over.  What a batch says of its own total
  and what the ledger comes to are two numbers.

  Main results:
    • `Records.mem_iff`, `Records.keys_nodup` — a recording is the union,
    • `Records.perm` — the order and grouping of batches do not matter,
    • `Records.total` — the ledger's total, by what the batch leaves out and
      what it repeats.
-/
import Mathlib.Algebra.BigOperators.Group.List.Basic
import Mathlib.Algebra.Order.BigOperators.Group.List
import Mathlib.Algebra.Group.Basic
import Mathlib.Data.List.Nodup
import Mathlib.Data.List.Perm.Lattice
import Mathlib.Tactic.Abel

namespace BasisHawk.Lib

variable {κ β M : Type}

/-- Recording the entries of a batch one by one leads from one ledger to the
other. -/
inductive Records : List (κ × β) → List (κ × β) → List (κ × β) → Prop where
  | nil {rows} : Records rows [] rows
  | known {rows items rows' x} (mem : x ∈ rows) (rest : Records rows items rows') :
      Records rows (x :: items) rows'
  | fresh {rows items rows' x} (new : x.1 ∉ rows.map Prod.fst)
      (rest : Records (rows ++ [x]) items rows') : Records rows (x :: items) rows'

namespace Records

variable {rows rows' rows'' items items' : List (κ × β)}

/-! ## §1. What is recorded. -/

/-- Two batches, one after the other. -/
theorem append (h : Records rows items rows') (h' : Records rows' items' rows'') :
    Records rows (items ++ items') rows'' := by
  induction h with
  | nil => exact h'
  | known mem _ ih => exact .known mem (ih h')
  | fresh new _ ih => exact .fresh new (ih h')

/-- Nothing but the batch is added, and nothing is lost. -/
theorem mem_iff (h : Records rows items rows') {r : κ × β} : r ∈ rows' ↔ r ∈ rows ∨ r ∈ items := by
  induction h with
  | nil => simp only [List.not_mem_nil, or_false]
  | known mem _ ih =>
      rw [ih, List.mem_cons]
      constructor
      · rintro (hr | hr)
        · exact .inl hr
        · exact .inr (.inr hr)
      · rintro (hr | rfl | hr)
        · exact .inl hr
        · exact .inl mem
        · exact .inr hr
  | fresh _ _ ih =>
      rw [ih, List.mem_append, List.mem_singleton, List.mem_cons, or_assoc]

/-- Keys stay unique. -/
theorem keys_nodup (h : Records rows items rows') (hrows : (rows.map Prod.fst).Nodup) :
    (rows'.map Prod.fst).Nodup := by
  induction h with
  | nil => exact hrows
  | known _ _ ih => exact ih hrows
  | fresh new _ ih =>
      refine ih ?_
      rw [List.map_append, List.nodup_append]
      refine ⟨hrows, List.nodup_singleton _, fun k hk k' hk' heq => ?_⟩
      rw [List.map_singleton, List.mem_singleton] at hk'
      exact new (hk' ▸ heq ▸ hk)

/-- Recordings of the same entries agree, whatever their order, grouping and
repetitions. -/
theorem perm (hrows : (rows.map Prod.fst).Nodup) (h : Records rows items rows')
    (h' : Records rows items' rows'') (hitems : ∀ x, x ∈ items ↔ x ∈ items') :
    rows'.Perm rows'' := by
  refine (List.perm_ext_iff_of_nodup (h.keys_nodup hrows).of_map (h'.keys_nodup hrows).of_map).mpr
    fun r => ?_
  rw [h.mem_iff, h'.mem_iff, hitems r]

/-- More entries lead to a ledger that has all of the other one. -/
theorem subperm (hrows : (rows.map Prod.fst).Nodup) (h : Records rows items rows')
    (h' : Records rows items' rows'') (hitems : ∀ x ∈ items, x ∈ items') :
    rows'.Subperm rows'' := by
  refine List.subperm_of_subset (h.keys_nodup hrows).of_map fun r hr => ?_
  rw [h'.mem_iff]
  exact (h.mem_iff.mp hr).imp id (hitems r)

/-! ## §2. What it comes to. -/

variable [AddCommGroup M]

/-- The total of some entries. -/
def total (amount : β → M) (rows : List (κ × β)) : M := (rows.map fun r => amount r.2).sum

theorem total_append (amount : β → M) (rows rows' : List (κ × β)) :
    total amount (rows ++ rows') = total amount rows + total amount rows' := by
  unfold total
  rw [List.map_append, List.sum_append]

variable [DecidableEq κ]

/-- What the ledger holds under keys that the batch leaves out. -/
def omitted (amount : β → M) (rows items : List (κ × β)) : M :=
  total amount (rows.filter fun r => r.1 ∉ items.map Prod.fst)

/-- What the batch says again of keys it has said already. -/
def repeated (amount : β → M) : List (κ × β) → M
  | [] => 0
  | x :: items => (if x.1 ∈ items.map Prod.fst then amount x.2 else 0) + repeated amount items

/-- The entries under the keys that the batch leaves out, one at a time. -/
theorem omitted_cons (amount : β → M) (r : κ × β) (rows items : List (κ × β)) :
    omitted amount (r :: rows) items
      = (if r.1 ∈ items.map Prod.fst then 0 else amount r.2) + omitted amount rows items := by
  unfold omitted total
  by_cases hr : r.1 ∈ items.map Prod.fst
  · rw [if_pos hr, List.filter_cons_of_neg (by simpa using hr), zero_add]
  · rw [if_neg hr, List.filter_cons_of_pos (by simpa using hr), List.map_cons, List.sum_cons]

theorem omitted_nil (amount : β → M) (rows : List (κ × β)) :
    omitted amount rows [] = total amount rows := by
  unfold omitted
  rw [List.filter_eq_self.mpr fun r _ => by simp]

/-- A key that the batch says more than once is left out by none of it. -/
theorem omitted_of_repeated (amount : β → M) {x : κ × β} (hx : x.1 ∈ items.map Prod.fst) :
    omitted amount rows (x :: items) = omitted amount rows items := by
  induction rows with
  | nil => rfl
  | cons r rows ih =>
      have hiff : r.1 ∈ (x :: items).map Prod.fst ↔ r.1 ∈ items.map Prod.fst := by
        rw [List.map_cons, List.mem_cons]
        exact ⟨fun h => h.elim (fun h => h ▸ hx) id, .inr⟩
      rw [omitted_cons, omitted_cons, ih, if_congr hiff rfl rfl]

/-- An entry whose key the ledger does not hold leaves nothing out. -/
theorem omitted_of_new (amount : β → M) {x : κ × β} (hnew : x.1 ∉ rows.map Prod.fst) :
    omitted amount rows (x :: items) = omitted amount rows items := by
  induction rows with
  | nil => rfl
  | cons r rows ih =>
      rw [List.map_cons, List.mem_cons, not_or] at hnew
      have hiff : r.1 ∈ (x :: items).map Prod.fst ↔ r.1 ∈ items.map Prod.fst := by
        rw [List.map_cons, List.mem_cons]
        exact ⟨fun h => h.elim (fun h => absurd h.symm hnew.1) id, .inr⟩
      rw [omitted_cons, omitted_cons, ih hnew.2, if_congr hiff rfl rfl]

/-- A known entry that the rest of the batch does not say again. -/
theorem omitted_of_mem (amount : β → M) (hrows : (rows.map Prod.fst).Nodup) {x : κ × β}
    (hx : x ∈ rows) (hnot : x.1 ∉ items.map Prod.fst) :
    omitted amount rows items = amount x.2 + omitted amount rows (x :: items) := by
  induction rows with
  | nil => cases hx
  | cons r rows ih =>
      rw [List.map_cons, List.nodup_cons] at hrows
      rw [omitted_cons, omitted_cons]
      rcases List.mem_cons.mp hx with rfl | hx
      · rw [if_neg hnot, if_pos (List.mem_map_of_mem List.mem_cons_self), omitted_of_new amount hrows.1,
          zero_add]
      · have hne : r.1 ≠ x.1 := fun h => hrows.1 (h ▸ List.mem_map_of_mem hx)
        have hiff : r.1 ∈ (x :: items).map Prod.fst ↔ r.1 ∈ items.map Prod.fst := by
          rw [List.map_cons, List.mem_cons]
          exact ⟨fun h => h.elim (fun h => absurd h hne) id, .inr⟩
        rw [ih hrows.2 hx, if_congr hiff rfl rfl]
        abel

theorem omitted_append (amount : β → M) (rows rows' items : List (κ × β)) :
    omitted amount (rows ++ rows') items = omitted amount rows items + omitted amount rows' items := by
  unfold omitted
  rw [List.filter_append, total_append]

/-- What the ledger comes to: what the batch leaves out and what it says, each
entry once. -/
theorem total_add_repeated (amount : β → M) (h : Records rows items rows')
    (hrows : (rows.map Prod.fst).Nodup) :
    total amount rows' + repeated amount items = omitted amount rows items + total amount items := by
  induction h with
  | nil =>
      rw [omitted_nil]
      rfl
  | @known rows items rows' x mem _ ih =>
      have ih := ih hrows
      show _ + ((if _ then _ else _) + _) = _ + (_ + total amount items)
      by_cases hx : x.1 ∈ items.map Prod.fst
      · rw [if_pos hx, omitted_of_repeated amount hx, add_left_comm, ih]
        abel
      · rw [if_neg hx, zero_add, ih, omitted_of_mem amount hrows mem hx]
        abel
  | @fresh rows items rows' x new rest ih =>
      have hrows' : ((rows ++ [x]).map Prod.fst).Nodup :=
        (Records.fresh new .nil : Records rows [x] (rows ++ [x])).keys_nodup hrows
      have ih := ih hrows'
      rw [omitted_append, omitted_cons, show omitted amount [] items = 0 from rfl, add_zero] at ih
      show _ + ((if _ then _ else _) + _) = _ + (_ + total amount items)
      rw [omitted_of_new amount new, add_left_comm, ih]
      by_cases hx : x.1 ∈ items.map Prod.fst
      · rw [if_pos hx, if_pos hx]
        abel
      · rw [if_neg hx, if_neg hx]
        abel

/-- The ledger comes to the batch's own total exactly if what the batch leaves
out is what it repeats. -/
theorem total_eq_iff (amount : β → M) (h : Records rows items rows')
    (hrows : (rows.map Prod.fst).Nodup) :
    total amount rows' = total amount items ↔ omitted amount rows items = repeated amount items := by
  have hsum := total_add_repeated amount h hrows
  constructor
  · intro heq
    rw [heq, add_comm] at hsum
    exact (add_right_cancel hsum).symm
  · intro heq
    rw [heq, add_comm] at hsum
    exact add_left_cancel hsum

end Records

/-- A ledger that has all of the other one comes to no less, if no entry counts
below zero. -/
theorem Records.total_le [AddCommGroup M] [PartialOrder M] [IsOrderedAddMonoid M]
    {amount : β → M} {rows rows' : List (κ × β)} (h : rows.Subperm rows')
    (hpos : ∀ r ∈ rows', 0 ≤ amount r.2) : total amount rows ≤ total amount rows' := by
  obtain ⟨part, hperm, hsub⟩ := h
  unfold total
  rw [← (hperm.map fun r => amount r.2).sum_eq]
  refine (hsub.map fun r => amount r.2).sum_le_sum fun q hq => ?_
  obtain ⟨r, hr, rfl⟩ := List.mem_map.mp hq
  exact hpos r hr

end BasisHawk.Lib
