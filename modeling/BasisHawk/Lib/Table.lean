/-
  BasisHawk.Lib.Table
  ───────────────────
  A database table as the list of its rows in insertion order, each row under
  a numeric key.

  Main results:
    • `mem_put` — what the replacement of one row leaves in the table,
    • `find?_eq_some_iff` — with unique keys, a lookup finds exactly the row,
    • `Unique.append` — fresh keys keep keys unique,
    • `sum_put` — a sum over the rows changes by the row's own term,
    • `sum_join` — how often a row counts in the totals of a join.
-/
import Mathlib.Algebra.BigOperators.Group.List.Basic
import Mathlib.Algebra.Group.Basic
import Mathlib.Data.List.Nodup
import Mathlib.Tactic.Abel

namespace BasisHawk.Lib

/-- Rows are addressed by a numeric primary key. -/
class Keyed (ρ : Type) where
  key : ρ → Nat

export Keyed (key)

namespace Table

variable {ρ : Type} [Keyed ρ]

/-- The row under a key. -/
def find? (rows : List ρ) (id : Nat) : Option ρ :=
  rows.find? (fun r => key r == id)

/-- Replace the row under the key of `r`. -/
def put (rows : List ρ) (r : ρ) : List ρ :=
  rows.map (fun old => if key old = key r then r else old)

/-- The primary key is unique. -/
def Unique (rows : List ρ) : Prop := (rows.map key).Nodup

/-- Every key was handed out before `bound`. -/
def KeysBelow (rows : List ρ) (bound : Nat) : Prop := ∀ r ∈ rows, key r < bound

/-! ## §1. Lookup. -/

/-- What is found under a key is a row of the table with that key. -/
theorem find?_some {rows : List ρ} {id : Nat} {r : ρ} (h : find? rows id = some r) :
    r ∈ rows ∧ key r = id := by
  refine ⟨List.mem_of_find?_eq_some h, ?_⟩
  simpa using List.find?_some h

/-- Two rows of one key are one row. -/
theorem Unique.eq {rows : List ρ} (hu : Unique rows) {r r' : ρ} (hr : r ∈ rows)
    (hr' : r' ∈ rows) (hk : key r = key r') : r = r' :=
  List.inj_on_of_nodup_map hu hr hr' hk

/-- In a table of distinct keys, every row is what its key finds. -/
theorem find?_eq_some_iff {rows : List ρ} (hu : Unique rows) {id : Nat} {r : ρ} :
    find? rows id = some r ↔ r ∈ rows ∧ key r = id := by
  refine ⟨find?_some, fun ⟨hr, hk⟩ => ?_⟩
  cases h : find? rows id with
  | none =>
      have := List.find?_eq_none.mp h r hr
      exact absurd hk (by simpa using this)
  | some r' =>
      obtain ⟨hr', hk'⟩ := find?_some h
      rw [hu.eq hr' hr (hk'.trans hk.symm)]

/-! ## §2. Update. -/

/-- The rows after a row was replaced: the new one, if its key was there, and
those with other keys. -/
theorem mem_put {rows : List ρ} {new r : ρ} :
    r ∈ put rows new ↔
      (r = new ∧ ∃ old ∈ rows, key old = key new) ∨ (r ∈ rows ∧ key r ≠ key new) := by
  simp only [put, List.mem_map]
  constructor
  · rintro ⟨old, hold, rfl⟩
    split
    · next hk => exact .inl ⟨rfl, old, hold, hk⟩
    · next hk => exact .inr ⟨hold, hk⟩
  · rintro (⟨rfl, old, hold, hk⟩ | ⟨hr, hk⟩)
    · exact ⟨old, hold, if_pos hk⟩
    · exact ⟨r, hr, if_neg hk⟩

/-- A column that the new row shares with the old one does not change. -/
theorem map_put {β : Type} {g : ρ → β} {rows : List ρ} {new : ρ}
    (h : ∀ old ∈ rows, key old = key new → g old = g new) :
    (put rows new).map g = rows.map g := by
  simp only [put, List.map_map]
  refine List.map_congr_left fun r hr => ?_
  show g (if key r = key new then new else r) = g r
  split
  · next hk => exact (h r hr hk).symm
  · rfl

/-- So does such a column of a selection that takes the new row as it took the
old one. -/
theorem map_filter_put {β : Type} {g : ρ → β} {p : ρ → Prop} [DecidablePred p] {rows : List ρ}
    {new : ρ} (h : ∀ old ∈ rows, key old = key new → (p new ↔ p old) ∧ g new = g old) :
    ((put rows new).filter fun r => p r).map g = (rows.filter fun r => p r).map g := by
  unfold put
  rw [List.filter_map, List.map_map]
  have hfilter : rows.filter ((fun r => decide (p r))
      ∘ fun old => if key old = key new then new else old) = rows.filter fun r => p r := by
    refine List.filter_congr fun r hr => ?_
    show decide (p (if key r = key new then new else r)) = decide (p r)
    split
    · next hk => exact decide_eq_decide.mpr (h r hr hk).1
    · rfl
  rw [hfilter]
  refine List.map_congr_left fun r hr => ?_
  show g (if key r = key new then new else r) = g r
  split
  · next hk => exact (h r (List.mem_of_mem_filter hr) hk).2
  · rfl

/-- Replacing a row keeps the keys in place. -/
theorem map_key_put {rows : List ρ} {new : ρ} : (put rows new).map key = rows.map key :=
  map_put fun _ _ hk => hk

/-- Of two replacements under one key the later one stands. -/
theorem put_put {rows : List ρ} {new later : ρ} (hk : key new = key later) :
    put (put rows new) later = put rows later := by
  unfold put
  rw [List.map_map]
  refine List.map_congr_left fun r _ => ?_
  show (if key (if key r = key new then new else r) = key later then later
    else if key r = key new then new else r) = if key r = key later then later else r
  by_cases hr : key r = key new
  · rw [if_pos hr, if_pos hk, if_pos (hr.trans hk)]
  · have hne : key r ≠ key later := fun h => hr (h.trans hk.symm)
    rw [if_neg hr, if_neg hne]

/-- So distinct keys stay distinct. -/
theorem Unique.put {rows : List ρ} (hu : Unique rows) (new : ρ) : Unique (Table.put rows new) := by
  unfold Unique
  rw [map_key_put]
  exact hu

theorem KeysBelow.put {rows : List ρ} {n : Nat} (hb : KeysBelow rows n) (new : ρ) :
    KeysBelow (Table.put rows new) n := by
  intro r hr
  rcases mem_put.mp hr with ⟨rfl, old, hold, hk⟩ | ⟨hr, -⟩
  · rw [← hk]
    exact hb old hold
  · exact hb r hr

/-- The old row, where it has the key, is gone; the others stay. -/
theorem mem_put_of_unique {rows : List ρ} (hu : Unique rows) {old new r : ρ} (hold : old ∈ rows)
    (hk : key old = key new) : r ∈ put rows new ↔ r = new ∨ (r ∈ rows ∧ r ≠ old) := by
  rw [mem_put]
  constructor
  · rintro (⟨rfl, -⟩ | ⟨hr, hne⟩)
    · exact .inl rfl
    · exact .inr ⟨hr, fun h => hne (h ▸ hk)⟩
  · rintro (rfl | ⟨hr, hne⟩)
    · exact .inl ⟨rfl, old, hold, hk⟩
    · exact .inr ⟨hr, fun h => hne (hu.eq hr hold (h.trans hk.symm))⟩

/-- A property of every row survives a replacement by a row that has it. -/
theorem forall_put {rows : List ρ} {new : ρ} {P : ρ → Prop} (h : ∀ r ∈ rows, P r)
    (hnew : P new) : ∀ r ∈ put rows new, P r := by
  intro r hr
  rcases mem_put.mp hr with ⟨rfl, -⟩ | ⟨hr, -⟩
  · exact hnew
  · exact h r hr

/-- Other keys find what they found before. -/
theorem find?_put_of_ne {rows : List ρ} {new : ρ} {id : Nat} (hid : id ≠ key new) :
    find? (put rows new) id = find? rows id := by
  unfold find? put
  induction rows with
  | nil => rfl
  | cons r rest ih =>
      simp only [List.map_cons, List.find?_cons]
      by_cases hk : key r = key new
      · have hne : (key new == id) = false := by simpa using fun h => hid h.symm
        rw [if_pos hk, hne, hk, hne]
        exact ih
      · rw [if_neg hk, ih]

/-- And the key of the new row finds it. -/
theorem find?_put_self {rows : List ρ} {new : ρ} (h : ∃ old ∈ rows, key old = key new) :
    find? (put rows new) (key new) = some new := by
  obtain ⟨old, hold, hk⟩ := h
  cases hf : find? (put rows new) (key new) with
  | none =>
      have hmem := mem_put.mpr (.inl ⟨rfl, old, hold, hk⟩ : new = new ∧ _ ∨ _)
      exact absurd (beq_self_eq_true (key new)) (List.find?_eq_none.mp hf new hmem)
  | some r =>
      obtain ⟨hr, hkr⟩ := find?_some hf
      rcases mem_put.mp hr with ⟨rfl, -⟩ | ⟨-, hne⟩
      · rfl
      · exact absurd hkr hne

/-! ## §3. Insertion. -/

/-- New rows at the end do not hide those that are there. -/
theorem find?_append_of_some {rows new : List ρ} {id : Nat} {r : ρ}
    (h : find? rows id = some r) : find? (rows ++ new) id = some r := by
  unfold find? at h ⊢
  rw [List.find?_append, h]
  rfl

theorem KeysBelow.mono {rows : List ρ} {n m : Nat} (h : KeysBelow rows n) (hm : n ≤ m) :
    KeysBelow rows m :=
  fun r hr => Nat.lt_of_lt_of_le (h r hr) hm

/-- A block of new rows moves the bound of the keys up. -/
theorem KeysBelow.appendAll {rows new : List ρ} {n m : Nat} (h : KeysBelow rows n) (hm : n ≤ m)
    (hnew : KeysBelow new m) : KeysBelow (rows ++ new) m := by
  intro r hr
  rcases List.mem_append.mp hr with h' | h'
  · exact h.mono hm r h'
  · exact hnew r h'

theorem KeysBelow.append {rows : List ρ} {n m : Nat} (h : KeysBelow rows n) (hm : n ≤ m) {r : ρ}
    (hr : key r < m) : KeysBelow (rows ++ [r]) m :=
  h.appendAll hm fun _ hr' => (List.mem_singleton.mp hr') ▸ hr

/-- New rows whose keys start at the bound keep the keys distinct. -/
theorem Unique.appendAll {rows new : List ρ} {n : Nat} (hu : Unique rows) (hb : KeysBelow rows n)
    (hnew : Unique new) (hge : ∀ r ∈ new, n ≤ key r) : Unique (rows ++ new) := by
  unfold Unique
  rw [List.map_append, List.nodup_append]
  refine ⟨hu, hnew, fun a ha b hmem hab => ?_⟩
  obtain ⟨r, hr, rfl⟩ := List.mem_map.mp ha
  obtain ⟨r', hr', rfl⟩ := List.mem_map.mp hmem
  have hlt := hb r hr
  have hle := hge r' hr'
  omega

theorem Unique.append {rows : List ρ} {n : Nat} (hu : Unique rows) (hb : KeysBelow rows n)
    {r : ρ} (hr : n ≤ key r) : Unique (rows ++ [r]) :=
  hu.appendAll hb (List.nodup_singleton _) fun _ hr' => (List.mem_singleton.mp hr') ▸ hr

/-- Rows numbered consecutively have different keys. -/
theorem unique_mapIdx {α : Type} {f : Nat → α → ρ} {n : Nat} (xs : List α)
    (hf : ∀ i a, key (f i a) = n + i) : Unique (xs.mapIdx f) := by
  have hkeys : (xs.mapIdx f).map key = (List.range xs.length).map (n + ·) := by
    refine List.ext_getElem (by simp) fun i hi hi' => ?_
    simp [hf]
  unfold Unique
  rw [hkeys]
  exact List.nodup_range.map fun a b h => Nat.add_left_cancel h

/-! ## §4. Sums over the rows. -/

/-- A sum over some of the rows as a sum over all of them. -/
theorem sum_filter {α M : Type} [AddMonoid M] (p : α → Bool) (g : α → M) (rows : List α) :
    ((rows.filter p).map g).sum = (rows.map fun r => if p r then g r else 0).sum := by
  induction rows with
  | nil => rfl
  | cons r rest ih =>
      by_cases hp : p r
      · rw [List.filter_cons_of_pos hp, List.map_cons, List.map_cons, List.sum_cons,
          List.sum_cons, ih, if_pos hp]
      · rw [List.filter_cons_of_neg hp, List.map_cons, List.sum_cons, ih, if_neg hp, zero_add]

/-- With unique keys, a replacement changes a sum over the rows by the
difference of the two rows' terms. -/
theorem sum_put {M : Type} [AddCommGroup M] (g : ρ → M) {rows : List ρ} (hu : Unique rows)
    {old new : ρ} (hold : old ∈ rows) (hk : key old = key new) :
    ((put rows new).map g).sum = (rows.map g).sum - g old + g new := by
  induction rows with
  | nil => exact absurd hold List.not_mem_nil
  | cons a rest ih =>
      have hu' : Unique rest := (List.nodup_cons.mp hu).2
      have hnot : key a ∉ rest.map key := (List.nodup_cons.mp hu).1
      show ((List.map _ (a :: rest)).map g).sum = _
      rw [List.map_cons, List.map_cons, List.sum_cons, List.map_cons, List.sum_cons]
      by_cases ha : key a = key new
      · have hrest : put rest new = rest := by
          refine (List.map_congr_left fun b hb => if_neg fun hb' => ?_).trans (List.map_id rest)
          exact hnot (List.mem_map.mpr ⟨b, hb, hb'.trans ha.symm⟩)
        have haold : old = a := hu.eq hold List.mem_cons_self (hk.trans ha.symm)
        rw [if_pos ha, haold]
        rw [show rest.map (fun r => if key r = key new then new else r) = rest from hrest]
        abel
      · have hmem : old ∈ rest := by
          rcases List.mem_cons.mp hold with h | h
          · exact absurd (h ▸ hk) ha
          · exact h
        have := ih hu' hmem
        unfold put at this
        rw [if_neg ha, this]
        abel

/-! ## §5. Joins. -/

section Join

variable {α β M : Type} (rel : α → β → Prop) [∀ a b, Decidable (rel a b)]

/-- The totals of the rows of one table over the rows of another they are joined
with, added up: every row of the second counts once for each of its partners. -/
theorem sum_join [AddCommMonoid M] (g : β → M) (xs : List α) (ys : List β) :
    (xs.map fun a => ((ys.filter (rel a)).map g).sum).sum
      = (ys.map fun b => xs.countP (rel · b) • g b).sum := by
  induction xs with
  | nil => simp
  | cons a rest ih =>
      rw [List.map_cons, List.sum_cons, ih, sum_filter]
      rw [← List.sum_map_add]
      refine congrArg List.sum (List.map_congr_left fun b _ => ?_)
      rw [List.countP_cons]
      by_cases h : rel a b
      · rw [if_pos (by simpa using h), if_pos (by simpa using h), add_nsmul, one_nsmul, add_comm]
      · rw [if_neg (by simpa using h), if_neg (by simpa using h), zero_add, add_zero]

/-- At most one row is selected exactly if no two rows of the list are. -/
theorem countP_le_one_iff (p : α → Prop) [DecidablePred p] (xs : List α) :
    xs.countP p ≤ 1 ↔ xs.Pairwise fun a b => ¬(p a ∧ p b) := by
  induction xs with
  | nil => simp
  | cons a rest ih =>
      rw [List.pairwise_cons, List.countP_cons]
      by_cases h : p a
      · rw [if_pos (by simpa using h)]
        have hzero : rest.countP p + 1 ≤ 1 ↔ ∀ b ∈ rest, ¬(p a ∧ p b) := by
          rw [show rest.countP p + 1 ≤ 1 ↔ rest.countP p = 0 by omega, List.countP_eq_zero]
          simp [h]
        refine hzero.trans ⟨fun hb => ⟨hb, ?_⟩, And.left⟩
        exact List.Pairwise.imp_of_mem (fun {b c} hbm _ _ hbc => hb b hbm ⟨h, hbc.1⟩)
          (List.pairwise_of_forall fun _ _ => trivial : rest.Pairwise fun _ _ => True)
      · rw [if_neg (by simpa using h), Nat.add_zero, ih]
        exact ⟨fun hr => ⟨fun b _ hab => h hab.1, hr⟩, And.right⟩

end Join

end Table

end BasisHawk.Lib
