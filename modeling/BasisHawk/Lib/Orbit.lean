/-
  BasisHawk.Lib.Orbit
  ───────────────────
  Following a pointer until it stops.

  A function is applied again and again to where it started from.  The walk
  ends at the first point with a given property; it may also come back to where
  it has been, and then it never ends.

  Main results:
    • `walk_eq_some` — what a walk that ends has visited,
    • `nodup_of_stopsAt` — a walk that ends visits no point twice,
    • `exists_repeat` — with finitely many points to go to, some point comes
      twice.
-/
import Mathlib.Data.Set.Finite.Basic
import Mathlib.Data.Fintype.Pigeonhole
import Mathlib.Logic.Function.Iterate

namespace BasisHawk.Lib

section Orbit

variable {α : Type*} {next : α → α} {stop : α → Prop} {x : α}

/-! ## §1. Walks. -/

/-- The points up to the first that stops, where `fuel` points are enough. -/
def walk (next : α → α) (stop : α → Prop) [DecidablePred stop] : Nat → α → Option (List α)
  | 0, _ => none
  | fuel + 1, x => if stop x then some [x] else (walk next stop fuel (next x)).map (x :: ·)

/-- The points up to the `i`-th. -/
def trail (next : α → α) (x : α) (i : Nat) : List α := (List.range (i + 1)).map fun j => next^[j] x

/-- The walk stops first at the `i`-th point. -/
def StopsAt (next : α → α) (stop : α → Prop) (x : α) (i : Nat) : Prop :=
  stop (next^[i] x) ∧ ∀ j < i, ¬stop (next^[j] x)

theorem trail_zero : trail next x 0 = [x] := rfl

/-- The trail unfolds at its first element. -/
theorem trail_succ (i : Nat) : trail next x (i + 1) = x :: trail next (next x) i := by
  unfold trail
  rw [List.range_succ_eq_map, List.map_cons, List.map_map]
  rfl

/-- Stopping at once is a property of the start alone. -/
theorem stopsAt_zero : StopsAt next stop x 0 ↔ stop x := by
  constructor
  · intro h
    exact h.1
  · intro h
    exact ⟨h, fun j hj => absurd hj (by omega)⟩

/-- Stopping later is going on here and stopping from the next element on: the
case split of the induction over the steps. -/
theorem stopsAt_succ (i : Nat) :
    StopsAt next stop x (i + 1) ↔ ¬stop x ∧ StopsAt next stop (next x) i := by
  constructor
  · intro h
    refine ⟨h.2 0 (by omega), h.1, fun j hj => ?_⟩
    exact h.2 (j + 1) (by omega)
  · rintro ⟨hx, hstop, hfirst⟩
    refine ⟨hstop, fun j hj => ?_⟩
    cases j with
    | zero => exact hx
    | succ j => exact hfirst j (by omega)

/-- The trail lists the iterates up to its length. -/
theorem mem_trail {i : Nat} {y : α} : y ∈ trail next x i ↔ ∃ j ≤ i, next^[j] x = y := by
  unfold trail
  rw [List.mem_map]
  constructor
  · rintro ⟨j, hj, rfl⟩
    exact ⟨j, by have := List.mem_range.mp hj; omega, rfl⟩
  · rintro ⟨j, hj, rfl⟩
    exact ⟨j, List.mem_range.mpr (by omega), rfl⟩

theorem head_trail (i : Nat) : (trail next x i).head? = some x := by
  cases i with
  | zero => rfl
  | succ i =>
      rw [trail_succ]
      rfl

/-- What holds between a point and the next where the walk goes on holds along
the trail. -/
theorem chain_trail {R : α → α → Prop} {i : Nat} (hR : ∀ y, ¬stop y → R y (next y))
    (h : StopsAt next stop x i) : (trail next x i).IsChain R := by
  induction i generalizing x with
  | zero => exact List.isChain_singleton x
  | succ i ih =>
      obtain ⟨hx, hrest⟩ := (stopsAt_succ i).mp h
      rw [trail_succ, List.isChain_cons]
      refine ⟨fun y hy => ?_, ih hrest⟩
      rw [head_trail] at hy
      cases hy
      exact hR x hx

/-- A walk with fuel for the point it stops at is the trail to that point. -/
theorem walk_eq_some [DecidablePred stop] {i fuel : Nat} (hfuel : i < fuel)
    (h : StopsAt next stop x i) : walk next stop fuel x = some (trail next x i) := by
  induction i generalizing x fuel with
  | zero =>
      obtain ⟨fuel, rfl⟩ : ∃ f, fuel = f + 1 := ⟨fuel - 1, by omega⟩
      unfold walk
      rw [if_pos (stopsAt_zero.mp h), trail_zero]
  | succ i ih =>
      obtain ⟨fuel, rfl⟩ : ∃ f, fuel = f + 1 := ⟨fuel - 1, by omega⟩
      obtain ⟨hx, hrest⟩ := (stopsAt_succ i).mp h
      unfold walk
      rw [if_neg hx, ih (by omega) hrest, trail_succ]
      rfl

/-- A walk that ends has stopped. -/
theorem stopsAt_of_walk [DecidablePred stop] {fuel : Nat} {l : List α}
    (h : walk next stop fuel x = some l) : ∃ i, StopsAt next stop x i := by
  induction fuel generalizing x l with
  | zero => cases h
  | succ fuel ih =>
      by_cases hx : stop x
      · exact ⟨0, stopsAt_zero.mpr hx⟩
      · unfold walk at h
        rw [if_neg hx] at h
        obtain ⟨rest, hrest, -⟩ := Option.map_eq_some_iff.mp h
        obtain ⟨i, hi⟩ := ih hrest
        exact ⟨i + 1, (stopsAt_succ i).mpr ⟨hx, hi⟩⟩

/-- A walk that meets a stop stops at the first one it meets. -/
theorem exists_stopsAt [DecidablePred stop] (h : ∃ i, stop (next^[i] x)) :
    ∃ i, StopsAt next stop x i :=
  ⟨Nat.find h, Nat.find_spec h, fun _ hj => Nat.find_min h hj⟩

/-! ## §2. Repetition. -/

/-- Before it stops a walk does not come back: it would have stopped there. -/
theorem ne_of_stopsAt {i j k : Nat} (h : StopsAt next stop x i) (hjk : j < k) (hk : k ≤ i) :
    next^[j] x ≠ next^[k] x := by
  intro heq
  have hback : next^[i] x = next^[j + (i - k)] x := by
    have hi : i = (i - k) + k := by omega
    conv_lhs => rw [hi]
    rw [Function.iterate_add_apply, ← heq, ← Function.iterate_add_apply, Nat.add_comm]
  exact h.2 (j + (i - k)) (by omega) (hback ▸ h.1)

/-- Up to the first stop no element comes twice: a repetition would go round for
ever. -/
theorem nodup_of_stopsAt {i : Nat} (h : StopsAt next stop x i) : (trail next x i).Nodup := by
  refine List.Nodup.map_on ?_ List.nodup_range
  intro j hj k hk heq
  have hj := List.mem_range.mp hj
  have hk := List.mem_range.mp hk
  by_contra hne
  rcases Nat.lt_or_gt_of_ne hne with hlt | hlt
  · exact ne_of_stopsAt h hlt (by omega) heq
  · exact ne_of_stopsAt h hlt (by omega) heq.symm

/-- With finitely many points to go to, a point comes twice. -/
theorem exists_repeat (hfinite : (Set.range next).Finite) (x : α) :
    ∃ j k, j < k ∧ next^[j] x = next^[k] x := by
  have : Finite (Set.range next) := hfinite
  let point : Nat → Set.range next := fun i => ⟨next^[i + 1] x, next^[i] x, by
    rw [← Function.iterate_succ_apply' next i x]⟩
  obtain ⟨i, j, hne, heq⟩ := Finite.exists_ne_map_eq_of_infinite point
  have heq : next^[i + 1] x = next^[j + 1] x := congrArg Subtype.val heq
  rcases Nat.lt_or_gt_of_ne hne with hlt | hlt
  · exact ⟨i + 1, j + 1, by omega, heq⟩
  · exact ⟨j + 1, i + 1, by omega, heq.symm⟩

end Orbit

end BasisHawk.Lib
