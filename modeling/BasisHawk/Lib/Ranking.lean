/-
  BasisHawk.Lib.Ranking
  ─────────────────────
  The first element of a sorted list that passes a test.

  For a total preorder it is a least one among those that pass.  Where no two of
  them rank the same it does not depend on the order of the list.

  Main results:
    • `best_eq_some`, `best_eq_none` — what is found,
    • `best_perm` — independence of the order.
-/
import Mathlib.Data.List.Sort

namespace BasisHawk.Lib

section Ranking

variable {α : Type} {r : α → α → Prop} [DecidableRel r] {p : α → Bool} {l l' : List α} {a : α}

omit [DecidableRel r] in
/-- What is found first in a list whose earlier elements are related to the
later ones. -/
theorem find?_of_pairwise (h : l.Pairwise r) (ha : l.find? p = some a) :
    a ∈ l ∧ p a = true ∧ ∀ b ∈ l, p b = true → b = a ∨ r a b := by
  induction l with
  | nil => cases ha
  | cons x rest ih =>
      rw [List.pairwise_cons] at h
      rw [List.find?_cons] at ha
      cases hx : p x with
      | true =>
          rw [hx] at ha
          cases ha
          refine ⟨by simp, hx, fun b hb _ => ?_⟩
          rcases List.mem_cons.mp hb with hb | hb
          · exact .inl hb
          · exact .inr (h.1 b hb)
      | false =>
          rw [hx] at ha
          obtain ⟨hmem, hp, hleast⟩ := ih h.2 ha
          refine ⟨by simp [hmem], hp, fun b hb hpb => ?_⟩
          rcases List.mem_cons.mp hb with hb | hb
          · rw [hb, hx] at hpb
            cases hpb
          · exact hleast b hb hpb

variable (r p l) in
/-- The first element, by rank, that passes. -/
def best : Option α := (l.insertionSort r).find? p

variable [Std.Total r] [IsTrans α r]

/-- It passes, and ranks at least as high as every other one that does. -/
theorem best_eq_some (h : best r p l = some a) :
    a ∈ l ∧ p a = true ∧ ∀ b ∈ l, p b = true → r a b := by
  obtain ⟨hmem, hp, hleast⟩ := find?_of_pairwise (List.pairwise_insertionSort r l) h
  refine ⟨(List.mem_insertionSort r).mp hmem, hp, fun b hb hpb => ?_⟩
  rcases hleast b ((List.mem_insertionSort r).mpr hb) hpb with heq | hr
  · rw [heq]
    exact (Std.Total.total (r := r) a a).elim id id
  · exact hr

omit [Std.Total r] [IsTrans α r] in
/-- There is no best element exactly if no element qualifies. -/
theorem best_eq_none : best r p l = none ↔ ∀ b ∈ l, p b = false := by
  unfold best
  rw [List.find?_eq_none]
  simp [List.mem_insertionSort]

/-- Among elements that do not rank the same, the order of the list does not
matter. -/
theorem best_perm (h : l.Perm l')
    (hanti : ∀ a ∈ l, ∀ b ∈ l, p a = true → p b = true → r a b → r b a → a = b) :
    best r p l = best r p l' := by
  cases hbest : best r p l with
  | none =>
      symm
      rw [best_eq_none] at hbest ⊢
      intro b hb
      exact hbest b (h.mem_iff.mpr hb)
  | some a =>
      obtain ⟨ha, hpa, hleast⟩ := best_eq_some hbest
      cases hbest' : best r p l' with
      | none =>
          have := best_eq_none.mp hbest' a (h.mem_iff.mp ha)
          rw [hpa] at this
          cases this
      | some b =>
          obtain ⟨hb, hpb, hleast'⟩ := best_eq_some hbest'
          have hb' := h.mem_iff.mpr hb
          rw [hanti a ha b hb' hpa hpb (hleast b hb' hpb) (hleast' a (h.mem_iff.mp ha) hpa)]

end Ranking

end BasisHawk.Lib
