/-
  BasisHawk.Lib.Versioned
  ───────────────────────
  A status that carries the number of times it was written.

  A writer that expects a version is served only at that version, and the write
  uses the version up.

  Main results:
    • `Descends.version_le` — versions never go back,
    • `Descends.absorbed` — a status that no move leaves stays,
    • `Descends.version_ne` — a version that was used up never comes again.
-/
import Mathlib.Logic.Relation

namespace BasisHawk.Lib

/-- A status and the number of writes so far. -/
structure Versioned (S : Type) where
  status : S
  version : Nat

variable {S : Type} {R R' : S → S → Prop} {a b : Versioned S}

/-- One step: the stamp stays, or the status moves and the version counts it. -/
inductive Evolves (R : S → S → Prop) : Versioned S → Versioned S → Prop
  | kept (a : Versioned S) : Evolves R a a
  | moved {s s' : S} (h : R s s') (n : Nat) : Evolves R ⟨s, n⟩ ⟨s', n + 1⟩

/-- Any number of steps. -/
def Descends (R : S → S → Prop) : Versioned S → Versioned S → Prop :=
  Relation.ReflTransGen (Evolves R)

/-- More transitions allow more evolutions. -/
theorem Evolves.mono (h : Evolves R a b) (hR : ∀ s s', R s s' → R' s s') : Evolves R' a b := by
  cases h with
  | kept => exact .kept a
  | moved h n => exact .moved (hR _ _ h) n

/-- A version never goes back. -/
theorem Evolves.version_le (h : Evolves R a b) : a.version ≤ b.version := by
  cases h with
  | kept => exact Nat.le_refl _
  | moved h n => exact Nat.le_succ n

/-- A change of status counts once. -/
theorem Evolves.version_of_ne (h : Evolves R a b) (hne : b.status ≠ a.status) :
    b.version = a.version + 1 := by
  cases h with
  | kept => exact absurd rfl hne
  | moved h n => rfl

/-- A move into a status that is not the one before is a move of the relation. -/
theorem Evolves.moves_of_ne (h : Evolves R a b) (hne : b.status ≠ a.status) :
    R a.status b.status := by
  cases h with
  | kept => exact absurd rfl hne
  | moved h n => exact h

/-- From a state without transitions nothing evolves: the row is the same,
version included. -/
theorem Evolves.absorbed (h : Evolves R a b) (hfinal : ∀ s, ¬R a.status s) : b = a := by
  cases h with
  | kept => rfl
  | moved h n => exact absurd h (hfinal _)

theorem Descends.version_le (h : Descends R a b) : a.version ≤ b.version := by
  induction h with
  | refl => exact Nat.le_refl _
  | tail _ hs ih =>
      have := hs.version_le
      omega

/-- A status that no move leaves stays, and so does its version. -/
theorem Descends.absorbed (h : Descends R a b) (hfinal : ∀ s, ¬R a.status s) : b = a := by
  induction h with
  | refl => rfl
  | tail _ hs ih =>
      subst ih
      exact hs.absorbed hfinal

/-- A version that was used up never comes again. -/
theorem Descends.version_ne (h : Descends R a b) {n : Nat} (hn : n < a.version) :
    b.version ≠ n := by
  have hle := h.version_le
  omega

end BasisHawk.Lib
