/-
  BasisHawk.Lib.Transaction
  ─────────────────────────
  A database transaction either commits a new state together with its result,
  or raises and leaves the state as it was.

  Main results:
    • `commit_cases` — the two outcomes of a transaction,
    • `raiseIf_bind_eq_ok`, `found_bind_eq_ok` — what a committed transaction
      has checked.
-/
import Mathlib.Logic.Basic

namespace BasisHawk.Lib

variable {σ ε α : Type}

/-! ## §1. Outcomes. -/

/-- What a caller sees of a transaction, and the state it leaves behind. -/
def commit (tx : σ → Except ε (α × σ)) (s : σ) : Except ε α × σ :=
  match tx s with
  | .ok (a, s') => (.ok a, s')
  | .error e => (.error e, s)

/-- A transaction commits and leaves its state, or raises and leaves the one
before: no other outcome is possible. -/
theorem commit_cases {tx : σ → Except ε (α × σ)} {s s' : σ} {r : Except ε α}
    (h : commit tx s = (r, s')) :
    (∃ a, r = .ok a ∧ tx s = .ok (a, s')) ∨ (∃ e, r = .error e ∧ tx s = .error e ∧ s' = s) := by
  unfold commit at h
  split at h
  · next a s₁ htx =>
      obtain ⟨rfl, rfl⟩ := Prod.mk.inj h
      exact .inl ⟨a, rfl, htx⟩
  · next e htx =>
      obtain ⟨rfl, rfl⟩ := Prod.mk.inj h
      exact .inr ⟨e, rfl, htx, rfl⟩

/-- An assertion that a committed transaction keeps holds whatever the outcome. -/
theorem commit_preserves {tx : σ → Except ε (α × σ)} {P : σ → Prop} {s s' : σ} {r : Except ε α}
    (htx : ∀ a s', tx s = .ok (a, s') → P s') (hs : P s) (h : commit tx s = (r, s')) : P s' := by
  rcases commit_cases h with ⟨a, -, h'⟩ | ⟨e, -, -, rfl⟩
  · exact htx a s' h'
  · exact hs

/-! ## §2. Checks inside a transaction. -/

/-- `if c: raise e`. -/
def raiseIf (c : Prop) [Decidable c] (e : ε) : Except ε Unit :=
  if c then .error e else .ok ()

/-- `if row is None: raise e`. -/
def found (o : Option α) (e : ε) : Except ε α :=
  match o with
  | some a => .ok a
  | none => .error e

variable {β : Type}

@[simp] theorem raiseIf_bind_eq_ok {c : Prop} [Decidable c] {e : ε} {f : Unit → Except ε β} {b : β} :
    (raiseIf c e >>= f) = .ok b ↔ ¬c ∧ f () = .ok b := by
  unfold raiseIf
  split
  · next hc => exact ⟨fun h => (by cases h), fun h => absurd hc h.1⟩
  · next hc => exact ⟨fun h => ⟨hc, h⟩, fun h => h.2⟩

/-- The guard raises where its condition holds. -/
theorem raiseIf_pos {c : Prop} [Decidable c] (h : c) {e : ε} : raiseIf c e = .error e := if_pos h

theorem raiseIf_neg {c : Prop} [Decidable c] (h : ¬c) {e : ε} : raiseIf c e = .ok () := if_neg h

@[simp] theorem raiseIf_eq_ok {c : Prop} [Decidable c] {e : ε} {u : Unit} :
    raiseIf c e = .ok u ↔ ¬c := by
  unfold raiseIf
  split
  · next hc => exact ⟨fun h => (by cases h), fun h => absurd hc h⟩
  · next hc => exact ⟨fun _ => hc, fun _ => rfl⟩

/-- A row that must be there was there. -/
theorem found_eq_ok {o : Option α} {e : ε} {a : α} : found o e = .ok a ↔ o = some a := by
  cases o with
  | none => exact ⟨fun h => (by cases h), fun h => (by cases h)⟩
  | some b => exact ⟨fun h => (by cases h; rfl), fun h => (by cases h; rfl)⟩

@[simp] theorem found_bind_eq_ok {o : Option α} {e : ε} {f : α → Except ε β} {b : β} :
    (found o e >>= f) = .ok b ↔ ∃ a, o = some a ∧ f a = .ok b := by
  cases o with
  | none => exact ⟨fun h => (by cases h), fun ⟨a, ha, _⟩ => (by cases ha)⟩
  | some a => exact ⟨fun h => ⟨a, rfl, h⟩, fun ⟨a', ha, h⟩ => (by cases ha; exact h)⟩

/-- Sequencing in `Except`. -/
theorem bind_eq_ok {x : Except ε α} {f : α → Except ε β} {b : β} :
    (x >>= f) = .ok b ↔ ∃ a, x = .ok a ∧ f a = .ok b := by
  cases x with
  | error e => exact ⟨fun h => (by cases h), fun ⟨a, ha, _⟩ => (by cases ha)⟩
  | ok a => exact ⟨fun h => ⟨a, rfl, h⟩, fun ⟨a', ha, h⟩ => (by cases ha; exact h)⟩

/-- A value came back. -/
theorem toOption_some {x : Except ε α} {a : α} : a ∈ x.toOption ↔ x = .ok a := by
  cases x with
  | error e => exact ⟨fun h => (by cases h), fun h => (by cases h)⟩
  | ok b => exact ⟨fun h => (by cases h; rfl), fun h => (by cases h; rfl)⟩

end BasisHawk.Lib
