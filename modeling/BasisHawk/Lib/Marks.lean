/-
  BasisHawk.Lib.Marks
  ───────────────────
  Groups of members one of which holds a mark.

  A list of members, each with its group and whether it holds the mark of the
  group: a default among accounts, a leader among replicas.

  Main results:
    • `singleIn_give`, `singleIn_give_ne` — handing the mark over,
    • `singleIn_append`, `singleIn_append_ne` — a member joins,
    • `singleIn_remove`, `singleIn_promote` — a member leaves, with or without
      the mark.
-/
import Mathlib.Data.List.Nodup

namespace BasisHawk.Lib

/-- A member of a group. -/
structure Mark (γ : Type) where
  key : Nat
  group : γ
  held : Bool
  deriving DecidableEq

namespace Mark

variable {γ : Type} {ms : List (Mark γ)} {g g' : γ} {k k' : Nat}

/-! ## §1. Holders. -/

/-- `k` is a member of the group. -/
def Member (ms : List (Mark γ)) (g : γ) (k : Nat) : Prop := ∃ m ∈ ms, m.group = g ∧ m.key = k

/-- `k` holds the mark of the group. -/
def Holder (ms : List (Mark γ)) (g : γ) (k : Nat) : Prop :=
  ∃ m ∈ ms, m.group = g ∧ m.key = k ∧ m.held = true

/-- If the group has members, exactly one holds the mark. -/
def SingleIn (ms : List (Mark γ)) (g : γ) : Prop :=
  (∃ k, Member ms g k) → ∃ k, ∀ k', Holder ms g k' ↔ k' = k

theorem Holder.member (h : Holder ms g k) : Member ms g k := by
  obtain ⟨m, hm, hg, hk, -⟩ := h
  exact ⟨m, hm, hg, hk⟩

/-- Members and holders of a group are all that matters for it. -/
theorem singleIn_congr {ms' : List (Mark γ)} (hm : ∀ k, Member ms' g k ↔ Member ms g k)
    (hh : ∀ k, Holder ms' g k ↔ Holder ms g k) : SingleIn ms' g ↔ SingleIn ms g := by
  unfold SingleIn
  simp only [hm, hh]

/-- A map that keeps groups and keys keeps the members. -/
theorem member_map {f : Mark γ → Mark γ} (hf : ∀ m, (f m).group = m.group ∧ (f m).key = m.key) :
    Member (ms.map f) g k ↔ Member ms g k := by
  unfold Member
  simp only [List.mem_map]
  constructor
  · rintro ⟨_, ⟨m, hm, rfl⟩, hg, hk⟩
    exact ⟨m, hm, (hf m).1.symm.trans hg, (hf m).2.symm.trans hk⟩
  · rintro ⟨m, hm, hg, hk⟩
    exact ⟨_, ⟨m, hm, rfl⟩, (hf m).1.trans hg, (hf m).2.trans hk⟩

/-! ## §2. Handing the mark over. -/

section Giving

variable [DecidableEq γ]

/-- The mark of a group moves to `k`. -/
def give (g : γ) (k : Nat) (ms : List (Mark γ)) : List (Mark γ) :=
  ms.map fun m => if m.group = g then { m with held := decide (m.key = k) } else m

/-- Handing the mark over changes nobody's membership. -/
theorem member_give : Member (give g k ms) g' k' ↔ Member ms g' k' :=
  member_map fun m => by split <;> exact ⟨rfl, rfl⟩

/-- Once the mark is handed to a member, that member is the only holder of its
group. -/
theorem holder_give (hk : Member ms g k) : Holder (give g k ms) g k' ↔ k' = k := by
  unfold Holder give
  simp only [List.mem_map]
  constructor
  · rintro ⟨m, ⟨m₀, -, rfl⟩, hg, hk', hheld⟩
    by_cases h : m₀.group = g
    · rw [if_pos h] at hk' hheld
      have : m₀.key = k := by simpa using hheld
      exact hk'.symm.trans this
    · rw [if_neg h] at hg
      exact absurd hg h
  · rintro rfl
    obtain ⟨m, hm, hg, hmk⟩ := hk
    refine ⟨_, ⟨m, hm, rfl⟩, ?_⟩
    rw [if_pos hg]
    exact ⟨hg, hmk, decide_eq_true hmk⟩

/-- Other groups keep their holders. -/
theorem holder_give_ne (hne : g' ≠ g) : Holder (give g k ms) g' k' ↔ Holder ms g' k' := by
  unfold Holder give
  simp only [List.mem_map]
  constructor
  · rintro ⟨m, ⟨m₀, hm₀, rfl⟩, hg, hk, hheld⟩
    by_cases h : m₀.group = g
    · rw [if_pos h] at hg
      exact absurd (hg.symm.trans h) hne
    · rw [if_neg h] at hg hk hheld
      exact ⟨m₀, hm₀, hg, hk, hheld⟩
  · rintro ⟨m, hm, hg, hk, hheld⟩
    refine ⟨_, ⟨m, hm, rfl⟩, ?_⟩
    have h : ¬m.group = g := fun h => hne (hg.symm.trans h)
    rw [if_neg h]
    exact ⟨hg, hk, hheld⟩

/-- A member that gets the mark is the only holder. -/
theorem singleIn_give (hk : Member ms g k) : SingleIn (give g k ms) g :=
  fun _ => ⟨k, fun _ => holder_give hk⟩

/-- And whether they have exactly one. -/
theorem singleIn_give_ne (hne : g' ≠ g) : SingleIn (give g k ms) g' ↔ SingleIn ms g' :=
  singleIn_congr (fun _ => member_give) fun _ => holder_give_ne hne

end Giving

/-! ## §3. Joining. -/

/-- A new entry adds its own membership. -/
theorem member_append {m : Mark γ} :
    Member (ms ++ [m]) g k ↔ Member ms g k ∨ (m.group = g ∧ m.key = k) := by
  simp [Member, or_and_right, exists_or]

/-- It holds the mark exactly if it comes with it. -/
theorem holder_append {m : Mark γ} :
    Holder (ms ++ [m]) g k ↔ Holder ms g k ∨ (m.group = g ∧ m.key = k ∧ m.held = true) := by
  simp [Holder, or_and_right, exists_or]

theorem singleIn_append_ne {m : Mark γ} (hne : g ≠ m.group) :
    SingleIn (ms ++ [m]) g ↔ SingleIn ms g := by
  have hgroup : ¬m.group = g := fun h => hne h.symm
  refine singleIn_congr (fun k => ?_) fun k => ?_
  · rw [member_append]
    exact or_iff_left fun h => hgroup h.1
  · rw [holder_append]
    exact or_iff_left fun h => hgroup h.1

/-- A member joins without the mark. -/
theorem singleIn_append (hsome : ∃ k', Member ms g k') (h : SingleIn ms g) :
    SingleIn (ms ++ [⟨k, g, false⟩]) g := by
  obtain ⟨holder, hh⟩ := h hsome
  refine fun _ => ⟨holder, fun k' => ?_⟩
  rw [holder_append, ← hh k']
  exact or_iff_left fun h => (by cases h.2.2)

/-! ## §4. Losing the mark. -/

/-- `k` loses the mark. -/
def drop (k : Nat) (ms : List (Mark γ)) : List (Mark γ) :=
  ms.map fun m => if m.key = k then { m with held := false } else m

/-- If the holder loses the mark and no one gets it, the group is without. -/
theorem not_singleIn_drop (hh : Holder ms g k) (h : SingleIn ms g) : ¬SingleIn (drop k ms) g := by
  intro hdrop
  obtain ⟨holder, hsingle⟩ := h ⟨k, hh.member⟩
  have hholder : k = holder := (hsingle k).mp hh
  have hmember : Member (drop k ms) g k := by
    obtain ⟨m, hm, hg, hk, -⟩ := hh
    refine ⟨_, List.mem_map_of_mem hm, ?_⟩
    rw [if_pos hk]
    exact ⟨hg, hk⟩
  obtain ⟨other, hother⟩ := hdrop ⟨k, hmember⟩
  obtain ⟨m, hm, hg, hk, hheld⟩ := (hother other).mpr rfl
  obtain ⟨m₀, hm₀, rfl⟩ := List.mem_map.mp hm
  by_cases h₀ : m₀.key = k
  · rw [if_pos h₀] at hheld
    cases hheld
  · rw [if_neg h₀] at hg hheld
    have : m₀.key = holder := (hsingle m₀.key).mp ⟨m₀, hm₀, hg, rfl, hheld⟩
    exact h₀ (this.trans hholder.symm)

/-! ## §5. Leaving. -/

/-- `k` leaves. -/
def remove (k : Nat) (ms : List (Mark γ)) : List (Mark γ) := ms.filter (·.key ≠ k)

/-- Removing a key removes its membership only. -/
theorem member_remove : Member (remove k ms) g k' ↔ Member ms g k' ∧ k' ≠ k := by
  unfold Member remove
  simp only [List.mem_filter, decide_eq_true_eq]
  constructor
  · rintro ⟨m, ⟨hm, hne⟩, hg, rfl⟩
    exact ⟨⟨m, hm, hg, rfl⟩, hne⟩
  · rintro ⟨⟨m, hm, hg, rfl⟩, hne⟩
    exact ⟨m, ⟨hm, hne⟩, hg, rfl⟩

/-- The holders after a removal are the ones before, other than the removed key. -/
theorem holder_remove : Holder (remove k ms) g k' ↔ Holder ms g k' ∧ k' ≠ k := by
  unfold Holder remove
  simp only [List.mem_filter, decide_eq_true_eq]
  constructor
  · rintro ⟨m, ⟨hm, hne⟩, hg, rfl, hheld⟩
    exact ⟨⟨m, hm, hg, rfl, hheld⟩, hne⟩
  · rintro ⟨⟨m, hm, hg, rfl, hheld⟩, hne⟩
    exact ⟨m, ⟨hm, hne⟩, hg, rfl, hheld⟩

/-- A member without the mark leaves. -/
theorem singleIn_remove (hk : ¬Holder ms g k) (h : SingleIn ms g) : SingleIn (remove k ms) g := by
  rintro ⟨k', hmember⟩
  obtain ⟨holder, hh⟩ := h ⟨k', (member_remove.mp hmember).1⟩
  refine ⟨holder, fun k'' => ?_⟩
  rw [holder_remove, hh k'']
  refine and_iff_left_of_imp fun heq hne => hk ?_
  rw [← hne, heq]
  exact (hh holder).mpr rfl

/-- `k` gets the mark, whoever else has it. -/
def promote (k : Nat) (ms : List (Mark γ)) : List (Mark γ) :=
  ms.map fun m => if m.key = k then { m with held := true } else m

theorem member_promote : Member (promote k ms) g k' ↔ Member ms g k' :=
  member_map fun m => by split <;> exact ⟨rfl, rfl⟩

/-- Promoting a member adds a holder and removes none. -/
theorem holder_promote :
    Holder (promote k ms) g k' ↔ Holder ms g k' ∨ (k' = k ∧ Member ms g k) := by
  unfold Holder Member promote
  simp only [List.mem_map]
  constructor
  · rintro ⟨m, ⟨m₀, hm₀, rfl⟩, hg, hk, hheld⟩
    by_cases h : m₀.key = k
    · rw [if_pos h] at hg hk
      exact .inr ⟨hk.symm.trans h, m₀, hm₀, hg, h⟩
    · rw [if_neg h] at hg hk hheld
      exact .inl ⟨m₀, hm₀, hg, hk, hheld⟩
  · rintro (⟨m, hm, hg, hk, hheld⟩ | ⟨rfl, m, hm, hg, hk⟩)
    · refine ⟨_, ⟨m, hm, rfl⟩, ?_⟩
      split
      · exact ⟨hg, hk, rfl⟩
      · exact ⟨hg, hk, hheld⟩
    · refine ⟨_, ⟨m, hm, rfl⟩, ?_⟩
      rw [if_pos hk]
      exact ⟨hg, hk, rfl⟩

/-- The holder leaves, and another member gets the mark. -/
theorem singleIn_promote (hk : Holder ms g k) (h : SingleIn ms g)
    (hk' : Member (remove k ms) g k') : SingleIn (promote k' (remove k ms)) g := by
  obtain ⟨holder, hh⟩ := h ⟨k, hk.member⟩
  have hholder : k = holder := (hh k).mp hk
  refine fun _ => ⟨k', fun k'' => ?_⟩
  rw [holder_promote, holder_remove, hh k'']
  constructor
  · rintro (⟨heq, hne⟩ | ⟨heq, -⟩)
    · exact absurd (heq.trans hholder.symm) hne
    · exact heq
  · exact fun heq => .inr ⟨heq, hk'⟩

/-- A member's leaving does not concern the other groups. -/
theorem singleIn_remove_ne (hk : ¬Member ms g k) : SingleIn (remove k ms) g ↔ SingleIn ms g := by
  have hne : ∀ k', Member ms g k' → k' ≠ k := fun k' h heq => hk (heq ▸ h)
  refine singleIn_congr (fun k' => ?_) fun k' => ?_
  · rw [member_remove]
    exact and_iff_left_of_imp (hne k')
  · rw [holder_remove]
    exact and_iff_left_of_imp fun h => hne k' h.member

/-- Groups without the member are not touched. -/
theorem singleIn_promote_ne (hk : ¬Member ms g k) : SingleIn (promote k ms) g ↔ SingleIn ms g :=
  singleIn_congr (fun _ => member_promote) fun _ => by
    rw [holder_promote]
    exact or_iff_left fun h => hk h.2

end Mark

end BasisHawk.Lib
