/-
  BasisHawk.Reconciliation.PositionAgreement
  ──────────────────────────────────────────
  Whether the two comparisons of an account's positions with the open pairs come
  to the same (`reconciliation.py`, `live_execution.py`).

  Both gather what they compare under its symbol and differ in how they join the
  margin flags of two entries.  One keeps the first flag that is not isolated,
  the other says isolated of entries that all are, and not isolated of the rest.

  Main results:
    • `positionReasons_eq_nil`, `validatePairedPositions_eq_ok` — each accepts
      what matches and whose flags it joins to the expected mode,
    • `position_checks_agree_iff` — when both accept exactly what matches in the
      expected mode,
    • `position_checks_differ` — a cross-margin symbol in two entries.
-/
import BasisHawk.Reconciliation.Matching

namespace BasisHawk.Reconciliation

open Domain Lib Accounts Paired
open Paired.Ledger (PerpExposure)

/-! ## §1. Dictionaries. -/

section Dict

variable {β : Type} {d : List (String × β)} {k k' : String} {v : β}

theorem getItem_cons {e : String × β} :
    getItem (e :: d) k = if e.1 = k then some e.2 else getItem d k := by
  unfold getItem
  rw [List.find?_cons]
  by_cases h : e.1 = k
  · simp [h]
  · simp [h]

/-- What two dictionaries hold, put one after the other: the first one counts.
-/
theorem getItem_append {d' : List (String × β)} :
    getItem (d ++ d') k = (getItem d k).orElse fun _ => getItem d' k := by
  unfold getItem
  rw [List.find?_append]
  cases d.find? (·.1 = k) <;> simp

/-- A key that is not there has no value. -/
theorem getItem_eq_none_of_any (h : d.any (·.1 = k) = false) : getItem d k = none := by
  unfold getItem
  rw [Option.map_eq_none_iff, List.find?_eq_none]
  intro e he hk
  rw [List.any_eq_false] at h
  exact h e he hk

/-- Replacing the value of a key changes that key only, if it is there. -/
theorem getItem_replace :
    getItem (d.map fun e => if e.1 = k then (k, v) else e) k'
      = if k' = k then (if d.any (·.1 = k) then some v else none) else getItem d k' := by
  induction d with
  | nil => simp [getItem]
  | cons e d ih =>
      rw [List.map_cons, getItem_cons, ih, List.any_cons]
      by_cases he : e.1 = k
      · by_cases hk : k' = k
        · simp [he, hk]
        · have hne : ¬k = k' := fun h => hk h.symm
          simp [he, hk, hne, getItem_cons]
      · by_cases hk : k' = k
        · subst hk
          rw [if_neg he, if_neg he, if_pos rfl, if_pos rfl, decide_eq_false he, Bool.false_or]
        · simp [he, hk, getItem_cons]

/-- What a dictionary holds after an assignment. -/
theorem getItem_setItem :
    getItem (setItem d k v) k' = if k' = k then some v else getItem d k' := by
  unfold setItem
  by_cases h : d.any (·.1 = k)
  · rw [if_pos h, getItem_replace]
    simp [h]
  · rw [if_neg h, getItem_append, getItem_cons]
    by_cases hk : k' = k
    · subst hk
      rw [getItem_eq_none_of_any (Bool.eq_false_iff.mpr h)]
      simp
    · have hne : ¬k = k' := fun h => hk h.symm
      simp [hk, hne, getItem]

/-- What it holds after a `pop`. -/
theorem getItem_popItem :
    getItem (popItem d k) k' = if k' = k then none else getItem d k' := by
  unfold popItem
  induction d with
  | nil => simp [getItem]
  | cons e d ih =>
      rw [List.filter_cons]
      by_cases he : e.1 = k
      · by_cases hk : k' = k
        · simp [he, hk] at ih ⊢
          exact ih
        · have hne : ¬k = k' := fun h => hk h.symm
          simp [he, hk, hne, getItem_cons] at ih ⊢
          exact ih
      · by_cases hk : k' = k
        · subst hk
          simp [he, getItem_cons] at ih ⊢
          exact ih
        · simp [he, hk, getItem_cons] at ih ⊢
          rw [ih]

/-- An assignment keeps the keys distinct. -/
theorem setItem_nodup (h : (d.map (·.1)).Nodup) : ((setItem d k v).map (·.1)).Nodup := by
  unfold setItem
  by_cases hany : d.any (·.1 = k)
  · rw [if_pos hany]
    have hkeys : (d.map fun e => if e.1 = k then (k, v) else e).map (·.1) = d.map (·.1) := by
      rw [List.map_map]
      refine List.map_congr_left fun e _ => ?_
      by_cases he : e.1 = k <;> simp [he]
    rw [hkeys]
    exact h
  · rw [if_neg hany, List.map_append, List.nodup_append]
    refine ⟨h, by simp, ?_⟩
    intro a ha b hb hab
    obtain ⟨e, he, rfl⟩ := List.mem_map.mp ha
    obtain rfl : b = k := by simpa using hb
    exact hany (List.any_eq_true.mpr ⟨e, he, by simpa using hab⟩)

/-- The entries of a dictionary are its values. -/
theorem mem_iff_getItem (h : (d.map (·.1)).Nodup) : (k, v) ∈ d ↔ getItem d k = some v := by
  induction d with
  | nil => simp [getItem]
  | cons e d ih =>
      rw [List.map_cons, List.nodup_cons] at h
      rw [getItem_cons, List.mem_cons, ih h.2]
      by_cases he : e.1 = k
      · have hnot : getItem d k = none := by
          refine getItem_eq_none_of_any (List.any_eq_false.mpr fun x hx hk => ?_)
          have hxk : x.1 = k := by simpa using hk
          exact h.1 (List.mem_map.mpr ⟨x, hx, hxk.trans he.symm⟩)
        simp [he, hnot, Prod.ext_iff, eq_comm]
      · have hne : (k, v) ≠ e := fun heq => he (heq ▸ rfl)
        simp [he, hne]

theorem eq_nil_iff_getItem : d = [] ↔ ∀ k, getItem d k = none := by
  constructor
  · rintro rfl k
    rfl
  · intro h
    cases d with
    | nil => rfl
    | cons e d =>
        have := h e.1
        rw [getItem_cons, if_pos rfl] at this
        cases this

end Dict

/-! ## §2. Gathering under a key. -/

section Gather

variable {ι β L : Type} (key : ι → String) (join : Option β → ι → β) (level : ι → L) (lev : β → L)

/-- Each item is joined to what its key holds. -/
def gather : List ι → List (String × β) → List (String × β)
  | [], d => d
  | i :: rest, d => gather rest (setItem d (key i) (join (getItem d (key i)) i))

/-- No item is of another level than what its key holds when it comes. -/
def Level : List ι → List (String × β) → Prop
  | [], _ => True
  | i :: rest, d => (¬∃ previous ∈ getItem d (key i), lev previous ≠ level i)
      ∧ Level rest (setItem d (key i) (join (getItem d (key i)) i))

/-- The items of a key are of one level. -/
def Uniform (items : List ι) : Prop :=
  ∀ i ∈ items, ∀ j ∈ items, key i = key j → level i = level j

variable {key join level lev} {items : List ι} {d : List (String × β)} {k : String}

/-- A key holds its items, joined one after the other. -/
theorem getItem_gather :
    getItem (gather key join items d) k
      = (items.filter (key · = k)).foldl (fun o i => some (join o i)) (getItem d k) := by
  induction items generalizing d with
  | nil => rfl
  | cons i rest ih =>
      rw [gather, ih, List.filter_cons, getItem_setItem]
      by_cases h : key i = k
      · simp [h]
      · have hne : ¬k = key i := fun heq => h heq.symm
        simp [h, hne]

/-- So does the gathering of items under their keys. -/
theorem gather_nodup (h : (d.map (·.1)).Nodup) : ((gather key join items d).map (·.1)).Nodup := by
  induction items generalizing d with
  | nil => exact h
  | cons i rest ih =>
      rw [gather]
      exact ih (setItem_nodup h)

/-- Levels never meet another one exactly if those of a key are one. -/
theorem level_iff (hjoin : ∀ o i, lev (join o i) = level i) :
    Level key join level lev items d
      ↔ Uniform key level items
        ∧ ∀ i ∈ items, ∀ previous ∈ getItem d (key i), lev previous = level i := by
  induction items generalizing d with
  | nil => simp [Level, Uniform]
  | cons i rest ih =>
      rw [Level, ih]
      constructor
      · rintro ⟨hfirst, huniform, hrest⟩
        -- After the first item its level is what the rest is compared with.
        have hsame : ∀ j ∈ rest, key j = key i → level i = level j := by
          intro j hj hkey
          have := hrest j hj (join (getItem d (key i)) i) (by rw [getItem_setItem, if_pos hkey]; rfl)
          rw [hjoin] at this
          exact this
        refine ⟨?_, ?_⟩
        · intro a ha b hb hkey
          rcases List.mem_cons.mp ha with hai | har
          · rcases List.mem_cons.mp hb with hbi | hbr
            · rw [hai, hbi]
            · rw [hai]
              exact hsame b hbr (hkey.symm.trans (by rw [hai]))
          · rcases List.mem_cons.mp hb with hbi | hbr
            · rw [hbi]
              exact (hsame a har (hkey.trans (by rw [hbi]))).symm
            · exact huniform a har b hbr hkey
        · intro j hj previous hprevious
          rcases List.mem_cons.mp hj with rfl | hj
          · by_contra hne
            exact hfirst ⟨previous, hprevious, hne⟩
          · by_cases hkey : key j = key i
            · rw [← hsame j hj hkey]
              by_contra hne
              exact hfirst ⟨previous, hkey ▸ hprevious, hne⟩
            · exact hrest j hj previous (by rw [getItem_setItem, if_neg hkey]; exact hprevious)
      · rintro ⟨huniform, hheld⟩
        refine ⟨?_, ?_, ?_⟩
        · rintro ⟨previous, hprevious, hne⟩
          exact hne (hheld i (by simp) previous hprevious)
        · intro a ha b hb
          exact huniform a (by simp [ha]) b (by simp [hb])
        · intro j hj previous hprevious
          rw [getItem_setItem] at hprevious
          by_cases hkey : key j = key i
          · rw [if_pos hkey] at hprevious
            obtain rfl : join (getItem d (key i)) i = previous := by simpa using hprevious
            rw [hjoin]
            exact huniform i (by simp) j (by simp [hj]) hkey.symm
          · rw [if_neg hkey] at hprevious
            exact hheld j (by simp [hj]) previous hprevious

end Gather

/-! ## §3. What is gathered. -/

/-- What one more exposure makes of what is expected. -/
def joinExposure (o : Option (ℚ × Nat)) (e : PerpExposure) : ℚ × Nat :=
  (o.elim 0 (·.1) + e.quantity, e.leverage)

/-- What one more position makes of what is shown. -/
def joinPosition (both : Option Bool → Option Bool → Option Bool)
    (o : Option (ℚ × ℚ × Option Bool)) (p : RemotePosition) : ℚ × ℚ × Option Bool :=
  match o with
  | none => (0 + p.quantity, p.leverage, p.isolated)
  | some previous => (previous.1 + p.quantity, p.leverage, both previous.2.2 p.isolated)

/-- Isolated if both are. -/
def strictAnd (a b : Option Bool) : Option Bool := some (a = some true ∧ b = some true)

def expectedOf (exposures : List PerpExposure) : Expected :=
  gather (·.symbol) joinExposure exposures []

def shownOf (both : Option Bool → Option Bool → Option Bool) (positions : List RemotePosition) :
    Shown :=
  gather (·.symbol) (joinPosition both) positions []

/-- The exposures meet no other leverage, from `d` on. -/
abbrev LocalLevel (exposures : List PerpExposure) (d : Expected) : Prop :=
  Level (·.symbol) joinExposure (·.leverage) (·.2) exposures d

/-- The positions meet no other leverage, from `d` on. -/
abbrev RemoteLevel (both : Option Bool → Option Bool → Option Bool)
    (positions : List RemotePosition) (d : Shown) : Prop :=
  Level (·.symbol) (joinPosition both) (·.leverage) (·.2.1) positions d

section Loops

variable {both : Option Bool → Option Bool → Option Bool} {exposures : List PerpExposure}
  {positions : List RemotePosition} {isolated : Bool} {reasons : List String}

/-- The loops over the positions add to the reasons. -/
theorem expectedPositions_grows {d : Expected} :
    ∃ more, (expectedPositions exposures d reasons).2 = reasons ++ more := by
  induction exposures generalizing d reasons with
  | nil => exact ⟨[], (List.append_nil _).symm⟩
  | cons e rest ih =>
      rw [expectedPositions]
      by_cases h : d.conflicts e
      · rw [if_pos h]
        obtain ⟨more, hmore⟩ := @ih
          (reasons ++ ["local paired positions use conflicting leverage"]) d
        exact ⟨_, hmore.trans (List.append_assoc _ _ _)⟩
      · rw [if_neg h]
        exact ih

/-- The first loop adds reasons and takes none away. -/
theorem shownPositions_grows {d : Shown} :
    ∃ more, (shownPositions positions d reasons).2 = reasons ++ more := by
  induction positions generalizing d reasons with
  | nil => exact ⟨[], (List.append_nil _).symm⟩
  | cons p rest ih =>
      rw [shownPositions]
      by_cases hside : p.side ≠ "short"
      · rw [if_pos hside]
        obtain ⟨more, hmore⟩ := @ih
          (reasons ++ ["remote position is not a strategy short position"]) d
        exact ⟨_, hmore.trans (List.append_assoc _ _ _)⟩
      · rw [if_neg hside]
        by_cases h : d.conflicts p
        · rw [if_pos h]
          obtain ⟨more, hmore⟩ := @ih
            (reasons ++ ["remote short positions use conflicting leverage"]) d
          exact ⟨_, hmore.trans (List.append_assoc _ _ _)⟩
        · rw [if_neg h]
          exact ih

/-- So does the second. -/
theorem comparePositions_grows {expected : Expected} {d : Shown} :
    ∃ more, (comparePositions isolated expected d reasons).2 = reasons ++ more := by
  induction expected generalizing d reasons with
  | nil => exact ⟨[], (List.append_nil _).symm⟩
  | cons e rest ih =>
      rw [comparePositions]
      cases getItem d e.1 with
      | none =>
          obtain ⟨more, hmore⟩ := @ih
            (reasons ++ ["local paired position is missing from the exchange"]) d
          exact ⟨_, hmore.trans (List.append_assoc _ _ _)⟩
      | some actual =>
          by_cases h : agrees isolated actual e.2
          · simp only [if_pos h]
            exact ih
          · simp only [if_neg h]
            obtain ⟨more, hmore⟩ := @ih
              (reasons ++ ["remote short position conflicts with the local pair"])
              (popItem d e.1)
            exact ⟨_, hmore.trans (List.append_assoc _ _ _)⟩

/-- A reason once given stays given. -/
theorem append_ne_nil_of_grows {out more : List String} {reason : String}
    (h : out = (reasons ++ [reason]) ++ more) : out ≠ [] := by
  rw [h]
  simp

/-- The first loop has nothing to say of exposures that meet no other leverage,
and of no others. -/
theorem expectedPositions_cases {d : Expected} :
    (LocalLevel exposures d
        ∧ expectedPositions exposures d reasons = (gather (·.symbol) joinExposure exposures d, reasons))
      ∨ (¬LocalLevel exposures d ∧ (expectedPositions exposures d reasons).2 ≠ []) := by
  induction exposures generalizing d with
  | nil => exact .inl ⟨trivial, rfl⟩
  | cons e rest ih =>
      rw [expectedPositions]
      by_cases h : d.conflicts e
      · rw [if_pos h]
        obtain ⟨more, hmore⟩ := @expectedPositions_grows rest
          (reasons ++ ["local paired positions use conflicting leverage"]) d
        exact .inr ⟨fun hlevel => hlevel.1 h, append_ne_nil_of_grows hmore⟩
      · rw [if_neg h]
        rcases @ih (d.add e) with ⟨hlevel, heq⟩ | ⟨hlevel, hne⟩
        · exact .inl ⟨⟨h, hlevel⟩, heq⟩
        · exact .inr ⟨fun hall => hlevel hall.2, hne⟩

/-- The first loop either gathers every position without a new reason, or gives
one. -/
theorem shownPositions_cases {d : Shown} :
    (((∀ p ∈ positions, p.side = "short") ∧ RemoteLevel pyAnd positions d)
        ∧ shownPositions positions d reasons
          = (gather (·.symbol) (joinPosition pyAnd) positions d, reasons))
      ∨ (¬((∀ p ∈ positions, p.side = "short") ∧ RemoteLevel pyAnd positions d)
        ∧ (shownPositions positions d reasons).2 ≠ []) := by
  induction positions generalizing d with
  | nil => exact .inl ⟨⟨by simp, trivial⟩, rfl⟩
  | cons p rest ih =>
      rw [shownPositions]
      by_cases hside : p.side ≠ "short"
      · rw [if_pos hside]
        obtain ⟨more, hmore⟩ := @shownPositions_grows rest
          (reasons ++ ["remote position is not a strategy short position"]) d
        exact .inr ⟨fun hall => hside (hall.1 p (by simp)), append_ne_nil_of_grows hmore⟩
      · rw [if_neg hside]
        by_cases h : d.conflicts p
        · rw [if_pos h]
          obtain ⟨more, hmore⟩ := @shownPositions_grows rest
            (reasons ++ ["remote short positions use conflicting leverage"]) d
          exact .inr ⟨fun hall => hall.2.1 h, append_ne_nil_of_grows hmore⟩
        · rw [if_neg h]
          rcases @ih (d.add pyAnd p) with ⟨⟨hshort, hlevel⟩, heq⟩ | ⟨hnot, hne⟩
          · refine .inl ⟨⟨?_, h, hlevel⟩, heq⟩
            intro q hq
            rcases List.mem_cons.mp hq with rfl | hq
            · exact not_not.mp hside
            · exact hshort q hq
          · exact .inr ⟨fun hall => hnot ⟨fun q hq => hall.1 q (by simp [hq]), hall.2.2⟩, hne⟩

/-- Every expected entry is shown as expected. -/
def AllAgree (isolated : Bool) (expected : Expected) (shown : Shown) : Prop :=
  ∀ e ∈ expected, ∃ actual ∈ getItem shown e.1, agrees isolated actual e.2

/-- What is shown of no expected symbol. -/
def unexpected (expected : Expected) (shown : Shown) : Shown :=
  expected.foldl (fun d e => popItem d e.1) shown

/-- What is left over after the comparison is what was not expected. -/
theorem getItem_unexpected {expected : Expected} {shown : Shown} {k : String} :
    getItem (unexpected expected shown) k
      = if k ∈ expected.map (·.1) then none else getItem shown k := by
  unfold unexpected
  induction expected generalizing shown with
  | nil => simp
  | cons e rest ih =>
      rw [List.foldl_cons, ih, getItem_popItem]
      by_cases h : k = e.1 <;> simp only [List.map_cons, List.mem_cons, h, true_or, false_or] <;> simp

/-- An entry of another symbol is shown as before. -/
theorem allAgree_popItem {rest : Expected} {shown : Shown} {k : String}
    (h : k ∉ rest.map (·.1)) :
    AllAgree isolated rest (popItem shown k) ↔ AllAgree isolated rest shown := by
  have hother : ∀ e ∈ rest, getItem (popItem shown k) e.1 = getItem shown e.1 := by
    intro e he
    rw [getItem_popItem, if_neg]
    rintro rfl
    exact h (List.mem_map.mpr ⟨e, he, rfl⟩)
  constructor
  · intro hall e he
    rw [← hother e he]
    exact hall e he
  · intro hall e he
    rw [hother e he]
    exact hall e he

/-- The agreement of a list is that of its head and of the rest. -/
theorem allAgree_cons {e : String × ℚ × Nat} {rest : Expected} {shown : Shown} :
    AllAgree isolated (e :: rest) shown
      ↔ (∃ actual ∈ getItem shown e.1, agrees isolated actual e.2)
        ∧ AllAgree isolated rest shown :=
  List.forall_mem_cons

/-- The second loop either finds that all agree, or gives a reason. -/
theorem comparePositions_cases {expected : Expected} {shown : Shown}
    (hkeys : (expected.map (·.1)).Nodup) :
    (AllAgree isolated expected shown
        ∧ comparePositions isolated expected shown reasons = (unexpected expected shown, reasons))
      ∨ (¬AllAgree isolated expected shown
        ∧ (comparePositions isolated expected shown reasons).2 ≠ []) := by
  induction expected generalizing shown with
  | nil => exact .inl ⟨by simp [AllAgree], rfl⟩
  | cons e rest ih =>
      rw [List.map_cons, List.nodup_cons] at hkeys
      rw [comparePositions, allAgree_cons]
      cases hget : getItem shown e.1 with
      | none =>
          obtain ⟨more, hmore⟩ := @comparePositions_grows isolated
            (reasons ++ ["local paired position is missing from the exchange"]) rest shown
          exact .inr ⟨fun hall => by simp at hall, append_ne_nil_of_grows hmore⟩
      | some actual =>
          by_cases h : agrees isolated actual e.2
          · simp only [if_pos h]
            rw [← allAgree_popItem hkeys.1]
            rcases @ih (popItem shown e.1) hkeys.2 with ⟨hall, heq⟩ | ⟨hall, hne⟩
            · exact .inl ⟨⟨⟨actual, rfl, h⟩, hall⟩, heq⟩
            · exact .inr ⟨fun hboth => hall hboth.2, hne⟩
          · simp only [if_neg h]
            obtain ⟨more, hmore⟩ := @comparePositions_grows isolated
              (reasons ++ ["remote short position conflicts with the local pair"]) rest
              (popItem shown e.1)
            exact .inr ⟨fun hall => by simp [h] at hall, append_ne_nil_of_grows hmore⟩

/-- The raising check accepts the exposures exactly where they are level, and
gathers them. -/
theorem requireExpected_eq_ok {d d' : Expected} :
    requireExpected exposures d = .ok d'
      ↔ LocalLevel exposures d ∧ gather (·.symbol) joinExposure exposures d = d' := by
  induction exposures generalizing d with
  | nil => simp [requireExpected, LocalLevel, Level, gather]
  | cons e rest ih =>
      rw [requireExpected, raiseIf_bind_eq_ok, ih, ← and_assoc]
      rfl

/-- It accepts the positions exactly where all are short and level. -/
theorem requireShown_eq_ok {d d' : Shown} :
    requireShown positions d = .ok d'
      ↔ ((∀ p ∈ positions, p.side = "short") ∧ RemoteLevel strictAnd positions d)
        ∧ gather (·.symbol) (joinPosition strictAnd) positions d = d' := by
  induction positions generalizing d with
  | nil => simp [requireShown, RemoteLevel, Level, gather]
  | cons p rest ih =>
      rw [requireShown, raiseIf_bind_eq_ok, raiseIf_bind_eq_ok]
      rw [show (fun a b : Option Bool => some (decide (a = some true ∧ b = some true)))
        = strictAnd from rfl, ih, List.forall_mem_cons, not_not]
      have hlevel : RemoteLevel strictAnd (p :: rest) d
          ↔ ¬d.conflicts p ∧ RemoteLevel strictAnd rest (d.add strictAnd p) := Iff.rfl
      rw [hlevel]
      constructor
      · rintro ⟨hside, hc, ⟨hall, hl⟩, heq⟩
        exact ⟨⟨⟨hside, hall⟩, hc, hl⟩, heq⟩
      · rintro ⟨⟨⟨hside, hall⟩, hc, hl⟩, heq⟩
        exact ⟨hside, hc, ⟨hall, hl⟩, heq⟩

/-- And the comparison exactly where all agree. -/
theorem requireAgreement_eq_ok {expected : Expected} {shown rest : Shown}
    (hkeys : (expected.map (·.1)).Nodup) :
    requireAgreement isolated expected shown = .ok rest
      ↔ AllAgree isolated expected shown ∧ unexpected expected shown = rest := by
  induction expected generalizing shown with
  | nil => simp [requireAgreement, AllAgree, unexpected]
  | cons e entries ih =>
      rw [List.map_cons, List.nodup_cons] at hkeys
      rw [requireAgreement, raiseIf_bind_eq_ok, not_not, ih hkeys.2, allAgree_cons,
        allAgree_popItem hkeys.1, and_assoc]
      rfl

/-- What a comparison accepts that joins flags with `both`. -/
structure Accepts (both : Option Bool → Option Bool → Option Bool) (positions : List RemotePosition)
    (exposures : List PerpExposure) (isolated : Bool) : Prop where
  short : ∀ p ∈ positions, p.side = "short"
  localLevel : LocalLevel exposures []
  remoteLevel : RemoteLevel both positions []
  agree : AllAgree isolated (expectedOf exposures) (shownOf both positions)
  rest : unexpected (expectedOf exposures) (shownOf both positions) = []

/-- `_position_reasons` gives no reason for what it accepts. -/
theorem positionReasons_accepts :
    positionReasons positions exposures isolated = []
      ↔ Accepts pyAnd positions exposures isolated := by
  have hkeys : ((expectedOf exposures).map (·.1)).Nodup := gather_nodup List.nodup_nil
  unfold positionReasons
  -- The three passes in turn: a reason that one of them gives is never dropped later.
  rcases @expectedPositions_cases exposures [] [] with ⟨hlocal, heq⟩ | ⟨hlocal, hne⟩
  · rw [heq]
    rcases @shownPositions_cases positions [] [] with ⟨⟨hshort, hremote⟩, heq'⟩ | ⟨hnot, hne⟩
    · simp only [heq']
      rcases @comparePositions_cases isolated [] (expectedOf exposures) (shownOf pyAnd positions)
        hkeys with ⟨hall, heq''⟩ | ⟨hall, hne⟩
      · unfold expectedOf shownOf at heq'' hall
        simp only [heq'']
        by_cases hrest : unexpected (expectedOf exposures) (shownOf pyAnd positions) = []
        · unfold expectedOf shownOf at hrest
          simp only [hrest, if_true, true_iff]
          exact ⟨hshort, hlocal, hremote, hall, hrest⟩
        · have hno : ¬Accepts pyAnd positions exposures isolated := fun h => hrest h.rest
          unfold expectedOf shownOf at hrest
          simp [hrest, hno]
      · have hno : ¬Accepts pyAnd positions exposures isolated := fun h => hall h.agree
        unfold expectedOf shownOf at hne
        simp only [hno, iff_false]
        intro h
        split at h
        · exact hne h
        · simp at h
    · have hno : ¬Accepts pyAnd positions exposures isolated :=
        fun h => hnot ⟨h.short, h.remoteLevel⟩
      simp only [hno, iff_false]
      obtain ⟨more, hmore⟩ := @comparePositions_grows isolated
        (shownPositions positions [] []).2 (gather (·.symbol) joinExposure exposures [])
        (shownPositions positions [] []).1
      intro h
      split at h
      · rw [hmore] at h
        exact hne (List.append_eq_nil_iff.mp h).1
      · simp at h
  · have hno : ¬Accepts pyAnd positions exposures isolated := fun h => hlocal h.localLevel
    simp only [hno, iff_false]
    obtain ⟨more, hmore⟩ := @shownPositions_grows positions (expectedPositions exposures [] []).2 []
    obtain ⟨more', hmore'⟩ := @comparePositions_grows isolated
      (shownPositions positions [] (expectedPositions exposures [] []).2).2
      (expectedPositions exposures [] []).1
      (shownPositions positions [] (expectedPositions exposures [] []).2).1
    intro h
    split at h
    · rw [hmore', hmore] at h
      exact hne (List.append_eq_nil_iff.mp (List.append_eq_nil_iff.mp h).1).1
    · simp at h

/-- `_validate_paired_positions` does not raise for what it accepts. -/
theorem validatePairedPositions_accepts :
    validatePairedPositions exposures positions isolated = .ok ()
      ↔ Accepts strictAnd positions exposures isolated := by
  have hkeys : ((expectedOf exposures).map (·.1)).Nodup := gather_nodup List.nodup_nil
  unfold validatePairedPositions
  rw [bind_eq_ok]
  constructor
  · rintro ⟨expected, hexpected, h⟩
    obtain ⟨shown, hshown, h⟩ := bind_eq_ok.mp h
    obtain ⟨rest, hrest, h⟩ := bind_eq_ok.mp h
    obtain ⟨hlocal, rfl⟩ := requireExpected_eq_ok.mp hexpected
    obtain ⟨⟨hshort, hremote⟩, rfl⟩ := requireShown_eq_ok.mp hshown
    obtain ⟨hall, rfl⟩ := (requireAgreement_eq_ok hkeys).mp hrest
    exact ⟨hshort, hlocal, hremote, hall, not_not.mp (raiseIf_eq_ok.mp h)⟩
  · intro h
    exact ⟨_, requireExpected_eq_ok.mpr ⟨h.localLevel, rfl⟩, bind_eq_ok.mpr
      ⟨_, requireShown_eq_ok.mpr ⟨⟨h.short, h.remoteLevel⟩, rfl⟩, bind_eq_ok.mpr
        ⟨_, (requireAgreement_eq_ok hkeys).mpr ⟨h.agree, rfl⟩,
          raiseIf_eq_ok.mpr (not_not.mpr h.rest)⟩⟩⟩

end Loops

/-! ## §4. What matches. -/

/-- The quantity expected of a symbol. -/
def localTotal (exposures : List PerpExposure) (symbol : String) : ℚ :=
  ((exposures.filter (·.symbol = symbol)).map (·.quantity)).sum

/-- The quantity shown of a symbol. -/
def remoteTotal (positions : List RemotePosition) (symbol : String) : ℚ :=
  ((positions.filter (·.symbol = symbol)).map (·.quantity)).sum

/-- The margin flags of a symbol, in the order of its entries. -/
def flagsOf (positions : List RemotePosition) (symbol : String) : List (Option Bool) :=
  (positions.filter (·.symbol = symbol)).map (·.isolated)

/-- The flags of a symbol, joined. -/
def joined (both : Option Bool → Option Bool → Option Bool) : List (Option Bool) → Option (Option Bool)
  | [] => none
  | flag :: rest => some (rest.foldl both flag)

/-- The account has the short positions that the open pairs say, margin flags
apart. -/
structure Matches (positions : List RemotePosition) (exposures : List PerpExposure) : Prop where
  short : ∀ p ∈ positions, p.side = "short"
  localLeverage : ∀ e ∈ exposures, ∀ e' ∈ exposures, e.symbol = e'.symbol → e.leverage = e'.leverage
  remoteLeverage : ∀ p ∈ positions, ∀ p' ∈ positions, p.symbol = p'.symbol → p.leverage = p'.leverage
  symbols : ∀ s, (∃ e ∈ exposures, e.symbol = s) ↔ ∃ p ∈ positions, p.symbol = s
  leverage : ∀ p ∈ positions, ∀ e ∈ exposures, p.symbol = e.symbol → p.leverage = e.leverage
  quantity : ∀ s, numericEqual (remoteTotal positions s) (localTotal exposures s) = true

section Totals

variable {both : Option Bool → Option Bool → Option Bool} {exposures : List PerpExposure}
  {positions : List RemotePosition} {isolated : Bool} {s : String}

/-- Exposures of one leverage join to the sum of their quantities. -/
theorem foldl_joinExposure {es : List PerpExposure} {v : ℚ × Nat} (h : ∀ e ∈ es, e.leverage = v.2) :
    es.foldl (fun o e => some (joinExposure o e)) (some v)
      = some (v.1 + (es.map (·.quantity)).sum, v.2) := by
  induction es generalizing v with
  | nil => simp
  | cons e rest ih =>
      have hlev : e.leverage = v.2 := h e (by simp)
      rw [List.foldl_cons]
      have hstep : joinExposure (some v) e = (v.1 + e.quantity, v.2) := by
        unfold joinExposure
        rw [hlev]
        rfl
      rw [hstep, @ih (v.1 + e.quantity, v.2) (fun e' he' => h e' (by simp [he']))]
      simp [add_assoc]

/-- So do positions of one leverage; their flags join by `both`. -/
theorem foldl_joinPosition {ps : List RemotePosition} {v : ℚ × ℚ × Option Bool}
    (h : ∀ p ∈ ps, p.leverage = v.2.1) :
    ps.foldl (fun o p => some (joinPosition both o p)) (some v)
      = some (v.1 + (ps.map (·.quantity)).sum, v.2.1, (ps.map (·.isolated)).foldl both v.2.2) := by
  induction ps generalizing v with
  | nil => simp
  | cons p rest ih =>
      have hlev : p.leverage = v.2.1 := h p (by simp)
      rw [List.foldl_cons]
      have hstep : joinPosition both (some v) p = (v.1 + p.quantity, v.2.1, both v.2.2 p.isolated) := by
        unfold joinPosition
        rw [hlev]
      rw [hstep, @ih (v.1 + p.quantity, v.2.1, both v.2.2 p.isolated)
        (fun p' hp' => h p' (by simp [hp']))]
      simp [add_assoc]

/-- What is expected of a symbol whose exposures have one leverage. -/
theorem getItem_expectedOf {e : PerpExposure} (he : e ∈ exposures)
    (h : ∀ e ∈ exposures, ∀ e' ∈ exposures, e.symbol = e'.symbol → e.leverage = e'.leverage) :
    getItem (expectedOf exposures) e.symbol = some (localTotal exposures e.symbol, e.leverage) := by
  unfold expectedOf localTotal
  rw [getItem_gather]
  have hmem : ∀ a ∈ exposures.filter (·.symbol = e.symbol), a.leverage = e.leverage := by
    intro a ha
    obtain ⟨ha, hsymbol⟩ := List.mem_filter.mp ha
    exact h a ha e he (by simpa using hsymbol)
  cases hfilter : exposures.filter (·.symbol = e.symbol) with
  | nil =>
      have := List.filter_eq_nil_iff.mp hfilter e he
      simp at this
  | cons a rest =>
      rw [hfilter] at hmem
      have hfirst : joinExposure (getItem [] e.symbol) a = (a.quantity, e.leverage) := by
        unfold joinExposure
        rw [hmem a (by simp)]
        simp [getItem]
      rw [List.foldl_cons, hfirst, foldl_joinExposure fun b hb => hmem b (by simp [hb])]
      simp

/-- What is shown of a symbol whose positions have one leverage. -/
theorem getItem_shownOf {p : RemotePosition} (hp : p ∈ positions)
    (h : ∀ p ∈ positions, ∀ p' ∈ positions, p.symbol = p'.symbol → p.leverage = p'.leverage) :
    ∃ flag, joined both (flagsOf positions p.symbol) = some flag
      ∧ getItem (shownOf both positions) p.symbol
        = some (remoteTotal positions p.symbol, p.leverage, flag) := by
  unfold shownOf remoteTotal flagsOf
  rw [getItem_gather]
  have hmem : ∀ a ∈ positions.filter (·.symbol = p.symbol), a.leverage = p.leverage := by
    intro a ha
    obtain ⟨ha, hsymbol⟩ := List.mem_filter.mp ha
    exact h a ha p hp (by simpa using hsymbol)
  cases hfilter : positions.filter (·.symbol = p.symbol) with
  | nil =>
      have := List.filter_eq_nil_iff.mp hfilter p hp
      simp at this
  | cons a rest =>
      rw [hfilter] at hmem
      have hfirst : joinPosition both (getItem [] p.symbol) a = (a.quantity, p.leverage, a.isolated) := by
        unfold joinPosition
        rw [hmem a (by simp)]
        simp [getItem]
      refine ⟨_, rfl, ?_⟩
      rw [List.foldl_cons, hfirst, foldl_joinPosition fun b hb => hmem b (by simp [hb])]
      simp

theorem foldl_some_eq_none {ι β : Type} {f : Option β → ι → β} {items : List ι} {o : Option β} :
    items.foldl (fun o i => some (f o i)) o = none ↔ items = [] ∧ o = none := by
  induction items generalizing o with
  | nil => simp
  | cons i rest ih => simp [ih]

/-- A symbol without items is not in the dictionary. -/
theorem getItem_gather_eq_none {ι β : Type} {key : ι → String} {join : Option β → ι → β}
    {items : List ι} {k : String} :
    getItem (gather key join items []) k = none ↔ ∀ i ∈ items, key i ≠ k := by
  rw [getItem_gather, foldl_some_eq_none, List.filter_eq_nil_iff]
  simp [getItem]

/-- Items gathered one by one are level exactly where those of a key are all of
one level. -/
theorem level_uniform {ι β L : Type} {key : ι → String} {join : Option β → ι → β} {level : ι → L}
    {lev : β → L} {items : List ι} (hjoin : ∀ o i, lev (join o i) = level i) :
    Level key join level lev items [] ↔ Uniform key level items := by
  rw [level_iff hjoin]
  simp [getItem]

/-- The exposures of a symbol have one leverage. -/
theorem localLevel_iff : LocalLevel exposures []
    ↔ ∀ e ∈ exposures, ∀ e' ∈ exposures, e.symbol = e'.symbol → e.leverage = e'.leverage :=
  level_uniform fun _ _ => rfl

/-- The positions of a symbol have one leverage. -/
theorem remoteLevel_iff : RemoteLevel both positions []
    ↔ ∀ p ∈ positions, ∀ p' ∈ positions, p.symbol = p'.symbol → p.leverage = p'.leverage :=
  level_uniform fun o _ => by cases o <;> rfl

/-- What is not expected is nothing exactly if every symbol shown is expected. -/
theorem unexpected_eq_nil : unexpected (expectedOf exposures) (shownOf both positions) = []
    ↔ ∀ p ∈ positions, ∃ e ∈ exposures, e.symbol = p.symbol := by
  have hkeys : ((expectedOf exposures).map (·.1)).Nodup := gather_nodup List.nodup_nil
  -- The keys that are expected are the symbols of the exposures.
  have hmem : ∀ k, k ∈ (expectedOf exposures).map (·.1) ↔ ∃ e ∈ exposures, e.symbol = k := by
    intro k
    have hnone : getItem (expectedOf exposures) k = none ↔ ∀ e ∈ exposures, e.symbol ≠ k :=
      getItem_gather_eq_none
    constructor
    · intro hk
      obtain ⟨⟨k', v⟩, hv, rfl⟩ := List.mem_map.mp hk
      by_contra hno
      have := hnone.mpr fun e he heq => hno ⟨e, he, heq⟩
      rw [(mem_iff_getItem hkeys).mp hv] at this
      cases this
    · rintro ⟨e, he, heq⟩
      cases hget : getItem (expectedOf exposures) k with
      | none => exact absurd heq (hnone.mp hget e he)
      | some v => exact List.mem_map.mpr ⟨(k, v), (mem_iff_getItem hkeys).mpr hget, rfl⟩
  -- A dictionary is empty exactly if no key has a value.
  rw [eq_nil_iff_getItem]
  constructor
  · intro h p hp
    have := h p.symbol
    rw [getItem_unexpected] at this
    by_contra hno
    rw [if_neg (fun hk => hno ((hmem _).mp hk))] at this
    exact getItem_gather_eq_none.mp this p hp rfl
  · intro h k
    rw [getItem_unexpected]
    by_cases hk : k ∈ (expectedOf exposures).map (·.1)
    · rw [if_pos hk]
    · rw [if_neg hk]
      refine getItem_gather_eq_none.mpr fun p hp heq => hk ((hmem k).mpr ?_)
      rw [← heq]
      exact h p hp

/-- A comparison accepts what matches and whose flags it joins to the expected
mode. -/
theorem accepts_iff : Accepts both positions exposures isolated
    ↔ Matches positions exposures
      ∧ ∀ p ∈ positions, joined both (flagsOf positions p.symbol) = some (some isolated) := by
  have hkeys : ((expectedOf exposures).map (·.1)).Nodup := gather_nodup List.nodup_nil
  constructor
  · intro h
    have hlocal := localLevel_iff.mp h.localLevel
    have hremote := remoteLevel_iff.mp h.remoteLevel
    have hexpected := unexpected_eq_nil.mp h.rest
    -- What an exposure and the positions of its symbol say of each other.
    have hagree : ∀ e ∈ exposures, ∃ actual ∈ getItem (shownOf both positions) e.symbol,
        agrees isolated actual (localTotal exposures e.symbol, e.leverage) := fun e he =>
      h.agree (e.symbol, _) ((mem_iff_getItem hkeys).mpr (getItem_expectedOf he hlocal))
    have hpair : ∀ p ∈ positions, ∀ e ∈ exposures, p.symbol = e.symbol →
        numericEqual (remoteTotal positions p.symbol) (localTotal exposures p.symbol) = true
          ∧ p.leverage = e.leverage
          ∧ joined both (flagsOf positions p.symbol) = some (some isolated) := by
      intro p hp e he hsymbol
      obtain ⟨actual, hactual, hq, hlev, hflag⟩ := hagree e he
      obtain ⟨flag, hjoined, hshown⟩ := @getItem_shownOf both positions p hp hremote
      rw [hsymbol] at hshown
      obtain rfl := Option.some.inj (hshown.symm.trans hactual)
      refine ⟨?_, hlev, ?_⟩
      · rw [hsymbol]
        exact hq
      · rw [hjoined]
        exact congrArg some hflag
    refine ⟨⟨h.short, hlocal, hremote, ?_, ?_, ?_⟩, ?_⟩
    · intro s
      constructor
      · rintro ⟨e, he, rfl⟩
        by_contra hno
        obtain ⟨actual, hactual, -⟩ := hagree e he
        have hnone : getItem (shownOf both positions) e.symbol = none :=
          getItem_gather_eq_none.mpr fun p hp heq => hno ⟨p, hp, heq⟩
        rw [hnone] at hactual
        cases hactual
      · rintro ⟨p, hp, rfl⟩
        exact hexpected p hp
    · intro p hp e he hsymbol
      exact (hpair p hp e he hsymbol).2.1
    · intro s
      by_cases hs : ∃ p ∈ positions, p.symbol = s
      · obtain ⟨p, hp, rfl⟩ := hs
        obtain ⟨e, he, hsymbol⟩ := hexpected p hp
        exact (hpair p hp e he hsymbol.symm).1
      · -- A symbol of neither side has no quantity.
        have hremoteNil : positions.filter (·.symbol = s) = [] :=
          List.filter_eq_nil_iff.mpr fun p hp heq => hs ⟨p, hp, by simpa using heq⟩
        have hlocalNil : exposures.filter (·.symbol = s) = [] := by
          refine List.filter_eq_nil_iff.mpr fun e he heq => ?_
          obtain rfl : e.symbol = s := by simpa using heq
          obtain ⟨actual, hactual, -⟩ := hagree e he
          have hnone : getItem (shownOf both positions) e.symbol = none :=
            getItem_gather_eq_none.mpr fun p hp heq => hs ⟨p, hp, heq⟩
          rw [hnone] at hactual
          cases hactual
        unfold remoteTotal localTotal
        rw [hremoteNil, hlocalNil]
        decide +kernel
    · intro p hp
      obtain ⟨e, he, hsymbol⟩ := hexpected p hp
      exact (hpair p hp e he hsymbol.symm).2.2
  · rintro ⟨h, hflags⟩
    refine ⟨h.short, localLevel_iff.mpr h.localLeverage, remoteLevel_iff.mpr h.remoteLeverage, ?_, ?_⟩
    · rintro ⟨s, v⟩ hv
      have hget := (mem_iff_getItem hkeys).mp hv
      have hsome : ∃ e ∈ exposures, e.symbol = s := by
        by_contra hno
        have hnone : getItem (expectedOf exposures) s = none :=
          getItem_gather_eq_none.mpr fun e he heq => hno ⟨e, he, heq⟩
        rw [hnone] at hget
        cases hget
      obtain ⟨e, he, rfl⟩ := hsome
      obtain rfl := Option.some.inj ((getItem_expectedOf he h.localLeverage).symm.trans hget)
      obtain ⟨p, hp, hsymbol⟩ := (h.symbols e.symbol).mp ⟨e, he, rfl⟩
      obtain ⟨flag, hjoined, hshown⟩ := @getItem_shownOf both positions p hp h.remoteLeverage
      obtain rfl : flag = some isolated := Option.some.inj (hjoined.symm.trans (hflags p hp))
      rw [← hsymbol]
      refine ⟨_, hshown, h.quantity p.symbol, ?_, rfl⟩
      exact h.leverage p hp e he hsymbol
    · exact unexpected_eq_nil.mpr fun p hp => (h.symbols p.symbol).mpr ⟨p, hp, rfl⟩

/-- `_position_reasons` gives no reason for positions that match and whose first
flag that is not isolated is the expected mode. -/
theorem positionReasons_eq_nil : positionReasons positions exposures isolated = []
    ↔ Matches positions exposures
      ∧ ∀ p ∈ positions, joined pyAnd (flagsOf positions p.symbol) = some (some isolated) :=
  positionReasons_accepts.trans accepts_iff

/-- `_validate_paired_positions` does not raise for positions that match and
whose flags are isolated together in the expected mode. -/
theorem validatePairedPositions_eq_ok : validatePairedPositions exposures positions isolated = .ok ()
    ↔ Matches positions exposures
      ∧ ∀ p ∈ positions, joined strictAnd (flagsOf positions p.symbol) = some (some isolated) :=
  validatePairedPositions_accepts.trans accepts_iff

end Totals

/-! ## §5. Margin flags. -/

section Flags

variable {flag : Option Bool} {flags : List (Option Bool)}

/-- Python's `and` of three-valued flags is true exactly where all are. -/
theorem foldl_pyAnd_true : flags.foldl pyAnd flag = some true ↔ ∀ f ∈ flag :: flags, f = some true := by
  induction flags generalizing flag with
  | nil => simp
  | cons f rest ih =>
      rw [List.foldl_cons, ih]
      by_cases h : flag = some true <;> simp [pyAnd, h]

/-- So is the strict one. -/
theorem foldl_strictAnd_true :
    flags.foldl strictAnd flag = some true ↔ ∀ f ∈ flag :: flags, f = some true := by
  induction flags generalizing flag with
  | nil => simp
  | cons f rest ih =>
      rw [List.foldl_cons, ih]
      simp [strictAnd, and_assoc]

/-- Once a flag is not isolated, `and` keeps it. -/
theorem foldl_pyAnd_of_ne (h : flag ≠ some true) : flags.foldl pyAnd flag = flag := by
  induction flags with
  | nil => rfl
  | cons f rest ih =>
      rw [List.foldl_cons, pyAnd, if_neg h]
      exact ih

/-- Two entries and more are joined to a flag that is known. -/
theorem foldl_strictAnd_false :
    flags.foldl strictAnd flag = some false
      ↔ (flags = [] ∧ flag = some false) ∨ (flags ≠ [] ∧ ¬∀ f ∈ flag :: flags, f = some true) := by
  induction flags generalizing flag with
  | nil => simp
  | cons f rest ih =>
      rw [List.foldl_cons, ih]
      by_cases hflag : flag = some true <;> by_cases hf : f = some true <;>
        cases rest <;> simp [strictAnd, hflag, hf]

/-- In isolated mode both ask for every flag. -/
theorem joined_true :
    joined pyAnd flags = some (some true) ↔ joined strictAnd flags = some (some true) := by
  cases flags with
  | nil => rfl
  | cons flag rest =>
      unfold joined
      rw [Option.some_inj, Option.some_inj, foldl_pyAnd_true, foldl_strictAnd_true]

theorem joined_strictAnd_true (h : flags ≠ []) :
    joined strictAnd flags = some (some true) ↔ ∀ f ∈ flags, f = some true := by
  cases flags with
  | nil => exact absurd rfl h
  | cons flag rest =>
      unfold joined
      rw [Option.some_inj, foldl_strictAnd_true]

/-- In cross mode only an unknown flag of its own, or entries that all are
isolated, are refused. -/
theorem joined_strictAnd_false (h : flags ≠ []) :
    joined strictAnd flags = some (some false) ↔ ¬(flags = [none] ∨ ∀ f ∈ flags, f = some true) := by
  cases flags with
  | nil => exact absurd rfl h
  | cons flag rest =>
      unfold joined
      rw [Option.some_inj, foldl_strictAnd_false]
      cases rest with
      | nil => rcases flag with _ | _ | _ <;> simp
      | cons f rest => simp

/-- What `and` joins to not isolated, the other one does too. -/
theorem joined_pyAnd_false (h : joined pyAnd flags = some (some false)) :
    joined strictAnd flags = some (some false) := by
  cases flags with
  | nil => cases h
  | cons flag rest =>
      rw [joined_strictAnd_false (by simp)]
      rintro (hnone | hall)
      · rw [hnone] at h
        cases h
      · have htrue := joined_true.mpr ((joined_strictAnd_true (by simp)).mpr hall)
        rw [htrue] at h
        cases h

/-- Flags that all say not isolated are joined to that. -/
theorem joined_pyAnd_of_all (h : flags ≠ []) (hall : ∀ f ∈ flags, f = some false) :
    joined pyAnd flags = some (some false) := by
  cases flags with
  | nil => exact absurd rfl h
  | cons flag rest =>
      have hflag : flag = some false := hall flag (by simp)
      show some (rest.foldl pyAnd flag) = _
      rw [hflag, foldl_pyAnd_of_ne (by decide)]

end Flags

/-! ## §6. Agreement. -/

section Agreement

variable {positions : List RemotePosition} {exposures : List PerpExposure} {isolated : Bool}

/-- What matches, every entry in the expected mode. -/
def Exact (positions : List RemotePosition) (exposures : List PerpExposure) (isolated : Bool) : Prop :=
  Matches positions exposures ∧ ∀ p ∈ positions, p.isolated = some isolated

/-- Both comparisons accept exactly what matches in the expected mode. -/
structure ChecksAgree (positions : List RemotePosition) (exposures : List PerpExposure)
    (isolated : Bool) : Prop where
  same : positionReasons positions exposures isolated = []
    ↔ validatePairedPositions exposures positions isolated = .ok ()
  exactly : positionReasons positions exposures isolated = [] ↔ Exact positions exposures isolated

/-- The flags leave no room: isolated mode, or all not isolated, or a symbol that
both refuse, or the positions conflict anyway. -/
def Unambiguous (positions : List RemotePosition) (exposures : List PerpExposure) (isolated : Bool) :
    Prop :=
  isolated = true ∨ ¬Matches positions exposures ∨ (∀ p ∈ positions, p.isolated = some false)
    ∨ ∃ p ∈ positions, flagsOf positions p.symbol = [none]
      ∨ ∀ f ∈ flagsOf positions p.symbol, f = some true

/-- The flag of a position is among those of its symbol. -/
theorem mem_flagsOf {p : RemotePosition} (hp : p ∈ positions) :
    p.isolated ∈ flagsOf positions p.symbol :=
  List.mem_map.mpr ⟨p, List.mem_filter.mpr ⟨hp, by simp⟩, rfl⟩

/-- Every flag of every symbol is one of an entry. -/
theorem forall_flagsOf {f : Option Bool} :
    (∀ p ∈ positions, ∀ g ∈ flagsOf positions p.symbol, g = f) ↔ ∀ p ∈ positions, p.isolated = f := by
  constructor
  · intro h p hp
    exact h p hp _ (mem_flagsOf hp)
  · intro h p hp g hg
    obtain ⟨q, hq, rfl⟩ := List.mem_map.mp hg
    exact h q (List.mem_filter.mp hq).1

/-- In isolated mode both accept exactly what they should. -/
theorem checksAgree_isolated : ChecksAgree positions exposures true where
  same := by
    rw [positionReasons_eq_nil, validatePairedPositions_eq_ok]
    simp only [joined_true]
  exactly := by
    rw [positionReasons_eq_nil, Exact, ← forall_flagsOf]
    refine and_congr_right fun _ => forall₂_congr fun p hp => ?_
    rw [joined_true, joined_strictAnd_true (List.ne_nil_of_mem (mem_flagsOf hp))]

/-- The two comparisons agree, and are exact, exactly if the flags leave no
room. -/
theorem position_checks_agree_iff :
    ChecksAgree positions exposures isolated ↔ Unambiguous positions exposures isolated := by
  cases isolated with
  | true => exact ⟨fun _ => .inl rfl, fun _ => checksAgree_isolated⟩
  | false =>
      by_cases hmatch : Matches positions exposures
      · -- Exact is accepted by the first, and what the first accepts by the second.
        have hreasons : positionReasons positions exposures false = []
            ↔ ∀ p ∈ positions, joined pyAnd (flagsOf positions p.symbol) = some (some false) := by
          rw [positionReasons_eq_nil, and_iff_right hmatch]
        have hvalidate : validatePairedPositions exposures positions false = .ok ()
            ↔ ∀ p ∈ positions, joined strictAnd (flagsOf positions p.symbol) = some (some false) := by
          rw [validatePairedPositions_eq_ok, and_iff_right hmatch]
        have hexact : Exact positions exposures false ↔ ∀ p ∈ positions, p.isolated = some false :=
          and_iff_right hmatch
        have hfirst : (∀ p ∈ positions, p.isolated = some false) →
            ∀ p ∈ positions, joined pyAnd (flagsOf positions p.symbol) = some (some false) := by
          intro hall p hp
          exact joined_pyAnd_of_all (List.ne_nil_of_mem (mem_flagsOf hp)) (forall_flagsOf.mpr hall p hp)
        constructor
        · rintro ⟨hsame, hex⟩
          rw [hreasons] at hsame hex
          rw [hvalidate] at hsame
          rw [hexact] at hex
          by_cases hrefused : ∃ p ∈ positions, flagsOf positions p.symbol = [none]
              ∨ ∀ f ∈ flagsOf positions p.symbol, f = some true
          · exact .inr (.inr (.inr hrefused))
          · refine .inr (.inr (.inl (hex.mp (hsame.mpr fun p hp => ?_))))
            rw [joined_strictAnd_false (List.ne_nil_of_mem (mem_flagsOf hp))]
            exact fun h => hrefused ⟨p, hp, h⟩
        · rintro (h | h | h | ⟨p, hp, h⟩)
          · cases h
          · exact absurd hmatch h
          · refine ⟨?_, ?_⟩
            · rw [hreasons, hvalidate]
              exact iff_of_true (hfirst h) fun p hp => joined_pyAnd_false (hfirst h p hp)
            · rw [hreasons, hexact]
              exact iff_of_true (hfirst h) h
          · have hsecond : ¬∀ p ∈ positions,
                joined strictAnd (flagsOf positions p.symbol) = some (some false) := fun hall =>
              (joined_strictAnd_false (List.ne_nil_of_mem (mem_flagsOf hp))).mp (hall p hp) h
            have hnot : ¬∀ p ∈ positions,
                joined pyAnd (flagsOf positions p.symbol) = some (some false) := fun hall =>
              hsecond fun p hp => joined_pyAnd_false (hall p hp)
            refine ⟨?_, ?_⟩
            · rw [hreasons, hvalidate]
              exact iff_of_false hnot hsecond
            · rw [hreasons, hexact]
              exact iff_of_false hnot fun hall => hnot (hfirst hall)
      · refine iff_of_true ⟨?_, ?_⟩ (.inr (.inl hmatch))
        · rw [positionReasons_eq_nil, validatePairedPositions_eq_ok]
          exact iff_of_false (fun h => hmatch h.1) fun h => hmatch h.1
        · rw [positionReasons_eq_nil]
          exact iff_of_false (fun h => hmatch h.1) fun h => hmatch h.1

end Agreement

namespace Sample

/-- A short position of one coin. -/
def shortOf (isolated : Option Bool) : RemotePosition where
  symbol := "BTC-USDT-SWAP"
  side := "short"
  quantity := 1
  entryPrice := 60000
  markPrice := 60000
  liquidationPrice := none
  leverage := 3
  isolated

/-- The open pairs say two coins. -/
def twoCoins : PerpExposure := ⟨"BTC-USDT-SWAP", 2, 3⟩

end Sample

/-- In cross mode an unknown flag before a cross entry is refused by the one and
accepted by the other, and an isolated entry beside a cross one is accepted by
both. -/
theorem position_checks_differ :
    positionReasons [Sample.shortOf none, Sample.shortOf (some false)] [Sample.twoCoins] false
        = ["remote short position conflicts with the local pair"]
      ∧ validatePairedPositions [Sample.twoCoins] [Sample.shortOf none, Sample.shortOf (some false)] false
        = .ok ()
      ∧ positionReasons [Sample.shortOf (some true), Sample.shortOf (some false)] [Sample.twoCoins] false
        = []
      ∧ validatePairedPositions [Sample.twoCoins]
        [Sample.shortOf (some true), Sample.shortOf (some false)] false = .ok () := by
  decide +kernel

end BasisHawk.Reconciliation
