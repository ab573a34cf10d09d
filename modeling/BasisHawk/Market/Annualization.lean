/-
  BasisHawk.Market.Annualization
  ──────────────────────────────
  Historical and current annual rates (`calculations.py`).

  A history with one observation of a rate every few hours has, in a window of
  a whole number of intervals, one observation for each interval.  Both ends of
  the window belong to it: where an observation falls on the one, one falls on
  the other, and there is one too many.

  Nor is the arithmetic exact.  The days of the window are a quotient of 28
  digits, and dividing by it undoes what multiplying by the number of intervals
  has done only if nothing was cut off.

  Main results:
    • `length_within` — how many observations a window has,
    • `annualizeHistory_regular` — what `annualize_history` makes of them,
    • `not_roundAlike_succ` — an observation too many is never rounded away,
    • `FewDigits.roundAlike_iff` — without it only the days of the window can make
      a difference,
    • `Plain.daysKept` — and they make none for plain inputs,
    • `annualize_agree_iff` — when it agrees with `annualize_current`,
    • `annualize_aligned` — a window of a day with four observations every
      eight hours.
-/
import BasisHawk.Market.Calculations
import Mathlib.Algebra.Order.Ring.Pow
import Mathlib.Order.Interval.Finset.Nat
import Mathlib.Data.List.Sort
import Mathlib.Tactic.FieldSimp

namespace BasisHawk.Market

open Domain Lib

/-! ## §1. Windows of a regular history. -/

/-- A history of one settled observation of `rate` every `interval` hours, which
are `step` microseconds: `count` of them, from `first` on, in any order. -/
structure Regular (observations : List FundingObservation) (rate interval : ℚ) (step first : Int)
    (count : Nat) : Prop where
  each : ∀ o ∈ observations, o.settled = true ∧ o.rate = rate ∧ o.intervalHours = interval
  times : (observations.map (·.fundingAt)).Perm ((List.range count).map fun (k : ℕ) => first + k * step)
  step_eq : (step : ℚ) = interval * 3600000000
  step_pos : 0 < step

/-- The window is `m` intervals long, and the history reaches over both of its
ends. -/
structure Covered (step first : Int) (count : Nat) (start stop : Int) (m : Nat) : Prop where
  length : stop - start = m * step
  nonempty : 0 < m
  before : first ≤ start
  after : stop ≤ first + (count - 1) * step

/-- An observation falls on the beginning of the window, and one on its end. -/
def Aligned (step first start : Int) : Prop := (start - first) % step = 0

instance (step first start : Int) : Decidable (Aligned step first start) :=
  inferInstanceAs (Decidable (_ = _))

/-! ## §2. How many observations there are. -/

theorem length_filter_range {n i j : Nat} (hj : j < n) :
    ((List.range n).filter fun k => i ≤ k ∧ k ≤ j).length = j + 1 - i := by
  have hfinset : ((Finset.range n).filter fun k => i ≤ k ∧ k ≤ j) = Finset.Icc i j := by
    ext k
    rw [Finset.mem_filter, Finset.mem_range, Finset.mem_Icc]
    omega
  calc ((List.range n).filter fun k => i ≤ k ∧ k ≤ j).length
      = ((Finset.range n).filter fun k => i ≤ k ∧ k ≤ j).card := rfl
    _ = j + 1 - i := by rw [hfinset, Nat.card_Icc]

/-- The first observation from the beginning of the window on. -/
def earliest (step first start : Int) : Int := -((first - start) / step)

/-- The last one up to its end. -/
def latest (step first stop : Int) : Int := (stop - first) / step

section Window

variable {observations : List FundingObservation} {rate interval : ℚ} {step first start stop : Int}
  {count m : Nat}

/-- The settlements of a window, by their number: those between the earliest and
the latest that the window reaches. -/
theorem within_iff (hstep : 0 < step) (k : ℕ) :
    (start ≤ first + k * step ∧ first + k * step ≤ stop)
      ↔ earliest step first start ≤ k ∧ (k : Int) ≤ latest step first stop := by
  have hearliest : earliest step first start ≤ k ↔ start ≤ first + k * step := by
    unfold earliest
    rw [neg_le, Int.le_ediv_iff_mul_le hstep]
    constructor <;> intro h <;> linarith
  have hlatest : (k : Int) ≤ latest step first stop ↔ first + k * step ≤ stop := by
    unfold latest
    rw [Int.le_ediv_iff_mul_le hstep]
    constructor <;> intro h <;> linarith
  rw [hearliest, hlatest]

/-- Rounding up and down differ unless nothing is left over. -/
theorem earliest_eq (hstep : 0 < step) :
    earliest step first start = (start - first) / step + if Aligned step first start then 0 else 1 := by
  have hdiv := Int.emod_add_mul_ediv (start - first) step
  have hmod := Int.emod_nonneg (start - first) hstep.ne'
  have hlt := Int.emod_lt_of_pos (start - first) hstep
  unfold earliest
  by_cases h : Aligned step first start
  · rw [if_pos h]
    have h : (start - first) % step = 0 := h
    have hneg : first - start = -((start - first) / step) * step := by
      rw [h] at hdiv
      linarith
    rw [hneg, Int.mul_ediv_cancel _ hstep.ne']
    omega
  · rw [if_neg h]
    have hpos : 0 < (start - first) % step := lt_of_le_of_ne hmod fun h0 => h h0.symm
    have hneg : first - start
        = (step - (start - first) % step) + (-((start - first) / step) - 1) * step := by linarith
    rw [hneg, Int.add_mul_ediv_right _ _ hstep.ne',
      Int.ediv_eq_zero_of_lt (by linarith) (by linarith)]
    ring

/-- The window has an observation for each interval, and one more where it
begins on one. -/
theorem latest_eq (hstep : 0 < step) (hlength : stop - start = m * step) :
    latest step first stop = earliest step first start + m
      - if Aligned step first start then 0 else 1 := by
  unfold latest
  rw [earliest_eq hstep, show stop - first = (start - first) + m * step by linarith,
    Int.add_mul_ediv_right _ _ hstep.ne']
  ring

/-! ## §3. The observations of the window. -/

instance : Std.Total fun a b : FundingObservation => a.fundingAt ≤ b.fundingAt :=
  ⟨fun a b => le_total a.fundingAt b.fundingAt⟩

instance : IsTrans FundingObservation fun a b => a.fundingAt ≤ b.fundingAt :=
  ⟨fun _ _ _ h h' => le_trans h h'⟩

/-- What the average is taken over: settled observations inside the window. -/
theorem mem_settledWithin {o : FundingObservation} : o ∈ settledWithin observations start stop
    ↔ o ∈ observations ∧ o.settled = true ∧ start ≤ o.fundingAt ∧ o.fundingAt ≤ stop := by
  unfold settledWithin
  rw [(List.perm_insertionSort _ _).mem_iff, List.mem_filter]
  simp

/-- In a covered window the earliest settlement is an observed one. -/
theorem earliest_nonneg (hc : Covered step first count start stop m) (hstep : 0 < step) :
    0 ≤ earliest step first start := by
  unfold earliest
  have hle : first - start ≤ 0 := by
    have := hc.before
    omega
  have := Int.ediv_le_ediv hstep hle
  rw [Int.zero_ediv] at this
  omega

/-- The last observation of the window is one of the history. -/
theorem latest_lt (hc : Covered step first count start stop m) (hstep : 0 < step) :
    latest step first stop < count := by
  unfold latest
  rw [Int.ediv_lt_iff_lt_mul hstep]
  have := hc.after
  linarith

/-- A covered window holds at least one settlement. -/
theorem earliest_le_latest (hc : Covered step first count start stop m) (hstep : 0 < step) :
    earliest step first start ≤ latest step first stop := by
  rw [latest_eq hstep hc.length]
  have := hc.nonempty
  split <;> omega

/-- The times of the window are those of a stretch of the grid. -/
theorem times_within (h : Regular observations rate interval step first count)
    (hc : Covered step first count start stop m) :
    ((settledWithin observations start stop).map (·.fundingAt)).Perm
      (((List.range count).filter fun k => (earliest step first start).toNat ≤ k
        ∧ k ≤ (latest step first stop).toNat).map fun (k : ℕ) => first + k * step) := by
  let inside : Int → Bool := fun t => start ≤ t ∧ t ≤ stop
  -- Every observation of a regular history is settled.
  have hfilter : (observations.filter fun item =>
      item.settled ∧ start ≤ item.fundingAt ∧ item.fundingAt ≤ stop)
      = observations.filter (inside ∘ (·.fundingAt)) := by
    refine List.filter_congr fun o ho => ?_
    simp [inside, (h.each o ho).1]
  -- The points of the grid inside the window are those from the earliest to the latest.
  have hgrid : (List.range count).filter (inside ∘ fun (k : ℕ) => first + k * step)
      = (List.range count).filter fun k => (earliest step first start).toNat ≤ k
        ∧ k ≤ (latest step first stop).toNat := by
    refine List.filter_congr fun k _ => ?_
    have hnonneg := earliest_nonneg hc h.step_pos
    have hle := earliest_le_latest hc h.step_pos
    have hiff : (start ≤ first + k * step ∧ first + k * step ≤ stop)
        ↔ ((earliest step first start).toNat ≤ k ∧ k ≤ (latest step first stop).toNat) := by
      rw [within_iff h.step_pos]
      omega
    exact decide_eq_decide.mpr hiff
  -- The source sorts what it keeps, so the times are the same up to their order.
  have hsort : ((settledWithin observations start stop).map (·.fundingAt)).Perm
      ((observations.map (·.fundingAt)).filter inside) := by
    unfold settledWithin
    rw [hfilter, List.filter_map]
    exact (List.perm_insertionSort _ _).map _
  refine hsort.trans ?_
  rw [← hgrid, ← List.filter_map]
  exact h.times.filter _

/-- A time of the window is one of the stretch. -/
theorem mem_times (h : Regular observations rate interval step first count)
    (hc : Covered step first count start stop m) {t : Int} :
    (∃ o ∈ settledWithin observations start stop, o.fundingAt = t)
      ↔ ∃ k : ℕ, earliest step first start ≤ k ∧ k ≤ latest step first stop ∧ t = first + k * step := by
  have hnonneg := earliest_nonneg hc h.step_pos
  have hle := earliest_le_latest hc h.step_pos
  have hlt := latest_lt hc h.step_pos
  rw [← List.mem_map, (times_within h hc).mem_iff, List.mem_map]
  constructor
  · rintro ⟨k, hk, rfl⟩
    obtain ⟨-, hk⟩ := List.mem_filter.mp hk
    have hk := of_decide_eq_true hk
    exact ⟨k, by omega, by omega, rfl⟩
  · rintro ⟨k, hk, hk', rfl⟩
    exact ⟨k, List.mem_filter.mpr ⟨List.mem_range.mpr (by omega), by simp; omega⟩, rfl⟩

/-- One observation for each interval, and one more where the window begins on
one. -/
theorem length_within (h : Regular observations rate interval step first count)
    (hc : Covered step first count start stop m) :
    (settledWithin observations start stop).length
      = m + if Aligned step first start then 1 else 0 := by
  have hlength := (times_within h hc).length_eq
  have hlt := latest_lt hc h.step_pos
  have hnonneg := earliest_nonneg hc h.step_pos
  have hle := earliest_le_latest hc h.step_pos
  have heq : latest step first stop = earliest step first start + m
      - if Aligned step first start then 0 else 1 := latest_eq h.step_pos hc.length
  rw [List.length_map, List.length_map, length_filter_range (by omega)] at hlength
  rw [hlength]
  by_cases haligned : Aligned step first start
  · rw [if_pos haligned] at heq ⊢
    omega
  · rw [if_neg haligned] at heq ⊢
    omega

/-- The window's first observation is the earliest. -/
theorem head_within (h : Regular observations rate interval step first count)
    (hc : Covered step first count start stop m) {o : FundingObservation}
    {rest : List FundingObservation} (ho : settledWithin observations start stop = o :: rest) :
    o.fundingAt = first + earliest step first start * step := by
  have hnonneg := earliest_nonneg hc h.step_pos
  have hle := earliest_le_latest hc h.step_pos
  have hsorted : (settledWithin observations start stop).Pairwise
      fun a b => a.fundingAt ≤ b.fundingAt := List.pairwise_insertionSort _ _
  rw [ho] at hsorted
  obtain ⟨k, hk, -, ht⟩ := (mem_times h hc).mp ⟨o, ho ▸ List.mem_cons_self, rfl⟩
  obtain ⟨o', ho', ht'⟩ := (mem_times h hc (t := first + earliest step first start * step)).mpr
    ⟨(earliest step first start).toNat, by omega, by omega, by rw [Int.toNat_of_nonneg hnonneg]⟩
  have hfirst : o.fundingAt ≤ o'.fundingAt := by
    rw [ho] at ho'
    rcases List.mem_cons.mp ho' with rfl | ho'
    · exact le_refl _
    · exact (List.pairwise_cons.mp hsorted).1 o' ho'
  have hstep := mul_le_mul_of_nonneg_right hk h.step_pos.le
  rw [ht'] at hfirst
  linarith

/-- The window's last observation is the latest. -/
theorem last_within (h : Regular observations rate interval step first count)
    (hc : Covered step first count start stop m)
    (hne : settledWithin observations start stop ≠ []) :
    ((settledWithin observations start stop).getLast hne).fundingAt
      = first + latest step first stop * step := by
  have hnonneg := earliest_nonneg hc h.step_pos
  have hle := earliest_le_latest hc h.step_pos
  have hsorted : (settledWithin observations start stop).Pairwise
      fun a b => a.fundingAt ≤ b.fundingAt := List.pairwise_insertionSort _ _
  obtain ⟨k, -, hk, ht⟩ := (mem_times h hc).mp ⟨_, List.getLast_mem hne, rfl⟩
  obtain ⟨o', ho', ht'⟩ := (mem_times h hc (t := first + latest step first stop * step)).mpr
    ⟨(latest step first stop).toNat, by omega, by omega, by rw [Int.toNat_of_nonneg (by omega)]⟩
  have : Std.Refl fun a b : FundingObservation => a.fundingAt ≤ b.fundingAt := ⟨fun _ => le_refl _⟩
  have hlast := hsorted.rel_getLast ho'
  have hstep := mul_le_mul_of_nonneg_right hk h.step_pos.le
  rw [ht'] at hlast
  linarith

/-! ## §4. The two figures. -/

/-- What the rate of a day comes to in a year. -/
def annualFigure (daily : ℚ) : ℚ := rounded (rounded daily * daysPerYear)

/-- What a sum of rates over so many days comes to in a year. -/
def yearly (total days : ℚ) : ℚ := annualFigure (total / days)

/-- The rates of `n` observations, added up. -/
def totalRate (rate : ℚ) (n : ℕ) : ℚ := sumToPrecision contextPrecision (List.replicate n rate)

/-- The days of `m` intervals. -/
def daysOf (interval : ℚ) (m : ℕ) : ℚ := rounded (m * interval / 24)

/-- A regular history has its interval between any two settlements. -/
theorem hoursDelta_step (hstep : (step : ℚ) = interval * 3600000000) : hoursDelta interval = step := by
  unfold hoursDelta
  rw [← hstep]
  exact roundEven_intCast step

/-- All observations of the window are of the rate. -/
theorem rates_within (h : Regular observations rate interval step first count) :
    (settledWithin observations start stop).map (·.rate)
      = List.replicate (settledWithin observations start stop).length rate := by
  refine List.eq_replicate_iff.mpr ⟨List.length_map _, fun r hr => ?_⟩
  obtain ⟨o, ho, rfl⟩ := List.mem_map.mp hr
  exact (h.each o (mem_settledWithin.mp ho).1).2.1

/-- The covered days are those of the intervals. -/
theorem days_eq (hstep : (step : ℚ) = interval * 3600000000) :
    ((m * step : Int) : ℚ) / 1000000 / 86400 = m * interval / 24 := by
  push_cast
  rw [hstep]
  ring

/-- What `annualize_history` makes of a regular history: the rates of the
observations it has found over the days of the window. -/
theorem annualizeHistory_regular (h : Regular observations rate interval step first count)
    (hc : Covered step first count start stop m) :
    annualizeHistory observations start stop = .ok (some (
      yearly (totalRate rate (m + if Aligned step first start then 1 else 0))
        (daysOf interval m))) := by
  have hpos : 0 < (m : Int) * step := mul_pos (by exact_mod_cast hc.nonempty) h.step_pos
  have hwindow : ¬stop ≤ start := by
    have := hc.length
    omega
  have hlength := length_within h hc
  have hrates : (settledWithin observations start stop).map (·.rate)
      = List.replicate (settledWithin observations start stop).length rate := rates_within h
  cases hvalues : settledWithin observations start stop with
  | nil =>
      rw [hvalues, List.length_nil] at hlength
      have := hc.nonempty
      omega
  | cons o rest =>
      have hhead := head_within h hc hvalues
      have hne : settledWithin observations start stop ≠ [] := by
        rw [hvalues]
        exact List.cons_ne_nil _ _
      have hlast := last_within h hc hne
      have hinterval : hoursDelta o.intervalHours = step := by
        have ho : o ∈ settledWithin observations start stop := by
          rw [hvalues]
          exact List.mem_cons_self
        rw [(h.each o (mem_settledWithin.mp ho).1).2.2]
        exact hoursDelta_step h.step_eq
      simp only [hvalues] at hlast hrates hlength
      -- The observations span the window, whether or not it begins on one.
      have hcovered : min (stop - start)
          (((o :: rest).getLast (List.cons_ne_nil _ _)).fundingAt - o.fundingAt
            + hoursDelta o.intervalHours) = m * step := by
        rw [hlast, hhead, hinterval, hc.length, latest_eq h.step_pos hc.length]
        refine min_eq_left ?_
        have hstep := h.step_pos
        split
        · linarith
        · linarith
      unfold annualizeHistory
      rw [raiseIf_neg hwindow, hvalues]
      dsimp only [bind, Except.bind]
      rw [hcovered, if_neg (not_le.mpr hpos), hrates, hlength, days_eq h.step_eq]
      rfl

/-- The current rate annualized, with the rounding of both operations written
out. -/
theorem annualizeCurrent_eq (hinterval : 0 < interval) :
    annualizeCurrent rate interval = .ok (yearly (rounded (rate * hoursPerDay)) interval) := by
  unfold annualizeCurrent
  rw [raiseIf_neg (not_le.mpr hinterval)]
  rfl

end Window

/-! ## §5. What the context makes of them. -/

/-- The rates of `n` observations over the days of `m` intervals come to as much
in a year as the rate of one day does, all of it in the digits of the context. -/
def RoundAlike (rate interval : ℚ) (n m : ℕ) : Prop :=
  yearly (totalRate rate n) (daysOf interval m) = yearly (rounded (rate * hoursPerDay)) interval

instance (rate interval : ℚ) (n m : ℕ) : Decidable (RoundAlike rate interval n m) :=
  inferInstanceAs (Decidable (_ = _))

/-- The rate has so few digits that it can be multiplied by the intervals and by the
hours of a day. -/
def FewDigits (rate : ℚ) (m : ℕ) : Prop :=
  ∃ n e : ℤ, |n| * (max m 24 : ℕ) < 10 ^ 28 ∧ rate = n * 10 ^ e

/-- What the context cuts off the days of `m` intervals does not show: the rate of a
day comes to the same figure when it is stretched by as much as the days are cut. -/
def DaysKept (rate interval : ℚ) (m : ℕ) : Prop :=
  annualFigure (rate * 24 / interval * (m * interval / 24 / daysOf interval m))
    = annualFigure (rate * 24 / interval)

instance (rate interval : ℚ) (m : ℕ) : Decidable (DaysKept rate interval m) :=
  inferInstanceAs (Decidable (_ = _))

section Rounding

variable {rate interval : ℚ} {m : ℕ}

theorem roundAlike_zero (interval : ℚ) (n m : ℕ) : RoundAlike 0 interval n m := by
  have htotal : totalRate 0 n = 0 := by
    unfold totalRate
    rw [sumToPrecision_replicate fun k _ => by rw [mul_zero]; rfl, mul_zero]
  unfold RoundAlike yearly
  rw [htotal, zero_mul, zero_div, show rounded 0 = 0 from rfl, zero_div]

/-- A multiple of a value with few digits fits the context. -/
theorem rounded_mul_eq {n e : ℤ} {k : ℕ} (h : |n| * k < 10 ^ 28) (hrate : rate = n * 10 ^ e) :
    rounded (k * rate) = k * rate := by
  refine toPrecision_eq_self (n := k * n) (e := e) ?_ ?_
  · rw [abs_mul, mul_comm, Nat.abs_cast]
    exact h
  · rw [hrate]
    push_cast
    ring

/-- So nothing is cut off a rate that has few of them. -/
theorem FewDigits.rounded_eq (h : FewDigits rate m) {k : ℕ} (hk : k ≤ max m 24) :
    rounded (k * rate) = k * rate := by
  obtain ⟨n, e, hdigits, hrate⟩ := h
  refine rounded_mul_eq (lt_of_le_of_lt ?_ hdigits) hrate
  exact mul_le_mul_of_nonneg_left (by exact_mod_cast hk) (abs_nonneg n)

/-- Then the sum of the rates and the rate of a day are exact, and only the days of
the window can make a difference. -/
theorem FewDigits.roundAlike_iff (h : FewDigits rate m) (hinterval : 0 < interval) :
    RoundAlike rate interval m m ↔ DaysKept rate interval m := by
  have htotal : totalRate rate m = m * rate :=
    sumToPrecision_replicate fun k hk => h.rounded_eq (hk.trans (le_max_left _ _))
  have hday : rounded (rate * hoursPerDay) = rate * 24 := by
    have hrounded : rounded ((24 : ℕ) * rate) = (24 : ℕ) * rate := h.rounded_eq (le_max_right _ _)
    rw [show rate * hoursPerDay = (24 : ℕ) * rate from mul_comm _ _, hrounded]
    exact mul_comm _ _
  have hquotient : m * rate / daysOf interval m
      = rate * 24 / interval * (m * interval / 24 / daysOf interval m) := by
    rw [← mul_div_assoc]
    congr 1
    field_simp
  unfold RoundAlike DaysKept yearly
  rw [htotal, hday, hquotient]

/-- Days that fit the context are kept. -/
theorem daysKept_of_fits (hm : 0 < m) (hinterval : 0 < interval)
    (hdays : rounded (m * interval / 24) = m * interval / 24) : DaysKept rate interval m := by
  have hm : (0 : ℚ) < m := by exact_mod_cast hm
  unfold DaysKept daysOf
  rw [hdays, div_self (by positivity), mul_one]

/-- The relative error of one operation. -/
def unit : ℚ := 5 / 10 ^ contextPrecision

theorem factor_bounds {δ : ℚ} (h : |δ| ≤ unit) : 1 - unit ≤ 1 + δ ∧ 1 + δ ≤ 1 + unit := by
  obtain ⟨hlow, hhigh⟩ := abs_le.mp h
  exact ⟨by linarith, by linarith⟩

/-- The errors of four operations on one side, and of a sum of `m + 1` values and
two operations on the other, are less than one part in `m`. -/
theorem factors_lt {n c δ₁ δ₂ δ₃ ε₁ ε₂ ε₃ : ℚ} (hn : 1 ≤ n) (hbound : n ≤ 10 ^ 13)
    (hc : 1 - (n + 1) * unit ≤ c) (h₁ : |δ₁| ≤ unit) (h₂ : |δ₂| ≤ unit) (h₃ : |δ₃| ≤ unit)
    (e₁ : |ε₁| ≤ unit) (e₂ : |ε₂| ≤ unit) (e₃ : |ε₃| ≤ unit) :
    n * ((1 + δ₁) * (1 + ε₁) * (1 + ε₂) * (1 + ε₃)) < (n + 1) * (c * (1 + δ₂) * (1 + δ₃)) := by
  have hunit : unit = 5 / 10 ^ 28 := rfl
  have hlow : (0 : ℚ) ≤ 1 - unit := by rw [hunit]; norm_num
  have hpos : ∀ {δ : ℚ}, |δ| ≤ unit → 0 ≤ 1 + δ := fun h => hlow.trans (factor_bounds h).1
  -- At most five units above one, on one side.
  have habove : (1 + δ₁) * (1 + ε₁) * (1 + ε₂) * (1 + ε₃) ≤ 1 + 5 * unit := by
    calc (1 + δ₁) * (1 + ε₁) * (1 + ε₂) * (1 + ε₃)
        ≤ (1 + unit) * (1 + unit) * (1 + unit) * (1 + unit) := by
          have hp := hpos h₁
          have hp₁ := hpos e₁
          have hp₂ := hpos e₂
          have hp₃ := hpos e₃
          have hu : (0 : ℚ) ≤ 1 + unit := by rw [hunit]; norm_num
          gcongr
          · exact (abs_le.mp h₁).2
          · exact (abs_le.mp e₁).2
          · exact (abs_le.mp e₂).2
          · exact (abs_le.mp e₃).2
      _ ≤ 1 + 5 * unit := by
          rw [hunit]
          norm_num
  have hsum : 0 ≤ 1 - (n + 1) * unit := by
    rw [hunit]
    linarith
  -- At least that far below one, on the other.
  have hbelow : 1 - (n + 3) * unit ≤ c * (1 + δ₂) * (1 + δ₃) := by
    calc 1 - (n + 3) * unit
        ≤ (1 - (n + 1) * unit) * (1 - unit) * (1 - unit) := by
          rw [hunit]
          nlinarith
      _ ≤ c * (1 + δ₂) * (1 + δ₃) := by
          have hp := hpos h₂
          have hc₀ := hsum.trans hc
          gcongr
          · exact (factor_bounds h₂).1
          · exact (factor_bounds h₃).1
  calc n * ((1 + δ₁) * (1 + ε₁) * (1 + ε₂) * (1 + ε₃))
      ≤ n * (1 + 5 * unit) := mul_le_mul_of_nonneg_left habove (by linarith)
    -- Here `n` is small enough that its square times the unit is below one.
    _ < (n + 1) * (1 - (n + 3) * unit) := by
        have hsquare : n * n ≤ 10 ^ 13 * 10 ^ 13 :=
          mul_le_mul hbound hbound (by linarith) (by norm_num)
        rw [hunit]
        linarith
    _ ≤ (n + 1) * (c * (1 + δ₂) * (1 + δ₃)) := mul_le_mul_of_nonneg_left hbelow (by linarith)

/-- One observation too many changes the sum by more than the context can have
rounded off: the relative errors of a sum of `m + 1` rates and of the handful of
operations after it stay below one part in `m`. -/
theorem not_roundAlike_succ (hm : 0 < m) (hbound : m < 10 ^ 13) (hinterval : 0 < interval)
    (hrate : rate ≠ 0) : ¬RoundAlike rate interval (m + 1) m := by
  intro halike
  have hm : (1 : ℚ) ≤ m := by exact_mod_cast hm
  -- Each side is the rate, multiplied by what is exact and by the errors.
  obtain ⟨c, hc, htotal⟩ := exists_sumToPrecision_replicate (by decide : 0 < 28) (m + 1) rate
  obtain ⟨δ₁, h₁, hdays⟩ := exists_toPrecision_eq_mul 28 (m * interval / 24)
  obtain ⟨δ₂, h₂, hquotient⟩ := exists_toPrecision_eq_mul 28
    (totalRate rate (m + 1) / daysOf interval m)
  obtain ⟨δ₃, h₃, hhistory⟩ := exists_toPrecision_eq_mul 28
    (rounded (totalRate rate (m + 1) / daysOf interval m) * daysPerYear)
  obtain ⟨ε₁, e₁, hday⟩ := exists_toPrecision_eq_mul 28 (rate * hoursPerDay)
  obtain ⟨ε₂, e₂, hhour⟩ := exists_toPrecision_eq_mul 28 (rounded (rate * hoursPerDay) / interval)
  obtain ⟨ε₃, e₃, hcurrent⟩ := exists_toPrecision_eq_mul 28
    (rounded (rounded (rate * hoursPerDay) / interval) * daysPerYear)
  have hsum : 1 - ((m : ℚ) + 1) * unit ≤ c := by
    have hbernoulli := one_add_mul_le_pow (a := -unit) (by unfold unit contextPrecision; norm_num) (m + 1)
    refine le_trans ?_ hc
    push_cast at hbernoulli
    calc 1 - ((m : ℚ) + 1) * unit = 1 + ((m : ℚ) + 1) * -unit := by ring
      _ ≤ (1 + -unit) ^ (m + 1) := hbernoulli
      _ = (1 - 5 / 10 ^ 28) ^ (m + 1) := by rw [← sub_eq_add_neg]; rfl
  have hlt := factors_lt hm (by exact_mod_cast hbound.le) hsum h₁ h₂ h₃ e₁ e₂ e₃
  have hδ₁ : 1 + δ₁ ≠ 0 := by
    have := (factor_bounds h₁).1
    have hunit : unit < 1 := by unfold unit contextPrecision; norm_num
    exact (lt_of_lt_of_le (by linarith) this).ne'
  refine hlt.ne ?_
  change rounded (_ * daysPerYear) = rounded (_ * daysPerYear) at halike
  change rounded _ = _ at hhistory
  change rounded _ = _ at hcurrent
  change rounded _ = _ at hquotient
  change rounded _ = _ at hhour
  change rounded _ = _ at hday
  change daysOf interval m = _ at hdays
  change totalRate rate (m + 1) = _ at htotal
  rw [hhistory, hcurrent, hquotient, hhour, hday, hdays, htotal] at halike
  unfold daysPerYear hoursPerDay at halike
  push_cast at halike
  field_simp at halike
  linarith

/-- The days of a window have a finite expansion where its microseconds are a
multiple of 27: that is what is left of a day's once the twos and fives are out. -/
theorem rounded_days {length : ℤ} (hdvd : 27 ∣ length) (hpos : 0 ≤ length) (hspan : length < 10 ^ 25) :
    rounded ((length : ℚ) / 1000000 / 86400) = length / 1000000 / 86400 := by
  obtain ⟨k, rfl⟩ := hdvd
  refine toPrecision_eq_self (n := 3125 * k) (e := -13) ?_ ?_
  · rw [abs_of_nonneg (by omega)]
    show 3125 * k < 10 ^ 28
    omega
  · push_cast
    rw [zpow_neg]
    norm_num
    ring

end Rounding

/-- Inputs as they are in practice: the length of the window is a multiple of 27
microseconds, as that of three hours is, and the rate has few digits. -/
structure Plain (rate : ℚ) (start stop : Int) (m : ℕ) : Prop where
  days : 27 ∣ stop - start
  span : stop - start < 10 ^ 25
  digits : FewDigits rate m

section Agreement

variable {observations : List FundingObservation} {rate interval : ℚ} {step first start stop : Int}
  {count m : ℕ}

theorem Regular.interval_pos (h : Regular observations rate interval step first count) :
    0 < interval := by
  have hstep : (0 : ℚ) < step := by exact_mod_cast h.step_pos
  have := h.step_eq
  linarith

/-- For plain inputs the context cuts nothing off. -/
theorem Plain.daysKept (hp : Plain rate start stop m)
    (h : Regular observations rate interval step first count)
    (hc : Covered step first count start stop m) : DaysKept rate interval m := by
  have hlength : 0 ≤ (m : Int) * step := mul_nonneg (by omega) h.step_pos.le
  have hdays : rounded (m * interval / 24) = m * interval / 24 := by
    rw [← days_eq h.step_eq]
    exact rounded_days (hc.length ▸ hp.days) hlength (hc.length ▸ hp.span)
  exact daysKept_of_fits hc.nonempty h.interval_pos hdays

/-! ## §6. Agreement. -/

/-- Historical and current annualisation agree exactly if the rates of the
observations in the window, one more than it has intervals where one falls on its
beginning, round to the same figure as the rate of a day.  An observation on the
beginning leaves only the rate zero; without one, a rate of few digits leaves it to
what is cut off the days, and plain inputs always agree. -/
theorem annualize_agree_iff (h : Regular observations rate interval step first count)
    (hc : Covered step first count start stop m) :
    (annualizeHistory observations start stop = (annualizeCurrent rate interval).map some
        ↔ RoundAlike rate interval (m + if Aligned step first start then 1 else 0) m)
      ∧ (Aligned step first start → m < 10 ^ 13 →
        (annualizeHistory observations start stop = (annualizeCurrent rate interval).map some
          ↔ rate = 0))
      ∧ (¬Aligned step first start → FewDigits rate m →
        (annualizeHistory observations start stop = (annualizeCurrent rate interval).map some
          ↔ DaysKept rate interval m))
      ∧ (¬Aligned step first start → Plain rate start stop m →
        annualizeHistory observations start stop = (annualizeCurrent rate interval).map some) := by
  have hiff : annualizeHistory observations start stop = (annualizeCurrent rate interval).map some
      ↔ RoundAlike rate interval (m + if Aligned step first start then 1 else 0) m := by
    rw [annualizeHistory_regular h hc, annualizeCurrent_eq h.interval_pos]
    show Except.ok _ = Except.ok _ ↔ _
    rw [Except.ok.injEq, Option.some.injEq]
    exact Iff.rfl
  have hfew : ¬Aligned step first start → FewDigits rate m →
      (annualizeHistory observations start stop = (annualizeCurrent rate interval).map some
        ↔ DaysKept rate interval m) := by
    intro haligned hdigits
    rw [hiff, if_neg haligned]
    exact hdigits.roundAlike_iff h.interval_pos
  refine ⟨hiff, fun haligned hbound => ?_, hfew, fun haligned hp => ?_⟩
  · rw [hiff, if_pos haligned]
    constructor
    · intro halike
      by_contra hrate
      exact not_roundAlike_succ hc.nonempty hbound h.interval_pos hrate halike
    · rintro rfl
      exact roundAlike_zero interval _ m
  · exact (hfew haligned hp.digits).mpr (hp.daysKept h hc)

end Agreement

namespace Sample

/-- An observation every `n` hours. -/
def everyHours (n : ℕ) (first : Int) (count : ℕ) : List FundingObservation :=
  (List.range count).map fun (k : ℕ) =>
    ⟨1 / 10000, first + k * hours n, first + k * hours n, true, none, n⟩

theorem everyHours_regular {n : ℕ} (hn : 0 < n) (first : Int) (count : ℕ) :
    Regular (everyHours n first count) (1 / 10000) n (hours n) first count where
  each := by
    intro o ho
    obtain ⟨k, -, rfl⟩ := List.mem_map.mp ho
    exact ⟨rfl, rfl, rfl⟩
  times := by
    unfold everyHours
    rw [List.map_map]
    exact .refl _
  step_eq := by
    unfold hours Planning.seconds
    push_cast
    ring
  step_pos := by
    unfold hours Planning.seconds
    omega

/-- A day that begins an hour after an observation. -/
theorem day_covered : Covered (hours 8) 0 5 (hours 1) (hours 25) 3 where
  length := by decide
  nonempty := by decide
  before := by decide
  after := by decide

/-- Twenty-five hours that begin half an hour after an observation. -/
theorem longDay_covered :
    Covered (hours 1) 0 27 (Planning.seconds 1800) (Planning.seconds 91800) 25 where
  length := by decide
  nonempty := by decide
  before := by decide
  after := by decide

end Sample

/-- A day that begins and ends on an observation has four of them. -/
theorem annualize_aligned : Regular (Sample.everyHours 8 0 4) (1 / 10000) (8 : ℕ) (hours 8) 0 4
    ∧ Covered (hours 8) 0 4 0 (hours 24) 3
    ∧ annualizeHistory (Sample.everyHours 8 0 4) 0 (hours 24) = .ok (some (146 / 1000))
    ∧ annualizeCurrent (1 / 10000) 8 = .ok (1095 / 10000) := by
  have hcovered : Covered (hours 8) 0 4 0 (hours 24) 3 := ⟨by decide, by decide, by decide, by decide⟩
  refine ⟨Sample.everyHours_regular (by decide) 0 4, hcovered, ?_, by decide +kernel⟩
  rw [annualizeHistory_regular (Sample.everyHours_regular (by decide) 0 4) hcovered]
  decide +kernel

/-- The days of twenty-five hours have no finite expansion, and the last digit of
the history shows it. -/
example : annualizeHistory (Sample.everyHours 1 0 27) (Planning.seconds 1800) (Planning.seconds 91800)
      = .ok (some (8759999999999999999999999996 / 10 ^ 28))
    ∧ annualizeCurrent (1 / 10000) 1 = .ok (876 / 1000) := by
  rw [annualizeHistory_regular (Sample.everyHours_regular (by decide) 0 27) Sample.longDay_covered]
  decide +kernel

/-- A day that begins an hour after an observation has three of them, and its
history gives what the current rate does. -/
theorem annualize_agree_day : annualizeHistory (Sample.everyHours 8 0 5) (hours 1) (hours 25)
    = (annualizeCurrent (1 / 10000) (8 : ℕ)).map some :=
  (annualize_agree_iff (Sample.everyHours_regular (by decide) 0 5) Sample.day_covered).2.2.2
    (by decide) ⟨by decide, by decide, 1, -4, by decide, by norm_num⟩

end BasisHawk.Market
