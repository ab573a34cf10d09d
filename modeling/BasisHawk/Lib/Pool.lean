/-
  BasisHawk.Lib.Pool
  ──────────────────
  Any number of workers that run the same program on a shared world.

  Every operation of every worker is one atomic step; other actors commit
  steps in between, and each worker may crash at any point and start over.
  To one of them the others are part of the interference, as long as their
  operations meet their guards: `member` is the system a worker sees.

  Main results:
    • `Reach.guarded` — if the program meets its guards from every state that
      satisfies the invariant, for a worker among guarded others, then in
      every reachable configuration every worker's rest does,
    • `Reach.step_cases` — what a step from a reachable configuration does to
      the world.
-/
import BasisHawk.Lib.WorkerSystem
import Mathlib.Logic.Function.Basic

namespace BasisHawk.Lib

/-- What the operations of each worker and the other actors do to the world. -/
structure Pool (ι Op : Type) (Rep : Op → Type) (Act W : Type) where
  /-- Worker `i` performs `o` in one atomic step. -/
  exec : ι → (o : Op) → W → Rep o → W → Prop
  /-- Another actor commits `a` in one atomic step. -/
  env : Act → W → W → Prop
  /-- What a pass of worker `i` leaves behind when it ends or crashes. -/
  idle : ι → W → W

namespace Pool

variable {ι Op : Type} {Rep : Op → Type} {ε α Act W : Type}

/-! ## §1. Steps and runs. -/

/-- A world together with what is left of each worker's pass. -/
structure Config (ι Op : Type) (Rep : Op → Type) (ε α W : Type) where
  world : W
  passes : ι → Option (Prog Op Rep ε α)

/-- One step of the whole pool. -/
inductive Step [DecidableEq ι] (P : Pool ι Op Rep Act W) (main : Prog Op Rep ε α) :
    Config ι Op Rep ε α W → Config ι Op Rep ε α W → Prop
  | act {a w w' ps} (h : P.env a w w') : Step P main ⟨w, ps⟩ ⟨w', ps⟩
  | start {i w ps} (hp : ps i = none) :
      Step P main ⟨w, ps⟩ ⟨w, Function.update ps i (some main)⟩
  | call {i o w r w' k ps} (hp : ps i = some (.call o k)) (h : P.exec i o w r w') :
      Step P main ⟨w, ps⟩ ⟨w', Function.update ps i (some (k r))⟩
  | finish {i w r ps} (hp : ps i = some (.done r)) :
      Step P main ⟨w, ps⟩ ⟨P.idle i w, Function.update ps i none⟩
  | crash {i w p ps} (hp : ps i = some p) :
      Step P main ⟨w, ps⟩ ⟨P.idle i w, Function.update ps i none⟩

/-- Configurations reached from worlds in which no worker has started. -/
inductive Reach [DecidableEq ι] (P : Pool ι Op Rep Act W) (main : Prog Op Rep ε α)
    (init : W → Prop) : Config ι Op Rep ε α W → Prop
  | init {w} (h : init w) : Reach P main init ⟨w, fun _ => none⟩
  | step {c c'} (hc : Reach P main init c) (hs : P.Step main c c') : Reach P main init c'

/-! ## §2. One worker among the others. -/

/-- A step that is not worker `i`'s own, from a world that satisfies the
invariant: another actor's, or that of another worker whose operation meets
its guard. -/
inductive Other (P : Pool ι Op Rep Act W) (I : W → Prop) (Pre : ι → Op → W → Prop) (i : ι) :
    W → W → Prop
  | act {a w w'} (hI : I w) (h : P.env a w w') : Other P I Pre i w w'
  | call {j o w r w'} (hI : I w) (hj : j ≠ i) (hpre : Pre j o w) (h : P.exec j o w r w') :
      Other P I Pre i w w'
  | idle {j w} (hI : I w) (hj : j ≠ i) : Other P I Pre i w (P.idle j w)

/-- The system that worker `i` sees. -/
def member (P : Pool ι Op Rep Act W) (I : W → Prop) (Pre : ι → Op → W → Prop) (i : ι) :
    System Op Rep Unit W where
  exec := P.exec i
  env := fun _ => Other P I Pre i
  idle := P.idle i

/-- The invariant is kept by the other actors, by every guarded operation, and
when a pass ends or crashes. -/
structure Preserves (P : Pool ι Op Rep Act W) (I : W → Prop) (Pre : ι → Op → W → Prop) :
    Prop where
  act : ∀ a w w', P.env a w w' → I w → I w'
  call : ∀ i o w r w', P.exec i o w r w' → Pre i o w → I w → I w'
  idle : ∀ i w, I w → I (P.idle i w)

variable [DecidableEq ι] {P : Pool ι Op Rep Act W} {I : W → Prop} {Pre : ι → Op → W → Prop}
  {main : Prog Op Rep ε α} {init : W → Prop}

/-- What is left of worker `i`'s pass meets its guards. -/
def Fine (P : Pool ι Op Rep Act W) (I : W → Prop) (Pre : ι → Op → W → Prop)
    (c : Config ι Op Rep ε α W) : Prop :=
  ∀ i p, c.passes i = some p → (P.member I Pre i).wp I (Pre i) p (fun _ _ => True) c.world

/-- A step of worker `i` that leaves `p` of its pass: the others drift, worker
`i` goes on as `p` does. -/
theorem fine_update {w w' : W} {ps : ι → Option (Prog Op Rep ε α)} {i : ι}
    {p : Option (Prog Op Rep ε α)} (h : Fine P I Pre ⟨w, ps⟩)
    (hothers : ∀ j, j ≠ i → Other P I Pre j w w')
    (hp : ∀ q, p = some q → (P.member I Pre i).wp I (Pre i) q (fun _ _ => True) w') :
    Fine P I Pre ⟨w', Function.update ps i p⟩ := by
  intro j q hq
  by_cases hj : j = i
  · subst hj
    exact hp q (by simpa using hq)
  · have hq : ps j = some q := by
      simpa [Function.update_of_ne hj] using hq
    exact System.wp_drift q (.single ⟨(), hothers j hj⟩) (h j q hq)

/-- In every reachable configuration the invariant holds, and the rest of every
pass meets its guards. -/
theorem Reach.guarded (hpres : P.Preserves I Pre) (hinit : ∀ w, init w → I w)
    (hmain : ∀ i w, I w → (P.member I Pre i).wp I (Pre i) main (fun _ _ => True) w)
    {c : Config ι Op Rep ε α W} (hc : P.Reach main init c) : I c.world ∧ Fine P I Pre c := by
  induction hc with
  | init hw => exact ⟨hinit _ hw, fun i p hp => by cases hp⟩
  | step _ hs ih =>
      obtain ⟨hI, hp⟩ := ih
      cases hs with
      | act h =>
          refine ⟨hpres.act _ _ _ h hI, fun i p hpass => ?_⟩
          exact System.wp_drift p (.single ⟨(), .act hI h⟩) (hp i p hpass)
      | @start i =>
          refine ⟨hI, fun j q hq => ?_⟩
          -- The world is the same: no one has to drift.
          by_cases hj : j = i
          · subst hj
            simp only [Function.update_self, Option.some.injEq] at hq
            subst hq
            exact hmain _ _ hI
          · simp only [Function.update_of_ne hj] at hq
            exact hp j q hq
      | call hi h =>
          obtain ⟨hpre, hnext⟩ := hp _ _ hi _ .refl hI
          have hI' := hpres.call _ _ _ _ _ h hpre hI
          refine ⟨hI', fine_update hp (fun j hj => .call hI (Ne.symm hj) hpre h) fun q hq => ?_⟩
          cases hq
          exact hnext _ _ h hI'
      | finish hi =>
          exact ⟨hpres.idle _ _ hI,
            fine_update hp (fun j hj => .idle hI (Ne.symm hj)) fun q hq => by cases hq⟩
      | crash hi =>
          exact ⟨hpres.idle _ _ hI,
            fine_update hp (fun j hj => .idle hI (Ne.symm hj)) fun q hq => by cases hq⟩

/-- What a step from a reachable configuration does to the world: nothing,
another actor's step, a guarded operation, or the end of a pass. -/
theorem Reach.step_cases (hpres : P.Preserves I Pre) (hinit : ∀ w, init w → I w)
    (hmain : ∀ i w, I w → (P.member I Pre i).wp I (Pre i) main (fun _ _ => True) w)
    {c c' : Config ι Op Rep ε α W} (hc : P.Reach main init c) (hs : P.Step main c c') :
    c'.world = c.world ∨ (∃ a, P.env a c.world c'.world)
      ∨ (∃ i o r, P.exec i o c.world r c'.world ∧ Pre i o c.world)
      ∨ ∃ i, c'.world = P.idle i c.world := by
  obtain ⟨hI, hp⟩ := hc.guarded hpres hinit hmain
  cases hs with
  | act h => exact .inr (.inl ⟨_, h⟩)
  | start => exact .inl rfl
  | call hi h => exact .inr (.inr (.inl ⟨_, _, _, h, (hp _ _ hi _ .refl hI).1⟩))
  | finish => exact .inr (.inr (.inr ⟨_, rfl⟩))
  | crash => exact .inr (.inr (.inr ⟨_, rfl⟩))

/-! ## §3. Runs of one worker. -/

/-- The pool as a system of worker `i` alone. -/
def solo (P : Pool ι Op Rep Act W) (i : ι) : System Op Rep Act W := ⟨P.exec i, P.env, P.idle i⟩

/-- What one worker does alone happens in the pool, the others idle. -/
theorem Reach.of_run {i : ι} {w w' : W} {p p' : Option (Prog Op Rep ε α)}
    {allow : W → Label Op Rep Act → Prop} (hc : P.Reach main init ⟨w, Function.update (fun _ => none) i p⟩)
    (hr : (P.solo i).Run main allow ⟨w, p⟩ ⟨w', p'⟩) :
    P.Reach main init ⟨w', Function.update (fun _ => none) i p'⟩ := by
  suffices h : ∀ c : BasisHawk.Lib.Config Op Rep ε α W, (P.solo i).Run main allow ⟨w, p⟩ c →
      P.Reach main init ⟨c.world, Function.update (fun _ => none) i c.pass⟩ from h _ hr
  -- By induction on the run: each step of the worker is one of the pool.
  intro c hr
  have hself : ∀ q : Option (Prog Op Rep ε α), Function.update (fun _ : ι => none) i q i = q :=
    fun q => Function.update_self ..
  induction hr with
  | refl => exact hc
  | tail _ hs ih =>
      obtain ⟨l, hs, -⟩ := hs
      cases hs with
      | act h => exact .step ih (.act h)
      | @start w₁ =>
          have hs : P.Step main ⟨w₁, _⟩ _ := .start (hself none)
          rw [Function.update_idem] at hs
          exact .step ih hs
      | @call o w₁ r w₂ k h =>
          have hs : P.Step main ⟨w₁, _⟩ _ := .call (k := k) (hself _) h
          rw [Function.update_idem] at hs
          exact .step ih hs
      | @finish w₁ r =>
          have hs : P.Step main ⟨w₁, _⟩ _ := .finish (hself (some (.done r)))
          rw [Function.update_idem] at hs
          exact .step ih hs
      | @crash w₁ q =>
          have hs : P.Step main ⟨w₁, _⟩ _ := .crash (hself (some q))
          rw [Function.update_idem] at hs
          exact .step ih hs

/-- One worker goes on up to the first operation `stop` selects, wherever the
others stand. -/
theorem Reach.play {i : ι} {answer : (o : Op) → W → Rep o × W} {stop : Op → Bool}
    {allow : W → Label Op Rep Act → Prop} [∀ w l, Decidable (allow w l)]
    (hans : ∀ o w, allow w (.call o (answer o w).1) →
      P.exec i o w (answer o w).1 (answer o w).2)
    (p : Prog Op Rep ε α) : ∀ {w : W} {ps : ι → Option (Prog Op Rep ε α)},
      P.Reach main init ⟨w, ps⟩ → ps i = some p → System.follows answer stop allow p w →
      P.Reach main init ⟨(System.play answer stop p w).world,
        Function.update ps i (System.play answer stop p w).pass⟩ := by
  -- By induction on the program, which is played operation by operation.
  induction p with
  | done r =>
      intro w ps hc hi _
      rw [show System.play answer stop (.done r) w = ⟨w, some (.done r)⟩ from rfl, ← hi,
        Function.update_eq_self]
      exact hc
  | call o k ih =>
      intro w ps hc hi hf
      simp only [System.follows, Bool.or_eq_true, Bool.and_eq_true, decide_eq_true_eq] at hf
      unfold System.play
      by_cases hs : stop o
      · rw [if_pos hs]
        show P.Reach main init ⟨w, Function.update ps i (some (.call o k))⟩
        rw [← hi, Function.update_eq_self]
        exact hc
      · -- One step of the worker, then the rest of its program.
        rw [if_neg hs]
        obtain ⟨ha, hf⟩ := hf.resolve_left hs
        have hstep := Reach.step hc (.call hi (hans o w ha))
        have hrest := ih (answer o w).1 hstep (Function.update_self ..) hf
        rw [Function.update_idem] at hrest
        exact hrest

end Pool

end BasisHawk.Lib
