/-
  BasisHawk.Lib.WorkerSystem
  ──────────────────────────
  One sequential worker among other actors, on a shared world.

  The worker repeats a program (`main`); every operation of the program is
  one atomic step of the world, other actors commit steps of their own between
  any two of them, and the worker may crash at any point and start over.

  Main results:
    • `wp_bind`, `wp_catching`, `wp_mono`, `wp_call_of_stable`,
      `wp_of_ensures` — the rules of the weakest precondition of a program
      under interference,
    • `Reach.guarded` — if the program meets its guards from every state that
      satisfies the invariant, then in every reachable configuration the next
      operation of the worker meets its guard,
    • `Run.invariant`, `Reach.invariant` — induction along a run, with the
      guard of each operation at hand,
    • `Reach.project` — a system with history variables simulates the one
      without,
    • `Reach.history` — induction over its runs with the guards of the other,
    • `Run.pass` — a pass on given answers, computed.
-/
import BasisHawk.Lib.Program
import Mathlib.Logic.Relation

namespace BasisHawk.Lib

/-- What the worker's operations and the other actors do to the world. -/
structure System (Op : Type) (Rep : Op → Type) (Act W : Type) where
  /-- The worker performs `o` in one atomic step. -/
  exec : (o : Op) → W → Rep o → W → Prop
  /-- Another actor commits `a` in one atomic step. -/
  env : Act → W → W → Prop
  /-- What a pass leaves behind when it ends or crashes. -/
  idle : W → W

/-- A world together with what is left of the worker's current pass. -/
structure Config (Op : Type) (Rep : Op → Type) (ε α W : Type) where
  world : W
  pass : Option (Prog Op Rep ε α)

/-- The kinds of step, with the reply an operation got. -/
inductive Label (Op : Type) (Rep : Op → Type) (Act : Type) where
  | act (a : Act)
  | start
  | call (o : Op) (r : Rep o)
  | finish
  | crash

namespace System

variable {Op : Type} {Rep : Op → Type} {ε α β Act Act' W W' : Type}

/-! ## §1. Steps and runs. -/

/-- One step of the whole system. -/
inductive Step (S : System Op Rep Act W) (main : Prog Op Rep ε α) :
    Config Op Rep ε α W → Label Op Rep Act → Config Op Rep ε α W → Prop
  | act {a w w' p} (h : S.env a w w') : Step S main ⟨w, p⟩ (.act a) ⟨w', p⟩
  | start {w} : Step S main ⟨w, none⟩ .start ⟨w, some main⟩
  | call {o w r w' k} (h : S.exec o w r w') :
      Step S main ⟨w, some (.call o k)⟩ (.call o r) ⟨w', some (k r)⟩
  | finish {w r} : Step S main ⟨w, some (.done r)⟩ .finish ⟨S.idle w, none⟩
  | crash {w p} : Step S main ⟨w, some p⟩ .crash ⟨S.idle w, none⟩

/-- Configurations reached by runs whose every step is allowed in the world
it starts from. -/
inductive Reach (S : System Op Rep Act W) (main : Prog Op Rep ε α) (init : W → Prop)
    (allow : W → Label Op Rep Act → Prop) : Config Op Rep ε α W → Prop
  | init {w} (h : init w) : Reach S main init allow ⟨w, none⟩
  | step {c l c'} (hc : Reach S main init allow c) (hs : S.Step main c l c')
      (ha : allow c.world l) : Reach S main init allow c'

/-- Every run. -/
abbrev anyStep : W → Label Op Rep Act → Prop := fun _ _ => True

/-- A run whose steps meet a stronger condition is a run under a weaker one. -/
theorem Reach.mono {S : System Op Rep Act W} {main : Prog Op Rep ε α} {init : W → Prop}
    {allow allow' : W → Label Op Rep Act → Prop} (h : ∀ w l, allow w l → allow' w l)
    {c : Config Op Rep ε α W} (hc : S.Reach main init allow c) :
    S.Reach main init allow' c := by
  induction hc with
  | init hw => exact .init hw
  | step _ hs ha ih => exact .step ih hs (h _ _ ha)

/-- Any number of steps of the other actors. -/
def Drift (S : System Op Rep Act W) : W → W → Prop :=
  Relation.ReflTransGen fun w w' => ∃ a, S.env a w w'

/-- An operation after any number of steps of the other actors. -/
def among (S : System Op Rep Act W) (o : Op) (w : W) (r : Rep o) (w' : W) : Prop :=
  ∃ w₁, S.Drift w w₁ ∧ S.exec o w₁ r w'

/-- An assertion the other actors cannot break. -/
def Stable (S : System Op Rep Act W) (P : W → Prop) : Prop :=
  ∀ a w w', S.env a w w' → P w → P w'

/-- What every step of the others keeps, any number of them keeps. -/
theorem Stable.drift {S : System Op Rep Act W} {P : W → Prop} (hP : S.Stable P) {w w' : W}
    (h : S.Drift w w') (hw : P w) : P w' := by
  induction h with
  | refl => exact hw
  | tail _ hs ih =>
      obtain ⟨a, ha⟩ := hs
      exact hP a _ _ ha ih

theorem Stable.and {S : System Op Rep Act W} {P Q : W → Prop} (hP : S.Stable P)
    (hQ : S.Stable Q) : S.Stable fun w => P w ∧ Q w :=
  fun a w w' h hw => ⟨hP a w w' h hw.1, hQ a w w' h hw.2⟩

/-! ## §2. Weakest preconditions under interference. -/

section Wp

variable (S : System Op Rep Act W) (I : W → Prop) (Pre : Op → W → Prop)

/-- From `w`, whatever the other actors do in between: every operation of the
program meets its guard, and the program ends in `Q`.  The invariant may be
assumed at every point. -/
def wp : Prog Op Rep ε α → (Except ε α → W → Prop) → W → Prop
  | .done r, Q, w => Q r w
  | .call o k, Q, w =>
      ∀ w₁, S.Drift w w₁ → I w₁ →
        Pre o w₁ ∧ ∀ r w₂, S.exec o w₁ r w₂ → I w₂ → wp (k r) Q w₂

variable {S I Pre}

/-- The weakest precondition of a resumed program is that of its first part,
with the second part as postcondition. -/
theorem wp_resume (p : Prog Op Rep ε α) {ε' : Type} (f : Except ε α → Prog Op Rep ε' β)
    (Q : Except ε' β → W → Prop) :
    ∀ w, S.wp I Pre p (fun r w => S.wp I Pre (f r) Q w) w → S.wp I Pre (p.resume f) Q w := by
  induction p with
  | done r => intro w h; exact h
  | call o k ih =>
      intro w h w₁ hd hI
      obtain ⟨hpre, hnext⟩ := h w₁ hd hI
      exact ⟨hpre, fun r w₂ he hI₂ => ih r w₂ (hnext r w₂ he hI₂)⟩

/-- A weaker postcondition has a weaker precondition. -/
theorem wp_mono (p : Prog Op Rep ε α) {Q Q' : Except ε α → W → Prop}
    (hQ : ∀ r w, Q r w → Q' r w) :
    ∀ w, S.wp I Pre p Q w → S.wp I Pre p Q' w := by
  induction p with
  | done r => intro w h; exact hQ r w h
  | call o k ih =>
      intro w h w₁ hd hI
      obtain ⟨hpre, hnext⟩ := h w₁ hd hI
      exact ⟨hpre, fun r w₂ he hI₂ => ih r w₂ (hnext r w₂ he hI₂)⟩

/-- The sequencing rule: exceptions end the program at once. -/
theorem wp_bind (p : Prog Op Rep ε α) (f : α → Prog Op Rep ε β)
    (Q : Except ε β → W → Prop) {w : W}
    (h : S.wp I Pre p (fun r w => match r with
      | .ok a => S.wp I Pre (f a) Q w
      | .error e => Q (.error e) w) w) :
    S.wp I Pre (p >>= f) Q w := by
  rw [Prog.bind_eq]
  refine wp_resume p _ Q w (wp_mono p (fun r w' hr => ?_) w h)
  cases r with
  | ok a => exact hr
  | error e => exact hr

/-- A program that meets its guards meets weaker ones. -/
theorem wp_guards {Pre' : Op → W → Prop} (hPre : ∀ o w, Pre o w → Pre' o w)
    (p : Prog Op Rep ε α) (Q : Except ε α → W → Prop) :
    ∀ w, S.wp I Pre p Q w → S.wp I Pre' p Q w := by
  induction p with
  | done r => intro w h; exact h
  | call o k ih =>
      intro w h w₁ hd hI
      obtain ⟨hpre, hnext⟩ := h w₁ hd hI
      exact ⟨hPre o w₁ hpre, fun r w₂ he hI₂ => ih r w₂ (hnext r w₂ he hI₂)⟩

/-- The rule for one operation, from an assertion that survives interference. -/
theorem wp_call_of_stable {P : W → Prop} (hP : S.Stable P) {o : Op}
    {k : Rep o → Prog Op Rep ε α} {Q : Except ε α → W → Prop} {w : W} (hw : P w)
    (hpre : ∀ w, I w → P w → Pre o w)
    (hnext : ∀ w r w', I w → P w → S.exec o w r w' → I w' → S.wp I Pre (k r) Q w') :
    S.wp I Pre (.call o k) Q w :=
  fun w₁ hd hI =>
    have h₁ : P w₁ := hP.drift hd hw
    ⟨hpre w₁ hI h₁, fun r w₂ he hI₂ => hnext w₁ r w₂ hI h₁ he hI₂⟩

/-- The rule for `try p except h`. -/
theorem wp_catching (p : Prog Op Rep ε α) (h : ε → Prog Op Rep ε α)
    (Q : Except ε α → W → Prop) {w : W}
    (hp : S.wp I Pre p (fun r w => match r with
      | .ok a => Q (.ok a) w
      | .error e => S.wp I Pre (h e) Q w) w) :
    S.wp I Pre (p.catching h) Q w := by
  refine wp_resume p _ Q w (wp_mono p (fun r w' hr => ?_) w hp)
  cases r with
  | ok a => exact hr
  | error e => exact hr

/-- A program all of whose operations keep a stable assertion ends in it, with
a result of the kind it always returns. -/
theorem wp_of_ensures {P : W → Prop} (hP : S.Stable P) {allowed : Op → Prop}
    (hpre : ∀ o w, allowed o → I w → P w → Pre o w)
    (hkeep : ∀ o w r w', allowed o → I w → P w → S.exec o w r w' → P w')
    {R : Except ε α → Prop} (p : Prog Op Rep ε α) :
    ∀ w, P w → p.Ensures allowed R → S.wp I Pre p (fun r w => P w ∧ R r) w := by
  induction p with
  | done r => exact fun w hw hR => ⟨hw, hR⟩
  | call o k ih =>
      intro w hw hR
      refine wp_call_of_stable hP hw (fun w hI hw => hpre o w hR.1 hI hw) ?_
      exact fun w r w' hI hw he _ => ih r w' (hkeep o w r w' hR.1 hI hw he) (hR.2 r)

section Sum

variable {Op' : Type} {Rep' : Op' → Type} {S : System (Op ⊕ Op') (Sum.elim Rep Rep') Act W}
  {Pre : Op ⊕ Op' → W → Prop}

/-- A system of two services as one that runs the first of them only. -/
def left (S : System (Op ⊕ Op') (Sum.elim Rep Rep') Act W) : System Op Rep Act W where
  exec := fun o => S.exec (.inl o)
  env := S.env
  idle := S.idle

/-- A program of the first service, among everything else. -/
theorem wp_inl (p : Prog Op Rep ε α) (Q : Except ε α → W → Prop) :
    ∀ w, S.left.wp I (fun o => Pre (.inl o)) p Q w → S.wp I Pre p.inl Q w := by
  induction p with
  | done r => exact fun w h => h
  | call o k ih =>
      intro w h w₁ hd hI
      obtain ⟨hpre, hnext⟩ := h w₁ hd hI
      exact ⟨hpre, fun r w₂ he hI₂ => ih r w₂ (hnext r w₂ he hI₂)⟩

/-- A program of the second service that needs nothing. -/
theorem wp_inr_free (hpre : ∀ o w, Pre (.inr o) w) (p : Prog Op' Rep' ε α) :
    ∀ w, S.wp I Pre p.inr (fun _ _ => True) w := by
  induction p with
  | done r => exact fun w => trivial
  | call o k ih => exact fun w w₁ _ _ => ⟨hpre o w₁, fun r w₂ _ _ => ih r w₂⟩

end Sum

section Choosing

variable {ι : Type}

/-- A worker that is told before every pass which of its programs to run.  The
pass begins with what the last one left behind. -/
def choosing (S : System Op Rep Act W) (ι : Type) :
    System (Op ⊕ Unit) (Sum.elim Rep fun _ => ι) Act W where
  exec
    | .inl o => S.exec o
    | .inr _ => fun w _ w' => w' = S.idle w
  env := S.env
  idle := S.idle

/-- A pass of such a worker. -/
def anyOf (programs : ι → Prog Op Rep ε α) :
    Prog (Op ⊕ Unit) (Sum.elim Rep fun _ => ι) ε α :=
  .call (.inr ()) fun i => (programs i).inl

/-- Each of the programs meets its guards on its own. -/
theorem wp_anyOf {S : System Op Rep Act W} {Pre : Op → W → Prop}
    {programs : ι → Prog Op Rep ε α} {Q : Except ε α → W → Prop}
    (h : ∀ i w, I w → S.wp I Pre (programs i) Q (S.idle w)) (w : W) :
    (S.choosing ι).wp I (Sum.elim Pre fun _ _ => True) (anyOf programs) Q w := by
  intro w₁ hd hI
  refine ⟨trivial, fun i w₂ he hI₂ => ?_⟩
  have hw₂ : w₂ = S.idle w₁ := he
  rw [hw₂]
  exact wp_inl (S := S.choosing ι) (programs i) Q (S.idle w₁) (h i w₁ hI)

end Choosing

/-- A guarantee for the rest of a pass survives steps of the other actors. -/
theorem wp_drift {R : Except ε α → Prop} (p : Prog Op Rep ε α) {w w' : W} (hd : S.Drift w w')
    (h : S.wp I Pre p (fun r _ => R r) w) : S.wp I Pre p (fun r _ => R r) w' := by
  cases p with
  | done r => exact h
  | call o k => exact fun w₁ hd₁ hI => h w₁ (hd.trans hd₁) hI

end Wp

/-! ## §3. From programs to runs. -/

/-- The invariant is kept by the other actors, by every guarded operation, and
when a pass ends or crashes. -/
structure Preserves (S : System Op Rep Act W) (I : W → Prop) (Pre : Op → W → Prop) : Prop where
  act : ∀ a w w', S.env a w w' → I w → I w'
  call : ∀ o w r w', S.exec o w r w' → Pre o w → I w → I w'
  idle : ∀ w, I w → I (S.idle w)

theorem Preserves.choosing {S : System Op Rep Act W} {I : W → Prop} {Pre : Op → W → Prop}
    (h : S.Preserves I Pre) (ι : Type) :
    (S.choosing ι).Preserves I (Sum.elim Pre fun _ _ => True) where
  act := h.act
  call := by
    intro o w r w' he hpre hI
    cases o with
    | inl o => exact h.call o w r w' he hpre hI
    | inr u =>
        have hw' : w' = S.idle w := he
        rw [hw']
        exact h.idle w hI
  idle := h.idle

/-- In every reachable configuration the invariant holds, and the rest of the
pass meets its guards and ends in a result of the kind it always ends in. -/
theorem Reach.guarded {S : System Op Rep Act W} {I : W → Prop} {Pre : Op → W → Prop}
    {main : Prog Op Rep ε α} {init : W → Prop} {allow : W → Label Op Rep Act → Prop}
    {R : Except ε α → Prop} (hpres : S.Preserves I Pre) (hinit : ∀ w, init w → I w)
    (hmain : ∀ w, I w → S.wp I Pre main (fun r _ => R r) w)
    {c : Config Op Rep ε α W} (hc : S.Reach main init allow c) :
    I c.world ∧ ∀ p, c.pass = some p → S.wp I Pre p (fun r _ => R r) c.world := by
  induction hc with
  | init hw => exact ⟨hinit _ hw, fun p hp => by cases hp⟩
  | step _ hs _ ih =>
      obtain ⟨hI, hp⟩ := ih
      cases hs with
      | act h =>
          refine ⟨hpres.act _ _ _ h hI, fun p hpass => ?_⟩
          exact wp_drift p (.single ⟨_, h⟩) (hp p hpass)
      | start =>
          refine ⟨hI, fun p hpass => ?_⟩
          cases hpass
          exact hmain _ hI
      | call h =>
          obtain ⟨hpre, hnext⟩ := hp _ rfl _ .refl hI
          have hI' := hpres.call _ _ _ _ h hpre hI
          refine ⟨hI', fun p hpass => ?_⟩
          cases hpass
          exact hnext _ _ h hI'
      | finish => exact ⟨hpres.idle _ hI, fun p hp => by cases hp⟩
      | crash => exact ⟨hpres.idle _ hI, fun p hp => by cases hp⟩

/-- The guard of the operation the worker is about to perform holds. -/
theorem Reach.pre {S : System Op Rep Act W} {I : W → Prop} {Pre : Op → W → Prop}
    {main : Prog Op Rep ε α} {init : W → Prop} {allow : W → Label Op Rep Act → Prop}
    (hpres : S.Preserves I Pre) (hinit : ∀ w, init w → I w)
    (hmain : ∀ w, I w → S.wp I Pre main (fun _ _ => True) w)
    {w : W} {o : Op} {k : Rep o → Prog Op Rep ε α}
    (hc : S.Reach main init allow ⟨w, some (.call o k)⟩) : Pre o w := by
  obtain ⟨hI, hp⟩ := hc.guarded hpres hinit hmain
  exact (hp _ rfl w .refl hI).1

/-- A pass never ends in a result of another kind. -/
theorem Reach.result {S : System Op Rep Act W} {I : W → Prop} {Pre : Op → W → Prop}
    {main : Prog Op Rep ε α} {init : W → Prop} {allow : W → Label Op Rep Act → Prop}
    {R : Except ε α → Prop} (hpres : S.Preserves I Pre) (hinit : ∀ w, init w → I w)
    (hmain : ∀ w, I w → S.wp I Pre main (fun r _ => R r) w)
    {w : W} {r : Except ε α} (hc : S.Reach main init allow ⟨w, some (.done r)⟩) : R r :=
  (hc.guarded hpres hinit hmain).2 _ rfl

/-- The system whose steps are the allowed ones. -/
def restrict (S : System Op Rep Act W) (allow : W → Label Op Rep Act → Prop) :
    System Op Rep Act W where
  exec := fun o w r w' => S.exec o w r w' ∧ allow w (.call o r)
  env := fun a w w' => S.env a w w' ∧ allow w (.act a)
  idle := S.idle

/-- A run by allowed steps is a run of the restricted system. -/
theorem Reach.restrict {S : System Op Rep Act W} {main : Prog Op Rep ε α} {init : W → Prop}
    {allow : W → Label Op Rep Act → Prop} {c : Config Op Rep ε α W}
    (hc : S.Reach main init allow c) : (S.restrict allow).Reach main init anyStep c := by
  induction hc with
  | init hw => exact .init hw
  | step _ hs ha ih =>
      cases hs with
      | act h => exact .step ih (.act ⟨h, ha⟩) trivial
      | start => exact .step ih .start trivial
      | call h => exact .step ih (.call ⟨h, ha⟩) trivial
      | finish => exact .step ih .finish trivial
      | crash => exact .step ih .crash trivial

/-- From one configuration to another by allowed steps. -/
def Run (S : System Op Rep Act W) (main : Prog Op Rep ε α)
    (allow : W → Label Op Rep Act → Prop) :
    Config Op Rep ε α W → Config Op Rep ε α W → Prop :=
  Relation.ReflTransGen fun c c' => ∃ l, S.Step main c l c' ∧ allow c.world l

/-- A run that goes on from a reachable configuration stays among the reachable
ones. -/
theorem Reach.run {S : System Op Rep Act W} {main : Prog Op Rep ε α} {init : W → Prop}
    {allow : W → Label Op Rep Act → Prop} {c c' : Config Op Rep ε α W}
    (hc : S.Reach main init allow c) (hr : S.Run main allow c c') :
    S.Reach main init allow c' := by
  induction hr with
  | refl => exact hc
  | tail _ hs ih =>
      obtain ⟨l, hs, ha⟩ := hs
      exact .step ih hs ha

/-- A reachable configuration has a run that starts initially. -/
theorem Reach.exists_run {S : System Op Rep Act W} {main : Prog Op Rep ε α} {init : W → Prop}
    {allow : W → Label Op Rep Act → Prop} {c : Config Op Rep ε α W}
    (hc : S.Reach main init allow c) : ∃ w, init w ∧ S.Run main allow ⟨w, none⟩ c := by
  induction hc with
  | init hw => exact ⟨_, hw, .refl⟩
  | step _ hs ha ih =>
      obtain ⟨w, hw, hr⟩ := ih
      exact ⟨w, hw, hr.tail ⟨_, hs, ha⟩⟩

/-- Induction along a run: a property that every allowed step keeps, given the
guards, is kept from any configuration on that was reached, by steps of
whatever other kind. -/
theorem Run.invariant_from {S : System Op Rep Act W} {I J : W → Prop} {Pre : Op → W → Prop}
    {main : Prog Op Rep ε α} {init : W → Prop} {before allow : W → Label Op Rep Act → Prop}
    (hpres : S.Preserves I Pre) (hinit : ∀ w, init w → I w)
    (hmain : ∀ w, I w → S.wp I Pre main (fun _ _ => True) w)
    (hJact : ∀ a w w', S.env a w w' → allow w (.act a) → I w → J w → J w')
    (hJcall : ∀ o w r w', S.exec o w r w' → allow w (.call o r) → Pre o w → I w → J w → J w')
    (hJidle : ∀ w, I w → J w → J (S.idle w))
    {c c' : Config Op Rep ε α W} (hc : S.Reach main init before c) (hr : S.Run main allow c c')
    (hJ : J c.world) : J c'.world := by
  -- The configurations in between are reached by some steps, which gives the guards.
  have hany : S.Reach main init anyStep c := Reach.mono (fun _ _ _ => trivial) hc
  suffices h : S.Reach main init anyStep c' ∧ J c'.world from h.2
  induction hr with
  | refl => exact ⟨hany, hJ⟩
  | tail hr hs ih =>
      obtain ⟨hc', hJ'⟩ := ih
      have hI := (hc'.guarded hpres hinit hmain).1
      obtain ⟨l, hs, ha⟩ := hs
      refine ⟨.step hc' hs trivial, ?_⟩
      cases hs with
      | act h => exact hJact _ _ _ h ha hI hJ'
      | start => exact hJ'
      | call h => exact hJcall _ _ _ _ h ha (hc'.pre hpres hinit hmain) hI hJ'
      | finish => exact hJidle _ hI hJ'
      | crash => exact hJidle _ hI hJ'

/-- The same where the steps before are of the same kind. -/
theorem Run.invariant {S : System Op Rep Act W} {I J : W → Prop} {Pre : Op → W → Prop}
    {main : Prog Op Rep ε α} {init : W → Prop} {allow : W → Label Op Rep Act → Prop}
    (hpres : S.Preserves I Pre) (hinit : ∀ w, init w → I w)
    (hmain : ∀ w, I w → S.wp I Pre main (fun _ _ => True) w)
    (hJact : ∀ a w w', S.env a w w' → allow w (.act a) → I w → J w → J w')
    (hJcall : ∀ o w r w', S.exec o w r w' → allow w (.call o r) → Pre o w → I w → J w → J w')
    (hJidle : ∀ w, I w → J w → J (S.idle w))
    {c c' : Config Op Rep ε α W} (hc : S.Reach main init allow c) (hr : S.Run main allow c c')
    (hJ : J c.world) : J c'.world :=
  Run.invariant_from hpres hinit hmain hJact hJcall hJidle hc hr hJ

/-- Induction over all runs from the initial worlds. -/
theorem Reach.invariant {S : System Op Rep Act W} {I J : W → Prop} {Pre : Op → W → Prop}
    {main : Prog Op Rep ε α} {init : W → Prop} {allow : W → Label Op Rep Act → Prop}
    (hpres : S.Preserves I Pre) (hinit : ∀ w, init w → I w)
    (hmain : ∀ w, I w → S.wp I Pre main (fun _ _ => True) w)
    (hJinit : ∀ w, init w → J w)
    (hJact : ∀ a w w', S.env a w w' → allow w (.act a) → I w → J w → J w')
    (hJcall : ∀ o w r w', S.exec o w r w' → allow w (.call o r) → Pre o w → I w → J w → J w')
    (hJidle : ∀ w, I w → J w → J (S.idle w))
    {c : Config Op Rep ε α W} (hc : S.Reach main init allow c) : J c.world := by
  obtain ⟨w, hw, hr⟩ := hc.exists_run
  exact Run.invariant hpres hinit hmain hJact hJcall hJidle (.init hw) hr (hJinit w hw)

/-! ## §4. History variables. -/

/-- `S'` carries extra components that never influence the ones `S` has. -/
structure Projects (S' : System Op Rep Act' W') (S : System Op Rep Act W) (π : W' → W) :
    Prop where
  act : ∀ a w w', S'.env a w w' → S.Drift (π w) (π w')
  call : ∀ o w r w', S'.exec o w r w' → S.exec o (π w) r (π w')
  idle : ∀ w, π (S'.idle w) = S.idle (π w)

/-- The other actors lead from reachable to reachable. -/
theorem Reach.drift {S : System Op Rep Act W} {main : Prog Op Rep ε α} {init : W → Prop}
    {w w' : W} {p : Option (Prog Op Rep ε α)} (hd : S.Drift w w')
    (hc : S.Reach main init anyStep ⟨w, p⟩) : S.Reach main init anyStep ⟨w', p⟩ := by
  induction hd with
  | refl => exact hc
  | tail _ hs ih =>
      obtain ⟨a, ha⟩ := hs
      exact .step ih (.act ha) trivial

/-- Every run of the system with history variables is, without them, a run of
the plain system. -/
theorem Reach.project {S' : System Op Rep Act' W'} {S : System Op Rep Act W} {π : W' → W}
    (hproj : Projects S' S π) {main : Prog Op Rep ε α} {init' : W' → Prop} {init : W → Prop}
    {allow : W' → Label Op Rep Act' → Prop} (hinit : ∀ w, init' w → init (π w))
    {c : Config Op Rep ε α W'} (hc : S'.Reach main init' allow c) :
    S.Reach main init anyStep ⟨π c.world, c.pass⟩ := by
  induction hc with
  | init hw => exact .init (hinit _ hw)
  | step _ hs _ ih =>
      cases hs with
      | act h => exact ih.drift (hproj.act _ _ _ h)
      | start => exact .step ih .start trivial
      | call h => exact .step ih (.call (hproj.call _ _ _ _ h)) trivial
      | finish =>
          rw [hproj.idle]
          exact .step ih .finish trivial
      | crash =>
          rw [hproj.idle]
          exact .step ih .crash trivial

/-- Induction over all runs of a system with history variables, the invariant
and the guards of the plain system at hand. -/
theorem Reach.history {S' : System Op Rep Act' W'} {S : System Op Rep Act W} {π : W' → W}
    (hproj : Projects S' S π) {I : W → Prop} {Pre : Op → W → Prop} {J : W' → Prop}
    {main : Prog Op Rep ε α} {init' : W' → Prop} {init : W → Prop}
    {allow : W' → Label Op Rep Act' → Prop} (hpres : S.Preserves I Pre)
    (hinit : ∀ w, init w → I w) (hmain : ∀ w, I w → S.wp I Pre main (fun _ _ => True) w)
    (hπ : ∀ w, init' w → init (π w)) (hJinit : ∀ w, init' w → J w)
    (hJact : ∀ a w w', S'.env a w w' → allow w (.act a) → I (π w) → J w → J w')
    (hJcall : ∀ o w r w', S'.exec o w r w' → allow w (.call o r) → Pre o (π w) → I (π w) →
      J w → J w')
    (hJidle : ∀ w, J w → J (S'.idle w)) {c : Config Op Rep ε α W'}
    (hc : S'.Reach main init' allow c) : J c.world := by
  induction hc with
  | init hw => exact hJinit _ hw
  | step hc hs ha ih =>
      have hplain := Reach.project hproj hπ hc
      have hI := (hplain.guarded hpres hinit hmain).1
      cases hs with
      | act h => exact hJact _ _ _ h ha hI ih
      | start => exact ih
      | call h => exact hJcall _ _ _ _ h ha (hplain.pre hpres hinit hmain) hI ih
      | finish => exact hJidle _ ih
      | crash => exact hJidle _ ih

/-! ## §5. Concrete runs. -/

/-- The operation a pass is about to perform. -/
def next (c : Config Op Rep ε α W) : Option Op :=
  match c.pass with
  | some (.call o _) => some o
  | _ => none

/-- It can be performed with any reply the world has. -/
theorem Step.of_next {S : System Op Rep Act W} {main : Prog Op Rep ε α} {c : Config Op Rep ε α W}
    {o : Op} (ho : next c = some o) {r : Rep o} {w' : W} (h : S.exec o c.world r w') :
    ∃ c', S.Step main c (.call o r) c' ∧ c'.world = w' := by
  obtain ⟨w, p⟩ := c
  unfold next at ho
  split at ho
  · next k hp =>
      cases ho
      have hp : p = some (.call o k) := hp
      rw [hp]
      exact ⟨_, .call h, rfl⟩
  · cases ho

section Play

variable (answer : (o : Op) → W → Rep o × W) (stop : Op → Bool)

/-- Run `p` on the given answers up to the first operation `stop` selects. -/
def play : Prog Op Rep ε α → W → Config Op Rep ε α W
  | .done r, w => ⟨w, some (.done r)⟩
  | .call o k, w =>
      if stop o then ⟨w, some (.call o k)⟩ else play (k (answer o w).1) (answer o w).2

/-- Every step of `play` is allowed. -/
def follows (allow : W → Label Op Rep Act → Prop) [∀ w l, Decidable (allow w l)] :
    Prog Op Rep ε α → W → Bool
  | .done _, _ => true
  | .call o k, w =>
      stop o || (decide (allow w (.call o (answer o w).1))
        && follows allow (k (answer o w).1) (answer o w).2)

variable {answer stop}

/-- Where every step is allowed, so is every answer. -/
theorem follows_anyStep (p : Prog Op Rep ε α) :
    ∀ w, follows answer stop (anyStep : W → Label Op Rep Act → Prop) p w = true := by
  induction p with
  | done r => exact fun w => rfl
  | call o k ih =>
      intro w
      show (stop o || (decide True && _)) = true
      rw [ih, decide_true, Bool.and_self, Bool.or_true]

/-- If every answer is one the system can give, `play` is a run. -/
theorem Run.play {S : System Op Rep Act W} {main : Prog Op Rep ε α}
    {allow : W → Label Op Rep Act → Prop} [∀ w l, Decidable (allow w l)]
    (hans : ∀ o w, S.exec o w (answer o w).1 (answer o w).2) (p : Prog Op Rep ε α) :
    ∀ w, follows answer stop allow p w → S.Run main allow ⟨w, some p⟩ (play answer stop p w) := by
  induction p with
  | done r => exact fun w _ => .refl
  | call o k ih =>
      intro w hf
      simp only [follows, Bool.or_eq_true, Bool.and_eq_true, decide_eq_true_eq] at hf
      unfold System.play
      split
      · exact .refl
      · next hs =>
          obtain ⟨ha, hf⟩ := hf.resolve_left hs
          exact .head ⟨_, .call (hans o w), ha⟩ (ih _ _ hf)

/-- One pass from its start to the first operation `stop` selects. -/
theorem Run.pass {S : System Op Rep Act W} {main : Prog Op Rep ε α}
    {allow : W → Label Op Rep Act → Prop} [∀ w l, Decidable (allow w l)]
    (hans : ∀ o w, S.exec o w (answer o w).1 (answer o w).2) {w : W} (hstart : allow w .start)
    (hf : follows answer stop allow main w) :
    S.Run main allow ⟨w, none⟩ (System.play answer stop main w) :=
  .head ⟨_, .start, hstart⟩ (Run.play hans main w hf)

/-- Go on from a configuration up to the first operation `stop` selects. -/
def resume (answer : (o : Op) → W → Rep o × W) (stop : Op → Bool) (c : Config Op Rep ε α W) :
    Config Op Rep ε α W :=
  match c.pass with
  | none => c
  | some p => play answer stop p c.world

/-- Every step of `resume` is allowed. -/
def goesOn (answer : (o : Op) → W → Rep o × W) (stop : Op → Bool)
    (allow : W → Label Op Rep Act → Prop) [∀ w l, Decidable (allow w l)]
    (c : Config Op Rep ε α W) : Bool :=
  match c.pass with
  | none => true
  | some p => follows answer stop allow p c.world

theorem Run.resume {S : System Op Rep Act W} {main : Prog Op Rep ε α}
    {allow : W → Label Op Rep Act → Prop} [∀ w l, Decidable (allow w l)]
    (hans : ∀ o w, S.exec o w (answer o w).1 (answer o w).2) {c : Config Op Rep ε α W}
    (hf : goesOn answer stop allow c) : S.Run main allow c (System.resume answer stop c) := by
  obtain ⟨w, _ | p⟩ := c
  · exact .refl
  · exact Run.play hans p w hf

/-- Another actor takes a step, wherever the pass stands. -/
theorem Run.act {S : System Op Rep Act W} {main : Prog Op Rep ε α}
    {allow : W → Label Op Rep Act → Prop} {c : Config Op Rep ε α W} {a : Act} {w : W}
    (h : S.env a c.world w) (ha : allow c.world (.act a)) :
    S.Run main allow c { c with world := w } :=
  .single ⟨_, .act h, ha⟩

theorem play_isSome (p : Prog Op Rep ε α) : ∀ w, (play answer stop p w).pass.isSome := by
  induction p with
  | done r => exact fun _ => rfl
  | call o k ih =>
      intro w
      unfold play
      split
      · rfl
      · exact ih _ _

/-- A pass is left behind where it stands. -/
theorem Run.leave {S : System Op Rep Act W} {main : Prog Op Rep ε α}
    {allow : W → Label Op Rep Act → Prop} {c : Config Op Rep ε α W} (hp : c.pass.isSome)
    (hcrash : allow c.world .crash) : S.Run main allow c ⟨S.idle c.world, none⟩ := by
  obtain ⟨w, p⟩ := c
  obtain ⟨p, rfl⟩ := Option.isSome_iff_exists.mp hp
  exact .single ⟨_, .crash, hcrash⟩

end Play

end System

end BasisHawk.Lib
