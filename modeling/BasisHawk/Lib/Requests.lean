/-
  BasisHawk.Lib.Requests
  ──────────────────────
  Any number of requests on a shared world, each of which runs a program of
  its own once.

  Every operation of a request is one atomic step, and the steps of the
  requests interleave in any order.  To one of them the others are the
  interference: `member` is the system a request sees.

  Main results:
    • `Reach.guarded` — if every program meets its guards among guarded others,
      then in every reachable configuration every request's rest does,
    • `Reach.answer` — and what a request has answered is what its program may
      answer,
    • `Reach.schedule` — a given order of steps, computed.
-/
import BasisHawk.Lib.WorkerSystem
import Mathlib.Logic.Function.Basic

namespace BasisHawk.Lib

/-- What the operations of each request do to the world. -/
structure Requests (ι Op : Type) (Rep : Op → Type) (W : Type) where
  /-- Request `i` performs `o` in one atomic step. -/
  exec : ι → (o : Op) → W → Rep o → W → Prop

namespace Requests

variable {ι Op : Type} {Rep : Op → Type} {ε α W : Type}

/-! ## §1. Steps and runs. -/

/-- A world together with what is left of each request. -/
structure Config (ι Op : Type) (Rep : Op → Type) (ε α W : Type) where
  world : W
  rest : ι → Prog Op Rep ε α

/-- Request `i` takes the step `o`. -/
inductive Step [DecidableEq ι] (R : Requests ι Op Rep W) (i : ι) (o : Op) :
    Config ι Op Rep ε α W → Config ι Op Rep ε α W → Prop
  | call {w r w' k ps} (hp : ps i = .call o k) (h : R.exec i o w r w') :
      Step R i o ⟨w, ps⟩ ⟨w', Function.update ps i (k r)⟩

/-- Configurations reached by runs whose every step is allowed in the world it
starts from. -/
inductive Reach [DecidableEq ι] (R : Requests ι Op Rep W) (main : ι → Prog Op Rep ε α) (w₀ : W)
    (allow : ι → Op → W → Prop) : Config ι Op Rep ε α W → Prop
  | init : Reach R main w₀ allow ⟨w₀, main⟩
  | step {c c' i o} (hc : Reach R main w₀ allow c) (hs : R.Step i o c c')
      (ha : allow i o c.world) : Reach R main w₀ allow c'

/-- Every order of steps. -/
abbrev anyOrder : ι → Op → W → Prop := fun _ _ _ => True

/-! ## §2. One request among the others. -/

section Guarded

variable (R : Requests ι Op Rep W) (allow : ι → Op → W → Prop) (I : W → Prop)
  (Pre : ι → Op → W → Prop)

/-- An allowed step of another request that meets its guard, from a world that
satisfies the invariant. -/
inductive Other (i : ι) : W → W → Prop
  | call {j o w r w'} (hI : I w) (hj : j ≠ i) (ha : allow j o w) (hpre : Pre j o w)
      (h : R.exec j o w r w') : Other i w w'

/-- The system that request `i` sees. -/
def member (i : ι) : System Op Rep Unit W where
  exec := fun o w r w' => allow i o w ∧ R.exec i o w r w'
  env := fun _ => Other R allow I Pre i
  idle := id

/-- The invariant is kept by every guarded operation. -/
def Preserves : Prop :=
  ∀ i o w r w', allow i o w → R.exec i o w r w' → Pre i o w → I w → I w'

variable {R allow I Pre}

/-- An assertion on the answers of a request that no other request can break. -/
def Lasting (R : Requests ι Op Rep W) (allow : ι → Op → W → Prop) (I : W → Prop)
    (Pre : ι → Op → W → Prop) (i : ι) (Q : Except ε α → W → Prop) : Prop :=
  ∀ r, (R.member allow I Pre i).Stable (Q r)

/-- A guarantee for the rest of a request survives the steps of the others. -/
theorem wp_other {i : ι} {Q : Except ε α → W → Prop} (hQ : Lasting R allow I Pre i Q)
    (p : Prog Op Rep ε α) {w w' : W} (hd : Other R allow I Pre i w w')
    (h : (R.member allow I Pre i).wp I (Pre i) p Q w) :
    (R.member allow I Pre i).wp I (Pre i) p Q w' := by
  cases p with
  | done r => exact hQ r () w w' hd h
  | call o k =>
      intro w₁ hd₁ hI
      exact h w₁ (Relation.ReflTransGen.head ⟨(), hd⟩ hd₁) hI

variable [DecidableEq ι] {main : ι → Prog Op Rep ε α} {w₀ : W}
  {Q : ι → Except ε α → W → Prop}

/-- In every reachable configuration the invariant holds, and what is left of
every request meets its guards and ends as it should. -/
theorem Reach.guarded (hpres : Preserves R allow I Pre) (hQ : ∀ i, Lasting R allow I Pre i (Q i))
    (hinit : I w₀) (hmain : ∀ i, (R.member allow I Pre i).wp I (Pre i) (main i) (Q i) w₀)
    {c : Config ι Op Rep ε α W} (hc : R.Reach main w₀ allow c) :
    I c.world ∧ ∀ i, (R.member allow I Pre i).wp I (Pre i) (c.rest i) (Q i) c.world := by
  induction hc with
  | init => exact ⟨hinit, hmain⟩
  | @step c c' i o _ hs ha ih =>
      obtain ⟨hI, hp⟩ := ih
      cases hs with
      | @call w r w' k ps hi h =>
          have hmine := hp i
          rw [show (⟨w, ps⟩ : Config ι Op Rep ε α W).rest i = .call o k from hi] at hmine
          obtain ⟨hpre, hnext⟩ := hmine w .refl hI
          have hI' := hpres i o w r w' ha h hpre hI
          refine ⟨hI', fun j => ?_⟩
          by_cases hj : j = i
          · subst hj
            show System.wp _ _ _ (Function.update ps j (k r) j) _ _
            rw [Function.update_self]
            exact hnext r w' ⟨ha, h⟩ hI'
          · show System.wp _ _ _ (Function.update ps i (k r) j) _ _
            rw [Function.update_of_ne hj]
            exact wp_other (hQ j) (ps j) (.call hI (Ne.symm hj) ha hpre h) (hp j)

/-- The answer of a request is one its program may give. -/
theorem Reach.answer (hpres : Preserves R allow I Pre) (hQ : ∀ i, Lasting R allow I Pre i (Q i))
    (hinit : I w₀) (hmain : ∀ i, (R.member allow I Pre i).wp I (Pre i) (main i) (Q i) w₀)
    {c : Config ι Op Rep ε α W} (hc : R.Reach main w₀ allow c) {i : ι} {r : Except ε α}
    (hi : c.rest i = .done r) : Q i r c.world := by
  have h := (hc.guarded hpres hQ hinit hmain).2 i
  rw [hi] at h
  exact h

end Guarded

/-! ## §3. Given orders of steps. -/

variable [DecidableEq ι]

/-- The step of request `i`, answered by `answer` where it is possible. -/
def advance (answer : ι → (o : Op) → W → Option (Rep o × W)) (i : ι)
    (c : Config ι Op Rep ε α W) : Option (Config ι Op Rep ε α W) :=
  match c.rest i with
  | .done _ => none
  | .call o k => (answer i o c.world).map fun (r, w') => ⟨w', Function.update c.rest i (k r)⟩

/-- The steps of the requests in a given order. -/
def schedule (answer : ι → (o : Op) → W → Option (Rep o × W)) :
    List ι → Config ι Op Rep ε α W → Option (Config ι Op Rep ε α W)
  | [], c => some c
  | i :: is, c => (advance answer i c).bind (schedule answer is)

/-- A schedule that can be computed gives a run: each request in turn performs
what the answering function says. -/
theorem Reach.schedule {R : Requests ι Op Rep W} {main : ι → Prog Op Rep ε α} {w₀ : W}
    {allow : ι → Op → W → Prop} {answer : ι → (o : Op) → W → Option (Rep o × W)}
    (hans : ∀ i o w r w', answer i o w = some (r, w') → R.exec i o w r w' ∧ allow i o w)
    (is : List ι) :
    ∀ {c c' : Config ι Op Rep ε α W}, R.Reach main w₀ allow c →
      Requests.schedule answer is c = some c' → R.Reach main w₀ allow c' := by
  induction is with
  | nil =>
      intro c c' hc h
      cases h
      exact hc
  | cons i is ih =>
      intro c c' hc h
      obtain ⟨c₁, h₁, h⟩ := Option.bind_eq_some_iff.mp h
      refine ih ?_ h
      unfold advance at h₁
      split at h₁
      · cases h₁
      · next o k hi =>
          obtain ⟨⟨r, w'⟩, ha, rfl⟩ := Option.map_eq_some_iff.mp h₁
          obtain ⟨w, ps⟩ := c
          exact .step hc (.call hi (hans i o w r w' ha).1) (hans i o w r w' ha).2

end Requests

end BasisHawk.Lib
