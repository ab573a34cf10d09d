/-
  BasisHawk.Lib.Program
  ─────────────────────
  Sequential programs over an operation signature.

  A program is a finite-path tree: it is either finished (with a value or an
  exception) or it performs one operation and goes on with the reply.  What
  an operation does is not part of the program: `WorkerSystem` gives it a
  meaning as an atomic step of a shared world, and `Prog.eval` runs a program
  against a fixed table of replies.

  Main results:
    • `eval_bind`, `eval_resume` — evaluation is compositional,
    • `run_bind` — so is a run against a responder with a state,
    • `Leads.resume` — a point of a sequence lies in its first or its second
      part,
    • `Ensures.resume`, `Ensures.bind` — what a program does and returns
      whatever the replies are, established part by part.
-/
import Mathlib.Logic.Basic

namespace BasisHawk.Lib

/-- A sequential program: finished with a result, or one operation followed
by a continuation of its reply. -/
inductive Prog (Op : Type) (Rep : Op → Type) (ε α : Type) : Type where
  /-- The program is over, with a value or an exception. -/
  | done (r : Except ε α)
  /-- Perform `o`, then go on with the reply. -/
  | call (o : Op) (next : Rep o → Prog Op Rep ε α)

namespace Prog

variable {Op : Type} {Rep : Op → Type} {ε ε' ε'' α β γ : Type}

/-! ## §1. Sequencing. -/

/-- Run `p`, then `f` on its result, value or exception alike. -/
def resume : Prog Op Rep ε α → (Except ε α → Prog Op Rep ε' β) → Prog Op Rep ε' β
  | .done r, f => f r
  | .call o k, f => .call o (fun r => (k r).resume f)

/-- Sequencing: exceptions skip the continuation. -/
def bind (p : Prog Op Rep ε α) (f : α → Prog Op Rep ε β) : Prog Op Rep ε β :=
  p.resume fun
    | .ok a => f a
    | .error e => .done (.error e)

/-- `try p except h`. -/
def catching (p : Prog Op Rep ε α) (h : ε → Prog Op Rep ε α) : Prog Op Rep ε α :=
  p.resume fun
    | .ok a => .done (.ok a)
    | .error e => h e

/-- `try p finally q`: `q` runs in both cases, and its own exception wins. -/
def finally' (p : Prog Op Rep ε α) (q : Prog Op Rep ε Unit) : Prog Op Rep ε α :=
  p.resume fun r => q.resume fun
    | .ok _ => .done r
    | .error e => .done (.error e)

/-- The outcome of `p`, value or exception, as a value. -/
def outcome (p : Prog Op Rep ε α) : Prog Op Rep ε' (Except ε α) :=
  p.resume fun r => .done (.ok r)

/-- `try p finally: try q except Exception: pass`. -/
def finallyQuietly (p : Prog Op Rep ε α) (q : Prog Op Rep ε' β) : Prog Op Rep ε α :=
  p.resume fun r => q.resume fun _ => .done r

/-- Raise the exceptions of `p` as exceptions of another type. -/
def mapError (f : ε → ε') (p : Prog Op Rep ε α) : Prog Op Rep ε' α :=
  p.resume fun r => .done (r.mapError f)

instance : Monad (Prog Op Rep ε) where
  pure a := .done (.ok a)
  bind := bind

instance : MonadExceptOf ε (Prog Op Rep ε) where
  throw e := .done (.error e)
  tryCatch := catching

@[simp] theorem resume_done (r : Except ε α) (f : Except ε α → Prog Op Rep ε' β) :
    (Prog.done r : Prog Op Rep ε α).resume f = f r := rfl

@[simp] theorem resume_call (o : Op) (k : Rep o → Prog Op Rep ε α)
    (f : Except ε α → Prog Op Rep ε' β) :
    (Prog.call o k).resume f = .call o (fun r => (k r).resume f) := rfl

/-- A program of one of two services. -/
def inl {Op' : Type} {Rep' : Op' → Type} :
    Prog Op Rep ε α → Prog (Op ⊕ Op') (Sum.elim Rep Rep') ε α
  | .done r => .done r
  | .call o k => .call (.inl o) fun r => (k r).inl

/-- A program of the other one. -/
def inr {Op' : Type} {Rep' : Op' → Type} :
    Prog Op Rep ε α → Prog (Op' ⊕ Op) (Sum.elim Rep' Rep) ε α
  | .done r => .done r
  | .call o k => .call (.inr o) fun r => (k r).inr

theorem pure_eq (a : α) : (pure a : Prog Op Rep ε α) = .done (.ok a) := rfl

theorem throw_eq (e : ε) : (throw e : Prog Op Rep ε α) = .done (.error e) := rfl

/-- The bind of the monad in terms of `resume`: an error goes through, a value
goes on. -/
theorem bind_eq (p : Prog Op Rep ε α) (f : α → Prog Op Rep ε β) :
    (p >>= f) = p.resume (fun
      | .ok a => f a
      | .error e => .done (.error e)) := rfl

@[simp] theorem ok_bind (a : α) (f : α → Prog Op Rep ε β) :
    ((Prog.done (.ok a) : Prog Op Rep ε α) >>= f) = f a := rfl

@[simp] theorem error_bind (e : ε) (f : α → Prog Op Rep ε β) :
    ((Prog.done (.error e) : Prog Op Rep ε α) >>= f) = .done (.error e) := rfl

@[simp] theorem call_bind (o : Op) (k : Rep o → Prog Op Rep ε α) (f : α → Prog Op Rep ε β) :
    ((Prog.call o k) >>= f) = .call o (fun r => k r >>= f) := rfl

/-! ## §2. Evaluation against fixed replies. -/

/-- Run a program against a table that answers every operation. -/
def eval (answer : (o : Op) → Rep o) : Prog Op Rep ε α → Except ε α
  | .done r => r
  | .call o k => (k (answer o)).eval answer

@[simp] theorem eval_done (answer : (o : Op) → Rep o) (r : Except ε α) :
    (Prog.done r : Prog Op Rep ε α).eval answer = r := rfl

@[simp] theorem eval_call (answer : (o : Op) → Rep o) (o : Op)
    (k : Rep o → Prog Op Rep ε α) :
    (Prog.call o k).eval answer = (k (answer o)).eval answer := rfl

@[simp] theorem eval_resume (answer : (o : Op) → Rep o) (p : Prog Op Rep ε α)
    (f : Except ε α → Prog Op Rep ε' β) :
    (p.resume f).eval answer = (f (p.eval answer)).eval answer := by
  induction p with
  | done r => rfl
  | call o k ih => exact ih (answer o)

/-- Evaluation of a sequence is evaluation of its second part at the value
of the first, exceptions skipping it. -/
theorem eval_bind (answer : (o : Op) → Rep o) (p : Prog Op Rep ε α)
    (f : α → Prog Op Rep ε β) :
    (p >>= f).eval answer
      = match p.eval answer with
        | .ok a => (f a).eval answer
        | .error e => .error e := by
  rw [bind_eq, eval_resume]
  cases p.eval answer <;> rfl

/-! ## §3. Runs against a responder. -/

variable {σ : Type}

/-- Run a program against a responder that has a state of its own. -/
def run (serve : (o : Op) → σ → Rep o × σ) : Prog Op Rep ε α → σ → Except ε α × σ
  | .done r, s => (r, s)
  | .call o k, s => (k (serve o s).1).run serve (serve o s).2

@[simp] theorem run_done (serve : (o : Op) → σ → Rep o × σ) (r : Except ε α) (s : σ) :
    (Prog.done r : Prog Op Rep ε α).run serve s = (r, s) := rfl

@[simp] theorem run_call (serve : (o : Op) → σ → Rep o × σ) (o : Op)
    (k : Rep o → Prog Op Rep ε α) (s : σ) :
    (Prog.call o k).run serve s = (k (serve o s).1).run serve (serve o s).2 := rfl

/-- Running a resumed program is running the two parts in order, on one state.
-/
theorem run_resume (serve : (o : Op) → σ → Rep o × σ) (p : Prog Op Rep ε α)
    (f : Except ε α → Prog Op Rep ε' β) (s : σ) :
    (p.resume f).run serve s = (f (p.run serve s).1).run serve (p.run serve s).2 := by
  induction p generalizing s with
  | done r => rfl
  | call o k ih => exact ih (serve o s).1 (serve o s).2

/-- A run of a sequence is a run of its second part from where the first
ended, exceptions skipping it. -/
theorem run_bind (serve : (o : Op) → σ → Rep o × σ) (p : Prog Op Rep ε α)
    (f : α → Prog Op Rep ε β) (s : σ) :
    (p >>= f).run serve s
      = match p.run serve s with
        | (.ok a, s') => (f a).run serve s'
        | (.error e, s') => (.error e, s') := by
  rw [bind_eq, run_resume]
  rcases p.run serve s with ⟨r | a, s'⟩ <;> rfl

/-- A sequence that returns has a first part that returned. -/
theorem run_bind_ok {serve : (o : Op) → σ → Rep o × σ} {p : Prog Op Rep ε α}
    {f : α → Prog Op Rep ε β} {s t : σ} {b : β} :
    (p >>= f).run serve s = (.ok b, t)
      ↔ ∃ a u, p.run serve s = (.ok a, u) ∧ (f a).run serve u = (.ok b, t) := by
  rw [run_bind]
  rcases p.run serve s with ⟨e | a, u⟩
  · exact ⟨fun h => (by cases h), fun ⟨_, _, h, _⟩ => (by cases h)⟩
  · exact ⟨fun h => ⟨a, u, rfl, h⟩, fun ⟨_, _, h, h'⟩ => (by cases h; exact h')⟩

/-- Runs from states the responder cannot tell apart go the same way. -/
theorem run_related {R : σ → σ → Prop} {serve : (o : Op) → σ → Rep o × σ}
    (h : ∀ o s t, R s t → (serve o s).1 = (serve o t).1 ∧ R (serve o s).2 (serve o t).2)
    (p : Prog Op Rep ε α) {s t : σ} (hst : R s t) :
    (p.run serve s).1 = (p.run serve t).1 ∧ R (p.run serve s).2 (p.run serve t).2 := by
  induction p generalizing s t with
  | done r => exact ⟨rfl, hst⟩
  | call o k ih =>
      obtain ⟨hreply, hnext⟩ := h o s t hst
      rw [run_call, run_call, hreply]
      exact ih _ hnext

/-- The points a program can come to when its operations behave like `exec`:
what is left of it, and the state there. -/
inductive Leads (exec : (o : Op) → σ → Rep o → σ → Prop) :
    Prog Op Rep ε α → σ → Prog Op Rep ε α → σ → Prop
  | refl {p s} : Leads exec p s p s
  | step {o k s r s' q t} (h : exec o s r s') (hl : Leads exec (k r) s' q t) :
      Leads exec (.call o k) s q t

/-- A run against a responder is one of the ways a program can go. -/
theorem Leads.of_run {exec : (o : Op) → σ → Rep o → σ → Prop} {serve : (o : Op) → σ → Rep o × σ}
    (hserve : ∀ o s, exec o s (serve o s).1 (serve o s).2) (p : Prog Op Rep ε α) (s : σ) :
    Leads exec p s (.done (p.run serve s).1) (p.run serve s).2 := by
  induction p generalizing s with
  | done r => exact .refl
  | call o k ih => exact .step (hserve o s) (ih _ _)

/-- A point of a sequence lies in its first part, or in the second part after
the first one ended. -/
theorem Leads.resume {exec : (o : Op) → σ → Rep o → σ → Prop} {p : Prog Op Rep ε α}
    {f : Except ε α → Prog Op Rep ε' β} {s t : σ} {q : Prog Op Rep ε' β}
    (h : Leads exec (p.resume f) s q t) :
    (∃ o k, Leads exec p s (.call o k) t ∧ q = (Prog.call o k).resume f)
      ∨ ∃ r u, Leads exec p s (.done r) u ∧ Leads exec (f r) u q t := by
  induction p generalizing s with
  | done r => exact .inr ⟨r, s, .refl, h⟩
  | call o k ih =>
      cases h with
      | refl => exact .inl ⟨o, k, .refl, rfl⟩
      | step he hl =>
          rcases ih _ hl with ⟨o', k', hl', rfl⟩ | ⟨r, u, hl', hr⟩
          · exact .inl ⟨o', k', .step he hl', rfl⟩
          · exact .inr ⟨r, u, .step he hl', hr⟩

/-- A point of the second part is a point of the sequence. -/
theorem Leads.seq {exec : (o : Op) → σ → Rep o → σ → Prop} {p : Prog Op Rep ε α}
    {f : α → Prog Op Rep ε β} {s u t : σ} {a : α} {q : Prog Op Rep ε β}
    (h : Leads exec p s (.done (.ok a)) u) (hf : Leads exec (f a) u q t) :
    Leads exec (p >>= f) s q t := by
  induction p generalizing s with
  | done r =>
      cases h
      exact hf
  | call o k ih =>
      cases h with
      | step he hl => exact .step he (ih _ hl)

/-- A sequence that comes to its end went through the end of its first part. -/
theorem Leads.bind_ok {exec : (o : Op) → σ → Rep o → σ → Prop} {p : Prog Op Rep ε α}
    {f : α → Prog Op Rep ε β} {s t : σ} {b : β} (h : Leads exec (p >>= f) s (.done (.ok b)) t) :
    ∃ a u, Leads exec p s (.done (.ok a)) u ∧ Leads exec (f a) u (.done (.ok b)) t := by
  rw [bind_eq] at h
  rcases h.resume with ⟨o, k, -, hq⟩ | ⟨r, u, hl, hr⟩
  · cases hq
  · cases r with
    | ok a => exact ⟨a, u, hl, hr⟩
    | error e => cases hr

/-! ## §4. What holds whatever the replies are. -/

/-- Every operation the program can perform lies in `allowed`, and every
result it can end with satisfies `R`. -/
def Ensures (allowed : Op → Prop) (R : Except ε α → Prop) : Prog Op Rep ε α → Prop
  | .done r => R r
  | .call o k => allowed o ∧ ∀ r, (k r).Ensures allowed R

/-- What the operations of both parts satisfy, those of the whole satisfy. -/
theorem Ensures.resume {allowed : Op → Prop} {R : Except ε α → Prop} {R' : Except ε' β → Prop}
    {p : Prog Op Rep ε α} {f : Except ε α → Prog Op Rep ε' β} (hp : p.Ensures allowed R)
    (hf : ∀ r, R r → (f r).Ensures allowed R') : (p.resume f).Ensures allowed R' := by
  induction p with
  | done r => exact hf r hp
  | call o k ih => exact ⟨hp.1, fun r => ih r (hp.2 r)⟩

/-- The sequencing rule: a value goes on to `f`, an exception ends the program. -/
theorem Ensures.bind {allowed : Op → Prop} {R : Except ε α → Prop} {R' : Except ε β → Prop}
    {p : Prog Op Rep ε α} {f : α → Prog Op Rep ε β} (hp : p.Ensures allowed R)
    (hf : ∀ a, R (.ok a) → (f a).Ensures allowed R')
    (he : ∀ e, R (.error e) → R' (.error e)) : (p >>= f).Ensures allowed R' := by
  rw [bind_eq]
  refine hp.resume fun r hr => ?_
  cases r with
  | ok a => exact hf a hr
  | error e => exact he e hr

/-- Allowing more operations and concluding less keeps an `Ensures`. -/
theorem Ensures.mono {allowed allowed' : Op → Prop} {R R' : Except ε α → Prop}
    {p : Prog Op Rep ε α} (hp : p.Ensures allowed R) (ha : ∀ o, allowed o → allowed' o)
    (hR : ∀ r, R r → R' r) : p.Ensures allowed' R' := by
  induction p with
  | done r => exact hR r hp
  | call o k ih => exact ⟨ha o hp.1, fun r => ih r (hp.2 r)⟩

/-- A program of operations that leave the responder's state alone leaves it
alone. -/
theorem Ensures.run_snd {allowed : Op → Prop} {R : Except ε α → Prop}
    {serve : (o : Op) → σ → Rep o × σ} (hserve : ∀ o s, allowed o → (serve o s).2 = s)
    {p : Prog Op Rep ε α} (hp : p.Ensures allowed R) (s : σ) : (p.run serve s).2 = s := by
  induction p generalizing s with
  | done r => rfl
  | call o k ih =>
      rw [run_call, ih _ (hp.2 _), hserve o s hp.1]

/-- Where all operations a program performs are answered from a table, so is the
program. -/
theorem Ensures.run_eval {allowed : Op → Prop} {R : Except ε α → Prop} {P : σ → Prop}
    {serve : (o : Op) → σ → Rep o × σ} {answer : (o : Op) → Rep o}
    (hserve : ∀ o s, allowed o → P s → (serve o s).1 = answer o ∧ P (serve o s).2)
    {p : Prog Op Rep ε α} (hp : p.Ensures allowed R) {s : σ} (hs : P s) :
    (p.run serve s).1 = p.eval answer ∧ P (p.run serve s).2 := by
  induction p generalizing s with
  | done r => exact ⟨rfl, hs⟩
  | call o k ih =>
      obtain ⟨hreply, hnext⟩ := hserve o s hp.1 hs
      rw [run_call, eval_call, hreply]
      exact ih _ (hp.2 _) hnext

/-- The result of a run is one the program can end with. -/
theorem Ensures.run_fst {allowed : Op → Prop} {R : Except ε α → Prop}
    {serve : (o : Op) → σ → Rep o × σ} {p : Prog Op Rep ε α} (hp : p.Ensures allowed R) (s : σ) :
    R (p.run serve s).1 := by
  induction p generalizing s with
  | done r => exact hp
  | call o k ih => exact ih _ (hp.2 _) _

/-- A program only comes to operations it can perform. -/
theorem Ensures.leads_call {allowed : Op → Prop} {R : Except ε α → Prop}
    {exec : (o : Op) → σ → Rep o → σ → Prop} {p : Prog Op Rep ε α} (hp : p.Ensures allowed R)
    {s t : σ} {o : Op} {k : Rep o → Prog Op Rep ε α} (h : Leads exec p s (.call o k) t) :
    allowed o := by
  induction p generalizing s with
  | done r => cases h
  | call o' k' ih =>
      cases h with
      | refl => exact hp.1
      | step _ hl => exact ih _ (hp.2 _) hl

/-- What every operation a program can perform keeps holds wherever it comes to,
and the rest still ends the way the program can end. -/
theorem Ensures.leads {allowed : Op → Prop} {R : Except ε α → Prop}
    {exec : (o : Op) → σ → Rep o → σ → Prop} {P : σ → Prop} {p : Prog Op Rep ε α}
    (hp : p.Ensures allowed R) (hkeep : ∀ o s r s', allowed o → P s → exec o s r s' → P s')
    {s t : σ} {q : Prog Op Rep ε α} (h : Leads exec p s q t) (hs : P s) :
    P t ∧ q.Ensures allowed R := by
  induction h with
  | refl => exact ⟨hs, hp⟩
  | step he _ ih => exact ih (hp.2 _) (hkeep _ _ _ _ hp.1 hs he)

/-- An operation that the first part of a sequence never performs comes after
the first part has returned. -/
theorem Leads.after {exec : (o : Op) → σ → Rep o → σ → Prop} {p : Prog Op Rep ε α}
    {f : α → Prog Op Rep ε β} {s t : σ} {o : Op} {k : Rep o → Prog Op Rep ε β}
    (h : Leads exec (p >>= f) s (.call o k) t) (hp : p.Ensures (· ≠ o) fun _ => True) :
    ∃ a u, Leads exec p s (.done (.ok a)) u ∧ Leads exec (f a) u (.call o k) t := by
  rw [bind_eq] at h
  rcases h.resume with ⟨o', k', hl, hq⟩ | ⟨r, u, hl, hr⟩
  · injection hq with ho
    exact absurd ho.symm (hp.leads_call hl)
  · cases r with
    | ok a => exact ⟨a, u, hl, hr⟩
    | error e => cases hr

/-- Every operation the program can perform lies in `allowed`, and every value
it can return satisfies `P`. -/
def Yields (allowed : Op → Prop) (P : α → Prop) (p : Prog Op Rep ε α) : Prop :=
  p.Ensures allowed fun r => ∀ a, r = .ok a → P a

theorem Yields.done {allowed : Op → Prop} {P : α → Prop} {r : Except ε α}
    (h : ∀ a, r = .ok a → P a) : (Prog.done r : Prog Op Rep ε α).Yields allowed P := h

theorem Yields.value {allowed : Op → Prop} {P : α → Prop} {a : α} (h : P a) :
    (Prog.done (.ok a) : Prog Op Rep ε α).Yields allowed P := by
  intro b hb
  injection hb with hb
  exact hb ▸ h

theorem Yields.raise {allowed : Op → Prop} {P : α → Prop} {e : ε} :
    (Prog.done (.error e) : Prog Op Rep ε α).Yields allowed P := by
  intro b hb
  cases hb

/-- A program that begins with an allowed operation yields what its
continuations yield, whatever is answered. -/
theorem Yields.call {allowed : Op → Prop} {P : α → Prop} {o : Op} {k : Rep o → Prog Op Rep ε α}
    (ho : allowed o) (hk : ∀ r, (k r).Yields allowed P) : (Prog.call o k).Yields allowed P :=
  ⟨ho, hk⟩

/-- The sequencing rule for what a program returns. -/
theorem Yields.bind {allowed : Op → Prop} {P : α → Prop} {P' : β → Prop} {p : Prog Op Rep ε α}
    {f : α → Prog Op Rep ε β} (hp : p.Yields allowed P)
    (hf : ∀ a, P a → (f a).Yields allowed P') : (p >>= f).Yields allowed P' :=
  Ensures.bind hp (fun a ha => hf a (ha a rfl)) fun _ _ _ h => by cases h

end Prog

end BasisHawk.Lib
