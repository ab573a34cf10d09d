/-
  BasisHawk.Lib.Script
  ────────────────────
  One pass of a worker as a function of everything it does not decide itself.

  A script gives, operation by operation, the choice that settles the reply
  and the steps the other actors take after it.  Under a script a pass is a
  computation, so that what it comes to can be compared with what it started
  from.

  Main results:
    • `exists_of_run` — every whole pass is the pass under some script,
    • `run_stable` — a program of operations that keep an assertion keeps it,
    • `run_hear` — a program of reads depends on the choices alone.
-/
import BasisHawk.Lib.WorkerSystem
import Mathlib.Data.Stream.Init

namespace BasisHawk.Lib

/-- What settles one operation, and what the other actors do after it. -/
structure Turn (C Act : Type) where
  choice : C
  acts : List Act

/-- One turn for every operation of a pass. -/
abbrev Script (C Act : Type) : Type := Stream' (Turn C Act)

namespace Script

variable {Op : Type} {Rep : Op → Type} {ε α Act W C : Type}

/-- One operation under a script. -/
def serve (answer : C → (o : Op) → W → Rep o × W) (env : Act → W → W) (o : Op)
    (s : W × Script C Act) : Rep o × (W × Script C Act) :=
  let reply := answer s.2.head.choice o s.1
  (reply.1, s.2.head.acts.foldl (fun w a => env a w) reply.2, s.2.tail)

theorem serve_cons {answer : C → (o : Op) → W → Rep o × W} {env : Act → W → W} {c : C}
    {acts : List Act} {sc : Script C Act} {o : Op} {w : W} :
    serve answer env o (w, Stream'.cons ⟨c, acts⟩ sc)
      = ((answer c o w).1, acts.foldl (fun w a => env a w) (answer c o w).2, sc) := rfl

/-- The steps of a run that stay within one pass. -/
def Within (_ : W) : Label Op Rep Act → Prop
  | .act _ | .call .. => True
  | .start | .finish | .crash => False

variable {S : System Op Rep Act W} {answer : C → (o : Op) → W → Rep o × W} {env : Act → W → W}

/-- What the other actors do between two operations, as a list. -/
theorem exists_acts (henv : ∀ a w w', S.env a w w' → w' = env a w) {w w' : W}
    (h : S.Drift w w') : ∃ acts : List Act, acts.foldl (fun w a => env a w) w = w' := by
  induction h with
  | refl => exact ⟨[], rfl⟩
  | tail _ hs ih =>
      obtain ⟨acts, rfl⟩ := ih
      obtain ⟨a, ha⟩ := hs
      refine ⟨acts ++ [a], ?_⟩
      rw [List.foldl_append, henv a _ _ ha]
      rfl

/-- Every pass that comes to its end, whatever the other actors did in the
meantime, is the pass under some script. -/
theorem exists_of_run [Inhabited C] {main : Prog Op Rep ε α}
    (hanswer : ∀ o w r w', S.exec o w r w' → ∃ c, answer c o w = (r, w'))
    (henv : ∀ a w w', S.env a w w' → w' = env a w) {w w' : W} {p : Prog Op Rep ε α}
    {r : Except ε α} (h : S.Run main Within ⟨w, some p⟩ ⟨w', some (.done r)⟩) :
    ∃ w₀ sc, S.Drift w w₀ ∧ (p.run (serve answer env) (w₀, sc)).1 = r
      ∧ (p.run (serve answer env) (w₀, sc)).2.1 = w' := by
  have key : ∀ c c', S.Run main Within c c' → ∀ w p, c = ⟨w, some p⟩ →
      c' = ⟨w', some (.done r)⟩ → ∃ w₀ sc, S.Drift w w₀
        ∧ (p.run (serve answer env) (w₀, sc)).1 = r
        ∧ (p.run (serve answer env) (w₀, sc)).2.1 = w' := by
    intro c c' hrun
    induction hrun using Relation.ReflTransGen.head_induction_on with
    | refl =>
        rintro w p rfl heq
        cases heq
        exact ⟨w', Stream'.const ⟨default, []⟩, .refl, rfl, rfl⟩
    | head hs _ ih =>
        rintro w p rfl hend
        obtain ⟨l, hs, hl⟩ := hs
        cases hs with
        | act ha =>
            obtain ⟨w₀, sc, hd, hr⟩ := ih _ _ rfl hend
            exact ⟨w₀, sc, .head ⟨_, ha⟩ hd, hr⟩
        | call he =>
            -- The other actors' next steps belong to this operation's turn.
            obtain ⟨w₀, sc, hd, hr⟩ := ih _ _ rfl hend
            obtain ⟨c, hc⟩ := hanswer _ _ _ _ he
            obtain ⟨acts, rfl⟩ := exists_acts henv hd
            refine ⟨w, Stream'.cons ⟨c, acts⟩ sc, .refl, ?_⟩
            rw [Prog.run_call, serve_cons, hc]
            exact hr
        | finish => cases hl
        | crash => cases hl
  exact key _ _ h w p rfl rfl

/-- An assertion that the operation and the other actors keep. -/
theorem serve_stable {P : W → Prop} (henv : ∀ a w, P w → P (env a w)) {o : Op}
    {s : W × Script C Act} (hop : P (answer s.2.head.choice o s.1).2) :
    P (serve answer env o s).2.1 := by
  have hacts : ∀ (acts : List Act) w, P w → P (acts.foldl (fun w a => env a w) w) := by
    intro acts
    induction acts with
    | nil => exact fun _ hw => hw
    | cons a rest ih => exact fun w hw => ih _ (henv a w hw)
  exact hacts _ _ hop

/-- A program of operations that keep an assertion keeps it. -/
theorem run_stable {P : W → Prop} {allowed : Op → Prop} {R : Except ε α → Prop}
    (henv : ∀ a w, P w → P (env a w))
    (hop : ∀ c o w, allowed o → P w → P (answer c o w).2) {p : Prog Op Rep ε α}
    (hp : p.Ensures allowed R) :
    ∀ s : W × Script C Act, P s.1 → P (p.run (serve answer env) s).2.1 := by
  induction p with
  | done r => exact fun _ hs => hs
  | call o k ih => exact fun s hs => ih _ (hp.2 _) _ (serve_stable henv (hop _ o _ hp.1 hs))

/-- The replies alone, where the world has no say in them. -/
def hear (replies : C → (o : Op) → Rep o) (o : Op) (sc : Script C Act) :
    Rep o × Script C Act :=
  (replies sc.head.choice o, sc.tail)

/-- The result of a program whose replies the world has no say in. -/
theorem run_hear {replies : C → (o : Op) → Rep o} {allowed : Op → Prop} {R : Except ε α → Prop}
    (hreplies : ∀ c o w, allowed o → (answer c o w).1 = replies c o) {p : Prog Op Rep ε α}
    (hp : p.Ensures allowed R) : ∀ s : W × Script C Act,
      (p.run (serve answer env) s).1 = (p.run (hear replies) s.2).1 := by
  induction p with
  | done r => exact fun _ => rfl
  | call o k ih =>
      intro s
      rw [Prog.run_call, ih _ (hp.2 _), Prog.run_call]
      show (((k (answer s.2.head.choice o s.1).1).run _ _).1 : Except ε α) = _
      rw [hreplies _ o _ hp.1]
      rfl

/-- What is left of the choices are the later ones. -/
theorem run_hear_drop {replies : C → (o : Op) → Rep o} (p : Prog Op Rep ε α) :
    ∀ sc : Script C Act, ∃ n, (p.run (hear replies) sc).2 = sc.drop n := by
  induction p with
  | done r => exact fun sc => ⟨0, rfl⟩
  | call o k ih =>
      intro sc
      obtain ⟨n, hn⟩ := ih (hear replies o sc).1 (hear replies o sc).2
      refine ⟨n + 1, ?_⟩
      rw [Prog.run_call, hn]
      rfl

/-- It takes as many turns either way. -/
theorem run_hear_script {replies : C → (o : Op) → Rep o} {allowed : Op → Prop}
    {R : Except ε α → Prop} (hreplies : ∀ c o w, allowed o → (answer c o w).1 = replies c o)
    {p : Prog Op Rep ε α} (hp : p.Ensures allowed R) : ∀ s : W × Script C Act,
      (p.run (serve answer env) s).2.2 = (p.run (hear replies) s.2).2 := by
  induction p with
  | done r => exact fun _ => rfl
  | call o k ih =>
      intro s
      rw [Prog.run_call, ih _ (hp.2 _), Prog.run_call]
      show ((k (answer s.2.head.choice o s.1).1).run _ _).2 = _
      rw [hreplies _ o _ hp.1]
      rfl

end Script

end BasisHawk.Lib
