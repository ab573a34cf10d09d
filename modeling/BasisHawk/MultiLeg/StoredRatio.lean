/-
  BasisHawk.MultiLeg.StoredRatio
  ──────────────────────────────
  A resolved quantity and its ratio, as computed and as read back.

  `_resolve_legs` divides in a decimal context of 28 significant digits, and the
  columns keep 18 fractional digits.  Later calls divide the stored quantities
  again and compare the quotient, unrounded, with the stored ratio.

  Main results:
    • `resolved_quantities_stand` — later calls accept what one call has resolved
      exactly when every quotient survives its column,
    • `quotient_stands_iff` — for quantities that fit their column: when the
      quotient has at most 18 fractional digits,
    • `resolved_quantities_change` — a ratio of four thirds does not survive.
-/
import BasisHawk.Lib.Rounding
import BasisHawk.MultiLeg.Completion

namespace BasisHawk.MultiLeg

open Domain Lib Accounts Database

/-! ## §1. The columns of a leg. -/

/-- A decimal context of 28 significant digits and `NUMERIC(38, 18)` columns. -/
def Numeric.decimal : Numeric where
  divide := fun a b => toPrecision 28 (a / b)
  store := toScale 18
  store_nonneg := fun _ h => toScale_nonneg 18 h

section Legs

variable {db : Database} {taskId : Nat}

/-- The legs of a task after one of them is replaced. -/
theorem legsOfTask_put {old new : ExecutionTaskLegRow} (hu : Table.Unique db.legs)
    (hold : old ∈ db.legs) (hp : new.planned = old.planned) :
    ({ db with legs := Table.put db.legs new } : Database).legsOfTask taskId
      = Table.put (db.legsOfTask taskId) new := by
  have hkey : ∀ l ∈ db.legs, key l = key new → l = old := fun l hl hk =>
    hu.eq hl hold (hk.trans (planned_id hp))
  have hsame : ∀ l ∈ db.legs,
      (if key l = key new then new else l).planned = l.planned := by
    intro l hl
    split
    · next hk => rw [hkey l hl hk, hp]
    · rfl
  have hsort := List.map_insertionSort (r := fun a b : ExecutionTaskLegRow => a.ordinal ≤ b.ordinal)
    (s := fun a b : ExecutionTaskLegRow => a.ordinal ≤ b.ordinal)
    (fun l => if key l = key new then new else l) (db.legs.filter fun l => l.taskId = taskId) ?_
  · unfold legsOfTask Table.put
    rw [hsort, List.filter_map]
    congr 2
    refine List.filter_congr fun l hl => ?_
    show decide ((if key l = key new then new else l).planned.taskId = taskId) = _
    rw [hsame l hl]
    rfl
  · intro a ha b hb
    show _ ↔ (if key a = key new then new else a).planned.ordinal
      ≤ (if key b = key new then new else b).planned.ordinal
    rw [hsame a (List.mem_of_mem_filter ha), hsame b (List.mem_of_mem_filter hb)]
    exact Iff.rfl

/-- The other actors leave the legs of a task that is there alone. -/
theorem act_legsOfTask (a : Act) {w : World} (h : taskId < w.db.nextId) :
    (a.apply w).db.legsOfTask taskId = w.db.legsOfTask taskId := by
  refine a.rec_apply (P := fun w' => w'.db.legsOfTask taskId = w.db.legsOfTask taskId)
    (fun _ => rfl) (fun _ _ => rfl) (fun plan => ?_) rfl ?_
  · -- The legs of a new task are of that task.
    refine legsOfTask_append w.db fun l hl => ?_
    obtain ⟨i, hi, rfl⟩ := List.mem_mapIdx.mp hl
    exact (Nat.ne_of_lt h).symm
  · rintro db' ⟨row, row', rfl, -⟩
    rfl

/-- The legs of a task have distinct keys. -/
theorem legsOfTask_unique (hu : Table.Unique db.legs) : Table.Unique (db.legsOfTask taskId) := by
  have hsub : Table.Unique (db.legs.filter fun l => l.taskId = taskId) :=
    List.Nodup.sublist (List.filter_sublist.map key) hu
  exact ((List.perm_insertionSort _ _).map key).nodup_iff.mpr hsub

/-- The task is there, and these are its legs. -/
structure HasLegs (taskId : Nat) (rows : List ExecutionTaskLegRow) (db : Database) : Prop where
  wellFormed : WellFormed db
  task : taskId ∈ db.tasks.map key
  legs : db.legsOfTask taskId = rows

/-- The legs of a task do not change under what other actors do. -/
theorem HasLegs.stable (taskId : Nat) (rows : List ExecutionTaskLegRow) :
    DbStable (HasLegs taskId rows) := by
  intro a w h
  have hbelow : taskId < w.db.nextId := by
    obtain ⟨t, ht, hid⟩ := List.mem_map.mp h.task
    rw [← hid]
    exact h.wellFormed.tasks_below t ht
  refine ⟨h.wellFormed.act a, ?_, (act_legsOfTask a hbelow).trans h.legs⟩
  refine a.rec_apply (P := fun w => taskId ∈ w.db.tasks.map key) (fun _ => h.task)
    (fun _ _ => h.task) (fun plan => ?_) h.task ?_
  · show taskId ∈ (w.db.tasks ++ _).map key
    rw [List.map_append]
    exact List.mem_append_left _ h.task
  · rintro db' ⟨row, row', rfl, -⟩
    show taskId ∈ (Table.put w.db.tasks row').map key
    rw [Table.map_key_put]
    exact h.task

/-- A transaction replaces at most the leg it resolves. -/
theorem HasLegs.tx {num : Numeric} {rows : List ExecutionTaskLegRow} {o : DbOp} {amb : Ambient}
    {db' : Database} {r : o.Result} (h : HasLegs taskId rows db)
    (hok : o.tx num amb db = .ok (r, db')) :
    HasLegs taskId rows db' ∨ ∃ legId base ratio old, o = .resolveLeg legId base ratio
      ∧ old ∈ db.legs ∧ old.id = legId ∧ old.resolvedBaseQuantity = none
      ∧ HasLegs taskId (Table.put rows { old with
          resolvedBaseQuantity := some (num.store base)
          signedBaseRatio := some (num.store ratio) }) db' := by
  have hwf : WellFormed db' := h.wellFormed.tx hok
  have htask : taskId ∈ db'.tasks.map key := (DbOp.tasksEffect hok).1 ▸ h.task
  rcases DbOp.legs_tx hok with hsame | ⟨legId, base, ratio, old, rfl, -, hfind, hnone, rfl⟩
  · refine .inl ⟨hwf, htask, ?_⟩
    rw [← h.legs]
    unfold legsOfTask
    rw [hsame]
  · obtain ⟨hold, hid⟩ := Table.find?_some hfind
    refine .inr ⟨legId, base, ratio, old, rfl, hold, hid, hnone, hwf, htask, ?_⟩
    refine (legsOfTask_put h.wellFormed.legs_unique hold ?_).trans (by rw [h.legs])
    rfl

end Legs

/-! ## §2. The call that resolves the legs. -/

/-- What `_resolve_legs` does once it has read the markets. -/
def checkMarkets (num : Numeric) (task : ExecutionTaskRow)
    (markets : List (ExecutionTaskLegRow × ResolvedLegMarket)) :
    Worker (List ExecutionTaskLegRow) := do
  let anchor ← pyEval (anchorQuantity markets)
  let legs ← storeResolved num anchor markets
  pyEval (checkExposure task markets)
  return legs

/-- The resolution in two parts: the markets are asked for, and what is stored
is compared with them or written. -/
theorem resolveLegs_eq (num : Numeric) (task : ExecutionTaskRow)
    (legs : List ExecutionTaskLegRow) :
    resolveLegs num task legs
      = (resolveMarkets task.quantityMode legs >>= checkMarkets num task) := rfl

/-- The ratio of a market to the anchor's quantity. -/
def ratioTo (num : Numeric) (anchor : ℚ) (m : ExecutionTaskLegRow × ResolvedLegMarket) : ℚ :=
  num.divide (sign m.1.side * m.2.baseQuantity) anchor

/-- The row of a leg once it is resolved. -/
def storedLeg (num : Numeric) (anchor : ℚ) (m : ExecutionTaskLegRow × ResolvedLegMarket) :
    ExecutionTaskLegRow :=
  { m.1 with
    resolvedBaseQuantity := some (num.store m.2.baseQuantity)
    signedBaseRatio := some (num.store (ratioTo num anchor m)) }

/-- The rows of the legs when those in `done` are resolved. -/
def partlyStored (num : Numeric) (anchor : ℚ) (done : Nat → Bool)
    (markets : List (ExecutionTaskLegRow × ResolvedLegMarket)) : List ExecutionTaskLegRow :=
  markets.map fun m => if done m.1.id then storedLeg num anchor m else m.1

/-- The operations of the second loop. -/
def Stores (num : Numeric) (anchor : ℚ) (markets : List (ExecutionTaskLegRow × ResolvedLegMarket))
    (o : Op) : Prop :=
  ∃ m ∈ markets, o = .db (.resolveLeg m.1.id m.2.baseQuantity (ratioTo num anchor m))

/-- The writing part stores each leg with the quantity of its market and the
ratio to the anchor. -/
theorem storeResolved_stores (num : Numeric) (anchor : ℚ)
    (markets : List (ExecutionTaskLegRow × ResolvedLegMarket)) :
    ∀ ms : List (ExecutionTaskLegRow × ResolvedLegMarket), (∀ m ∈ ms, m ∈ markets) →
      (storeResolved num anchor ms).Ensures (Stores num anchor markets) fun _ => True
  | [], _ => trivial
  | (leg, market) :: rest, hsub => by
      obtain ⟨hmem, hrest⟩ := List.forall_mem_cons.mp hsub
      have ih := storeResolved_stores num anchor markets rest hrest
      have hothers : ∀ leg' : ExecutionTaskLegRow, (do
          let others ← storeResolved num anchor rest
          return leg' :: others : Worker _).Ensures (Stores num anchor markets) fun _ => True :=
        fun leg' => ih.bind (fun _ _ => trivial) fun _ _ => trivial
      unfold storeResolved
      dsimp only
      split
      · exact ⟨⟨_, hmem, rfl⟩, fun r => (by cases r <;> [trivial; exact hothers _])⟩
      · split
        · trivial
        · exact hothers _

section Call

variable {num : Numeric} {anchor : ℚ} {taskId : Nat}
  {markets : List (ExecutionTaskLegRow × ResolvedLegMarket)}

theorem put_partlyStored (hids : ∀ m ∈ markets, ∀ m' ∈ markets, m.1.id = m'.1.id → m = m')
    {done : Nat → Bool} {m₀ : ExecutionTaskLegRow × ResolvedLegMarket} (hm₀ : m₀ ∈ markets)
    {old : ExecutionTaskLegRow} (hid₀ : old.id = m₀.1.id) (hnone : old.resolvedBaseQuantity = none)
    (hold : ∀ l ∈ partlyStored num anchor done markets, l.id = m₀.1.id → l = old) :
    Table.put (partlyStored num anchor done markets) { old with
        resolvedBaseQuantity := some (num.store m₀.2.baseQuantity)
        signedBaseRatio := some (num.store (ratioTo num anchor m₀)) }
      = partlyStored num anchor (fun i => done i || i == m₀.1.id) markets := by
  unfold partlyStored Table.put
  rw [List.map_map]
  refine List.map_congr_left fun m hm => ?_
  have hkey : (if done m.1.id then storedLeg num anchor m else m.1).id = m.1.id := by
    split <;> rfl
  show (if (if done m.1.id then storedLeg num anchor m else m.1).id = old.id then _ else _) = _
  rw [hkey, hid₀]
  by_cases hid : m.1.id = m₀.1.id
  · -- The row is the one found, so it was not resolved before.
    obtain rfl := hids m hm m₀ hm₀ hid
    have hrow := hold _ (List.mem_map_of_mem hm) hkey
    have hnot : done m.1.id = false := by
      refine Bool.eq_false_iff.mpr fun hdone => ?_
      rw [if_pos hdone] at hrow
      rw [← hrow] at hnone
      cases hnone
    rw [hnot, if_neg Bool.false_ne_true] at hrow
    subst hrow
    simp [storedLeg]
  · rw [if_neg hid]
    simp [hid]

/-- One operation of the second loop resolves one more leg, or none. -/
theorem stores_keep (hids : ∀ m ∈ markets, ∀ m' ∈ markets, m.1.id = m'.1.id → m = m') {o : Op}
    {w w' : World} {r : Rep o} (ho : Stores num anchor markets o)
    (h : ∃ done, HasLegs taskId (partlyStored num anchor done markets) w.db)
    (he : (system num).among o w r w') :
    ∃ done, HasLegs taskId (partlyStored num anchor done markets) w'.db := by
  obtain ⟨done, h⟩ := h
  obtain ⟨m₀, hm₀, rfl⟩ := ho
  obtain ⟨w₁, hd, db', hc, rfl⟩ := he
  have hstable : (system num).Stable fun w =>
      HasLegs taskId (partlyStored num anchor done markets) w.db := by
    rintro a w _ rfl hw
    exact HasLegs.stable _ _ a w hw
  have h₁ := hstable.drift hd h
  rcases commit_cases hc with ⟨a, rfl, hok⟩ | ⟨e, rfl, -, rfl⟩
  · rcases h₁.tx hok with hsame | ⟨legId, base, ratio, old, heq, hold, hid, hnone, hput⟩
    · exact ⟨done, hsame⟩
    · injection heq with hleg hbase hratio
      subst hleg hbase hratio
      refine ⟨fun i => done i || i == m₀.1.id, ?_⟩
      rw [← put_partlyStored hids hm₀ hid hnone]
      · exact hput
      · intro l hl hlid
        rw [← h₁.legs] at hl
        exact h₁.wellFormed.legs_unique.eq (mem_legsOfTask.mp hl).1 hold (hlid.trans hid.symm)
  · exact ⟨done, h₁⟩

/-- What the first loop hands to the second. -/
theorem leads_markets {quantityMode : QuantityMode} {legs : List ExecutionTaskLegRow} {w u : World}
    (h : Prog.Leads (system num).among (resolveMarkets quantityMode legs) w (.done (.ok markets)) u) :
    (∀ A : Database → Prop, DbStable A → A w.db → A u.db)
      ∧ markets.map (·.1) = legs
      ∧ ∀ m ∈ markets, ∀ q, m.1.resolvedBaseQuantity = some q → m.2.baseQuantity = q := by
  have hquotes := resolveMarkets_stored quantityMode legs
  refine ⟨fun A hA hw => (hquotes.leads (P := fun w => A w.db) ?_ h hw).1,
    (hquotes.leads (P := fun _ => True) (fun _ _ _ _ _ _ _ => trivial) h trivial).2 _ rfl⟩
  rintro o w r w' ho hw ⟨w₁, hd, he⟩
  have hstable : (system num).Stable fun w => A w.db := by
    rintro a w _ rfl hw
    exact hA a w hw
  cases o with
  | db o => cases ho
  | out o =>
      obtain rfl : w' = _ := he
      exact (hstable.drift hd hw : A w₁.db)

/-- `_resolve_legs`, called at `w`, reads the markets and comes to `q` at `w'`. -/
def CallLeads (num : Numeric) (task : ExecutionTaskRow) (w : World)
    (markets : List (ExecutionTaskLegRow × ResolvedLegMarket))
    (q : Worker (List ExecutionTaskLegRow)) (w' : World) : Prop :=
  ∃ u, Prog.Leads (system num).among
      (resolveMarkets task.quantityMode (w.db.legsOfTask task.id)) w (.done (.ok markets)) u
    ∧ Prog.Leads (system num).among (checkMarkets num task markets) u q w'

/-- A call is a run of the program, step by step. -/
theorem CallLeads.leads {task : ExecutionTaskRow} {w w' : World}
    {q : Worker (List ExecutionTaskLegRow)} (h : CallLeads num task w markets q w') :
    Prog.Leads (system num).among (resolveLegs num task (w.db.legsOfTask task.id)) w q w' := by
  obtain ⟨u, hmarkets, hcheck⟩ := h
  rw [resolveLegs_eq]
  exact hmarkets.seq hcheck

/-- One call of `_resolve_legs` finds no leg of the task resolved and has
resolved all of them at `w'`. -/
structure Resolves (num : Numeric) (task : ExecutionTaskRow)
    (markets : List (ExecutionTaskLegRow × ResolvedLegMarket)) (w w' : World) : Prop where
  there : task ∈ w.db.tasks
  fresh : ∀ l ∈ w.db.legsOfTask task.id, l.resolvedBaseQuantity = none
  call : ∃ q, CallLeads num task w markets q w'
  all : ∀ l ∈ w'.db.legsOfTask task.id, l.resolvedBaseQuantity ≠ none

/-- The rows such a call leaves. -/
def storedRows (num : Numeric) (markets : List (ExecutionTaskLegRow × ResolvedLegMarket)) :
    List ExecutionTaskLegRow :=
  match anchorQuantity markets with
  | .ok anchor => markets.map (storedLeg num anchor)
  | .error _ => []

/-- Stored legs are resolved. -/
theorem storedRows_resolved {l : ExecutionTaskLegRow} (hl : l ∈ storedRows num markets) :
    l.resolvedBaseQuantity ≠ none := by
  unfold storedRows at hl
  split at hl
  · obtain ⟨m, -, rfl⟩ := List.mem_map.mp hl
    exact Option.some_ne_none _
  · cases hl

/-- After the first call the legs of the task are the stored rows. -/
theorem Resolves.hasLegs {task : ExecutionTaskRow} {w w' : World} (hwf : WellFormed w.db)
    (h : Resolves num task markets w w') : HasLegs task.id (storedRows num markets) w'.db := by
  obtain ⟨q, u, hmarkets, hcheck⟩ := h.call
  obtain ⟨hkeep, hlegs, -⟩ := leads_markets hmarkets
  have hu : HasLegs task.id (markets.map (·.1)) u.db :=
    hkeep _ (HasLegs.stable _ _) ⟨hwf, List.mem_map_of_mem h.there, hlegs.symm⟩
  have hfresh : ∀ m ∈ markets, m.1.resolvedBaseQuantity = none :=
    fun m hm => h.fresh m.1 (hlegs ▸ List.mem_map_of_mem hm)
  unfold checkMarkets pyEval at hcheck
  unfold storedRows
  cases hanchor : anchorQuantity markets with
  | error e =>
      -- Without an anchor nothing is stored, so there was no leg.
      rw [hanchor] at hcheck
      cases hcheck
      have hnone : markets = [] := by
        refine List.eq_nil_iff_forall_not_mem.mpr fun m hm => ?_
        refine h.all m.1 ?_ (hfresh m hm)
        rw [hu.legs]
        exact List.mem_map_of_mem hm
      rw [hnone] at hu
      exact hu
  | ok a =>
      rw [hanchor, Prog.ok_bind] at hcheck
      have hids : ∀ m ∈ markets, ∀ m' ∈ markets, m.1.id = m'.1.id → m = m' := by
        have hnodup : Table.Unique (u.db.legsOfTask task.id) :=
          legsOfTask_unique hu.wellFormed.legs_unique
        unfold Table.Unique at hnodup
        rw [hu.legs, List.map_map] at hnodup
        exact fun m hm m' hm' hid => List.inj_on_of_nodup_map hnodup hm hm' hid
      have hstores : (storeResolved num a markets >>= fun legs => (do
          pyEval (checkExposure task markets)
          return legs)).Ensures (Stores num a markets) fun _ => True := by
        refine (storeResolved_stores num a markets markets fun _ hm => hm).bind
          (fun legs _ => ?_) fun _ _ => trivial
        unfold pyEval
        cases checkExposure task markets <;> trivial
      have hnone : partlyStored num a (fun _ => false) markets = markets.map (·.1) := by
        unfold partlyStored
        simp
      obtain ⟨⟨done, hdone⟩, -⟩ := hstores.leads
        (P := fun w : World => ∃ done, HasLegs task.id (partlyStored num a done markets) w.db)
        (fun _ _ _ _ ho hw he => stores_keep hids ho hw he) hcheck ⟨_, hnone ▸ hu⟩
      have hall : partlyStored num a done markets = markets.map (storedLeg num a) := by
        unfold partlyStored
        refine List.map_congr_left fun m hm => ?_
        split
        · rfl
        · next hnot =>
            refine absurd (hfresh m hm) (h.all m.1 ?_)
            rw [hdone.legs]
            unfold partlyStored
            have hmem := List.mem_map_of_mem (f := fun m : ExecutionTaskLegRow × ResolvedLegMarket =>
              if done m.1.id then storedLeg num a m else m.1) hm
            rw [if_neg hnot] at hmem
            exact hmem
      rw [hall] at hdone
      exact hdone

/-! ## §3. The calls after it. -/

/-- What the worker, in this pass or a later one, and the other actors make of a
world. -/
def Later (num : Numeric) : World → World → Prop :=
  Relation.ReflTransGen fun w w' =>
    (∃ a : Act, w' = a.apply w) ∨ (∃ o r, exec num o w r w') ∨ w' = (system num).idle w

/-- Resolved rows stay as they are. -/
theorem HasLegs.later {rows : List ExecutionTaskLegRow}
    (hall : ∀ l ∈ rows, l.resolvedBaseQuantity ≠ none) {w w' : World} (hl : Later num w w')
    (h : HasLegs taskId rows w.db) : HasLegs taskId rows w'.db := by
  induction hl with
  | refl => exact h
  | tail _ hs ih =>
      rcases hs with ⟨a, rfl⟩ | ⟨o, r, he⟩ | rfl
      · exact HasLegs.stable _ _ a _ ih
      · cases o with
        | db o =>
            obtain ⟨db', hc, rfl⟩ := he
            rcases commit_cases hc with ⟨a, rfl, hok⟩ | ⟨e, rfl, -, rfl⟩
            · rcases ih.tx hok with hsame | ⟨legId, base, ratio, old, -, hold, -, hnone, hput⟩
              · exact hsame
              · -- The row that is resolved is not among them.
                have habsent : Table.put rows { old with
                    resolvedBaseQuantity := some (num.store base)
                    signedBaseRatio := some (num.store ratio) } = rows := by
                  refine (List.map_id _).symm.trans ((Table.map_put fun l hl hk => ?_).trans
                    (List.map_id rows))
                  rw [← ih.legs] at hl
                  have hsame : l = old :=
                    ih.wellFormed.legs_unique.eq (mem_legsOfTask.mp hl).1 hold hk
                  rw [hsame, ih.legs] at hl
                  exact absurd hnone (hall old hl)
                rw [habsent] at hput
                exact hput
            · exact ih
        | out o =>
            obtain rfl : _ = _ := he
            exact ih
      · exact ih

/-- The anchor's quantity is that of the first leg with the role, and it must
not be zero. -/
theorem anchorQuantity_ok_iff {ms : List (ExecutionTaskLegRow × ResolvedLegMarket)} {a : ℚ} :
    anchorQuantity ms = .ok a
      ↔ (ms.map fun m => (m.1.role, m.2.baseQuantity)).find? (fun p => p.1 = .anchor)
          = some (.anchor, a) ∧ a ≠ 0 := by
  simp only [anchorQuantity, found_bind_eq_ok, raiseIf_bind_eq_ok]
  rw [List.find?_map]
  constructor
  · rintro ⟨m, hm, hne, ha⟩
    injection ha with ha
    subst ha
    have hrole : m.1.role = .anchor := by simpa using List.find?_some hm
    exact ⟨(congrArg _ hm).trans (by rw [Option.map_some, hrole]), hne⟩
  · rintro ⟨hfind, hne⟩
    obtain ⟨m, hm, heq⟩ := Option.map_eq_some_iff.mp hfind
    obtain ⟨-, hbase⟩ := Prod.mk.inj heq
    refine ⟨m, hm, ?_, ?_⟩
    · rw [hbase]
      exact hne
    · rw [hbase]
      rfl

/-- The quantities in the columns give the ratios in the columns. -/
def Survives (num : Numeric) (markets : List (ExecutionTaskLegRow × ResolvedLegMarket)) : Prop :=
  ∀ a, anchorQuantity markets = .ok a → num.store a = 0 ∨ ∀ m ∈ markets,
    num.store (ratioTo num a m)
      = num.divide (sign m.1.side * num.store m.2.baseQuantity) (num.store a)

/-- The complaint about a ratio. -/
abbrev quantityChanged : Exc := .value "resolved live task quantity changed"

/-- A missing or empty anchor raises another error than a changed quantity. -/
theorem anchorQuantity_error {ms : List (ExecutionTaskLegRow × ResolvedLegMarket)} {e : Exc}
    (h : anchorQuantity ms = .error e) : e ≠ quantityChanged := by
  unfold anchorQuantity found raiseIf at h
  cases hfind : ms.find? (fun m => m.1.role = .anchor) with
  | none =>
      rw [hfind] at h
      injection h with h
      rw [← h]
      decide
  | some m =>
      rw [hfind] at h
      dsimp only [bind, Except.bind] at h
      split at h
      · next hraise =>
          injection h with h
          split at hraise
          · injection hraise with hraise
            rw [← h, ← hraise]
            decide
          · cases hraise
      · cases h

/-- So does a net exposure that is out of bounds. -/
theorem checkExposure_error {task : ExecutionTaskRow}
    {ms : List (ExecutionTaskLegRow × ResolvedLegMarket)} {e : Exc}
    (h : checkExposure task ms = .error e) : e ≠ quantityChanged := by
  unfold checkExposure raiseIf at h
  dsimp only [bind, Except.bind] at h
  split at h
  · next hraise =>
      injection h with h
      split at hraise
      · injection hraise with hraise
        rw [← h, ← hraise]
        decide
      · cases hraise
  · split at h
    · injection h with h
      rw [← h]
      decide
    · cases h

/-- With every quantity stored, the second loop complains exactly of a ratio
that is not the one stored. -/
theorem checkMarkets_stored (num : Numeric) (task : ExecutionTaskRow)
    {ms : List (ExecutionTaskLegRow × ResolvedLegMarket)}
    (hall : ∀ m ∈ ms, m.1.resolvedBaseQuantity = some m.2.baseQuantity) :
    ∃ r, checkMarkets num task ms = .done r
      ∧ (r = .error quantityChanged
          ↔ ∃ a, anchorQuantity ms = .ok a
              ∧ ¬∀ m ∈ ms, m.1.signedBaseRatio = some (ratioTo num a m)) := by
  unfold checkMarkets pyEval
  -- Without the anchor's quantity the loop is not reached.
  cases hanchor : anchorQuantity ms with
  | error e =>
      refine ⟨_, rfl, fun h => ?_, fun ⟨a, h, _⟩ => (by cases h)⟩
      injection h with h
      exact absurd h (anchorQuantity_error hanchor)
  | ok a =>
      rw [Prog.ok_bind]
      rcases storeResolved_stored num a ms hall with ⟨hratios, hdone⟩ | ⟨hnot, hdone⟩
      · -- All ratios are the stored ones, and what may still be raised is another exception.
        have hstand : ¬∃ a', (.ok a : Except Exc ℚ) = .ok a'
            ∧ ¬∀ m ∈ ms, m.1.signedBaseRatio = some (ratioTo num a' m) := by
          rintro ⟨a', heq, hnot⟩
          injection heq with heq
          exact hnot (heq ▸ hratios)
        rw [hdone, Prog.ok_bind]
        cases hexp : checkExposure task ms with
        | error e =>
            refine ⟨_, rfl, fun h => ?_, fun h => absurd h hstand⟩
            injection h with h
            exact absurd h (checkExposure_error hexp)
        | ok _ => exact ⟨_, rfl, fun h => (by cases h), fun h => absurd h hstand⟩
      · rw [hdone]
        exact ⟨_, rfl, fun _ => ⟨a, rfl, hnot⟩, fun _ => rfl⟩

section ReadBack

variable {ms : List (ExecutionTaskLegRow × ResolvedLegMarket)}

/-- What a later call works with, given the rows that were stored. -/
theorem readBack (hlegs : ms.map (·.1) = markets.map (storedLeg num anchor))
    (hall : ∀ m ∈ ms, m.1.resolvedBaseQuantity = some m.2.baseQuantity) :
    ms.map (fun m => (m.1, m.2.baseQuantity))
      = markets.map fun m => (storedLeg num anchor m, num.store m.2.baseQuantity) := by
  have hrows : ms.map (fun m => (m.1, m.2.baseQuantity))
      = (ms.map (·.1)).map fun l => (l, l.resolvedBaseQuantity.getD 0) := by
    rw [List.map_map]
    refine List.map_congr_left fun m hm => ?_
    show _ = (m.1, m.1.resolvedBaseQuantity.getD 0)
    rw [hall m hm]
    rfl
  rw [hrows, hlegs, List.map_map]
  rfl

variable (hread : ms.map (fun m => (m.1, m.2.baseQuantity))
  = markets.map fun m => (storedLeg num anchor m, num.store m.2.baseQuantity))

include hread

/-- The anchor's quantity, read back, is the stored one. -/
theorem anchorQuantity_readBack (hanchor : anchorQuantity markets = .ok anchor) (a : ℚ) :
    anchorQuantity ms = .ok a ↔ num.store anchor = a ∧ a ≠ 0 := by
  have hroles : ms.map (fun m => (m.1.role, m.2.baseQuantity))
      = (markets.map fun m => (m.1.role, m.2.baseQuantity)).map
          fun p => (p.1, num.store p.2) := by
    have hmap := congrArg (List.map fun p : ExecutionTaskLegRow × ℚ => (p.1.role, p.2)) hread
    rw [List.map_map, List.map_map] at hmap
    rw [List.map_map]
    exact hmap
  have hfind : ((markets.map fun m => (m.1.role, m.2.baseQuantity)).map
        fun p => (p.1, num.store p.2)).find? (fun p => p.1 = .anchor)
      = some (.anchor, num.store anchor) := by
    rw [List.find?_map]
    exact congrArg _ (anchorQuantity_ok_iff.mp hanchor).1
  rw [anchorQuantity_ok_iff, hroles, hfind]
  refine and_congr_left fun _ => ?_
  rw [Option.some_inj, Prod.mk.injEq]
  exact and_iff_right rfl

/-- The ratios agree after a read-back exactly if storing commutes with
dividing: this is where 28 digits and 18 decimals part. -/
theorem ratios_readBack :
    (∀ m ∈ ms, m.1.signedBaseRatio = some (ratioTo num (num.store anchor) m))
      ↔ ∀ m ∈ markets, num.store (ratioTo num anchor m)
          = num.divide (sign m.1.side * num.store m.2.baseQuantity) (num.store anchor) := by
  have hmap := List.forall_mem_map (l := ms) (f := fun m => (m.1, m.2.baseQuantity))
    (P := fun p => p.1.signedBaseRatio
      = some (num.divide (sign p.1.side * p.2) (num.store anchor)))
  rw [hread, List.forall_mem_map] at hmap
  exact hmap.symm.trans (forall₂_congr fun m _ => Option.some_inj)

/-- The second loop of a later call complains exactly of quantities that do not
survive their columns. -/
theorem changed_readBack (hanchor : anchorQuantity markets = .ok anchor) :
    (∃ a, anchorQuantity ms = .ok a
        ∧ ¬∀ m ∈ ms, m.1.signedBaseRatio = some (ratioTo num a m))
      ↔ ¬Survives num markets := by
  have hsurvives : Survives num markets ↔ num.store anchor = 0
      ∨ ∀ m ∈ ms, m.1.signedBaseRatio = some (ratioTo num (num.store anchor) m) := by
    rw [ratios_readBack hread]
    refine ⟨fun h => h anchor hanchor, fun h a ha => ?_⟩
    rw [hanchor] at ha
    injection ha with ha
    exact ha ▸ h
  rw [hsurvives, not_or]
  constructor
  · rintro ⟨a, ha, hnot⟩
    obtain ⟨rfl, hne⟩ := (anchorQuantity_readBack hread hanchor a).mp ha
    exact ⟨hne, hnot⟩
  · rintro ⟨hne, hnot⟩
    exact ⟨_, (anchorQuantity_readBack hread hanchor _).mpr ⟨rfl, hne⟩, hnot⟩

end ReadBack

/-- A later call on the rows that one call has stored. -/
theorem CallLeads.stored_iff {task : ExecutionTaskRow} (hid : task.id = taskId)
    {ms : List (ExecutionTaskLegRow × ResolvedLegMarket)} {w w' : World}
    {r : Except Exc (List ExecutionTaskLegRow)} (hw : HasLegs taskId (storedRows num markets) w.db)
    (h : CallLeads num task w ms (.done r) w') :
    r ≠ .error quantityChanged ↔ Survives num markets := by
  obtain ⟨u, hmarkets, hcheck⟩ := h
  obtain ⟨-, hlegs, hvalues⟩ := leads_markets hmarkets
  rw [hid, hw.legs] at hlegs
  have hall : ∀ m ∈ ms, m.1.resolvedBaseQuantity = some m.2.baseQuantity := by
    intro m hm
    have hrow : m.1 ∈ storedRows num markets := hlegs ▸ List.mem_map_of_mem hm
    obtain ⟨q, hq⟩ := Option.ne_none_iff_exists'.mp (storedRows_resolved hrow)
    rw [hq, hvalues m hm q hq]
  obtain ⟨r', hdone, hiff⟩ := checkMarkets_stored num task hall
  rw [hdone] at hcheck
  obtain rfl : r' = r := by
    cases hcheck
    rfl
  rw [ne_eq, hiff]
  unfold storedRows at hlegs
  cases hanchor : anchorQuantity markets with
  | ok a =>
      rw [hanchor] at hlegs
      rw [changed_readBack (readBack hlegs hall) hanchor, not_not]
  | error e =>
      -- There is no leg.
      rw [hanchor] at hlegs
      have hnil : ms = [] := List.map_eq_nil_iff.mp hlegs
      refine ⟨fun _ a ha => ?_, fun _ ⟨a, _, hnot⟩ => hnot fun m hm => ?_⟩
      · rw [hanchor] at ha
        cases ha
      · rw [hnil] at hm
        cases hm

end Call

/-! ## §4. The result. -/

variable {workerId : String} {allow : World → Label Op Rep Act → Prop}

/-- Once a call of `_resolve_legs` has resolved all legs of a task, a later call
for which the markets can be read does not find the quantities changed exactly
if the ratios of the stored quantities are the stored ratios. -/
theorem resolved_quantities_stand {w : World} {p : Option (Worker PassResult)}
    (hs : Reachable Numeric.decimal workerId allow ⟨w, p⟩) {task : ExecutionTaskRow}
    {markets : List (ExecutionTaskLegRow × ResolvedLegMarket)} {w₁ : World}
    (hr : Resolves Numeric.decimal task markets w w₁) {w₂ : World}
    (hl : Later Numeric.decimal w₁ w₂) {task' : ExecutionTaskRow} (hid : task'.id = task.id)
    {markets' : List (ExecutionTaskLegRow × ResolvedLegMarket)}
    {r : Except Exc (List ExecutionTaskLegRow)} {w₃ : World}
    (hc : CallLeads Numeric.decimal task' w₂ markets' (.done r) w₃) :
    r ≠ .error (.value "resolved live task quantity changed")
      ↔ Survives Numeric.decimal markets :=
  hc.stored_iff hid ((hr.hasLegs hs.wellFormed).later (fun _ => storedRows_resolved) hl)

/-- For quantities that fit their columns, the quotients of 28 digits have to
have at most 18 fractional digits. -/
theorem quotient_stands_iff {markets : List (ExecutionTaskLegRow × ResolvedLegMarket)}
    (hfit : ∀ m ∈ markets, ∃ n : ℤ, m.2.baseQuantity = n / 10 ^ 18) {a : ℚ}
    (ha : anchorQuantity markets = .ok a) :
    Survives Numeric.decimal markets
      ↔ ∀ m ∈ markets, ∃ n : ℤ, ratioTo Numeric.decimal a m = n / 10 ^ 18 := by
  -- A quantity of 18 fractional digits is stored as it is.
  have hkept : ∀ m ∈ markets, Numeric.decimal.store m.2.baseQuantity = m.2.baseQuantity :=
    fun m hm => (toScale_eq_self_iff 18 _).mpr (hfit m hm)
  obtain ⟨hanchor, hne⟩ := anchorQuantity_ok_iff.mp ha
  have hstored : Numeric.decimal.store a = a := by
    obtain ⟨m, hm, heq⟩ := List.mem_map.mp (List.mem_of_find?_eq_some hanchor)
    rw [← (Prod.mk.inj heq).2]
    exact hkept m hm
  have hsurvives : Survives Numeric.decimal markets ↔ ∀ m ∈ markets,
      Numeric.decimal.store (ratioTo Numeric.decimal a m) = ratioTo Numeric.decimal a m := by
    -- So the second call divides the same quantities, and compares with what is stored.
    have hratio : ∀ m ∈ markets, Numeric.decimal.divide
          (sign m.1.side * Numeric.decimal.store m.2.baseQuantity) (Numeric.decimal.store a)
        = ratioTo Numeric.decimal a m := by
      intro m hm
      rw [hkept m hm, hstored]
      rfl
    constructor
    · intro h m hm
      rcases h a ha with hzero | hall
      · rw [hstored] at hzero
        exact absurd hzero hne
      · rw [hall m hm, hratio m hm]
    · intro h a' ha'
      rw [ha] at ha'
      injection ha' with ha'
      subst ha'
      exact .inr fun m hm => by rw [h m hm, hratio m hm]
  rw [hsurvives]
  exact forall₂_congr fun m _ => toScale_eq_self_iff 18 _

/-! ## §5. Concrete calls. -/

namespace Sample

/-- The sample task, its anchor of the given size. -/
def anchorPlan (size : ℚ) (hsize : 0 < size) : TaskPlan where
  task := task
  legs := [{ anchor with
      targetQuantity := size
      target_check := hsize
      child_check := ⟨le_refl 0, hsize.le⟩ }, hedge]
  leg_count := ⟨le_refl 2, (by decide : 2 ≤ 16)⟩
  one_anchor := rfl

/-- The task is planned and not yet started. -/
def planned (size : ℚ) (hsize : 0 < size) : World :=
  Act.apply (.createTask (anchorPlan size hsize)) empty

theorem reached_planned {num : Numeric} {workerId : String} (size : ℚ) (hsize : 0 < size) :
    Reachable num workerId System.anyStep ⟨planned size hsize, none⟩ :=
  .step (.init empty_initial) (.act rfl) trivial

/-- The exchange quotes both legs. -/
abbrev quotes : (o : Op) → World → Rep o × World := answer Numeric.decimal (outside (absent "a"))

/-- The markets a call reads. -/
def marketsAt (legs : List ExecutionTaskLegRow) (w : World) :
    List (ExecutionTaskLegRow × ResolvedLegMarket) :=
  ((resolveMarkets .base legs).run quotes w).1.toOption.getD []

/-- What the call then comes to. -/
def callAt (legs : List ExecutionTaskLegRow) (w : World) :
    Except Exc (List ExecutionTaskLegRow) × World :=
  (checkMarkets Numeric.decimal task (marketsAt legs w)).run quotes
    ((resolveMarkets .base legs).run quotes w).2

theorem callLeads {w : World}
    (h : ((resolveMarkets .base (w.db.legsOfTask 0)).run quotes w).1.toOption.isSome) :
    CallLeads Numeric.decimal task w (marketsAt (w.db.legsOfTask 0) w)
      (.done (callAt (w.db.legsOfTask 0) w).1) (callAt (w.db.legsOfTask 0) w).2 := by
  have hserve : ∀ o w, (system Numeric.decimal).among o w (quotes o w).1 (quotes o w).2 :=
    fun o w => ⟨w, .refl, exec_answer Numeric.decimal _ o w⟩
  refine ⟨((resolveMarkets .base (w.db.legsOfTask 0)).run quotes w).2, ?_,
    Prog.Leads.of_run hserve _ _⟩
  have hleads := Prog.Leads.of_run hserve (resolveMarkets .base (w.db.legsOfTask 0)) w
  obtain ⟨markets, hmarkets⟩ := Option.isSome_iff_exists.mp h
  unfold marketsAt
  rw [hmarkets]
  rw [toOption_some.mp hmarkets] at hleads
  exact hleads

/-- The world after a call. -/
def after (w : World) : World := (callAt (w.db.legsOfTask 0) w).2

/-- What a call on the sample task finds and leaves. -/
def ResolvesAll (w : World) : Prop :=
  ((resolveMarkets .base (w.db.legsOfTask 0)).run quotes w).1.toOption.isSome ∧ task ∈ w.db.tasks
    ∧ (∀ l ∈ w.db.legsOfTask 0, l.resolvedBaseQuantity = none)
    ∧ ∀ l ∈ (after w).db.legsOfTask 0, l.resolvedBaseQuantity ≠ none

instance (w : World) : Decidable (ResolvesAll w) := inferInstanceAs (Decidable (_ ∧ _ ∧ _ ∧ _))

/-- The sample resolves all its legs. -/
theorem resolves {w : World} (h : ResolvesAll w) :
    Resolves Numeric.decimal task (marketsAt (w.db.legsOfTask 0) w) w (after w) :=
  ⟨h.2.1, h.2.2.1, ⟨_, callLeads h.1⟩, h.2.2.2⟩

/-- The exception of a call, if it raises. -/
def raised {α : Type} : Except Exc α → Option Exc
  | .ok _ => none
  | .error e => some e

theorem raised_eq_some {α : Type} {r : Except Exc α} {e : Exc} : raised r = some e ↔ r = .error e := by
  cases r with
  | ok a => exact ⟨fun h => (by cases h), fun h => (by cases h)⟩
  | error e' => exact ⟨fun h => congrArg _ (Option.some_inj.mp h), fun h => congrArg _ (by injection h)⟩

end Sample

/-- Four units against four: the ratio is whole and stands. -/
theorem resolved_quantities_stand_equal :
    ∃ w markets w₁ markets' r w₃, Reachable Numeric.decimal "worker" System.anyStep ⟨w, none⟩
      ∧ Resolves Numeric.decimal Sample.task markets w w₁
      ∧ CallLeads Numeric.decimal Sample.task w₁ markets' (.done r) w₃
      ∧ r ≠ .error (.value "resolved live task quantity changed")
      ∧ Survives Numeric.decimal markets := by
  have hs : Reachable Numeric.decimal "worker" System.anyStep
      ⟨Sample.planned 4 (by decide +kernel), none⟩ := Sample.reached_planned _ _
  have hr := Sample.resolves (w := Sample.planned 4 (by decide +kernel)) (by decide +kernel)
  have hc := Sample.callLeads (w := Sample.after (Sample.planned 4 (by decide +kernel)))
    (by decide +kernel)
  have hraised : Sample.raised (Sample.callAt
      ((Sample.after (Sample.planned 4 (by decide +kernel))).db.legsOfTask 0)
      (Sample.after (Sample.planned 4 (by decide +kernel)))).1 ≠ some quantityChanged := by
    decide +kernel
  have hstands := mt Sample.raised_eq_some.mpr hraised
  exact ⟨_, _, _, _, _, _, hs, hr, hc, hstands,
    (resolved_quantities_stand hs hr .refl rfl hc).mp hstands⟩

/-- Four units against three: the ratio has more fractional digits than its
column. -/
theorem resolved_quantities_change :
    ¬∀ (w : World) (p : Option (Worker PassResult)) (task : ExecutionTaskRow)
        (markets : List (ExecutionTaskLegRow × ResolvedLegMarket)) (w₁ w₂ : World)
        (task' : ExecutionTaskRow) (markets' : List (ExecutionTaskLegRow × ResolvedLegMarket))
        (r : Except Exc (List ExecutionTaskLegRow)) (w₃ : World),
      Reachable Numeric.decimal "worker" System.anyStep ⟨w, p⟩ →
      Resolves Numeric.decimal task markets w w₁ → Later Numeric.decimal w₁ w₂ →
      task'.id = task.id → CallLeads Numeric.decimal task' w₂ markets' (.done r) w₃ →
        r ≠ .error (.value "resolved live task quantity changed") := by
  intro h
  have hs : Reachable Numeric.decimal "worker" System.anyStep
      ⟨Sample.planned 3 (by decide +kernel), none⟩ := Sample.reached_planned _ _
  have hr := Sample.resolves (w := Sample.planned 3 (by decide +kernel)) (by decide +kernel)
  have hc := Sample.callLeads (w := Sample.after (Sample.planned 3 (by decide +kernel)))
    (by decide +kernel)
  exact h _ _ _ _ _ _ _ _ _ _ hs hr .refl rfl hc (Sample.raised_eq_some.mp (by decide +kernel))

end BasisHawk.MultiLeg
