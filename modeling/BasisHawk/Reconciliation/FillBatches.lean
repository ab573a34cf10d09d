/-
  BasisHawk.Reconciliation.FillBatches
  ────────────────────────────────────
  The fills of a leg, stored in batches.

  A pass stores what the exchange lists of an order, and lists overlap, come in
  any order and are cut anywhere.  Stored trades are told apart by their trade
  ids, so a leg has one state for a set of fills.

  A fill need not name its order.  While the leg is not linked to an order of
  the exchange such a fill is taken; the first fill that names one links the
  leg, and from then on a fill that names none is refused.

  Main results:
    • `stored_step`, `stored_run`: what one batch adds, and any batches,
    • `fills_confluent_iff`: the leg ends in one state whatever the batches,
      exactly unless fills with and without an order meet on an unlinked leg.
-/
import BasisHawk.Lib.Ledger
import BasisHawk.Reconciliation.FillLag

namespace BasisHawk.Reconciliation

open Domain Lib Accounts Paired

/-! ## §1. Trades and batches. -/

/-- What is stored of a trade. -/
structure TradeData where
  quantity : ℚ
  price : ℚ
  feeAmount : ℚ
  feeAsset : String
  liquidity : String
  occurredAt : Int
  deriving DecidableEq

/-- A remote fill, by its trade id. -/
def tradeOf (f : RemoteFill) : String × TradeData :=
  (f.exchangeTradeId, ⟨f.quantity, f.price, f.feeAmount, f.feeAsset, f.liquidity, f.occurredAt⟩)

/-- A stored fill, by its trade id. -/
def storedTrade (f : FillRow) : String × TradeData :=
  (f.exchangeTradeId, ⟨f.quantity, f.price, f.feeAmount, f.feeAsset, f.liquidity, f.occurredAt⟩)

/-- The trade ids stored for a leg. -/
def storedIds (l : Ledger) (legId : Nat) : List String :=
  (l.fillsOfLeg legId).map (·.exchangeTradeId)

/-- Batches of fills of a leg, one transaction after the other: what each
answers, and the ledger in the end. -/
def persistBatches (legId : Nat) : List (List RemoteFill) → Ledger → List (Except Exc Nat) × Ledger
  | [], l => ([], l)
  | batch :: rest, l =>
      let first := commit (Ledger.persistRemoteFills legId batch) l
      let others := persistBatches legId rest first.2
      (first.1 :: others.1, others.2)

/-! ## §2. The one state. -/

/-- The stored notional of a leg and that of the trades a set of fills adds. -/
def batchNotional (l : Ledger) (legId : Nat) (fills : List RemoteFill) : ℚ :=
  Ledger.fillsNotional (l.fillsOfLeg legId)
    + ((freshTrades (storedIds l legId) fills).map fun f => f.quantity * f.price).sum

/-- The price of the trades of a leg, weighted by their quantities. -/
def batchAverage (l : Ledger) (legId : Nat) (fills : List RemoteFill) : Option ℚ :=
  if 0 < batchTotal l legId fills then
    some (batchNotional l legId fills / batchTotal l legId fills)
  else none

/-- The fills are of the leg: each passes the checks of one, they name one order
at most, a trade has one set of data, also where it is stored, and all of them
fit the leg. -/
structure ValidFills (l : Ledger) (leg : OrderLegRow) (fills : List RemoteFill) : Prop where
  checked : ∀ f ∈ fills, ∃ v, Ledger.checkRemoteFill leg f = .ok v
  one_order : ∀ f ∈ fills, ∀ g ∈ fills, f.exchangeOrderId ≠ "" → g.exchangeOrderId ≠ "" →
    f.exchangeOrderId = g.exchangeOrderId
  same_data : ∀ f ∈ fills, ∀ g ∈ fills, f.exchangeTradeId = g.exchangeTradeId →
    tradeOf f = tradeOf g
  same_stored : ∀ e ∈ l.fillsOfLeg leg.id, ∀ f ∈ fills, e.exchangeTradeId = f.exchangeTradeId →
    Ledger.sameFill e f
  /-- `uq_fill_leg_exchange_trade`. -/
  unique : (storedIds l leg.id).Nodup
  total_le : batchTotal l leg.id fills ≤ leg.quantity

/-- Every batch is taken, the leg is `new`, and the leg has one row for each
trade, those it had and those of the fills. -/
structure StoredAs (l : Ledger) (leg : OrderLegRow) (fills : List RemoteFill) (new : OrderLegRow)
    (out : List (Except Exc Nat) × Ledger) : Prop where
  taken : ∀ r ∈ out.1, ∃ n, r = .ok n
  legs : out.2.legs = Table.put l.legs new
  rows : ((out.2.fillsOfLeg leg.id).map storedTrade).Perm
    ((l.fillsOfLeg leg.id).map storedTrade ++ (freshTrades (storedIds l leg.id) fills).map tradeOf)
  unique : (storedIds out.2 leg.id).Nodup
  others : ∀ id, id ≠ leg.id → out.2.fillsOfLeg id = l.fillsOfLeg id
  rest : out.2 = { l with
    fills := out.2.fills
    legs := out.2.legs
    nextId := out.2.nextId }

/-- The fills lead the leg to one state, in whatever batches they come. -/
def Confluent (l : Ledger) (leg : OrderLegRow) (fills : List RemoteFill) : Prop :=
  ∃ new : OrderLegRow, new.Continues leg
    ∧ new.filledQuantity = batchTotal l leg.id fills
    ∧ new.averagePrice = batchAverage l leg.id fills
    ∧ new.status = Ledger.statusByFills leg (batchTotal l leg.id fills)
    ∧ ∀ batches : List (List RemoteFill), batches ≠ [] →
        (∀ f, f ∈ batches.flatten ↔ f ∈ fills) →
        StoredAs l leg fills new (persistBatches leg.id batches l)

/-- A refused batch changes nothing. -/
def Atomic (legId : Nat) : Prop :=
  ∀ (l : Ledger) (batch : List RemoteFill) (e : Exc),
    (commit (Ledger.persistRemoteFills legId batch) l).1 = .error e →
    (commit (Ledger.persistRemoteFills legId batch) l).2 = l

/-- The leg is linked to its order, or the fills all name it or all do not. -/
def NamedAlike (leg : OrderLegRow) (fills : List RemoteFill) : Prop :=
  leg.exchangeOrderId ≠ none ∨ (∀ f ∈ fills, f.exchangeOrderId = "")
    ∨ ∀ f ∈ fills, f.exchangeOrderId ≠ ""

instance (leg : OrderLegRow) (fills : List RemoteFill) : Decidable (NamedAlike leg fills) :=
  inferInstanceAs (Decidable (_ ∨ _ ∨ _))

/-- A refused batch is a transaction that is not committed. -/
theorem atomic (legId : Nat) : Atomic legId := by
  intro l batch e h
  unfold commit at h ⊢
  split at h
  · cases h
  · rfl

/-! ## §3. The links. -/

/-- The order that fills name, all alike. -/
def named (x : String) (fills : List RemoteFill) : Option String :=
  if fills = [] ∨ x = "" then none else some x

@[simp] theorem named_nil (x : String) : named x [] = none := if_pos (.inl rfl)

/-- What two batches name is what the first names, or else the second. -/
theorem named_append (x : String) (a b : List RemoteFill) :
    named x (a ++ b) = (named x a).or (named x b) := by
  unfold named
  by_cases hx : x = ""
  · rw [if_pos (.inr hx), if_pos (.inr hx), if_pos (.inr hx)]
    rfl
  · cases a with
    | nil =>
        rw [List.nil_append, if_pos (c := [] = [] ∨ x = "") (.inl rfl)]
        rfl
    | cons f a =>
        rw [if_neg (by simp [hx]), if_neg (by simp [hx])]
        rfl

/-- Fills that name one order link a leg that has none to it. -/
theorem linkByFills_named {leg : OrderLegRow} {x : String} {fills : List RemoteFill}
    (hx : ∀ f ∈ fills, f.exchangeOrderId = x) :
    Ledger.linkByFills leg fills = .ok (leg.exchangeOrderId.or (named x fills)) := by
  -- The names that are not empty are all of them or none.
  have hids : (fills.map (·.exchangeOrderId)).filter (· ≠ "")
      = if x = "" then [] else fills.map (·.exchangeOrderId) := by
    split
    · next h0 =>
        refine List.filter_eq_nil_iff.mpr fun y hy => ?_
        obtain ⟨f, hf, rfl⟩ := List.mem_map.mp hy
        rw [hx f hf]
        simpa using h0
    · next h0 =>
        refine List.filter_eq_self.mpr fun y hy => ?_
        obtain ⟨f, hf, rfl⟩ := List.mem_map.mp hy
        rw [hx f hf]
        simpa using h0
  unfold Ledger.linkByFills named
  rw [hids]
  cases leg.exchangeOrderId with
  | some known => rfl
  -- The leg has no order, so the first name links it.
  | none =>
      by_cases h0 : x = ""
      · rw [if_pos h0, if_pos (.inr h0)]
        rfl
      · rw [if_neg h0]
        cases fills with
        | nil => rfl
        | cons f rest =>
            -- The others agree with the first.
            have hrest : (rest.map (·.exchangeOrderId)).all (· = f.exchangeOrderId) = true := by
              rw [List.all_eq_true]
              intro y hy
              obtain ⟨g, hg, rfl⟩ := List.mem_map.mp hy
              rw [hx g (.tail _ hg), hx f (.head _)]
              exact decide_eq_true rfl
            show (if (rest.map (·.exchangeOrderId)).all (· = f.exchangeOrderId) then _ else _) = _
            rw [if_pos hrest, if_neg (by simp [h0]), ← hx f (.head _)]
            rfl

/-- What `checkRemoteFill` passes. -/
theorem checkRemoteFill_ok {leg : OrderLegRow} {f : RemoteFill} {v : Ledger.ValidFill}
    (h : Ledger.checkRemoteFill leg f = .ok v) :
    v.val = f ∧ ∀ x ∈ leg.exchangeOrderId, f.exchangeOrderId = x := by
  simp only [Ledger.checkRemoteFill, raiseIf_bind_eq_ok] at h
  have h := h.2
  split at h
  · cases h
  · simp only [raiseIf_bind_eq_ok] at h
    obtain ⟨-, -, -, -, hlink, h⟩ := h
    cases h
    refine ⟨rfl, fun x hx => ?_⟩
    by_contra hne
    exact hlink ⟨x, hx, hne⟩

/-- A fill passes again where the leg has but another link, its order. -/
theorem checkRemoteFill_relinked {leg leg' : OrderLegRow} {f : RemoteFill} {v : Ledger.ValidFill}
    (h : Ledger.checkRemoteFill leg f = .ok v) (hcreated : leg'.createdAt = leg.createdAt)
    (hmarket : leg'.market = leg.market) (hsymbol : leg'.symbol = leg.symbol)
    (hside : leg'.side = leg.side) (hclient : leg'.clientOrderId = leg.clientOrderId)
    (hlink : ∀ x ∈ leg'.exchangeOrderId, f.exchangeOrderId = x) :
    Ledger.checkRemoteFill leg' f = .ok v := by
  simp only [Ledger.checkRemoteFill, raiseIf_bind_eq_ok] at h ⊢
  refine ⟨h.1, ?_⟩
  have h := h.2
  split at h
  · cases h
  · next hpos =>
      rw [dif_neg hpos]
      simp only [raiseIf_bind_eq_ok] at h ⊢
      rw [hcreated, hmarket, hsymbol, hside, hclient]
      obtain ⟨htime, hplace, hsame, hid, -, h⟩ := h
      refine ⟨htime, hplace, hsame, hid, ?_, h⟩
      rintro ⟨x, hx, hne⟩
      exact hne (hlink x hx)

/-- Fills that are named alike name one order, and the leg's where it has one. -/
theorem NamedAlike.one {l : Ledger} {leg : OrderLegRow} {fills : List RemoteFill}
    (h : NamedAlike leg fills) (hv : ValidFills l leg fills) :
    ∃ x, (∀ f ∈ fills, f.exchangeOrderId = x) ∧ ∀ y ∈ leg.exchangeOrderId, y = x := by
  by_cases hlink : leg.exchangeOrderId = none
  · have hnone : ∀ x, ∀ y ∈ leg.exchangeOrderId, y = x := by
      intro x y hy
      rw [hlink] at hy
      cases hy
    rcases h with h | h | h
    · exact absurd hlink h
    · exact ⟨"", h, hnone ""⟩
    · cases fills with
      | nil => exact ⟨"", fun f hf => absurd hf List.not_mem_nil, hnone ""⟩
      | cons g rest =>
          exact ⟨g.exchangeOrderId,
            fun f hf => hv.one_order f hf g (.head _) (h f hf) (h g (.head _)), hnone _⟩
  · obtain ⟨x, hx⟩ := Option.ne_none_iff_exists'.mp hlink
    refine ⟨x, fun f hf => ?_, fun y hy => ?_⟩
    · obtain ⟨v, hf⟩ := hv.checked f hf
      exact (checkRemoteFill_ok hf).2 x hx
    · rw [hx] at hy
      exact (Option.some.inj hy).symm

/-! ## §4. What one batch adds. -/

/-- The trades among fills that the leg did not have. -/
def unstored (l : Ledger) (legId : Nat) (fills : List RemoteFill) : List (String × TradeData) :=
  (fills.filter fun f => f.exchangeTradeId ∉ storedIds l legId).map tradeOf

/-- What two batches add is what each adds. -/
theorem unstored_append (l : Ledger) (legId : Nat) (a b : List RemoteFill) :
    unstored l legId (a ++ b) = unstored l legId a ++ unstored l legId b := by
  unfold unstored
  rw [List.filter_append, List.map_append]

/-- An added trade is that of a fill whose identifier was not stored. -/
theorem mem_unstored {l : Ledger} {legId : Nat} {fills : List RemoteFill} {t : String × TradeData}
    (h : t ∈ unstored l legId fills) :
    ∃ f ∈ fills, f.exchangeTradeId ∉ storedIds l legId ∧ tradeOf f = t := by
  obtain ⟨f, hf, rfl⟩ := List.mem_map.mp h
  obtain ⟨hf, hnew⟩ := List.mem_filter.mp hf
  exact ⟨f, hf, of_decide_eq_true hnew, rfl⟩

/-- More fills have more trades. -/
theorem unstored_subset {l : Ledger} {legId : Nat} {a b : List RemoteFill}
    (h : ∀ f ∈ a, f ∈ b) : ∀ t ∈ unstored l legId a, t ∈ unstored l legId b := by
  intro t ht
  obtain ⟨f, hf, hnew, rfl⟩ := mem_unstored ht
  exact List.mem_map_of_mem (List.mem_filter.mpr ⟨h f hf, decide_eq_true hnew⟩)

/-- The new trades of a batch, each once, are what the batch records. -/
theorem freshTrades_records {known : List String} {batch : List RemoteFill} :
    ∀ {rows : List (String × TradeData)} {seen : List String},
      (∀ id, id ∈ seen ↔ id ∈ known ∨ id ∈ rows.map Prod.fst) →
      (∀ f ∈ batch, f.exchangeTradeId ∉ known → f.exchangeTradeId ∈ rows.map Prod.fst →
        tradeOf f ∈ rows) →
      (∀ f ∈ batch, ∀ g ∈ batch, f.exchangeTradeId = g.exchangeTradeId → tradeOf f = tradeOf g) →
      Records rows ((batch.filter fun f => f.exchangeTradeId ∉ known).map tradeOf)
        (rows ++ (freshTrades seen batch).map tradeOf) := by
  -- By induction on the batch, with the rows and the names recorded so far.
  induction batch with
  | nil =>
      intro rows seen _ _ _
      unfold freshTrades
      rw [List.map_nil, List.append_nil]
      exact .nil
  | cons item rest ih =>
      intro rows seen hseen hknown hsame
      have hsame' := fun f hf g hg => hsame f (.tail _ hf) g (.tail _ hg)
      unfold freshTrades
      -- The trade was stored before this batch.
      by_cases hold : item.exchangeTradeId ∈ known
      · rw [List.filter_cons_of_neg (by simpa using hold), if_pos ((hseen _).mpr (.inl hold))]
        exact ih hseen (fun f hf => hknown f (.tail _ hf)) hsame'
      · rw [List.filter_cons_of_pos (by simpa using hold), List.map_cons]
        -- The batch has brought it already.
        by_cases hrow : item.exchangeTradeId ∈ rows.map Prod.fst
        · rw [if_pos ((hseen _).mpr (.inr hrow))]
          exact .known (hknown item (.head _) hold hrow)
            (ih hseen (fun f hf => hknown f (.tail _ hf)) hsame')
        · rw [if_neg fun h => ((hseen _).mp h).elim hold hrow, List.map_cons,
            show rows ++ tradeOf item :: (freshTrades (item.exchangeTradeId :: seen) rest).map tradeOf
              = (rows ++ [tradeOf item])
                ++ (freshTrades (item.exchangeTradeId :: seen) rest).map tradeOf from
              (List.append_assoc ..).symm ▸ rfl]
          -- It is new.
          refine .fresh hrow (ih (fun id => ?_) (fun f hf hnew hin => ?_) hsame')
          · rw [List.mem_cons, hseen, List.map_append, List.mem_append, List.map_singleton,
              List.mem_singleton]
            show id = item.exchangeTradeId ∨ _ ↔ _ ∨ _ ∨ id = item.exchangeTradeId
            tauto
          · rw [List.map_append, List.mem_append, List.map_singleton, List.mem_singleton] at hin
            refine List.mem_append.mpr (hin.imp (hknown f (.tail _ hf) hnew) fun h => ?_)
            exact List.mem_singleton.mpr (hsame f (.tail _ hf) item (.head _) h)

/-- The rows of new trades hold the trades. -/
theorem fillRows_trades (items : List Ledger.ValidFill) (n legId : Nat) :
    (items.mapIdx fun i item => Ledger.fillRow (n + i) legId item).map storedTrade
      = (items.map (·.val)).map tradeOf := by
  apply List.ext_getElem?
  intro i
  simp only [List.getElem?_map, List.getElem?_mapIdx]
  cases items[i]? <;> rfl

/-- A batch is accepted where each of its fills is. -/
theorem checkRemoteFills_accepts {leg : OrderLegRow} {fills : List RemoteFill}
    (h : ∀ f ∈ fills, ∃ v, Ledger.checkRemoteFill leg f = .ok v) :
    ∃ valid, Ledger.checkRemoteFills leg fills = .ok valid := by
  induction fills with
  | nil => exact ⟨[], rfl⟩
  | cons item rest ih =>
      obtain ⟨v, hv⟩ := h item (.head _)
      obtain ⟨others, hothers⟩ := ih fun f hf => h f (.tail _ hf)
      exact ⟨v :: others, bind_eq_ok.mpr ⟨v, hv, bind_eq_ok.mpr ⟨others, hothers, rfl⟩⟩⟩

/-- A batch that passes every check, and what it stores. -/
theorem persistRemoteFills_accepts {l : Ledger} {leg : OrderLegRow} {batch : List RemoteFill}
    {link : Option String} (hleg : Table.find? l.legs leg.id = some leg)
    (hcheck : ∀ f ∈ batch, ∃ v, Ledger.checkRemoteFill leg f = .ok v)
    (hlink : Ledger.linkByFills leg batch = .ok link)
    (hsame : ∀ e ∈ l.fillsOfLeg leg.id, ∀ f ∈ batch, e.exchangeTradeId = f.exchangeTradeId →
      Ledger.sameFill e f)
    (hle : batchTotal l leg.id batch ≤ leg.quantity) :
    ∃ rows : List FillRow,
      Ledger.persistRemoteFills leg.id batch l = .ok (rows.length, { l with
        fills := l.fills ++ rows
        legs := Table.put l.legs (Ledger.legByFills leg link (l.fillsOfLeg leg.id ++ rows))
        nextId := l.nextId + rows.length })
      ∧ rows.map storedTrade = (freshTrades (storedIds l leg.id) batch).map tradeOf
      ∧ ∀ r ∈ rows, r.orderLegId = leg.id := by
  obtain ⟨valid, hvalid⟩ := checkRemoteFills_accepts hcheck
  have hval := checkRemoteFills_val hvalid
  refine ⟨(Ledger.newTrades (storedIds l leg.id) valid).mapIdx fun i item =>
    Ledger.fillRow (l.nextId + i) leg.id item, ?_, ?_, ?_⟩
  · refine bind_eq_ok.mpr ⟨leg, found_eq_ok.mpr hleg, bind_eq_ok.mpr ⟨valid, hvalid,
      bind_eq_ok.mpr ⟨link, hlink, raiseIf_bind_eq_ok.mpr ⟨?_, raiseIf_bind_eq_ok.mpr ⟨?_, rfl⟩⟩⟩⟩⟩
    · rintro ⟨e, he, f, hf, hid, hne⟩
      exact hne (hsame e he f hf hid)
    · refine not_lt.mpr (le_of_eq_of_le ?_ hle)
      unfold batchTotal Ledger.fillsTotal
      rw [List.map_append, List.sum_append, fillRows_quantity, newTrades_val, hval]
  · rw [fillRows_trades, newTrades_val, hval]
  · intro r hr
    obtain ⟨i, hi, rfl⟩ := List.mem_mapIdx.mp hr
    rfl

/-! ## §5. What any batches add. -/

/-- The status of a leg by a part of its fills makes no difference to its status
by all of them. -/
theorem statusByFills_again {leg new : OrderLegRow} {a b : ℚ} (hq : new.quantity = leg.quantity)
    (hs : new.status = Ledger.statusByFills leg a) (hab : a ≤ b) :
    Ledger.statusByFills new b = Ledger.statusByFills leg b := by
  unfold Ledger.statusByFills at hs ⊢
  rw [hq]
  by_cases hfull : leg.quantity ≤ b
  · rw [if_pos hfull, if_pos hfull]
  · rw [if_neg hfull, if_neg hfull]
    rw [if_neg fun h => hfull (h.trans hab)] at hs
    by_cases hpart : 0 < a ∧ leg.status ≠ .canceled ∧ leg.status ≠ .failed
    · rw [if_pos hpart] at hs
      have hb : 0 < b := lt_of_lt_of_le hpart.1 hab
      rw [if_pos ⟨hb, by rw [hs]; decide⟩, if_pos ⟨hb, hpart.2⟩]
    · rw [if_neg hpart] at hs
      rw [hs]

/-- A second batch that adds to the first settles the leg as the whole does. -/
theorem legByFills_again (leg : OrderLegRow) (link link' : Option String) {rows rows' : List FillRow}
    (h : Ledger.fillsTotal rows ≤ Ledger.fillsTotal rows') :
    Ledger.legByFills (Ledger.legByFills leg link rows) link' rows'
      = Ledger.legByFills leg link' rows' := by
  have hstatus : Ledger.statusByFills (Ledger.legByFills leg link rows) (Ledger.fillsTotal rows')
      = Ledger.statusByFills leg (Ledger.fillsTotal rows') := statusByFills_again rfl rfl h
  unfold Ledger.legByFills at hstatus ⊢
  simp only [hstatus]

/-- What the rows of a leg come to. -/
theorem fillsTotal_append (a b : List FillRow) :
    Ledger.fillsTotal (a ++ b) = Ledger.fillsTotal a + Ledger.fillsTotal b := by
  unfold Ledger.fillsTotal
  rw [List.map_append, List.sum_append]

/-- The total of the stored rows is that of the trades in them. -/
theorem fillsTotal_eq (rows : List FillRow) :
    Ledger.fillsTotal rows = Records.total (·.quantity) (rows.map storedTrade) := by
  unfold Ledger.fillsTotal Records.total
  rw [List.map_map]
  rfl

/-- The trades of fills amount to what the fills do. -/
theorem freshTrades_total (fills : List RemoteFill) :
    Records.total (·.quantity) (fills.map tradeOf) = (fills.map (·.quantity)).sum := by
  unfold Records.total
  rw [List.map_map]
  rfl

/-- Rows of the leg that are appended are the last of the leg's rows. -/
theorem fillsOfLeg_append {l l' : Ledger} {legId : Nat} {rows : List FillRow}
    (h : l'.fills = l.fills ++ rows) (hown : ∀ r ∈ rows, r.orderLegId = legId) :
    l'.fillsOfLeg legId = l.fillsOfLeg legId ++ rows := by
  unfold Ledger.fillsOfLeg
  rw [h, List.filter_append, List.filter_eq_self.mpr fun r hr => decide_eq_true (hown r hr)]

/-- After some batches of fills, all named `x`, a leg that had no fill of them
has these rows. -/
structure Stored (l : Ledger) (leg : OrderLegRow) (x : String) (fills : List RemoteFill)
    (rows : List FillRow) (l' : Ledger) : Prop where
  eq : l' = { l with
    fills := l.fills ++ rows
    legs := Table.put l.legs
      (Ledger.legByFills leg (leg.exchangeOrderId.or (named x fills)) (l.fillsOfLeg leg.id ++ rows))
    nextId := l.nextId + rows.length }
  own : ∀ r ∈ rows, r.orderLegId = leg.id
  records : Records [] (unstored l leg.id fills) (rows.map storedTrade)

section

variable {l l' : Ledger} {leg : OrderLegRow} {x : String} {fills done batch : List RemoteFill}
  {rows : List FillRow}

/-- The trades of all fills, each once. -/
theorem ValidFills.all (hv : ValidFills l leg fills) :
    Records [] (unstored l leg.id fills) ((freshTrades (storedIds l leg.id) fills).map tradeOf) := by
  have hseen : ∀ id, id ∈ storedIds l leg.id ↔ id ∈ storedIds l leg.id
      ∨ id ∈ ([] : List (String × TradeData)).map Prod.fst := fun id => by simp
  exact freshTrades_records hseen (fun _ _ _ h => by cases h) hv.same_data

/-- Part of the fills comes to no more than the leg's quantity. -/
theorem ValidFills.part_le (hv : ValidFills l leg fills) (hdone : ∀ f ∈ done, f ∈ fills)
    {trades : List (String × TradeData)} (hrecords : Records [] (unstored l leg.id done) trades) :
    Ledger.fillsTotal (l.fillsOfLeg leg.id) + Records.total (·.quantity) trades ≤ leg.quantity := by
  refine le_trans ?_ hv.total_le
  have hnil : (([] : List (String × TradeData)).map Prod.fst).Nodup := List.nodup_nil
  have hpart := hrecords.subperm hnil hv.all (unstored_subset hdone)
  have hpos : ∀ t ∈ (freshTrades (storedIds l leg.id) fills).map tradeOf, 0 ≤ t.2.quantity := by
    intro t ht
    rcases hv.all.mem_iff.mp ht with ht | ht
    · cases ht
    · obtain ⟨f, hf, -, rfl⟩ := mem_unstored ht
      obtain ⟨v, hcheck⟩ := hv.checked f hf
      have hpos := v.property.1
      rw [(checkRemoteFill_ok hcheck).1] at hpos
      exact hpos.le
  have htotal : Records.total (·.quantity) trades
      ≤ Records.total (·.quantity) ((freshTrades (storedIds l leg.id) fills).map tradeOf) :=
    Records.total_le hpart hpos
  exact add_le_add_right (htotal.trans_eq (freshTrades_total _)) _

/-- A trade recorded is one of the fills. -/
theorem recorded_of_mem (hrecords : Records [] (unstored l leg.id done) (rows.map storedTrade))
    {r : FillRow} (hr : r ∈ rows) : ∃ g ∈ done, tradeOf g = storedTrade r := by
  rcases hrecords.mem_iff.mp (List.mem_map_of_mem hr) with h | h
  · cases h
  · obtain ⟨g, hg, -, heq⟩ := mem_unstored h
    exact ⟨g, hg, heq⟩

/-- The new trades of one more batch. -/
theorem ValidFills.records_batch (hv : ValidFills l leg fills) (hdone : ∀ f ∈ done, f ∈ fills)
    (hbatch : ∀ f ∈ batch, f ∈ fills)
    (hfills : l'.fillsOfLeg leg.id = l.fillsOfLeg leg.id ++ rows)
    (hrecords : Records [] (unstored l leg.id done) (rows.map storedTrade)) :
    Records [] (unstored l leg.id (done ++ batch))
      (rows.map storedTrade ++ (freshTrades (storedIds l' leg.id) batch).map tradeOf) := by
  rw [unstored_append]
  refine hrecords.append (freshTrades_records (fun id => ?_) (fun f hf _ hin => ?_)
    fun f hf g hg => hv.same_data f (hbatch f hf) g (hbatch g hg))
  · unfold storedIds
    rw [hfills, List.map_append, List.mem_append, List.map_map]
    exact Iff.rfl
  · obtain ⟨t, ht, hid⟩ := List.mem_map.mp hin
    obtain ⟨r, hr, rfl⟩ := List.mem_map.mp ht
    obtain ⟨g, hg, heq⟩ := recorded_of_mem hrecords hr
    have hgid : g.exchangeTradeId = f.exchangeTradeId := (congrArg Prod.fst heq).trans hid
    rw [hv.same_data f (hbatch f hf) g (hdone g hg) hgid.symm, heq]
    exact ht

/-- A fill says the same as a row that holds its trade. -/
theorem sameFill_of_trade {e : FillRow} {f : RemoteFill} (h : tradeOf f = storedTrade e) :
    Ledger.sameFill e f := by
  obtain ⟨-, h⟩ := Prod.mk.inj h
  simp only [TradeData.mk.injEq] at h
  obtain ⟨hq, hp, hfee, hasset, hliq, htime⟩ := h
  unfold Ledger.sameFill
  rw [hq, hp, hfee]
  have hself : ∀ a : ℚ, numericEqual a a = true := by
    intro a
    rw [numericEqual_iff, sub_self, abs_zero]
    norm_num
  exact ⟨hself _, hself _, hself _, hasset.symm, hliq.symm, htime.symm⟩

/-- One more batch of the fills, on the leg as the batches before have left it. -/
theorem ValidFills.accepts {leg' : OrderLegRow} (hv : ValidFills l leg fills)
    (hx : ∀ f ∈ fills, f.exchangeOrderId = x) (hy : ∀ y ∈ leg.exchangeOrderId, y = x)
    (hdone : ∀ f ∈ done, f ∈ fills) (hbatch : ∀ f ∈ batch, f ∈ fills)
    (hleg : Table.find? l'.legs leg.id = some leg')
    (hsame : ∃ link rows₀, leg' = leg ∨ leg' = Ledger.legByFills leg link rows₀)
    (hlink : leg'.exchangeOrderId = leg.exchangeOrderId.or (named x done))
    (hfills : l'.fillsOfLeg leg.id = l.fillsOfLeg leg.id ++ rows)
    (hrecords : Records [] (unstored l leg.id done) (rows.map storedTrade)) :
    ∃ more : List FillRow,
      Ledger.persistRemoteFills leg.id batch l' = .ok (more.length, { l' with
        fills := l'.fills ++ more
        legs := Table.put l'.legs (Ledger.legByFills leg'
          (leg.exchangeOrderId.or (named x (done ++ batch))) (l.fillsOfLeg leg.id ++ (rows ++ more)))
        nextId := l'.nextId + more.length })
      ∧ Records [] (unstored l leg.id (done ++ batch)) ((rows ++ more).map storedTrade)
      ∧ ∀ r ∈ more, r.orderLegId = leg.id := by
  -- Batches before this one changed the figures of the leg, not what a fill is checked against.
  have hcolumns : leg'.id = leg.id ∧ leg'.createdAt = leg.createdAt ∧ leg'.market = leg.market
      ∧ leg'.symbol = leg.symbol ∧ leg'.side = leg.side ∧ leg'.clientOrderId = leg.clientOrderId
      ∧ leg'.quantity = leg.quantity := by
    obtain ⟨link, rows₀, rfl | rfl⟩ := hsame
    · exact ⟨rfl, rfl, rfl, rfl, rfl, rfl, rfl⟩
    · exact ⟨rfl, rfl, rfl, rfl, rfl, rfl, rfl⟩
  obtain ⟨hid, hcreated, hmarket, hsymbol, hside, hclient, hquantity⟩ := hcolumns
  have hlinked : ∀ y ∈ leg'.exchangeOrderId, y = x := by
    intro y hin
    rw [hlink] at hin
    rcases Option.or_eq_some_iff.mp hin with h | ⟨-, h⟩
    · exact hy y h
    · unfold named at h
      split at h
      · cases h
      · exact (Option.some.inj h).symm
  have hrecords' := hv.records_batch hdone hbatch hfills hrecords
  -- The parts of the fills stay below the quantity because the whole does.
  have htotal : batchTotal l' leg'.id batch ≤ leg'.quantity := by
    have hpart := hv.part_le (fun f hf => (List.mem_append.mp hf).elim (hdone f) (hbatch f)) hrecords'
    rw [hquantity]
    rw [Records.total_append, freshTrades_total, ← add_assoc, ← fillsTotal_eq,
      ← fillsTotal_append, ← hfills] at hpart
    rw [hid]
    exact hpart
  have hlinks : Ledger.linkByFills leg' batch = .ok (leg'.exchangeOrderId.or (named x batch)) :=
    linkByFills_named fun f hf => hx f (hbatch f hf)
  rw [hlink, Option.or_assoc, ← named_append] at hlinks
  have hchecks : ∀ f ∈ batch, ∃ v, Ledger.checkRemoteFill leg' f = .ok v := by
    intro f hf
    obtain ⟨v, hv⟩ := hv.checked f (hbatch f hf)
    refine ⟨v, checkRemoteFill_relinked hv hcreated hmarket hsymbol hside hclient fun y hy => ?_⟩
    rw [hx f (hbatch f hf), hlinked y hy]
  -- A trade that is stored already, before or by an earlier batch, has the same data.
  have hsames : ∀ e ∈ l'.fillsOfLeg leg'.id, ∀ f ∈ batch, e.exchangeTradeId = f.exchangeTradeId →
      Ledger.sameFill e f := by
    intro e he f hf heq
    rw [hid, hfills] at he
    rcases List.mem_append.mp he with he | he
    · exact hv.same_stored e he f (hbatch f hf) heq
    · obtain ⟨g, hg, htrade⟩ := recorded_of_mem hrecords he
      have hgid : g.exchangeTradeId = f.exchangeTradeId := (congrArg Prod.fst htrade).trans heq
      rw [← hv.same_data f (hbatch f hf) g (hdone g hg) hgid.symm] at htrade
      exact sameFill_of_trade htrade
  rw [← hid] at hleg
  obtain ⟨more, hok, htrades, hown⟩ := persistRemoteFills_accepts hleg hchecks hlinks hsames htotal
  rw [hid] at hok htrades hown
  refine ⟨more, ?_, ?_, hown⟩
  · rw [hok, hfills, List.append_assoc]
  · rw [List.map_append, htrades]
    exact hrecords'

/-- The first batch. -/
theorem ValidFills.stored_first (hv : ValidFills l leg fills)
    (hx : ∀ f ∈ fills, f.exchangeOrderId = x) (hy : ∀ y ∈ leg.exchangeOrderId, y = x)
    (hbatch : ∀ f ∈ batch, f ∈ fills) (hleg : Table.find? l.legs leg.id = some leg) :
    ∃ n l₁ rows₁, Ledger.persistRemoteFills leg.id batch l = .ok (n, l₁)
      ∧ Stored l leg x batch rows₁ l₁ := by
  have hnone : leg.exchangeOrderId = leg.exchangeOrderId.or (named x []) := by
    rw [named_nil, Option.or_none]
  have hnil : l.fillsOfLeg leg.id = l.fillsOfLeg leg.id ++ [] := (List.append_nil _).symm
  obtain ⟨more, hok, hrecords, hown⟩ := hv.accepts hx hy (fun f hf => absurd hf List.not_mem_nil)
    hbatch hleg ⟨none, [], .inl rfl⟩ hnone hnil .nil
  exact ⟨_, _, more, hok, rfl, hown, hrecords⟩

/-- One batch after others. -/
theorem ValidFills.stored_step (hv : ValidFills l leg fills)
    (hx : ∀ f ∈ fills, f.exchangeOrderId = x) (hy : ∀ y ∈ leg.exchangeOrderId, y = x)
    (hdone : ∀ f ∈ done, f ∈ fills) (hbatch : ∀ f ∈ batch, f ∈ fills)
    (hleg : Table.find? l.legs leg.id = some leg) (hs : Stored l leg x done rows l') :
    ∃ n l₂ rows₂, Ledger.persistRemoteFills leg.id batch l' = .ok (n, l₂)
      ∧ Stored l leg x (done ++ batch) rows₂ l₂ := by
  have hlegs : l'.legs = Table.put l.legs (Ledger.legByFills leg
      (leg.exchangeOrderId.or (named x done)) (l.fillsOfLeg leg.id ++ rows)) := by rw [hs.eq]
  have hfills : l'.fills = l.fills ++ rows := by rw [hs.eq]
  have hfind : Table.find? l'.legs leg.id = some (Ledger.legByFills leg
      (leg.exchangeOrderId.or (named x done)) (l.fillsOfLeg leg.id ++ rows)) := by
    rw [hlegs]
    exact Table.find?_put_self ⟨leg, (Table.find?_some hleg).1, rfl⟩
  obtain ⟨more, hok, hrecords, hown⟩ := hv.accepts hx hy hdone hbatch hfind ⟨_, _, .inr rfl⟩ rfl
    (fillsOfLeg_append hfills hs.own) hs.records
  refine ⟨_, _, rows ++ more, hok, ?_, ?_, hrecords⟩
  · -- The leg by the fills before, then by all, is the leg by all.
    have hle : Ledger.fillsTotal (l.fillsOfLeg leg.id ++ rows)
        ≤ Ledger.fillsTotal (l.fillsOfLeg leg.id ++ (rows ++ more)) := by
      rw [← List.append_assoc, fillsTotal_append _ more]
      exact le_add_of_nonneg_right (Ledger.fillsTotal_nonneg more)
    have hput : ∀ a b, Table.put (Table.put l.legs (Ledger.legByFills leg a
        (l.fillsOfLeg leg.id ++ rows))) (Ledger.legByFills leg b (l.fillsOfLeg leg.id ++ (rows ++ more)))
        = Table.put l.legs (Ledger.legByFills leg b (l.fillsOfLeg leg.id ++ (rows ++ more))) :=
      fun _ _ => Table.put_put rfl
    rw [legByFills_again _ _ _ hle, hlegs, hput, hs.eq, List.length_append]
    simp only [List.append_assoc, Nat.add_assoc]
  · intro r hr
    exact (List.mem_append.mp hr).elim (hs.own r) (hown r)

/-- Batches after others. -/
theorem ValidFills.stored_run (hv : ValidFills l leg fills)
    (hx : ∀ f ∈ fills, f.exchangeOrderId = x) (hy : ∀ y ∈ leg.exchangeOrderId, y = x)
    (hleg : Table.find? l.legs leg.id = some leg) (batches : List (List RemoteFill)) :
    ∀ {done rows l'}, (∀ f ∈ done, f ∈ fills) → (∀ f ∈ batches.flatten, f ∈ fills) →
      Stored l leg x done rows l' →
      (∀ r ∈ (persistBatches leg.id batches l').1, ∃ n, r = .ok n)
        ∧ ∃ rows', Stored l leg x (done ++ batches.flatten) rows'
          (persistBatches leg.id batches l').2 := by
  -- By induction on the batches.
  induction batches with
  | nil =>
      intro done rows l' _ _ hs
      refine ⟨fun r hr => absurd hr List.not_mem_nil, rows, ?_⟩
      rw [List.flatten_nil, List.append_nil]
      exact hs
  | cons batch rest ih =>
      intro done rows l' hdone hall hs
      rw [List.flatten_cons] at hall ⊢
      -- This batch and the later ones hold fills of the leg only.
      have hbatch := fun f hf => hall f (List.mem_append_left _ hf)
      have hrest := fun f hf => hall f (List.mem_append_right _ hf)
      obtain ⟨n, l₂, rows₂, hok, hs₂⟩ := hv.stored_step hx hy hdone hbatch hleg hs
      have hcommit : commit (Ledger.persistRemoteFills leg.id batch) l' = (.ok n, l₂) := by
        unfold commit
        rw [hok]
      have hdone₂ : ∀ f ∈ done ++ batch, f ∈ fills := fun f hf =>
        (List.mem_append.mp hf).elim (hdone f) (hbatch f)
      obtain ⟨hoks, rows', hs'⟩ := ih hdone₂ hrest hs₂
      unfold persistBatches
      rw [hcommit, ← List.append_assoc]
      refine ⟨fun r hr => ?_, rows', hs'⟩
      rcases List.mem_cons.mp hr with rfl | hr
      · exact ⟨n, rfl⟩
      · exact hoks r hr

/-! ## §6. One state. -/

/-- Any batches of the fills, one at least. -/
theorem ValidFills.stored_batches (hv : ValidFills l leg fills)
    (hx : ∀ f ∈ fills, f.exchangeOrderId = x) (hy : ∀ y ∈ leg.exchangeOrderId, y = x)
    (hleg : Table.find? l.legs leg.id = some leg) {batches : List (List RemoteFill)}
    (hne : batches ≠ []) (hall : ∀ f ∈ batches.flatten, f ∈ fills) :
    (∀ r ∈ (persistBatches leg.id batches l).1, ∃ n, r = .ok n)
      ∧ ∃ rows, Stored l leg x batches.flatten rows (persistBatches leg.id batches l).2 := by
  cases batches with
  | nil => exact absurd rfl hne
  | cons batch rest =>
      rw [List.flatten_cons] at hall ⊢
      have hbatch := fun f hf => hall f (List.mem_append_left _ hf)
      have hrest := fun f hf => hall f (List.mem_append_right _ hf)
      obtain ⟨n, l₁, rows₁, hok, hs₁⟩ := hv.stored_first hx hy hbatch hleg
      have hcommit : commit (Ledger.persistRemoteFills leg.id batch) l = (.ok n, l₁) := by
        unfold commit
        rw [hok]
      obtain ⟨hoks, rows, hs⟩ := hv.stored_run hx hy hleg rest hbatch hrest hs₁
      unfold persistBatches
      rw [hcommit]
      refine ⟨fun r hr => ?_, rows, hs⟩
      rcases List.mem_cons.mp hr with rfl | hr
      · exact ⟨n, rfl⟩
      · exact hoks r hr

/-- Fills with the same members name the same order. -/
theorem named_congr {a b : List RemoteFill} (h : ∀ f, f ∈ a ↔ f ∈ b) : named x a = named x b := by
  have hnil : a = [] ↔ b = [] := by
    rw [List.eq_nil_iff_forall_not_mem, List.eq_nil_iff_forall_not_mem]
    exact forall_congr' fun f => not_congr (h f)
  unfold named
  exact if_congr (or_congr_left hnil) rfl rfl

/-- The rows of all fills hold their trades. -/
theorem ValidFills.rows_perm (hv : ValidFills l leg fills) (hdone : ∀ f, f ∈ done ↔ f ∈ fills)
    (hrecords : Records [] (unstored l leg.id done) (rows.map storedTrade)) :
    (rows.map storedTrade).Perm ((freshTrades (storedIds l leg.id) fills).map tradeOf) := by
  have hnil : (([] : List (String × TradeData)).map Prod.fst).Nodup := List.nodup_nil
  exact hrecords.perm hnil hv.all fun t =>
    ⟨unstored_subset (fun f => (hdone f).mp) t, unstored_subset (fun f => (hdone f).mpr) t⟩

/-- What a leg comes to by its rows is what it comes to by the fills. -/
theorem figures_of_perm
    (h : (rows.map storedTrade).Perm ((freshTrades (storedIds l leg.id) fills).map tradeOf)) :
    Ledger.fillsTotal (l.fillsOfLeg leg.id ++ rows) = batchTotal l leg.id fills
      ∧ Ledger.fillsNotional (l.fillsOfLeg leg.id ++ rows) = batchNotional l leg.id fills := by
  have hquantity := (h.map fun t => t.2.quantity).sum_eq
  have hnotional := (h.map fun t => t.2.quantity * t.2.price).sum_eq
  rw [List.map_map, List.map_map] at hquantity hnotional
  constructor
  · unfold batchTotal
    rw [fillsTotal_append]
    exact congrArg _ hquantity
  · unfold batchNotional Ledger.fillsNotional
    rw [List.map_append, List.sum_append]
    exact congrArg _ hnotional

/-- A leg is one leg by its figures. -/
theorem legByFills_congr {link : Option String} {a b : List FillRow}
    (htotal : Ledger.fillsTotal a = Ledger.fillsTotal b)
    (hnotional : Ledger.fillsNotional a = Ledger.fillsNotional b) :
    Ledger.legByFills leg link a = Ledger.legByFills leg link b := by
  have haverage : Ledger.fillsAverage a = Ledger.fillsAverage b := by
    unfold Ledger.fillsAverage
    rw [htotal, hnotional]
  unfold Ledger.legByFills
  simp only [htotal, haverage]

/-- Trade ids stay unique. -/
theorem Stored.unique (hs : Stored l leg x done rows l') (hu : (storedIds l leg.id).Nodup) :
    (storedIds l' leg.id).Nodup := by
  have hfills : l'.fills = l.fills ++ rows := by rw [hs.eq]
  have hkeys : (rows.map (·.exchangeTradeId)).Nodup := by
    have hnodup := hs.records.keys_nodup List.nodup_nil
    rw [List.map_map] at hnodup
    exact hnodup
  unfold storedIds
  rw [fillsOfLeg_append hfills hs.own, List.map_append, List.nodup_append]
  refine ⟨hu, hkeys, fun a ha b hb heq => ?_⟩
  obtain ⟨r, hr, rfl⟩ := List.mem_map.mp hb
  rcases hs.records.mem_iff.mp (List.mem_map_of_mem hr) with h | h
  · cases h
  · obtain ⟨g, -, hnew, htrade⟩ := mem_unstored h
    rw [show g.exchangeTradeId = a from (congrArg Prod.fst htrade).trans heq.symm] at hnew
    exact hnew ha

/-- Fills named alike lead to one state. -/
theorem NamedAlike.confluent (h : NamedAlike leg fills) (hv : ValidFills l leg fills)
    (hleg : Table.find? l.legs leg.id = some leg) : Confluent l leg fills := by
  obtain ⟨x, hx, hy⟩ := h.one hv
  -- The state is the one that a single batch leads to.
  obtain ⟨-, rows₀, hs₀⟩ := hv.stored_batches hx hy hleg (List.cons_ne_nil fills [])
    fun f hf => by rwa [List.flatten_singleton] at hf
  rw [List.flatten_singleton] at hs₀
  obtain ⟨htotal₀, hnotional₀⟩ := figures_of_perm (hv.rows_perm (fun _ => Iff.rfl) hs₀.records)
  refine ⟨Ledger.legByFills leg (leg.exchangeOrderId.or (named x fills))
    (l.fillsOfLeg leg.id ++ rows₀), ⟨rfl, rfl, rfl, rfl, rfl, rfl, fun _ => ⟨rfl, fun _ => ?_⟩⟩,
    htotal₀, ?_, ?_, ?_⟩
  · exact htotal₀.trans_le hv.total_le
  · show Ledger.fillsAverage _ = _
    unfold Ledger.fillsAverage batchAverage
    rw [htotal₀, hnotional₀]
  · show Ledger.statusByFills leg _ = _
    rw [htotal₀]
  · intro batches hne hall
    obtain ⟨hoks, rows, hs⟩ := hv.stored_batches hx hy hleg hne fun f => (hall f).mp
    have hperm := hv.rows_perm hall hs.records
    obtain ⟨htotal, hnotional⟩ := figures_of_perm hperm
    generalize persistBatches leg.id batches l = out at hoks hs ⊢
    have hfills : out.2.fills = l.fills ++ rows := by rw [hs.eq]
    refine ⟨hoks, ?_, ?_, hs.unique hv.unique, fun id hid => ?_, ?_⟩
    · rw [hs.eq, named_congr hall,
        legByFills_congr (htotal.trans htotal₀.symm) (hnotional.trans hnotional₀.symm)]
    · rw [fillsOfLeg_append hfills hs.own, List.map_append]
      exact hperm.append_left _
    · unfold Ledger.fillsOfLeg
      have hnone : rows.filter (fun f => f.orderLegId = id) = [] := by
        refine List.filter_eq_nil_iff.mpr fun r hr => ?_
        rw [hs.own r hr, decide_eq_true_eq]
        exact Ne.symm hid
      rw [hfills, List.filter_append, hnone, List.append_nil]
    · rw [hs.eq]

/-- Where every batch is taken, so is the first, and the others on what it
leaves. -/
theorem persistBatches_taken {legId : Nat} {batches : List (List RemoteFill)}
    (h : ∀ r ∈ (persistBatches legId (batch :: batches) l).1, ∃ n, r = .ok n) :
    ∃ n l₁, Ledger.persistRemoteFills legId batch l = .ok (n, l₁)
      ∧ ∀ r ∈ (persistBatches legId batches l₁).1, ∃ n, r = .ok n := by
  unfold persistBatches at h
  cases hok : Ledger.persistRemoteFills legId batch l with
  | error e =>
      obtain ⟨n, hn⟩ := h _ (.head _)
      unfold commit at hn
      rw [hok] at hn
      cases hn
  | ok out =>
      refine ⟨out.1, out.2, rfl, fun r hr => ?_⟩
      unfold commit at h
      rw [hok] at h
      exact h r (.tail _ hr)

/-- A leg linked by one fill refuses another that names no order. -/
theorem Confluent.namedAlike (h : Confluent l leg fills)
    (hleg : Table.find? l.legs leg.id = some leg) : NamedAlike leg fills := by
  unfold NamedAlike
  by_contra hnot
  push Not at hnot
  obtain ⟨hlink, ⟨g, hg, hgname⟩, f, hf, hfname⟩ := hnot
  obtain ⟨new, -, -, -, -, hall⟩ := h
  -- Deliver the fill with an order first, then the one without.
  have hends := hall [[g], [f], fills] (List.cons_ne_nil _ _) fun k => by
    simp only [List.flatten_cons, List.flatten_nil, List.mem_append, List.mem_singleton,
      List.append_nil]
    constructor
    · rintro (rfl | rfl | hk)
      · exact hg
      · exact hf
      · exact hk
    · exact fun hk => .inr (.inr hk)
  obtain ⟨n₁, l₁, hok₁, hrest⟩ := persistBatches_taken hends.taken
  obtain ⟨n₂, l₂, hok₂, -⟩ := persistBatches_taken hrest
  -- The first links the leg.
  obtain ⟨leg₁, link, rows, hfind, hlinks, -, -, rfl⟩ := Ledger.persistRemoteFills_ok hok₁
  rw [hleg] at hfind
  cases hfind
  rw [linkByFills_named (x := g.exchangeOrderId) fun k hk => by rw [List.mem_singleton.mp hk],
    hlink] at hlinks
  have hlinked : link = some g.exchangeOrderId := by
    rw [← Except.ok.inj hlinks]
    exact if_neg (by simp [hgname])
  -- And the check of the second asks for the order.
  unfold Ledger.persistRemoteFills at hok₂
  obtain ⟨leg₂, hfind₂, hok₂⟩ := bind_eq_ok.mp hok₂
  obtain ⟨valid, hvalid, -⟩ := bind_eq_ok.mp hok₂
  have hleg₂ : leg₂.exchangeOrderId = link := by
    have hput := Ledger.orderLeg_ok hfind₂
    have hself : Table.find? (Table.put l.legs
        (Ledger.legByFills leg link (l.fillsOfLeg leg.id ++ rows))) leg.id
        = some (Ledger.legByFills leg link (l.fillsOfLeg leg.id ++ rows)) :=
      Table.find?_put_self ⟨leg, (Table.find?_some hleg).1, rfl⟩
    cases hself.symm.trans hput
    rfl
  unfold Ledger.checkRemoteFills at hvalid
  obtain ⟨v, hv, -⟩ := bind_eq_ok.mp hvalid
  have hnamed := (checkRemoteFill_ok hv).2 g.exchangeOrderId (by rw [hleg₂, hlinked]; rfl)
  exact hgname (hnamed.symm.trans hfname)

end

/-- Whatever the batches, their order and their repetitions, the fills of a leg
lead it to one state, and a refused batch changes nothing: this holds exactly
unless fills that name their order and fills that do not meet on a leg that is
not linked. -/
theorem fills_confluent_iff {l : Ledger} {leg : OrderLegRow} {fills : List RemoteFill}
    (hleg : Table.find? l.legs leg.id = some leg) (hv : ValidFills l leg fills) :
    Confluent l leg fills ∧ Atomic leg.id ↔ NamedAlike leg fills :=
  ⟨fun h => h.1.namedAlike hleg, fun h => ⟨h.confluent hv hleg, atomic leg.id⟩⟩

namespace Sample

theorem leg_positive : (0 : ℚ) < 10 ∧ (0 : ℚ) < 100 := by decide

/-- A spot leg that buys ten. -/
def leg (link : Option String) : OrderLegRow where
  id := 1
  tradeIntentId := 0
  leg := .primary .spot
  market := .spot
  symbol := "ABCUSDT"
  side := .buy
  clientOrderId := "c"
  exchangeOrderId := link
  status := .acknowledged
  failureCode := none
  quantity := 10
  baseMultiplier := 1
  compensationTargetBaseQuantity := none
  compensationToleranceBase := 0
  limitPrice := 100
  filledQuantity := 0
  averagePrice := none
  reduceOnly := false
  createdAt := 0
  quantity_pos := leg_positive
  multiplier_check := OrderLegRow.unit_multiplier
  tolerance_check := OrderLegRow.zero_nonneg
  filled_nonneg := OrderLegRow.zero_nonneg
  average_iff := OrderLegRow.unfilled_average

/-- A ledger with this leg and no fill. -/
def unfilled (link : Option String) : Ledger where
  control := none
  intents := []
  legs := [leg link]
  fills := []
  positions := []
  realizations := []
  nextId := 2

/-- A fill of four that names an order, or none. -/
def part (tradeId orderId : String) : RemoteFill :=
  { Paired.Sample.fill .spot .buy tradeId 4 100 0 with exchangeOrderId := orderId }

/-- Two such fills. -/
def parts (orderId : String) : List RemoteFill := [part "a" orderId, part "b" "1"]

theorem parts_valid {link : Option String} {orderId : String}
    (ha : (Ledger.checkRemoteFill (leg link) (part "a" orderId)).isOk)
    (hb : (Ledger.checkRemoteFill (leg link) (part "b" "1")).isOk)
    (ho : orderId = "" ∨ orderId = "1") : ValidFills (unfilled link) (leg link) (parts orderId) := by
  have hcheck : ∀ f, (Ledger.checkRemoteFill (leg link) f).isOk →
      ∃ v, Ledger.checkRemoteFill (leg link) f = .ok v := by
    intro f hf
    cases h : Ledger.checkRemoteFill (leg link) f with
    | error e =>
        rw [h] at hf
        cases hf
    | ok v => exact ⟨v, rfl⟩
  refine ⟨?_, ?_, ?_, fun e he => absurd he List.not_mem_nil, List.nodup_nil, ?_⟩
  · intro f hf
    rcases List.mem_pair.mp hf with rfl | rfl
    · exact hcheck _ ha
    · exact hcheck _ hb
  · have hone : ∀ f ∈ parts orderId, f.exchangeOrderId ≠ "" → f.exchangeOrderId = "1" := by
      intro f hf hne
      rcases List.mem_pair.mp hf with rfl | rfl
      · exact ho.resolve_left hne
      · rfl
    intro f hf g hg hne hne'
    rw [hone f hf hne, hone g hg hne']
  · intro f hf g hg hid
    rcases List.mem_pair.mp hf with rfl | rfl
    · rcases List.mem_pair.mp hg with rfl | rfl
      · rfl
      · exact absurd (show "a" = "b" from hid) (by decide)
    · rcases List.mem_pair.mp hg with rfl | rfl
      · exact absurd (show "b" = "a" from hid) (by decide)
      · rfl
  · show (0 : ℚ) + (4 + (4 + 0)) ≤ 10
    norm_num

end Sample

/-- Fills that name the order a leg is linked to. -/
theorem fills_confluent_linked :
    Confluent (Sample.unfilled (some "1")) (Sample.leg (some "1")) (Sample.parts "1")
      ∧ Atomic (Sample.leg (some "1")).id :=
  (fills_confluent_iff rfl
    (Sample.parts_valid (by decide) (by decide) (.inr rfl))).mpr (by decide)

/-- A fill without an order, and one with: in one batch both are stored, and the
same batch is refused when it comes again; after the other, the first is refused. -/
theorem fills_by_order :
    Table.find? (Sample.unfilled none).legs (Sample.leg none).id = some (Sample.leg none)
      ∧ ValidFills (Sample.unfilled none) (Sample.leg none) (Sample.parts "")
      ∧ ¬Confluent (Sample.unfilled none) (Sample.leg none) (Sample.parts "")
      ∧ storedIds (persistBatches 1 [Sample.parts ""] (Sample.unfilled none)).2 1 = ["a", "b"]
      ∧ (persistBatches 1 [Sample.parts "", Sample.parts ""] (Sample.unfilled none)).1.map
          Except.isOk = [true, false]
      ∧ storedIds (persistBatches 1 [[Sample.part "b" "1"], [Sample.part "a" ""]]
          (Sample.unfilled none)).2 1 = ["b"] := by
  refine ⟨rfl, Sample.parts_valid (by decide +kernel) (by decide +kernel) (.inl rfl),
    fun h => ?_, by decide +kernel, by decide +kernel, by decide +kernel⟩
  exact absurd (h.namedAlike rfl) (by decide +kernel)

end BasisHawk.Reconciliation
