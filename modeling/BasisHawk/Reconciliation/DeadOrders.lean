/-
  BasisHawk.Reconciliation.DeadOrders
  ───────────────────────────────────
  When a remote order is dead: `reconcile_remote_order` of the paired executor
  against `_remote_status` of the multi-leg executor.

  Both read the same word of the exchange, one stripped and in lower case, the
  other with hyphens and blanks replaced as well.  The difference cannot be
  seen in a word of letters alone, and all words the second one knows as dead
  are of that kind.

  Main results:
    • `normalizeStatus_eq_iff` — on a word of letters the two readings agree,
    • `dead_agree_iff` — the executors agree exactly on the words outside
      `disputedWords`.
-/
import BasisHawk.Paired.Effects
import BasisHawk.MultiLeg.Service

namespace BasisHawk.Reconciliation

open Domain Lib Paired
open Paired.Ledger (statusWord canceledWords failedWords statusByLookup)
open Accounts (RemoteOrder)
open MultiLeg (OrderStatus remoteStatus statusOfWord normalizeStatus)

/-! ## §1. Two readings of a status. -/

/-- The characters no replacement produces or takes away. -/
def isPlain (c : Char) : Bool := c ≠ '_' && c ≠ '-' && c ≠ ' '

/-- A plain word comes out of the replacement only if it has gone in. -/
theorem map_replaced_iff (cs : List Char) {word : List Char} (hw : ∀ c ∈ word, isPlain c = true) :
    (cs.map fun c => if c = '-' ∨ c = ' ' then '_' else c) = word ↔ cs = word := by
  induction cs generalizing word with
  | nil => exact Iff.rfl
  | cons c cs ih =>
      cases word with
      | nil => simp
      | cons d word =>
          have hd := hw d List.mem_cons_self
          have ih := ih fun c hc => hw c (List.mem_cons_of_mem d hc)
          rw [List.map_cons, List.cons.injEq, List.cons.injEq, ih]
          refine and_congr ?_ Iff.rfl
          by_cases hreplaced : c = '-' ∨ c = ' '
          · rw [if_pos hreplaced]
            constructor
            · intro h
              rw [← h] at hd
              exact absurd hd (by decide)
            · intro h
              rw [h] at hreplaced
              rcases hreplaced with h | h <;> rw [h] at hd <;> exact absurd hd (by decide)
          · rw [if_neg hreplaced]

/-- On a word of letters the two readings of a status agree. -/
theorem normalizeStatus_eq_iff (status : String) {word : String}
    (hw : ∀ c ∈ word.toList, isPlain c = true) :
    normalizeStatus status = word ↔ statusWord status = word := by
  have hiff := map_replaced_iff (pyLowerString (pyStrip status)) hw
  unfold normalizeStatus statusWord
  rw [← String.toList_inj, ← String.toList_inj, String.toList_ofList, String.toList_ofList]
  exact hiff

/-- So they do on a list of such words. -/
theorem normalizeStatus_mem_iff (status : String) {words : List String}
    (hw : ∀ word ∈ words, ∀ c ∈ word.toList, isPlain c = true) :
    normalizeStatus status ∈ words ↔ statusWord status ∈ words := by
  constructor
  · intro h
    have heq := (normalizeStatus_eq_iff status (hw _ h)).mp rfl
    rw [heq]
    exact h
  · intro h
    have heq := (normalizeStatus_eq_iff status (hw _ h)).mpr rfl
    rw [heq]
    exact h

/-! ## §2. Two classifications. -/

/-- Over, and not filled. -/
def IsDead (s : OrderStatus) : Prop := s = .canceled ∨ s = .rejected ∨ s = .failed

instance (s : OrderStatus) : Decidable (IsDead s) := inferInstanceAs (Decidable (_ ∨ _ ∨ _))

/-- A leg that is over, and not filled. -/
def IsDeadLeg (s : LegStatus) : Prop := s = .canceled ∨ s = .failed

instance (s : LegStatus) : Decidable (IsDeadLeg s) := inferInstanceAs (Decidable (_ ∨ _))

/-- The words `_remote_status` takes for a dead order. -/
def deadWords : List String :=
  ["canceled", "cancelled", "expired", "deactivated", "rejected", "reject", "failed", "error"]

/-- The words only one of the two takes for a dead order. -/
def disputedWords : List String :=
  ["expired_in_match", "partiallyfilledcanceled", "partially_filled_canceled", "finished", "4",
    "invalid", "5", "reject", "error"]

/-- The adapters' classifier calls dead what its own words say. -/
theorem statusOfWord_dead (word : String) (filled : ℚ) :
    IsDead (statusOfWord word filled) ↔ word ∈ deadWords := by
  unfold IsDead statusOfWord deadWords
  constructor
  · intro h
    by_contra hword
    simp only [List.mem_cons, List.not_mem_nil, or_false, not_or] at hword
    simp only [List.mem_cons, List.not_mem_nil, or_false, hword, or_self, if_false] at h
    split_ifs at h <;> rcases h with h | h | h <;> cases h
  · intro h
    simp only [List.mem_cons, List.not_mem_nil, or_false] at h
    rcases h with rfl | rfl | rfl | rfl | rfl | rfl | rfl | rfl <;> simp

/-- Short of the requested quantity the shared classifier goes by the word of
the status alone. -/
theorem remoteStatus_dead {status : String} {filled requested : ℚ} (h : filled < requested) :
    IsDead (remoteStatus status filled requested) ↔ statusWord status ∈ deadWords := by
  unfold remoteStatus
  rw [if_neg (not_le.mpr h), statusOfWord_dead]
  have hplain : (deadWords.all fun word => word.toList.all isPlain) = true := by decide
  refine normalizeStatus_mem_iff status fun word hw c hc => ?_
  exact List.all_eq_true.mp (List.all_eq_true.mp hplain word hw) c hc

/-- The lookup makes a leg dead only by a canceled or a failed word. -/
theorem statusByLookup_dead {leg : OrderLegRow} {order : RemoteOrder} (h : ¬IsDeadLeg leg.status) :
    IsDeadLeg (statusByLookup leg order) ↔ statusWord order.status ∈ canceledWords ++ failedWords := by
  unfold statusByLookup
  rw [List.mem_append]
  by_cases hc : statusWord order.status ∈ canceledWords
  · rw [if_pos hc]
    exact ⟨fun _ => .inl hc, fun _ => .inl rfl⟩
  by_cases hf : statusWord order.status ∈ failedWords
  · rw [if_neg hc, if_pos hf]
    exact ⟨fun _ => .inr hf, fun _ => .inr rfl⟩
  rw [if_neg hc, if_neg hf]
  constructor
  · intro hdead
    split at hdead
    · rcases hdead with h | h <;> cases h
    · exact absurd hdead h
  · rintro (h | h)
    · exact absurd h hc
    · exact absurd h hf

/-- A word is in one of the two lists of dead words, and not in the other,
exactly if it is disputed. -/
theorem agree_iff_not_disputed (word : String) :
    (word ∈ canceledWords ++ failedWords ↔ word ∈ deadWords) ↔ word ∉ disputedWords := by
  constructor
  · intro h hd
    revert h
    unfold disputedWords at hd
    simp only [List.mem_cons, List.not_mem_nil, or_false] at hd
    rcases hd with rfl | rfl | rfl | rfl | rfl | rfl | rfl | rfl | rfl <;> decide
  · intro hd
    unfold disputedWords at hd
    simp only [List.mem_cons, List.not_mem_nil, or_false, not_or] at hd
    unfold canceledWords failedWords deadWords
    simp only [List.cons_append, List.nil_append, List.mem_cons, List.not_mem_nil, or_false, hd]
    tauto

/-- The two executors agree on whether an order that is not full is dead exactly
where its status is not a disputed word. -/
theorem dead_agree_iff {l l' : Ledger} {legId : Nat} {leg : OrderLegRow} {order : RemoteOrder}
    {r : String} {filled requested : ℚ} (hleg : Table.find? l.legs legId = some leg)
    (hopen : ¬IsDeadLeg leg.status) (h : l.reconcileRemoteOrder legId order = .ok (r, l'))
    (hlt : filled < requested) :
    ((∃ leg', Table.find? l'.legs legId = some leg' ∧ IsDeadLeg leg'.status)
        ↔ IsDead (remoteStatus order.status filled requested))
      ↔ statusWord order.status ∉ disputedWords := by
  obtain ⟨row, hrow, -, rfl⟩ := Ledger.reconcileRemoteOrder_ok h
  obtain rfl : leg = row := Option.some.inj (hleg.symm.trans hrow)
  obtain ⟨hmem, hid⟩ := Table.find?_some hleg
  have hfind : Table.find? (Table.put l.legs { leg with
        exchangeOrderId := some order.exchangeOrderId, status := statusByLookup leg order }) legId
      = some { leg with
        exchangeOrderId := some order.exchangeOrderId, status := statusByLookup leg order } := by
    rw [← hid]
    exact Table.find?_put_self ⟨leg, hmem, rfl⟩
  have hdead : (∃ leg', Table.find? (Table.put l.legs { leg with
        exchangeOrderId := some order.exchangeOrderId, status := statusByLookup leg order }) legId
          = some leg' ∧ IsDeadLeg leg'.status) ↔ IsDeadLeg (statusByLookup leg order) := by
    rw [hfind]
    simp only [Option.some.injEq, exists_eq_left']
  rw [hdead, statusByLookup_dead hopen, remoteStatus_dead hlt]
  exact agree_iff_not_disputed _

namespace Sample

/-- The spot leg of a pair is at the exchange, and a lookup answers `status`. -/
def order (status : String) : RemoteOrder :=
  { Paired.Sample.canceled .spot .buy "bh-0123456789abcdef01234567-s" 10 false with
    status := status }

/-- The pair of the sample, its legs submitted. -/
def submittedPair : List (TradeOp × Int) :=
  [(.createOpen Paired.Sample.openPlan, 0), (.prepareSubmission 0 none, 0)]

end Sample

/-- Both executors take an expired order for dead. -/
theorem dead_agree_expired :
    ∃ (l l' : Ledger) (r : String),
      l.reconcileRemoteOrder 1 (Sample.order " Expired ") = .ok (r, l')
      ∧ (((∃ leg', Table.find? l'.legs 1 = some leg' ∧ IsDeadLeg leg'.status)
          ↔ IsDead (remoteStatus (Sample.order " Expired ").status 0 10))
        ↔ statusWord (Sample.order " Expired ").status ∉ disputedWords) := by
  obtain ⟨b, -, leg, hleg, hopen, hsome⟩ := Books.exists_of_play
    (fun b => ∃ leg ∈ Table.find? b.ledger.legs 1, ¬IsDeadLeg leg.status
      ∧ (b.ledger.reconcileRemoteOrder 1 (Sample.order " Expired ")).toOption.isSome)
    Sample.submittedPair (by decide +kernel)
  obtain ⟨⟨r, l'⟩, hx⟩ := Option.isSome_iff_exists.mp hsome
  have h := toOption_some.mp hx
  exact ⟨b.ledger, l', r, h, dead_agree_iff hleg hopen h (by norm_num)⟩

/-- An order Gate has finished unfilled: the paired executor cancels its leg,
and the multi-leg executor does not know what has become of it. -/
theorem dead_disagree_finished :
    ∃ (b : Books) (l' : Ledger) (r : String), Reachable b
      ∧ b.ledger.reconcileRemoteOrder 1 (Sample.order "finished") = .ok (r, l')
      ∧ (∃ leg', Table.find? l'.legs 1 = some leg' ∧ IsDeadLeg leg'.status)
      ∧ remoteStatus (Sample.order "finished").status 0 10 = .unknown := by
  obtain ⟨b, hb, ⟨r, l'⟩, hx, leg', hleg', hdead⟩ := Books.exists_of_play
    (fun b => ∃ x ∈ (b.ledger.reconcileRemoteOrder 1 (Sample.order "finished")).toOption,
      ∃ leg' ∈ Table.find? x.2.legs 1, IsDeadLeg leg'.status)
    Sample.submittedPair (by decide +kernel)
  exact ⟨b, l', r, hb, toOption_some.mp hx, ⟨leg', hleg', hdead⟩, by decide +kernel⟩

end BasisHawk.Reconciliation
