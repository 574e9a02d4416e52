import GoExchange.Holds
import GoExchange.OrderRun
import GoExchange.TransferMoney

/-!
# The tables that the systems share

The locked balances, the transfers and the delivery of trades each have a
system of their own, and each of them has the ledger, the orders and the trades
in common with the system of the table of orders. On these tables every step of
theirs is a step of that system, or changes nothing. So each of their runs is
one of its runs, and what holds of the rows of orders over every run holds in
all of them.
-/
namespace GoExchange.OrderRun

open Service Ledger Rows Fallible

variable {policy : OrderRow → Except DomainError Unit}

theorem reach_one {s s' : State} {l : Label} (h : step policy l s = some s') :
    Lts.Reach (step policy) Lts.free s s' :=
  .next .refl trivial h

/-! ## Transfers -/

/-- The tables next to those of the transfers. -/
def ofBank (b : Bank) (handoff : List OrderRow) (submitted : List Nat) : State :=
  ⟨⟨b.toStore, []⟩, handoff, submitted⟩

section

variable {b b' : Bank} {handoff : List OrderRow} {submitted : List Nat}

theorem reach_record {input : JournalInput} {t : Tables} {entry : JournalEntry} {created : Bool}
    (h : record b.ledger input = .ok (t, entry, created))
    (hb : b'.toStore = { b.toStore with ledger := t }) :
    Lts.Reach (step policy) Lts.free (ofBank b handoff submitted)
      (ofBank b' handoff submitted) := by
  refine reach_one (l := .journal input) ?_
  unfold ofBank
  simp only [step, h, hb]
  rfl

theorem reach_paid {id : Nat} {t : Tables} {es : List (JournalKey × List PostingInput)}
    (h : TransferRun.Paid b.ledger id t es) (hb : b'.toStore = { b.toStore with ledger := t }) :
    Lts.Reach (step policy) Lts.free (ofBank b handoff submitted)
      (ofBank b' handoff submitted) := by
  cases h with
  | nothing =>
    unfold ofBank
    rw [hb]
    exact .refl
  | journal h => exact reach_record h hb

/-- A transaction on transfers records a journal or leaves the other tables alone. -/
theorem reach_change {ks : List String} (h : TransferRun.Change b b' ks) :
    Lts.Reach (step policy) Lts.free (ofBank b handoff submitted)
      (ofBank b' handoff submitted) := by
  cases h with
  | idle _ hb => exact reach_paid (.nothing : TransferRun.Paid b.ledger 0 _ _) (by rw [hb])
  | filed _ _ _ hpaid _ hb => exact reach_paid hpaid (by rw [hb])
  | row _ _ _ hpaid _ hb => exact reach_paid hpaid (by rw [hb])

end

theorem reach_of_transferRun (policy : OrderRow → Except DomainError Unit) {s : TransferRun.State}
    (h : Lts.Reach TransferRun.step Lts.free TransferRun.init s) :
    Lts.Reach (step policy) Lts.free init (ofBank s.bank [] []) := by
  refine h.project (fun s => ofBank s.bank [] []) fun s l s' hr _ hs => ?_
  cases TransferRun.step_moved (TransferRun.reach_inv hr).numbered hs with
  | transfer hchange => exact reach_change hchange
  | other _ hrec hb => exact reach_record hrec (by rw [hb])

/-! ## Locked balances -/

/-- The orders with their hand-over to the engine. -/
def ofHolds (s : Holds.State) : State := ofBank s.bank s.handoff s.submitted

/-- A trade without an id and without an outbox row is settled by the two forms of `SettleTrade`
alike. -/
theorem settleTrade_toStore (d : Database) {trade : TradeRow} (hid : trade.id = 0) :
    (d.settleTrade trade 0 >>= fun r => return r.1) =
      (settleTrade d.toStore trade).map fun store => { d with toStore := store } := by
  rw [settleTrade_eq]
  unfold settleTrade prepareTrade
  cases hx : prepareTradeForSettlement trade with
  | error e => rfl
  | ok x =>
    cases hy : applyTradeFeePolicy x with
    | error e => simp only [bind, Except.bind, hy, Except.map]
    | ok y =>
      have hzero : y.id = 0 := (prepareTrade_keeps (bind_eq_ok.mpr ⟨x, hx, hy⟩)).2.1.trans hid
      simp only [bind, Except.bind, hy, settlePrepared, findByKey, settleCreatedTrade,
        hzero, if_true]
      cases d.trades.find? (·.idempotencyKey = y.idempotencyKey) with
      | some existing =>
        simp only
        cases validateIdempotentTradePayload existing y <;> rfl
      | none =>
        simp only
        cases settleNewTrade d.toStore y <;> rfl

section

variable {s s' : Holds.State}

/-- The numbers of the requests are kept, and the orders take steps of their own. -/
structure Follows (policy : OrderRow → Except DomainError Unit) (s s' : Holds.State) : Prop where
  numbered : TransferRun.Numbered s'.bank
  reach : Lts.Reach (step policy) Lts.free (ofHolds s) (ofHolds s')

theorem follows_onStore (hn : TransferRun.Numbered s.bank)
    {f : Store → Except DomainError Store} {l : Label}
    (h : step policy l (ofHolds s) = some ((ofHolds s).onStore (f s.bank.toStore))) :
    Follows policy s (s.onStore f) := by
  refine ⟨transact_of (P := fun u : Holds.State => TransferRun.Numbered u.bank) hn fun _ _ =>
    ⟨hn.ids, hn.seq⟩, ?_⟩
  refine reach_one (h.trans ?_)
  unfold State.onStore Holds.State.onStore
  cases f s.bank.toStore <;> rfl

theorem follows_onBank (hn : TransferRun.Numbered s.bank) {f : Bank → Except DomainError Bank}
    (h : ∀ b, f s.bank = .ok b → ∃ ks, TransferRun.Change s.bank b ks) :
    Follows policy s (s.onBank f) := by
  refine transact_of ⟨hn, .refl⟩ fun b hb => ?_
  obtain ⟨ks, hchange⟩ := h b hb
  exact ⟨(hchange.shifted hn).numbered, reach_change hchange⟩

theorem follows_of_step {l : Holds.Label} (h : TransferRun.Numbered s.bank)
    (hs : Holds.step policy l s = some s') : Follows policy s s' := by
  have hstore : ∀ {store : Store}, TransferRun.Numbered { s.bank with toStore := store } :=
    ⟨h.ids, h.seq⟩
  cases l with
  | create input =>
    cases hs
    refine ⟨transact_of (P := fun u : Holds.State => TransferRun.Numbered u.bank) h
      fun _ _ => hstore, ?_⟩
    refine reach_one (l := .create input) ?_
    simp only [step, ofHolds, ofBank]
    cases createHeldOrder s.bank.toStore policy input <;> rfl
  | submit id =>
    obtain ⟨hmem, rfl⟩ := Lts.of_enabled hs
    exact ⟨h, reach_one (l := .submit id) (if_pos hmem)⟩
  | reject id =>
    simp only [Holds.step] at hs
    split at hs
    · rename_i o hfind
      cases hs
      refine ⟨transact_of (P := fun u : Holds.State => TransferRun.Numbered u.bank) h
        fun _ _ => hstore, ?_⟩
      refine reach_one (l := .reject id) ?_
      simp only [step, ofHolds, ofBank, hfind, State.onStore, Holds.State.onStore]
      cases rejectAcceptedOrder s.bank.toStore o <;> rfl
    · cases hs
  | settle trade retried =>
    obtain ⟨hgiven, rfl⟩ := Lts.of_enabled hs
    have hgiven : trade.buyOrderID ∈ (ofHolds s).submitted ∧
        trade.sellOrderID ∈ (ofHolds s).submitted := hgiven
    have hinput : (Holds.tradeInput trade retried).toTrade = trade ∧
        (Holds.tradeInput trade retried).id = 0 := by
      cases retried <;> exact ⟨rfl, rfl⟩
    refine follows_onStore h (l := .settle (Holds.tradeInput trade retried) 0) ?_
    simp only [step, hinput.1]
    rw [if_pos hgiven, settleTrade_toStore _ hinput.2]
    unfold State.onDatabase State.onStore ofHolds ofBank
    cases settleTrade s.bank.toStore (Holds.tradeInput trade retried) <;> rfl
  | complete input =>
    obtain ⟨hgiven, rfl⟩ := Lts.of_enabled hs
    exact follows_onStore h (l := .complete input) (if_pos hgiven)
  | cancel id =>
    obtain ⟨hgiven, rfl⟩ := Lts.of_enabled hs
    exact follows_onStore h (l := .cancel id) (if_pos hgiven)
  | finalize input =>
    obtain ⟨hopen, rfl⟩ := Lts.of_enabled hs
    exact follows_onStore h (l := .finalize input) (if_pos hopen)
  | deposit input =>
    cases hs
    exact follows_onBank h fun b hb => ⟨_, TransferRun.requestDeposit_change hb⟩
  | withdraw input =>
    cases hs
    exact follows_onBank h fun b hb => ⟨_, TransferRun.requestWithdrawal_change h hb⟩
  | dispatch id submitted =>
    cases hs
    exact follows_onBank h fun b hb => ⟨_, TransferRun.dispatch_change hb⟩
  | resolve input =>
    cases hs
    refine follows_onBank h fun b hb => ?_
    rcases TransferRun.resolveTransfer_change h hb with rfl | ⟨hchange, -⟩
    · exact ⟨_, .refl _⟩
    · exact ⟨_, hchange⟩
  | restart =>
    cases hs
    exact ⟨h, reach_one (l := .restart) rfl⟩
  | lost o t r a j p =>
    cases hs
    exact ⟨⟨h.ids, fun w hw => (h.seq w hw).trans (Nat.le_add_right _ _)⟩,
      reach_one (l := .lost o t a j p) rfl⟩

/-- A run of the holds is a run of the orders. -/
theorem reach_of_holds {ok : Holds.State → Holds.Label → Prop}
    (h : Lts.Reach (Holds.step policy) ok Holds.init s) :
    Lts.Reach (step policy) Lts.free init (ofHolds s) := by
  have hinit : TransferRun.Numbered Holds.init.bank := ⟨.nil, List.forall_mem_nil _⟩
  have hn : ∀ {t}, Lts.Reach (Holds.step policy) ok Holds.init t → TransferRun.Numbered t.bank :=
    fun ht => ht.invariant (fun t => TransferRun.Numbered t.bank) hinit fun _ _ _ _ hi _ hs =>
      (follows_of_step hi hs).numbered
  exact h.project ofHolds fun t l u ht _ hs => (follows_of_step (hn ht) hs).reach

end

/-! ## Delivery of trades -/

section

variable {d : Store} {s s' : Delivery.State} {ids : List Nat} {fault : Option Fault}

/-- The tables of the delivery, where an engine was given the orders `ids`. -/
def ofDelivery (ids : List Nat) (s : Delivery.State) : State := ⟨s.database, [], ids⟩

/-- Both orders of every trade that is committed were given to an engine. -/
def Given (ids : List Nat) (s : Delivery.State) : Prop :=
  ∀ trade, Delivery.Committed s.database.outbox trade → trade.buyOrderID ∈ ids ∧
    trade.sellOrderID ∈ ids

theorem reach_mark (outboxIDs : List Nat)
    (hs : s'.database = { s.database with outbox := markRows outboxIDs s.database.outbox }) :
    Lts.Reach (step policy) Lts.free (ofDelivery ids s) (ofDelivery ids s') := by
  unfold ofDelivery
  rw [hs]
  exact reach_one (l := .mark outboxIDs) rfl

/-- A call has the effect of the transaction or none. -/
theorem reach_call {α : Type} (fault : Option Fault)
    {x : Except DomainError (Database × α)} {l : Label}
    (h : ∀ d a, x = .ok (d, a) → step policy l (ofDelivery ids s) = some ⟨d, [], ids⟩)
    (hs : s'.database = (call fault s.database x).1) :
    Lts.Reach (step policy) Lts.free (ofDelivery ids s) (ofDelivery ids s') := by
  unfold ofDelivery at h ⊢
  cases hcall : call fault s.database x with
  | mk d reported =>
    rw [hs, hcall]
    rcases (call_spec hcall).1 with rfl | ⟨a, ha⟩
    · exact .refl
    · exact reach_one (h d a ha)

theorem reach_attempt (h : Delivery.Inv d s) (hg : Given ids s) {source : Delivery.Source}
    {rowID : Nat} {recorded : Bool}
    (hs : Delivery.attempt s source fault rowID recorded = some s') :
    Lts.Reach (step policy) Lts.free (ofDelivery ids s) (ofDelivery ids s') := by
  obtain ⟨trade, ht, hs⟩ := Option.bind_eq_some_iff.mp hs
  refine reach_call fault (l := .settle trade source.outboxID)
    (x := s.database.settleTrade trade source.outboxID) (fun d a hx => ?_) ?_
  · refine (if_pos (hg _ (h.known_trade ht).2)).trans ?_
    simp only [ofDelivery, hx]
    rfl
  · simp only at hs
    split at hs
    · cases hs
      rfl
    · cases hs
      split
      · exact transact_of (P := fun u : Delivery.State => u.database = _) rfl fun _ _ => rfl
      · rfl

theorem reach_batch (h : Delivery.Inv d s) (hg : Given ids s) {outboxIDs : List Nat}
    (hs : Delivery.batch s outboxIDs fault = some s') :
    Lts.Reach (step policy) Lts.free (ofDelivery ids s) (ofDelivery ids s') := by
  obtain ⟨items, hitems, hs⟩ := Option.bind_eq_some_iff.mp hs
  obtain ⟨hzero, hs⟩ := Option.ite_none_right_eq_some.mp hs
  have hk := h.cells hitems
  refine reach_call fault (l := .batch items)
    (x := (s.database.settleTradeBatch items).result.map
      ((s.database.settleTradeBatch items).database, ·))
    (fun d a hx => ?_) ?_
  · refine (if_pos fun item hitem => ⟨hzero item hitem, hg _ (hk item hitem).2⟩).trans ?_
    cases hr : (s.database.settleTradeBatch items).result with
    | error e =>
      rw [hr] at hx
      cases hx
    | ok rs =>
      rw [hr] at hx
      cases hx
      simp only [ofDelivery, hr]
      rfl
  · simp only at hs
    split at hs <;> cases hs <;> rfl

theorem reach_handoff {outboxIDs : List Nat} (hs : Delivery.handoff s outboxIDs = some s') :
    Lts.Reach (step policy) Lts.free (ofDelivery ids s) (ofDelivery ids s') := by
  obtain ⟨items, -, hs⟩ := Option.bind_eq_some_iff.mp hs
  split at hs
  · rename_i failures outbox hr
    cases hs
    obtain ⟨handoffs, -, hr⟩ := bind_eq_ok.mp hr
    obtain ⟨-, hr⟩ := guard_eq_ok.mp hr
    obtain ⟨_, -, hr⟩ := bind_eq_ok.mp hr
    obtain ⟨outbox', hmark, hr⟩ := bind_eq_ok.mp hr
    obtain ⟨-, hmark⟩ := guard_eq_ok.mp hmark
    cases hmark
    cases hr
    refine reach_mark (handoffs.map SettlementFailureHandoff.outboxID) ?_
    unfold markRows
    -- a row that is processed stays as it is
    refine congrArg (Database.mk s.database.toStore) (List.map_congr_left fun row _ => ?_)
    obtain ⟨id, event, status⟩ := row
    cases status <;> simp [setProcessed]
  · cases hs
    exact .refl

theorem reach_of_delivery_step (h : Delivery.Inv d s) (hg : Given ids s) {l : Delivery.Label}
    (hs : Delivery.step l s = some s') :
    Lts.Reach (step policy) Lts.free (ofDelivery ids s) (ofDelivery ids s') := by
  cases l with
  | commit outboxID trade =>
    obtain ⟨⟨-, hnew⟩, rfl⟩ := Lts.of_enabled hs
    exact reach_one (l := .commit ⟨outboxID, .trade trade, .pending⟩) (if_pos hnew)
  | attempt source fault rowID recorded => exact reach_attempt h hg hs
  | batch outboxIDs fault => exact reach_batch h hg hs
  | handoff outboxIDs => exact reach_handoff hs
  | resolve key =>
    cases hs
    exact .refl
  | mark outboxID =>
    cases hs
    refine reach_mark (if outboxID = 0 then [] else [outboxID]) ?_
    unfold markSettledOutbox markRows
    split
    · simp
    · simp [Rows.modify]
  | restart =>
    cases hs
    exact .refl
  | lost t a j p =>
    cases hs
    exact reach_one (l := .lost 0 t a j p) rfl

/-- Where the trades are between orders that an engine was given, their delivery is a run of the
orders. -/
theorem reach_of_delivery {d : Database} (h₀ : Delivery.Inv d.toStore (Delivery.init d))
    (h : Lts.Reach Delivery.step (fun s _ => Given ids s) (Delivery.init d) s) :
    Lts.Reach (step policy) Lts.free ⟨d, [], ids⟩ (ofDelivery ids s) := by
  refine h.project (ofDelivery ids) fun t l u ht hg hs =>
    reach_of_delivery_step (d := d.toStore) ?_ hg hs
  exact ht.invariant (Delivery.Inv d.toStore) h₀ fun _ _ _ _ hi _ hs => hi.step hs

end

end GoExchange.OrderRun
