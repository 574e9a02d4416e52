import GoExchange.LockBalances

/-!
# Waits between transactions

No transactions that move money wait for each other in a circle over balance
rows. Order rows are locked in ascending order by a batch, and by `SettleTrade`
the buyer's before the seller's; so settlements cannot wait in a circle over
them as long as no trade that is settled alone has the seller's id first.
-/
namespace GoExchange.Locks

open Ledger Service Locking Fallible Traced

/-! ## Order rows -/

section Orders

variable {t : Tables} {s s' : Store} {plan : TradePlan} {plans : List TradePlan} {run : BatchRun}
  {trade : TradeRow}

theorem post_silent (t : Tables) (journalID : Nat) (inputs : List PostingInput) :
    Silent Row.order? (post t journalID inputs) := by
  apply Confined.lift_bind
  intro (t', rows) _
  apply Confined.lift_bind
  intro postings _
  apply Confined.bind (within_balances rfl fun _ _ => rfl)
  intro bs _
  apply Confined.lift_bind
  intro _ _
  apply Confined.lift_bind
  intro (t'', postings') _
  exact within_balances rfl fun _ _ => rfl

theorem record_silent (t : Tables) (input : JournalInput) : Silent Row.order? (record t input) := by
  apply Confined.lift_bind
  intro _ _
  apply Confined.lift_bind
  intro (t', entry, created) _
  cases created with
  | true => exact (post_silent t' entry.id input.postings).bind fun _ _ => .pure _
  | false => exact Confined.lift_bind fun _ _ => .pure _

theorem recordJournal_silent (s : Store) (key : JournalKey) (eventType : JournalEventType)
    (referenceType : JournalReferenceType) (referenceID : Nat) (postings : List PostingInput) :
    Silent Row.order? (recordJournal s key eventType referenceType referenceID postings) :=
  (record_silent _ _).bind fun _ _ => .pure _

theorem lockBatchAccounts_silent (s : Store) (plans : List TradePlan) :
    Silent Row.order? (lockBatchAccounts s plans) := by
  apply Confined.lift_bind
  intro (ledger, accounts) _
  exact Confined.bind (within_balances rfl fun _ _ => rfl) fun _ _ => .pure _

theorem settleLocked_silent (run : BatchRun) (plan : TradePlan) :
    Silent Row.order? (settleLocked run plan) := by
  apply Confined.lift_bind
  intro buyOrder _
  apply Confined.lift_bind
  intro sellOrder _
  apply Confined.lift_bind
  intro _ _
  apply Confined.lift_bind
  intro _ _
  apply Confined.lift_bind
  intro (buyFilled, buyFilledQuote, buyStatus) _
  apply Confined.lift_bind
  intro (sellFilled, sellFilledQuote, sellStatus) _
  apply Confined.bind
  · apply (recordJournal_silent _ _ _ _ _ _).bind
    intro s' _
    exact Confined.lift_bind fun _ _ => .pure _
  · exact fun _ _ => .pure _

/-- The orders of the batch stay those that were locked. -/
theorem settlePlans_ids {run' : BatchRun} (h : plans.foldlM Service.settleLocked run = .ok run') :
    run'.orders.map OrderRow.id = run.orders.map OrderRow.id :=
  foldlM_invariant (fun r : BatchRun => r.orders.map OrderRow.id = run.orders.map OrderRow.id)
    (fun _ _ _ _ hr h => (settleLocked_ok h).2.trans hr) rfl h

theorem lockByIDs_pairwise (hn : (s.orders.map OrderRow.id).Nodup) (ids : List Nat) :
    ((lockByIDs s ids).trace.filterMap Row.order?).Pairwise (· < ·) := by
  rw [lockByIDs, Row.filterMap_order]
  exact pairwise_map_insertionSort _ (hn.sublist (List.filter_sublist.map _))

theorem lockByIDs_trace {ids : List Nat} {orders : List OrderRow}
    (h : Service.lockByIDs s ids = .ok orders) :
    (lockByIDs s ids).trace.filterMap Row.order? = orders.map OrderRow.id := by
  obtain ⟨-, h⟩ := guard_eq_ok.mp h
  cases h
  rw [lockByIDs, Row.filterMap_order]

/-- A batch locks its orders in ascending order, and updates no others. -/
theorem settleTradeBatchTx_orders {d : Database} (hn : (d.orders.map OrderRow.id).Nodup)
    (items : List TradeBatchItem) : Ascending Row.order? (settleTradeBatchTx d items) := by
  apply ascending_lift_bind
  intro _ _
  apply ascending_lift_bind
  intro (s, rows) h
  rw [← (createTrades_keeps h).2] at hn
  apply (ascending_of_pairwise (lockByIDs_pairwise hn (orderIDs rows))).bind
  intro orders ho
  rw [lockByIDs_trace ho]
  apply Confined.lift_bind
  intro participants _
  apply Confined.lift_bind
  intro plans _
  apply Confined.bind (within_of_silent (lockBatchAccounts_silent s plans))
  intro s' _
  apply Confined.bind
  · apply within_of_silent
    exact Confined.foldlM (fun _ => True)
      (fun run plan _ _ => ⟨settleLocked_silent run plan, fun _ _ => trivial⟩) trivial
  · intro run hrun
    rw [result_foldlM settleLocked_result] at hrun
    apply Confined.bind
    · refine within_orders rfl fun o hm k hk => ?_
      cases hk
      obtain ⟨u, hu, huid⟩ := List.mem_map.mp (of_decide_eq_true (List.mem_filter.mp hm).2)
      obtain ⟨id, -, hfind⟩ := List.mem_filterMap.mp hu
      have hmem : u.id ∈ run.orders.map OrderRow.id :=
        List.mem_map_of_mem (List.mem_of_find?_eq_some hfind)
      rw [settlePlans_ids hrun] at hmem
      exact huid ▸ hmem
    · intro s'' _
      exact Confined.lift_bind fun _ _ => .pure _

theorem findByIDForUpdate_trace {id : Nat} {o : OrderRow}
    (h : Service.findByIDForUpdate s id = .ok o) :
    (findByIDForUpdate s id).trace = [.order id] ∧ o.id = id := by
  unfold Service.findByIDForUpdate at h
  unfold findByIDForUpdate
  cases hf : s.orders.find? (·.id = id) with
  | none =>
    rw [hf] at h
    cases h
  | some order =>
    rw [hf] at h
    cases h
    have hid := (Rows.of_find? hf).2
    simp [hid]

theorem findByIDForUpdate_trace_error {id : Nat} {e : DomainError}
    (h : Service.findByIDForUpdate s id = .error e) : (findByIDForUpdate s id).trace = [] := by
  unfold Service.findByIDForUpdate at h
  unfold findByIDForUpdate
  cases hf : s.orders.find? (·.id = id) with
  | none => rfl
  | some order =>
    rw [hf] at h
    cases h

/-- The first two locks of `SettleTrade`. -/
def lockBoth (s : Store) (trade : TradeRow) : Tx (OrderRow × OrderRow) := do
  let buyOrder ← findByIDForUpdate s trade.buyOrderID
  let sellOrder ← findByIDForUpdate s trade.sellOrderID
  return (buyOrder, sellOrder)

theorem lockBoth_ok {buyOrder sellOrder : OrderRow}
    (h : (lockBoth s trade).result = .ok (buyOrder, sellOrder)) :
    (lockBoth s trade).trace = [.order trade.buyOrderID, .order trade.sellOrderID] ∧
      buyOrder.id = trade.buyOrderID ∧ sellOrder.id = trade.sellOrderID := by
  simp only [lockBoth, result_bind, result_pure] at h
  obtain ⟨b, hb, h⟩ := bind_eq_ok.mp h
  obtain ⟨c, hc, h⟩ := bind_eq_ok.mp h
  cases h
  obtain ⟨hbt, hbid⟩ := findByIDForUpdate_trace hb
  obtain ⟨hct, hcid⟩ := findByIDForUpdate_trace hc
  refine ⟨?_, hbid, hcid⟩
  rw [lockBoth, trace_bind_ok hb, trace_bind_ok hc, hbt, hct]
  rfl

theorem lockBoth_ascending (hle : trade.buyOrderID ≤ trade.sellOrderID) :
    Ascending Row.order? (lockBoth s trade) := by
  cases hb : Service.findByIDForUpdate s trade.buyOrderID with
  | error e =>
    apply ascending_of_pairwise
    rw [lockBoth, trace_bind_error hb, findByIDForUpdate_trace_error hb]
    exact .nil
  | ok b =>
    cases hc : Service.findByIDForUpdate s trade.sellOrderID with
    | error e =>
      apply ascending_of_pairwise
      rw [lockBoth, trace_bind_ok hb, trace_bind_error hc, (findByIDForUpdate_trace hb).1,
        findByIDForUpdate_trace_error hc]
      exact List.pairwise_singleton _ _
    | ok c =>
      have htrace : (lockBoth s trade).trace =
          [.order trade.buyOrderID, .order trade.sellOrderID] := by
        rw [lockBoth, trace_bind_ok hb, trace_bind_ok hc, (findByIDForUpdate_trace hb).1,
          (findByIDForUpdate_trace hc).1]
        rfl
      rcases Nat.lt_or_eq_of_le hle with hlt | heq
      · apply ascending_of_pairwise
        rw [htrace]
        simpa [Row.order?] using hlt
      · -- one order on both sides is locked once
        refine ⟨[trade.buyOrderID], [trade.sellOrderID], ?_, List.pairwise_singleton _ _, ?_⟩
        · rw [htrace]
          rfl
        · rw [heq]
          exact List.Subset.refl _

theorem settleNewTrade_orders (hle : trade.buyOrderID ≤ trade.sellOrderID) :
    Ascending Row.order? (settleNewTrade s trade) := by
  apply ascending_lift_bind
  intro s₁ h₁
  have hboth : ∀ f : OrderRow → OrderRow → Tx Store,
      (do
        let buyOrder ← findByIDForUpdate s₁ trade.buyOrderID
        let sellOrder ← findByIDForUpdate s₁ trade.sellOrderID
        f buyOrder sellOrder) = lockBoth s₁ trade >>= fun p => f p.1 p.2 := by
    intro f
    simp only [lockBoth, bind_assoc, pure_bind]
  refine (congrArg (Ascending Row.order?) (hboth _)).mpr ?_
  apply (lockBoth_ascending hle).bind
  rintro ⟨buyOrder, sellOrder⟩ h
  obtain ⟨htrace, hbuy, hsell⟩ := lockBoth_ok h
  rw [htrace]
  -- what follows updates the two orders again and locks balances
  have hupdate : ∀ (s : Store) (id : Nat) (filled filledQuote : Decimal) (status : OrderStatus),
      id = trade.buyOrderID ∨ id = trade.sellOrderID →
      Confined (fun r => ∀ k, r.order? = some k →
        k ∈ [Row.order trade.buyOrderID, .order trade.sellOrderID].filterMap Row.order?)
        (updateOrderExecution s id filled filledQuote status) := by
    intro s id filled filledQuote status hid
    refine within_orders rfl fun o ho k hk => ?_
    cases hk
    have hoid := of_decide_eq_true (List.mem_filter.mp ho).2
    simpa [Row.order?, hoid] using hid
  apply Confined.guard
  apply Confined.guard
  apply Confined.guard
  apply Confined.lift_bind
  intro _ _
  apply Confined.lift_bind
  intro _ _
  apply Confined.lift_bind
  rintro ⟨buyer, seller⟩ -
  apply Confined.lift_bind
  rintro ⟨buyFilled, buyFilledQuote, buyStatus⟩ -
  apply Confined.lift_bind
  rintro ⟨sellFilled, sellFilledQuote, sellStatus⟩ -
  apply Confined.lift_bind
  rintro ⟨postings, executionDebit⟩ -
  apply (hupdate s₁ _ _ _ _ (.inl hbuy)).bind
  intro s₂ _
  apply (hupdate s₂ _ _ _ _ (.inr hsell)).bind
  intro s₃ _
  apply (within_of_silent (recordJournal_silent _ _ _ _ _ _)).bind
  intro s₄ _
  exact Confined.lift_bind fun _ _ => .pure _

theorem settleCreatedTrade_orders (hle : trade.buyOrderID ≤ trade.sellOrderID) :
    Ascending Row.order? (settleCreatedTrade s trade) := by
  unfold settleCreatedTrade
  split
  · exact (settleNewTrade_orders hle).bind_silent fun _ _ => .pure _
  · apply Ascending.guard
    exact (settleNewTrade_orders hle).bind_silent fun _ _ => .pure _

/-- A trade whose buyer has the smaller order id locks its orders in ascending order. -/
theorem settleTrade_orders (d : Database) (hle : trade.buyOrderID ≤ trade.sellOrderID)
    (outboxEventID : Nat) : Ascending Row.order? (settleTrade d trade outboxEventID) := by
  apply ascending_lift_bind
  intro trade₁ h₁
  apply ascending_lift_bind
  intro trade₂ h₂
  obtain ⟨-, rfl⟩ := prepareTradeForSettlement_iff.mp h₁
  have htrade : trade₂.toTrade = trade.toTrade := (applyTradeFeePolicy_keeps h₂).2.2
  cases d.trades.find? (·.idempotencyKey = trade₂.idempotencyKey) with
  | some existing => exact ascending_lift_bind fun _ _ => Silent.ascending (.pure _)
  | none =>
    have hle₂ : trade₂.buyOrderID ≤ trade₂.sellOrderID := by
      rw [htrade]
      exact hle
    exact (settleCreatedTrade_orders hle₂).bind_silent fun _ _ => .pure _

end Orders

/-! ## Transactions that run together -/

/-- The transactions that move money, each over the tables as it finds them. -/
inductive Transaction where
  | settleTrade (d : Database) (trade : TradeRow) (outboxEventID : Nat)
  | settleTradeBatch (d : Database) (items : List TradeBatchItem)
  | holdBatch (s : Intake) (reqs : List HoldRequest)
  | completeMarketOrder (s : Store) (input : CompleteMarketOrderInput)
  | processOrderCancellation (s : Store) (orderID : Nat)
  | rejectAcceptedOrder (s : Store) (order : OrderRow)
  | requestWithdrawal (b : Bank) (input : TransferInput)
  | resolveTransfer (b : Bank) (input : ResolveInput)

namespace Transaction

def store : Transaction → Store
  | .settleTrade d _ _ | .settleTradeBatch d _ => d.toStore
  | .holdBatch s _ => s.toStore
  | .completeMarketOrder s _ | .processOrderCancellation s _ | .rejectAcceptedOrder s _ => s
  | .requestWithdrawal b _ | .resolveTransfer b _ => b.toStore

/-- The batch opens its transaction once its trades are prepared. -/
def batchLocks (d : Database) (items : List TradeBatchItem) : List Row :=
  if items = [] then []
  else match prepareItems items with
    | (_, .error _) => []
    | (items, .ok ()) => (settleTradeBatchTx d items).trace

/-- The rows that the transaction locks, in order. -/
def locks : Transaction → List Row
  | .settleTrade d trade outboxEventID => (Locks.settleTrade d trade outboxEventID).trace
  | .settleTradeBatch d items => batchLocks d items
  | .holdBatch s reqs => (Locks.holdBatch s reqs).trace
  | .completeMarketOrder s input => (Locks.completeMarketOrder s input).trace
  | .processOrderCancellation s orderID => (Locks.processOrderCancellation s orderID).trace
  | .rejectAcceptedOrder s order => (Locks.rejectAcceptedOrder s order).trace
  | .requestWithdrawal b input => (Locks.requestWithdrawal b input).trace
  | .resolveTransfer b input => (Locks.resolveTransfer b input).trace

/-- The primary keys of the two tables. -/
structure Keyed (tx : Transaction) : Prop where
  orders : (tx.store.orders.map OrderRow.id).Nodup
  balances : (tx.store.ledger.balances.map AccountBalance.accountID).Nodup

def isSettlement : Transaction → Bool
  | .settleTrade .. | .settleTradeBatch .. => true
  | _ => false

/-- A trade that is settled alone has the buyer's order id first. -/
def BuyerFirst : Transaction → Prop
  | .settleTrade _ trade _ => trade.buyOrderID ≤ trade.sellOrderID
  | _ => True

end Transaction

/-- The transactions that start are all of a kind. -/
def Starting (P : Transaction → Prop) (_ : List (Txn Row)) (l : Label Row) : Prop :=
  ∀ wants, l = .start wants → ∃ tx, P tx ∧ tx.locks = wants

theorem batchLocks_cases (d : Database) (items : List TradeBatchItem) :
    Transaction.batchLocks d items = [] ∨
      ∃ items', Transaction.batchLocks d items = (settleTradeBatchTx d items').trace := by
  unfold Transaction.batchLocks
  split
  · exact .inl rfl
  · split
    · exact .inl rfl
    · exact .inr ⟨_, rfl⟩

theorem batchLocks_ascending {key : Row → Option Nat} {d : Database}
    (h : ∀ items, Ascending key (settleTradeBatchTx d items)) (items : List TradeBatchItem) :
    InOrder key (Transaction.batchLocks d items) := by
  rcases batchLocks_cases d items with he | ⟨items', he⟩
  · exact ⟨[], [], by rw [he]; rfl, .nil, List.nil_subset _⟩
  · rw [he]
    exact h items'

variable {tx : Transaction}

theorem balances_ascending (h : tx.Keyed) : InOrder Row.balance? tx.locks := by
  have hn := h.balances
  cases tx with
  | settleTrade d trade outboxEventID => exact settleTrade_ascending hn trade outboxEventID
  | settleTradeBatch d items => exact batchLocks_ascending (settleTradeBatchTx_ascending hn) items
  | holdBatch s reqs => exact holdBatch_ascending hn reqs
  | completeMarketOrder s input => exact completeMarketOrder_ascending hn input
  | processOrderCancellation s orderID => exact processOrderCancellation_ascending hn orderID
  | rejectAcceptedOrder s order => exact rejectAcceptedOrder_ascending hn order
  | requestWithdrawal b input => exact requestWithdrawal_ascending hn input
  | resolveTransfer b input => exact resolveTransfer_ascending hn input

theorem orders_ascending (h : tx.Keyed) (hs : tx.isSettlement = true) (hb : tx.BuyerFirst) :
    InOrder Row.order? tx.locks := by
  cases tx with
  | settleTrade d trade outboxEventID => exact settleTrade_orders d hb outboxEventID
  | settleTradeBatch d items =>
    exact batchLocks_ascending (settleTradeBatchTx_orders h.orders) items
  | _ => cases hs

theorem balance?_inj (r r' : Row) (k : Nat) (h : r.balance? = some k) (h' : r'.balance? = some k) :
    r = r' := by
  cases r <;> cases r' <;> cases h <;> cases h'
  rfl

theorem order?_inj (r r' : Row) (k : Nat) (h : r.order? = some k) (h' : r'.order? = some k) :
    r = r' := by
  cases r <;> cases r' <;> cases h <;> cases h'
  rfl

/-- Two transactions start, and each gets some of its rows. -/
def sideBySide (tx tx' : Transaction) (got got' : Nat) : List (Label Row) :=
  [.start tx.locks, .start tx'.locks] ++ List.replicate got (.acquire 0) ++
    List.replicate got' (.acquire 1)

theorem reach_sideBySide {P : Transaction → Prop} {tx' : Transaction} {got got' : Nat}
    {s : List (Txn Row)}
    (h : P tx) (h' : P tx') (hs : Lts.exec Locking.step (sideBySide tx tx' got got') [] = some s) :
    Lts.Reach Locking.step (Starting P) [] s := by
  refine Lts.reach_of_exec_all _ (fun l hl s wants hw => ?_) hs
  subst hw
  simp only [sideBySide, List.mem_append, List.mem_cons, List.mem_replicate, List.not_mem_nil,
    Label.start.injEq, reduceCtorEq, and_false, or_false] at hl
  rcases hl with rfl | rfl
  · exact ⟨tx, h, rfl⟩
  · exact ⟨tx', h', rfl⟩

/-! Orders of four users, the odd ones to sell and the even ones to buy. -/

def crossedOrder (id userID : Nat) (side : OrderSide) : OrderRow :=
  ⟨id, userID, 2, 0, "BTC", side, .pending, 0, 0, .limit, 100⟩

def crossedTables : Database where
  ledger :=
    { accounts := [⟨1, .userLocked, some 7, "BTC", false⟩, ⟨2, .userLocked, some 8, "KRW", false⟩,
        ⟨3, .userLocked, some 9, "BTC", false⟩, ⟨4, .userLocked, some 10, "KRW", false⟩,
        ⟨5, .feeIncome, none, "KRW", false⟩]
      balances := [⟨1, 2, 0⟩, ⟨2, 300, 0⟩, ⟨3, 2, 0⟩, ⟨4, 300, 0⟩, ⟨5, 0, 0⟩]
      journals := [], postings := [], accountSeq := 5, journalSeq := 0, postingSeq := 0 }
  orders := [crossedOrder 1 7 .sell, crossedOrder 2 8 .buy, crossedOrder 3 9 .sell,
    crossedOrder 4 10 .buy]
  trades := []
  stats := []
  orderSeq := 4
  tradeSeq := 0
  outbox := []

def crossedTrade (sequence buyOrderID sellOrderID : Nat) : TradeRow :=
  .ofTrade ⟨⟨0, sequence⟩, "BTC", 100, 1, buyOrderID, sellOrderID⟩

def settleAlone (buyOrderID sellOrderID : Nat) : Transaction :=
  .settleTrade crossedTables (crossedTrade 1 buyOrderID sellOrderID) 0

def settleTogether : Transaction :=
  .settleTradeBatch crossedTables [⟨crossedTrade 2 2 3, 0⟩, ⟨crossedTrade 3 4 1, 0⟩]

theorem crossedTables_keys : (crossedTables.orders.map OrderRow.id).Nodup ∧
    (crossedTables.ledger.balances.map AccountBalance.accountID).Nodup := by decide

theorem settleAlone_keyed (buyOrderID sellOrderID : Nat) :
    (settleAlone buyOrderID sellOrderID).Keyed :=
  ⟨crossedTables_keys.1, crossedTables_keys.2⟩

theorem settleTogether_keyed : settleTogether.Keyed := ⟨crossedTables_keys.1, crossedTables_keys.2⟩

/-- Every transaction that moves money first locks its balance rows in ascending order, and what it
locks later it has locked before. So no such transactions wait for each other in a circle over
balances. -/
theorem balance_locks_in_one_order :
    (∀ tx : Transaction, tx.Keyed → InOrder Row.balance? tx.locks ∧
      (firsts (tx.locks.filterMap Row.balance?)).Pairwise (· < ·)) ∧
    ∀ s, Lts.Reach Locking.step (Starting Transaction.Keyed) [] s → ¬CyclicWait Row.balance? s := by
  constructor
  · intro tx h
    exact ⟨balances_ascending h, (balances_ascending h).firsts⟩
  · intro s hs
    refine reach_no_cyclicWait balance?_inj (fun t wants hw => ?_) hs
    obtain ⟨tx, htx, rfl⟩ := hw wants rfl
    exact balances_ascending htx

/-- Two settlements hold the balances of their users. The first has the fee account too, and the
second waits for it. -/
theorem balance_locks_in_one_order_crossed :
    (firsts ((settleAlone 2 1).locks.filterMap Row.balance?)).Pairwise (· < ·) ∧
    ∃ s, Lts.exec Locking.step (sideBySide (settleAlone 2 1) (settleAlone 4 3) 7 6) [] = some s ∧
      s.map (fun t => t.held.filterMap Row.balance?) = [[5, 2, 1], [4, 3]] ∧
      WaitsFor Row.balance? s 1 0 ∧ ¬CyclicWait Row.balance? s := by
  have hrun : Lts.exec Locking.step (sideBySide (settleAlone 2 1) (settleAlone 4 3) 7 6) [] =
      some [⟨[.balance 5, .balance 2, .balance 1, .order 1, .order 2, .order 1, .order 2],
        (settleAlone 2 1).locks.drop 7⟩,
        ⟨[.balance 4, .balance 3, .order 3, .order 4, .order 3, .order 4],
          .balance 5 :: (settleAlone 4 3).locks.drop 7⟩] := by
    decide +kernel
  refine ⟨(balance_locks_in_one_order.1 _ (settleAlone_keyed 2 1)).2, _, hrun, rfl, ?_, ?_⟩
  · exact ⟨by decide, _, _, _, _, 5, rfl, rfl, rfl, rfl, by decide⟩
  · exact balance_locks_in_one_order.2 _
      (reach_sideBySide (settleAlone_keyed 2 1) (settleAlone_keyed 4 3) hrun)

/-- A trade is settled alone while a batch settles two others of its orders: it holds the buyer's
order, which the batch waits for, and waits for the seller's, which the batch has. -/
theorem settlements_wait_in_circle :
    ∃ s, Lts.Reach Locking.step (Starting fun tx => tx.Keyed ∧ tx.isSettlement = true) [] s ∧
      CyclicWait Row.order? s := by
  have hrun : Lts.exec Locking.step (sideBySide (settleAlone 2 1) settleTogether 1 1) [] =
      some [⟨[.order 2], .order 1 :: (settleAlone 2 1).locks.drop 2⟩,
        ⟨[.order 1], .order 2 :: settleTogether.locks.drop 2⟩] := by
    decide +kernel
  refine ⟨_, reach_sideBySide ⟨settleAlone_keyed 2 1, rfl⟩ ⟨settleTogether_keyed, rfl⟩ hrun, 0, ?_⟩
  have hforth : WaitsFor Row.order? [⟨[.order 2], .order 1 :: (settleAlone 2 1).locks.drop 2⟩,
      ⟨[.order 1], .order 2 :: settleTogether.locks.drop 2⟩] 0 1 :=
    ⟨by decide, _, _, _, _, 1, rfl, rfl, rfl, rfl, List.mem_singleton_self _⟩
  have hback : WaitsFor Row.order? [⟨[.order 2], .order 1 :: (settleAlone 2 1).locks.drop 2⟩,
      ⟨[.order 1], .order 2 :: settleTogether.locks.drop 2⟩] 1 0 :=
    ⟨by decide, _, _, _, _, 2, rfl, rfl, rfl, rfl, List.mem_singleton_self _⟩
  exact .tail (.single hforth) hback

/-- Settlements never wait for each other in a circle over order rows, if no trade that is settled
alone has the seller's order id before the buyer's. -/
theorem order_locks_of_buyerFirst (tx : Transaction) (s : List (Txn Row)) :
    (tx.Keyed → tx.isSettlement = true → tx.BuyerFirst →
      (firsts (tx.locks.filterMap Row.order?)).Pairwise (· < ·)) ∧
    (Lts.Reach Locking.step (Starting fun tx => tx.Keyed ∧ tx.isSettlement = true ∧
      tx.BuyerFirst) [] s → ¬CyclicWait Row.order? s) := by
  constructor
  · intro h hs hb
    exact (orders_ascending h hs hb).firsts
  · intro hs
    refine reach_no_cyclicWait order?_inj (fun t wants hw => ?_) hs
    obtain ⟨tx, ⟨hk, hset, hb⟩, rfl⟩ := hw wants rfl
    exact orders_ascending hk hset hb

theorem order_locks_of_buyerFirst_crossed :
    (firsts ((settleAlone 2 3).locks.filterMap Row.order?)).Pairwise (· < ·) ∧
      ¬CyclicWait Row.order? [⟨[.order 2], (settleAlone 2 3).locks.drop 1⟩,
        ⟨[.order 1], .order 2 :: settleTogether.locks.drop 2⟩] := by
  have hrun : Lts.exec Locking.step (sideBySide (settleAlone 2 3) settleTogether 1 1) [] =
      some [⟨[.order 2], (settleAlone 2 3).locks.drop 1⟩,
        ⟨[.order 1], .order 2 :: settleTogether.locks.drop 2⟩] := by
    decide +kernel
  have hbuyer : (settleAlone 2 3).BuyerFirst := by
    change 2 ≤ 3
    decide
  obtain ⟨hlocks, hreach⟩ := order_locks_of_buyerFirst (settleAlone 2 3)
    [⟨[.order 2], (settleAlone 2 3).locks.drop 1⟩,
      ⟨[.order 1], .order 2 :: settleTogether.locks.drop 2⟩]
  constructor
  · exact hlocks (settleAlone_keyed 2 3) rfl hbuyer
  · apply hreach
    exact reach_sideBySide ⟨settleAlone_keyed 2 3, rfl, hbuyer⟩
      ⟨settleTogether_keyed, rfl, trivial⟩ hrun

end GoExchange.Locks
