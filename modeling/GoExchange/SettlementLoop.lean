import GoExchange.LedgerTwin
import GoExchange.SettlementBatch

/-!
# The loop of a batch beside single settlements

The loop of `SettleTradeBatch` works on copies of the orders and on accounts
that are all provisioned; `SettleTrade` works on the tables. The two states
are related after every trade, and a trade is settled in both or in neither.
-/
namespace GoExchange.Service

open Ledger Rows Fallible

/-! ## What a settlement reads of its orders -/

/-- Two rows of one order that differ in the fills and the status. -/
def SameTerms (o o' : OrderRow) : Prop :=
  o' = setExecution o'.filledAmount o'.filledQuoteAmount o'.status o

theorem SameTerms.refl (o : OrderRow) : SameTerms o o := rfl

variable {o o' p : OrderRow} {plan : TradePlan}

theorem SameTerms.set (h : SameTerms o o') (f q : Decimal) (st : OrderStatus) :
    SameTerms o (setExecution f q st o') := by
  unfold SameTerms at h ⊢
  rw [h]
  rfl

theorem SameTerms.symm (h : SameTerms o o') : SameTerms o' o := by
  unfold SameTerms at h ⊢
  rw [h]
  rfl

theorem SameTerms.eq_fields (h : SameTerms o o') :
    o'.id = o.id ∧ o'.userID = o.userID ∧ o'.coinSymbol = o.coinSymbol ∧ o'.side = o.side ∧
      o'.orderType = o.orderType ∧ o'.price = o.price := by
  unfold SameTerms at h
  rw [h]
  exact ⟨rfl, rfl, rfl, rfl, rfl, rfl⟩

/-- The checks and the plan of a settlement, which do not depend on fills. -/
structure Terms (buyOrder sellOrder : OrderRow) (plan : TradePlan) : Prop where
  buy : buyOrder.side = .buy
  sell : sellOrder.side = .sell
  coin : buyOrder.coinSymbol = plan.trade.coinSymbol ∧ sellOrder.coinSymbol = plan.trade.coinSymbol
  participants : settlementParticipants buyOrder sellOrder = .ok (plan.buyer, plan.seller)
  postings : planTradeSettlement plan.trade buyOrder plan.buyer plan.seller =
    .ok (plan.postings, plan.executionDebit)

theorem Terms.same {p' : OrderRow} (h : Terms o p plan) (ho : SameTerms o o')
    (hp : SameTerms p p') : Terms o' p' plan := by
  obtain ⟨-, huser, hcoin, hside, htype, hprice⟩ := ho.eq_fields
  obtain ⟨-, huser', hcoin', hside', -, -⟩ := hp.eq_fields
  refine ⟨hside ▸ h.buy, hside' ▸ h.sell, ⟨hcoin ▸ h.coin.1, hcoin' ▸ h.coin.2⟩, ?_, ?_⟩
  · rw [← h.participants]
    simp only [settlementParticipants, huser, huser']
  · rw [← h.postings]
    simp only [planTradeSettlement, reservedBuyDebitAmount, htype, hprice]

theorem Terms.ne {orders : List OrderRow} (h : Terms o p plan)
    (hn : (orders.map OrderRow.id).Nodup) (ho : o ∈ orders) (hp : p ∈ orders) : o.id ≠ p.id := by
  intro he
  have hside := h.buy
  rw [List.inj_on_of_nodup_map hn ho hp he, h.sell] at hside
  cases hside

theorem Terms.parties (h : Terms o p plan) :
    plan.buyer = o.userID ∧ plan.seller = p.userID := by
  have hpart := h.participants
  unfold settlementParticipants at hpart
  obtain ⟨-, hpart⟩ := guard_eq_ok.mp hpart
  obtain ⟨-, hpart⟩ := guard_eq_ok.mp hpart
  obtain ⟨hbuyer, hseller⟩ := Prod.mk.inj (Except.ok.inj hpart)
  exact ⟨hbuyer.symm, hseller.symm⟩

theorem Terms.postings_eq (h : Terms o p plan) :
    ∃ net, plan.postings = tradePostings plan.trade o.userID p.userID
      (reservedBuyDebitAmount o plan.trade) plan.executionDebit net := by
  obtain ⟨net, -, hplan⟩ := bind_eq_ok.mp h.postings
  obtain ⟨hpostings, hdebit⟩ := Prod.mk.inj (Except.ok.inj hplan)
  refine ⟨net, ?_⟩
  rw [← hpostings, ← hdebit, h.parties.1, h.parties.2]

variable {s s' u u' : Store} {plan : TradePlan} {buyOrder sellOrder : OrderRow} {trade : TradeRow}

/-- The fills of both orders. -/
def fillBoth (buyOrder sellOrder : OrderRow) (trade : TradeRow) :
    Except DomainError (OrderRow × OrderRow) := do
  validateOrderStatusForSettlement buyOrder "buy"
  validateOrderStatusForSettlement sellOrder "sell"
  let quote := tradeQuoteAmount trade
  let (buyFilled, buyFilledQuote, buyStatus) ← applyTradeFill buyOrder trade.quantity quote
  let (sellFilled, sellFilledQuote, sellStatus) ← applyTradeFill sellOrder trade.quantity quote
  return (setExecution buyFilled buyFilledQuote buyStatus buyOrder,
    setExecution sellFilled sellFilledQuote sellStatus sellOrder)

/-- The fills of an order written to its row. -/
def writeFill (order : OrderRow) (orders : List OrderRow) : List OrderRow :=
  modify OrderRow.id order.id (setExecution order.filledAmount order.filledQuoteAmount order.status)
    orders

/-- The tables with the trade's row and its fills. -/
def withFills (s : Store) (trade : TradeRow) (buyOrder sellOrder : OrderRow) : Store :=
  { s with
    tradeSeq := trade.id
    trades := s.trades ++ [trade]
    orders := writeFill sellOrder (writeFill buyOrder s.orders) }

/-- A settlement whose orders are found and whose checks pass: the fills, the ledger and the
statistics. -/
theorem settleNewTrade_eq (hrow : plan.trade = { trade with id := s.tradeSeq + 1 })
    (hevent : trade.eventID ∉ s.trades.map fun t => t.eventID)
    (hbuy : s.orders.find? (·.id = trade.buyOrderID) = some buyOrder)
    (hsell : s.orders.find? (·.id = trade.sellOrderID) = some sellOrder)
    (hterms : Terms buyOrder sellOrder plan) :
    settleNewTrade s trade = (fillBoth buyOrder sellOrder plan.trade >>= fun fills =>
      bookTrade (withFills s plan.trade fills.1 fills.2) plan) := by
  obtain ⟨plan, buyer, seller, postings, debit⟩ := plan
  obtain ⟨hbuySide, hsellSide, hcoin, hpart, hplan⟩ := hterms
  obtain ⟨hbmem, hbid⟩ := of_find? hbuy
  obtain ⟨hsmem, hsid⟩ := of_find? hsell
  cases hrow
  unfold settleNewTrade insertTrade findByIDForUpdate
  simp only [if_neg hevent, hbuy, hsell, hbuySide, hsellSide, hpart, hplan, bind, Except.bind, pure,
    Except.pure]
  have hcoin' : ¬ (buyOrder.coinSymbol ≠ trade.coinSymbol ∨
      sellOrder.coinSymbol ≠ trade.coinSymbol) := by
    simpa only [not_or, not_not] using hcoin
  rw [if_neg (not_not.mpr rfl), if_neg (not_not.mpr rfl), if_neg hcoin']
  unfold fillBoth
  simp only [bind, Except.bind, pure, Except.pure]
  cases validateOrderStatusForSettlement buyOrder "buy" with
  | error e => rfl
  | ok _ =>
    cases validateOrderStatusForSettlement sellOrder "sell" with
    | error e => rfl
    | ok _ =>
      cases applyTradeFill buyOrder trade.quantity
        (tradeQuoteAmount { trade with id := s.tradeSeq + 1 }) with
      | error e => rfl
      | ok f =>
        cases applyTradeFill sellOrder trade.quantity
          (tradeQuoteAmount { trade with id := s.tradeSeq + 1 }) with
        | error e => rfl
        | ok f' =>
          have hb : buyOrder.id ∈ s.orders.map OrderRow.id := List.mem_map_of_mem hbmem
          have hs : sellOrder.id ∈ s.orders.map OrderRow.id := List.mem_map_of_mem hsmem
          simp only [updateOrderExecution, hb, not_true, if_false]
          rw [if_neg (not_not.mpr (by rw [map_modify]; exacts [hs, fun _ _ _ => rfl]))]
          rfl

/-- A settlement that succeeds has found its orders and passed the checks. -/
theorem settleNewTrade_terms (h : settleNewTrade s trade = .ok s') :
    trade.eventID ∉ s.trades.map (fun t => t.eventID) ∧
    ∃ buyOrder sellOrder plan, s.orders.find? (·.id = trade.buyOrderID) = some buyOrder ∧
      s.orders.find? (·.id = trade.sellOrderID) = some sellOrder ∧ Terms buyOrder sellOrder plan ∧
      plan.trade = { trade with id := s.tradeSeq + 1 } := by
  have hfind : ∀ {v : Store} {id : Nat} {o : OrderRow}, findByIDForUpdate v id = .ok o →
      v.orders.find? (·.id = id) = some o := fun hf => by
    unfold findByIDForUpdate at hf
    split at hf
    · cases hf
      assumption
    · cases hf
  obtain ⟨v, hins, h⟩ := bind_eq_ok.mp h
  obtain ⟨hevent, hins⟩ := guard_eq_ok.mp hins
  cases hins
  obtain ⟨buyOrder, hbuy, h⟩ := bind_eq_ok.mp h
  obtain ⟨sellOrder, hsell, h⟩ := bind_eq_ok.mp h
  obtain ⟨hside, h⟩ := guard_eq_ok.mp h
  obtain ⟨hside', h⟩ := guard_eq_ok.mp h
  obtain ⟨hcoin, h⟩ := guard_eq_ok.mp h
  obtain ⟨_, -, h⟩ := bind_eq_ok.mp h
  obtain ⟨_, -, h⟩ := bind_eq_ok.mp h
  obtain ⟨⟨buyer, seller⟩, hpart, h⟩ := bind_eq_ok.mp h
  obtain ⟨_, -, h⟩ := bind_eq_ok.mp h
  obtain ⟨_, -, h⟩ := bind_eq_ok.mp h
  obtain ⟨⟨postings, debit⟩, hplan, -⟩ := bind_eq_ok.mp h
  rw [not_or, not_not, not_not] at hcoin
  exact ⟨hevent, buyOrder, sellOrder,
    ⟨{ trade with id := s.tradeSeq + 1 }, buyer, seller, postings, debit⟩,
    hfind hbuy, hfind hsell, ⟨not_not.mp hside, not_not.mp hside', hcoin, hpart, hplan⟩, rfl⟩

/-! ## The ledger's part on twins -/

theorem applyAvgBuyPrice_agrees (hb : ∀ k, balanceOf s.ledger k = balanceOf u.ledger k)
    (hs : s.stats = u.stats) (userID : Nat) (asset : String) (quantity cost : Decimal) :
    Agrees (fun x y => x = { s with stats := x.stats } ∧ y = { u with stats := x.stats })
      (applyAvgBuyPrice s userID asset quantity cost)
        (applyAvgBuyPrice u userID asset quantity cost) := by
  have htotal : userTotal s.ledger userID asset = userTotal u.ledger userID asset := by
    simp only [userTotal, hb]
  unfold applyAvgBuyPrice
  simp only [htotal, hs]
  refine .guard fun _ => .guard fun _ => .guard fun _ => ?_
  split
  · exact .ok ⟨rfl, rfl⟩
  · exact .ok ⟨rfl, rfl⟩

/-- Two stores after the ledger's part, with everything else as it was. -/
structure Booked (s u s' u' : Store) : Prop where
  ledger : Twin s'.ledger u'.ledger
  left : s' = { s with ledger := s'.ledger, stats := s'.stats }
  right : u' = { u with ledger := u'.ledger, stats := s'.stats }

theorem bookTrade_agrees (hl : Twin s.ledger u.ledger) (hs : s.stats = u.stats) (plan : TradePlan) :
    Agrees (Booked s u) (bookTrade s plan) (bookTrade u plan) := by
  have hrec : Agrees (fun x y : Store => Twin x.ledger y.ledger ∧
      x = { s with ledger := x.ledger } ∧ y = { u with ledger := y.ledger })
      (recordJournal s (.trade plan.trade.idempotencyKey) .trade .trade plan.trade.id plan.postings)
      (recordJournal u (.trade plan.trade.idempotencyKey) .trade .trade plan.trade.id
        plan.postings) :=
    (hl.record rfl).bind fun x y _ _ hxy => .ok ⟨hxy.1, rfl, rfl⟩
  refine hrec.bind fun x y _ _ hxy => ?_
  obtain ⟨htwin, hx, hy⟩ := hxy
  have hstats : x.stats = y.stats := by rw [hx, hy]; exact hs
  refine (applyAvgBuyPrice_agrees htwin.balance hstats ..).bind fun a b _ _ hab => .ok ?_
  obtain ⟨ha, hb⟩ := hab
  have hla : a.ledger = x.ledger := by rw [ha]
  have hlb : b.ledger = y.ledger := by rw [hb]
  have htotal : userTotal a.ledger plan.seller plan.trade.coinSymbol =
      userTotal b.ledger plan.seller plan.trade.coinSymbol := by
    simp only [userTotal, hla, hlb, htwin.balance]
  have hsb : b.stats = a.stats := by rw [hb]
  unfold clearAvgBuyPriceIfEmpty
  rw [htotal]
  split
  · exact ⟨hla ▸ hlb ▸ htwin, by rw [ha, hx], by rw [hb, hy]⟩
  · refine ⟨hla ▸ hlb ▸ htwin, by rw [ha, hx], by rw [hsb]; rw [hb, hy]⟩

/-! ## One trade of the loop -/

variable {base : List OrderRow} {run run' : BatchRun} {row : TradeRow} {rest : List TradeRow}

/-- The orders of a trade in a table, with the plan made for them. -/
def Planned (orders : List OrderRow) (row : TradeRow) (plan : TradePlan) : Prop :=
  ∃ buyOrder sellOrder, orders.find? (·.id = row.buyOrderID) = some buyOrder ∧
    orders.find? (·.id = row.sellOrderID) = some sellOrder ∧ Terms buyOrder sellOrder plan ∧
    plan.trade = row

/-- The ids follow `seq`. -/
def numberedTrades (seq : Nat) : List TradeRow → List TradeRow
  | [] => []
  | trade :: trades => { trade with id := seq + 1 } :: numberedTrades (seq + 1) trades

def tradeOrders (trades : List TradeRow) : List Nat :=
  trades.flatMap fun t => [t.buyOrderID, t.sellOrderID]

/-- The single settlements so far beside the loop of the batch, which has inserted the `rest` as
well and keeps the fills in its copies. -/
structure Looping (base : List OrderRow) (s : Store) (run : BatchRun) (rest : List TradeRow) :
    Prop where
  ledger : Twin s.ledger run.store.ledger
  store : run.store = { s with
    ledger := run.store.ledger
    orders := base
    trades := s.trades ++ rest
    tradeSeq := s.tradeSeq + rest.length }
  orders : s.orders = overlay OrderRow.id run.orders base
  copies : ∀ c ∈ run.orders, ∃ o ∈ base, SameTerms o c
  ids : ∀ id, id ∈ run.orders.map OrderRow.id ↔ id ∈ run.touched ∨ id ∈ tradeOrders rest
  touched : run.touched.Nodup
  numbered : rest = numberedTrades s.tradeSeq rest
  events : Fresh (s.trades.map fun t => t.eventID) (rest.map fun t => t.eventID)

theorem fillBoth_terms {fills : OrderRow × OrderRow}
    (h : fillBoth buyOrder sellOrder row = .ok fills) :
    SameTerms buyOrder fills.1 ∧ SameTerms sellOrder fills.2 := by
  obtain ⟨_, -, h⟩ := bind_eq_ok.mp h
  obtain ⟨_, -, h⟩ := bind_eq_ok.mp h
  obtain ⟨_, -, h⟩ := bind_eq_ok.mp h
  obtain ⟨_, -, h⟩ := bind_eq_ok.mp h
  cases h
  exact ⟨rfl, rfl⟩

theorem settleLocked_eq (hbuy : run.orders.find? (·.id = plan.trade.buyOrderID) = some buyOrder)
    (hsell : run.orders.find? (·.id = plan.trade.sellOrderID) = some sellOrder) :
    settleLocked run plan = (fillBoth buyOrder sellOrder plan.trade >>= fun fills =>
      bookTrade run.store plan >>= fun s =>
        .ok ⟨s, writeFill fills.2 (writeFill fills.1 run.orders),
        (run.touched.insert fills.1.id).insert fills.2.id⟩) := by
  unfold settleLocked fillBoth lockedOrder
  simp only [hbuy, hsell, bind, Except.bind, pure, Except.pure]
  cases validateOrderStatusForSettlement buyOrder "buy" with
  | error e => rfl
  | ok _ =>
    cases validateOrderStatusForSettlement sellOrder "sell" with
    | error e => rfl
    | ok _ =>
      cases applyTradeFill buyOrder plan.trade.quantity (tradeQuoteAmount plan.trade) with
      | error e => rfl
      | ok f =>
        cases applyTradeFill sellOrder plan.trade.quantity (tradeQuoteAmount plan.trade) with
        | error e => rfl
        | ok f' => rfl

theorem map_id_writeFill (order : OrderRow) (orders : List OrderRow) :
    (writeFill order orders).map OrderRow.id = orders.map OrderRow.id :=
  map_modify _ fun _ _ _ => rfl

theorem writeFill_overlay {order : OrderRow} {copies : List OrderRow}
    (h : order.id ∈ copies.map OrderRow.id) :
    writeFill order (overlay OrderRow.id copies base) =
      overlay OrderRow.id (writeFill order copies) base :=
  modify_overlay h fun _ => rfl

theorem writeFill_copies {order : OrderRow} {copies : List OrderRow}
    (h : ∀ c ∈ copies, ∃ o ∈ base, SameTerms o c) :
    ∀ c ∈ writeFill order copies, ∃ o ∈ base, SameTerms o c := by
  intro c hc
  rcases mem_modify.mp hc with ⟨x, hx, -, rfl⟩ | ⟨hc, -⟩
  · obtain ⟨o, ho, hterms⟩ := h x hx
    exact ⟨o, ho, hterms.set _ _ _⟩
  · exact h c hc

/-- The copy of an order is the row that the single settlement finds, and its terms are those of the
base. -/
theorem Looping.find_copy (h : Looping base s run rest)
    (hn : (base.map OrderRow.id).Nodup) {id : Nat}
    (hid : id ∈ run.orders.map OrderRow.id) (ho : base.find? (·.id = id) = some o) :
    ∃ c, run.orders.find? (·.id = id) = some c ∧ s.orders.find? (·.id = id) = some c ∧
    SameTerms o c := by
  cases hc : run.orders.find? (·.id = id) with
  | none => exact absurd hid (find?_eq_none.mp hc)
  | some c =>
    obtain ⟨hmem, hcid⟩ := of_find? hc
    obtain ⟨homem, hoid⟩ := of_find? ho
    obtain ⟨x, hx, hterms⟩ := h.copies c hmem
    have hxo : x = o :=
      List.inj_on_of_nodup_map hn hx homem (by rw [hoid, ← hcid, hterms.eq_fields.1])
    refine ⟨c, rfl, ?_, hxo ▸ hterms⟩
    rw [h.orders, find?_overlay hid (hoid ▸ List.mem_map_of_mem homem), hc]

/-- A trade is settled by the loop if it is settled alone. -/
theorem Looping.step (h : Looping base s run (row :: rest)) (hn : (base.map OrderRow.id).Nodup)
    (hplan : Planned base row plan) :
    Agrees (fun s' run' => Looping base s' run' rest ∧ s'.trades = s.trades ++ [row] ∧
      s'.tradeSeq = s.tradeSeq + 1) (settleNewTrade s row) (settleLocked run plan) := by
  obtain ⟨o, p, ho, hp, hterms, rfl⟩ := hplan
  have hin : ∀ id, id = plan.trade.buyOrderID ∨ id = plan.trade.sellOrderID →
      id ∈ run.orders.map OrderRow.id :=
    fun id hid => (h.ids id).mpr
      (.inr (List.mem_flatMap.mpr ⟨_, List.mem_cons_self, by simpa using hid⟩))
  obtain ⟨b, hb, hb', hterms₁⟩ := h.find_copy hn (hin _ (.inl rfl)) ho
  obtain ⟨c, hc, hc', hterms₂⟩ := h.find_copy hn (hin _ (.inr rfl)) hp
  obtain ⟨hnum, hnum'⟩ := List.cons.inj h.numbered
  have hid : plan.trade.id = s.tradeSeq + 1 := congrArg TradeRow.id hnum
  obtain ⟨hevent, hevents⟩ := fresh_cons.mp h.events
  rw [settleNewTrade_eq hnum hevent hb' hc' (hterms.same hterms₁ hterms₂), settleLocked_eq hb hc]
  refine .bind_same fun fills hfills => ?_
  obtain ⟨hfb, hfc⟩ := fillBoth_terms hfills
  have hbid : fills.1.id = plan.trade.buyOrderID := hfb.eq_fields.1.trans (of_find? hb).2
  have hcid : fills.2.id = plan.trade.sellOrderID := hfc.eq_fields.1.trans (of_find? hc).2
  have hstats : s.stats = run.store.stats := by rw [h.store]
  refine (bookTrade_agrees (s := withFills s plan.trade fills.1 fills.2) (u := run.store) h.ledger
    hstats plan).map_right fun x y hxy => ?_
  have hb₁ : fills.1.id ∈ run.orders.map OrderRow.id := hin _ (.inl hbid)
  have hc₁ : fills.2.id ∈ (writeFill fills.1 run.orders).map OrderRow.id := by
    rw [map_id_writeFill]
    exact hin _ (.inr hcid)
  have hxs : x.trades = s.trades ++ [plan.trade] ∧ x.tradeSeq = s.tradeSeq + 1 := by
    rw [hxy.left]
    exact ⟨rfl, hid⟩
  refine ⟨?_, hxs⟩
  constructor
  · exact hxy.ledger
  · rw [hxy.right, h.store, hxy.left]
    simp only [withFills, List.append_assoc, List.singleton_append, List.length_cons, hid]
    congr 1
    omega
  · rw [hxy.left]
    simp only [withFills]
    rw [h.orders, writeFill_overlay hb₁, writeFill_overlay hc₁]
  · exact writeFill_copies (writeFill_copies h.copies)
  · intro i
    simp only [map_id_writeFill, h.ids i, hbid, hcid, List.mem_insert_iff, tradeOrders,
      List.flatMap_cons, List.mem_append, List.mem_cons, List.not_mem_nil, or_false]
    tauto
  · exact h.touched.insert.insert
  · rw [hxs.2]
    exact hnum'
  · rw [hxs.1, List.map_append]
    exact hevents

/-! ## The whole loop -/

/-- `SettleTrade` on a prepared trade, without the outbox. -/
def settlePrepared (s : Store) (trade : TradeRow) : Except DomainError (Store × SettlementResult) :=
  match findByKey s.trades trade with
  | some existing => do
    validateIdempotentTradePayload existing trade
    return (s, duplicateSettlementResult existing)
  | none => do
    let (s, id) ← settleCreatedTrade s trade
    return (s, ⟨true, false, id⟩)

def settleAll : Store → List TradeRow → Except DomainError (Store × List SettlementResult)
  | s, [] => .ok (s, [])
  | s, trade :: trades => do
    let (s, r) ← settlePrepared s trade
    let (s, rs) ← settleAll s trades
    return (s, r :: rs)

/-- The result of a trade whose row, if it is new, is among the `rows`. -/
def resultOf (stored rows : List TradeRow) (trade : TradeRow) : SettlementResult :=
  match findByKey stored trade with
  | some existing => duplicateSettlementResult existing
  | none => ⟨true, false, ((findByKey rows trade).getD trade).id⟩

variable {stored rows trades : List TradeRow} {plans : List TradePlan}

theorem settlePrepared_duplicate {existing : TradeRow}
    (hf : findByKey s.trades trade = some existing)
    (hv : validateIdempotentTradePayload existing trade = .ok ()) :
    settlePrepared s trade = .ok (s, duplicateSettlementResult existing) := by
  simp only [settlePrepared, hf, hv]
  rfl

theorem settlePrepared_new (hf : findByKey s.trades trade = none) (hid : trade.id = 0) :
    settlePrepared s trade = (settleNewTrade s { trade with id := s.tradeSeq + 1 } >>= fun s' =>
      .ok (s', ⟨true, false, s.tradeSeq + 1⟩)) := by
  have hsame : settleNewTrade s { trade with id := s.tradeSeq + 1 } = settleNewTrade s trade := rfl
  rw [hsame]
  simp only [settlePrepared, hf, settleCreatedTrade, if_pos hid]
  cases settleNewTrade s trade <;> rfl

/-- The trades that are not stored yet. -/
def newTrades (stored trades : List TradeRow) : List TradeRow :=
  trades.filter fun t => (findByKey stored t).isNone

theorem newTrades_stored {x e : TradeRow} (h : findByKey stored x = some e) :
    newTrades stored (x :: trades) = newTrades stored trades :=
  List.filter_cons_of_neg (by simp [h])

theorem newTrades_new {x : TradeRow} (h : findByKey stored x = none) :
    newTrades stored (x :: trades) = x :: newTrades stored trades :=
  List.filter_cons_of_pos (by simp [h])

theorem findByKey_append {x e : TradeRow} (h : findByKey stored x = some e) (done : List TradeRow) :
    findByKey (stored ++ done) x = some e := by
  unfold findByKey at h ⊢
  rw [List.find?_append, h]
  rfl

theorem Looping.all (hn : (base.map OrderRow.id).Nodup)
    (hrows : (rows.map TradeRow.idempotencyKey).Nodup)
    (h : Looping base s run rest) (hs : ∃ done, s.trades = stored ++ done)
    (hzero : ∀ t ∈ trades, t.id = 0)
    (hdup : ∀ t ∈ trades, ∀ e, findByKey stored t = some e →
      validateIdempotentTradePayload e t = .ok ())
    (hrest : rest = numberedTrades s.tradeSeq (newTrades stored trades)) (hsub : rest.Sublist rows)
    (hfresh : Fresh (s.trades.map TradeRow.idempotencyKey) (rest.map TradeRow.idempotencyKey))
    (hplans : List.Forall₂ (Planned base) rest plans) :
    Agrees (fun x run' => Looping base x.1 run' [] ∧ x.2 = trades.map (resultOf stored rows))
      (settleAll s trades) (plans.foldlM settleLocked run) := by
  induction trades generalizing s run rest plans with
  | nil =>
    cases hrest
    cases hplans
    exact .ok ⟨h, rfl⟩
  | cons x xs ih =>
    obtain ⟨hzero₁, hzero'⟩ := List.forall_mem_cons.mp hzero
    obtain ⟨hdup₁, hdup'⟩ := List.forall_mem_cons.mp hdup
    obtain ⟨done, hdone⟩ := hs
    cases hx : findByKey stored x with
    | some e =>
      -- a duplicate is passed over by the loop
      have hfind : findByKey s.trades x = some e := hdone ▸ findByKey_append hx done
      rw [newTrades_stored hx] at hrest
      have hres : resultOf stored rows x = duplicateSettlementResult e := by simp [resultOf, hx]
      have heq : settleAll s (x :: xs) =
          (settleAll s xs >>= fun q => .ok (q.1, duplicateSettlementResult e :: q.2)) := by
        simp only [settleAll, settlePrepared_duplicate hfind (hdup₁ e hx)]
        rfl
      rw [heq]
      refine (ih h ⟨done, hdone⟩ hzero' hdup' hrest hsub hfresh hplans).map_left
        fun q run' hq => ⟨hq.1, ?_⟩
      rw [List.map_cons, hres, hq.2]
    | none =>
      rw [newTrades_new hx] at hrest
      obtain ⟨row, rest', rfl, hrow, hrest'⟩ : ∃ row rest', rest = row :: rest' ∧
        row = { x with id := s.tradeSeq + 1 } ∧
          rest' = numberedTrades (s.tradeSeq + 1) (newTrades stored xs) :=
        ⟨_, _, hrest, rfl, rfl⟩
      obtain ⟨hnotin, hfresh'⟩ := fresh_cons.mp hfresh
      obtain ⟨plan, plans', hplan, hplans', rfl⟩ := List.forall₂_cons_left_iff.mp hplans
      have hkey : row.idempotencyKey = x.idempotencyKey := by rw [hrow]
      have hfind : findByKey s.trades x = none := find?_eq_none.mpr (hkey ▸ hnotin)
      have hres : resultOf stored rows x = ⟨true, false, s.tradeSeq + 1⟩ := by
        have hmem : findByKey rows x = some row := by
          unfold findByKey
          rw [← hkey]
          exact find?_eq_some hrows (hsub.subset List.mem_cons_self)
        simp [resultOf, hx, hmem, hrow]
      have heq : settleAll s (x :: xs) =
          (settleNewTrade s row >>= fun s' => settleAll s' xs >>= fun q =>
          .ok (q.1, (⟨true, false, s.tradeSeq + 1⟩ : SettlementResult) :: q.2)) := by
        simp only [settleAll, settlePrepared_new hfind hzero₁, ← hrow]
        cases settleNewTrade s row <;> rfl
      rw [heq, List.foldlM_cons]
      refine (h.step hn hplan).bind fun s' run' hs' _ hstep => ?_
      obtain ⟨hloop, htrades, hseq⟩ := hstep
      refine (ih hloop ⟨done ++ [row], by rw [htrades, hdone, List.append_assoc]⟩ hzero' hdup'
        (by rw [hseq]; exact hrest')
        (List.sublist_of_cons_sublist hsub) ?_ hplans').map_left fun q run'' hq => ⟨hq.1, ?_⟩
      · rw [htrades, List.map_append]
        exact hfresh'
      · rw [List.map_cons, hres, hq.2]

end GoExchange.Service
