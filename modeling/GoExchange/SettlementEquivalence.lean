import GoExchange.SettlementLoop
import GoExchange.SettlementPlan

/-!
# A batch settles what single settlements do

`SettleTradeBatch` against `SettleTrade` on the same trades in the same order:
the insert, the locks and the plans before the loop, and the writes after it.
-/
namespace GoExchange.Service

open Ledger Rows Fallible

variable {s s' u : Store} {base orders : List OrderRow} {run : BatchRun} {row : TradeRow}
  {plan : TradePlan} {trades rows stored : List TradeRow} {plans : List TradePlan}
  {r r' : Store × List TradeRow} {ids : List Nat} {id : Nat}

/-! ## The insert -/

theorem map_numberedTrades {β : Type} (f : TradeRow → β)
    (hf : ∀ t n, f { t with id := n } = f t) (seq : Nat)
    (trades : List TradeRow) : (numberedTrades seq trades).map f = trades.map f := by
  induction trades generalizing seq with
  | nil => rfl
  | cons t ts ih => rw [numberedTrades, List.map_cons, List.map_cons, hf, ih]

theorem length_numberedTrades (seq : Nat) (trades : List TradeRow) :
    (numberedTrades seq trades).length = trades.length := by
  have hmap := map_numberedTrades TradeRow.idempotencyKey (fun _ _ => rfl) seq trades
  simpa using congrArg List.length hmap

/-- What the insert of several trades asks: keys and event ids that are new and distinct. -/
structure Insertable (s : Store) (trades : List TradeRow) : Prop where
  keys : Fresh (s.trades.map TradeRow.idempotencyKey) (trades.map TradeRow.idempotencyKey)
  events : Fresh (s.trades.map fun t => t.eventID) (trades.map fun t => t.eventID)

/-- The tables with the rows of new trades. -/
def withTrades (s : Store) (trades : List TradeRow) : Store :=
  { s with
    tradeSeq := s.tradeSeq + trades.length, trades := s.trades ++ numberedTrades s.tradeSeq trades }

theorem insertable_cons {t : TradeRow} : Insertable s (t :: trades) ↔
    (t.idempotencyKey ∉ s.trades.map TradeRow.idempotencyKey ∧ t.eventID ∉ s.trades.map fun t =>
      t.eventID) ∧ Insertable (withTrades s [t]) trades := by
  have hmap : ∀ {β : Type} (f : TradeRow → β), (∀ t n, f { t with id := n } = f t) →
      (withTrades s [t]).trades.map f = s.trades.map f ++ [f t] :=
    fun f hf => by simp [withTrades, numberedTrades, hf]
  have hkeys := hmap TradeRow.idempotencyKey fun _ _ => rfl
  have hevents := hmap (fun t => t.eventID) fun _ _ => rfl
  constructor
  · intro h
    obtain ⟨hkey, hkeys'⟩ := fresh_cons.mp h.keys
    obtain ⟨hevent, hevents'⟩ := fresh_cons.mp h.events
    exact ⟨⟨hkey, hevent⟩, hkeys ▸ hkeys', hevents ▸ hevents'⟩
  · rintro ⟨⟨hkey, hevent⟩, h⟩
    exact ⟨fresh_cons.mpr ⟨hkey, hkeys ▸ h.keys⟩, fresh_cons.mpr ⟨hevent, hevents ▸ h.events⟩⟩

theorem withTrades_cons (t : TradeRow) :
    withTrades (withTrades s [t]) trades = withTrades s (t :: trades) := by
  simp only [withTrades, numberedTrades, List.append_assoc, List.singleton_append, List.length_cons,
    List.length_nil]
  congr 1
  omega

theorem createTrade_of_insertable {done : List TradeRow} (h : Insertable s trades) :
    trades.foldlM createTrade (s, done) =
      .ok (withTrades s trades, done ++ numberedTrades s.tradeSeq trades) := by
  induction trades generalizing s done with
  | nil => simp [withTrades, numberedTrades, pure, Except.pure]
  | cons t ts ih =>
    obtain ⟨⟨hkey, hevent⟩, h'⟩ := insertable_cons.mp h
    have hstep : createTrade (s, done) t =
        .ok (withTrades s [t], done ++ [{ t with id := s.tradeSeq + 1 }]) := by
      simp only [createTrade, if_neg hkey, insertTrade, if_neg hevent]
      rfl
    rw [List.foldlM_cons, hstep]
    refine (ih h').trans ?_
    rw [withTrades_cons]
    simp [withTrades, numberedTrades]

/-- A row is passed over or inserted. -/
theorem createTrade_cases {t : TradeRow} (h : createTrade r t = .ok r') :
    r'.2 = r.2 ∨ ((t.idempotencyKey ∉ r.1.trades.map TradeRow.idempotencyKey ∧
      t.eventID ∉ r.1.trades.map fun t => t.eventID) ∧
      r' = (withTrades r.1 [t], r.2 ++ [{ t with id := r.1.tradeSeq + 1 }])) := by
  simp only [createTrade] at h
  split at h
  · cases h
    exact .inl rfl
  · rename_i hkey
    obtain ⟨v, hv, h⟩ := bind_eq_ok.mp h
    obtain ⟨hevent, hv⟩ := guard_eq_ok.mp hv
    cases hv
    cases h
    exact .inr ⟨⟨hkey, hevent⟩, rfl⟩

theorem createTrade_length (h : trades.foldlM createTrade r = .ok r') :
    r'.2.length ≤ r.2.length + trades.length := by
  induction trades generalizing r with
  | nil =>
    cases h
    simp
  | cons t ts ih =>
    rw [List.foldlM_cons] at h
    obtain ⟨u, hu, h⟩ := bind_eq_ok.mp h
    have hlen := ih h
    rw [List.length_cons]
    rcases createTrade_cases hu with hsame | ⟨-, rfl⟩
    · rw [hsame] at hlen
      omega
    · simp only [List.length_append, List.length_singleton] at hlen
      omega

/-- If the count is right no row was passed over. -/
theorem insertable_of_createTrade (h : trades.foldlM createTrade r = .ok r')
    (hlen : r'.2.length = r.2.length + trades.length) : Insertable r.1 trades := by
  induction trades generalizing r with
  | nil => exact ⟨⟨.nil, by simp⟩, .nil, by simp⟩
  | cons t ts ih =>
    rw [List.foldlM_cons] at h
    obtain ⟨u, hu, h⟩ := bind_eq_ok.mp h
    have hle := createTrade_length h
    rw [List.length_cons] at hlen
    rcases createTrade_cases hu with hsame | ⟨hnew, rfl⟩
    · rw [hsame] at hle
      omega
    · refine insertable_cons.mpr ⟨hnew, ih h ?_⟩
      simp only [List.length_append, List.length_singleton]
      omega

theorem createTrades_iff : createTrades s trades = .ok r ↔
    Insertable s trades ∧ r = (withTrades s trades, numberedTrades s.tradeSeq trades) := by
  unfold createTrades
  constructor
  · intro h
    obtain ⟨q, hq, h⟩ := bind_eq_ok.mp h
    obtain ⟨hcount, h⟩ := guard_eq_ok.mp h
    cases h
    have hins := insertable_of_createTrade hq (by simpa using hcount)
    rw [createTrade_of_insertable hins] at hq
    cases hq
    exact ⟨hins, by simp⟩
  · rintro ⟨hins, rfl⟩
    refine bind_eq_ok.mpr ⟨_, createTrade_of_insertable hins,
      guard_eq_ok.mpr ⟨?_, by simp [pure, Except.pure]⟩⟩
    simp [length_numberedTrades]

/-! ## Locks and plans -/

theorem lockedOrder_iff {role : String} {o : OrderRow} :
    lockedOrder orders id role = .ok o ↔ orders.find? (·.id = id) = some o := by
  unfold lockedOrder
  cases orders.find? (·.id = id) <;> simp

/-- The two passes of the batch over its trades find their orders and make their plans. -/
theorem planned_iff : Planned orders row plan ↔
    ∃ parties, checkBatchTrade orders row = .ok parties ∧
    planBatchTrade orders (row, parties) = .ok plan := by
  unfold checkBatchTrade planBatchTrade Planned
  simp only [bind_eq_ok, lockedOrder_iff, guard_eq_ok, not_or, not_not]
  constructor
  · rintro ⟨o, p, ho, hp, ⟨hbuy, hsell, hcoin, hpart, hplan⟩, rfl⟩
    exact ⟨_, ⟨o, ho, p, hp, hbuy, hsell, hcoin, hpart⟩, o, ho, _, hplan, rfl⟩
  · rintro ⟨⟨buyer, seller⟩, ⟨o, ho, p, hp, hbuy, hsell, hcoin, hpart⟩, o', ho', ⟨postings, debit⟩,
      hplan, hres⟩
    cases ho.symm.trans ho'
    cases hres
    exact ⟨o, p, ho, hp, ⟨hbuy, hsell, hcoin, hpart, hplan⟩, rfl⟩

/-- The locked rows are those of the table. -/
structure LockedRows (base orders : List OrderRow) (ids : List Nat) : Prop where
  mem : ∀ o ∈ orders, o ∈ base
  covers : ∀ id, id ∈ orders.map OrderRow.id ↔ id ∈ ids
  find : ∀ id ∈ ids, orders.find? (·.id = id) = base.find? (·.id = id)

theorem lockByIDs_ok (hn : (s.orders.map OrderRow.id).Nodup) (hids : ids.Nodup)
    (h : ∀ id ∈ ids, id ∈ s.orders.map OrderRow.id) :
    ∃ orders, lockByIDs s ids = .ok orders ∧ LockedRows s.orders orders ids := by
  have hlen := length_filter hn hids h
  refine ⟨_, guard_eq_ok.mpr ⟨not_not.mpr ((List.length_insertionSort _ _).trans hlen), rfl⟩, ?_⟩
  have hmem : ∀ o, o ∈ (s.orders.filter fun o => o.id ∈ ids).insertionSort
      (fun o o' => o.id ≤ o'.id) ↔ o ∈ s.orders ∧ o.id ∈ ids := fun o => by
    rw [List.mem_insertionSort, List.mem_filter, decide_eq_true_iff]
  have hfind : ∀ id ∈ ids, ∃ o ∈ s.orders, o.id = id ∧
      o ∈ (s.orders.filter fun o => o.id ∈ ids).insertionSort fun o o' => o.id ≤ o'.id :=
    fun id hid => by
    obtain ⟨o, ho, rfl⟩ := List.mem_map.mp (h id hid)
    exact ⟨o, ho, rfl, (hmem o).mpr ⟨ho, hid⟩⟩
  refine ⟨fun o ho => ((hmem o).mp ho).1, fun id => ⟨fun hid => ?_, fun hid => ?_⟩,
    fun id hid => ?_⟩
  · obtain ⟨o, ho, rfl⟩ := List.mem_map.mp hid
    exact ((hmem o).mp ho).2
  · obtain ⟨o, -, rfl, ho⟩ := hfind id hid
    exact List.mem_map_of_mem ho
  · obtain ⟨o, ho, rfl, homem⟩ := hfind id hid
    have hperm := List.perm_insertionSort (fun o o' : OrderRow => o.id ≤ o'.id)
      (s.orders.filter fun o => o.id ∈ ids)
    have hnodup :
        (((s.orders.filter fun o => o.id ∈ ids).insertionSort fun o o' => o.id ≤ o'.id).map
        OrderRow.id).Nodup :=
      (hperm.map OrderRow.id).nodup_iff.mpr (hn.sublist (List.filter_sublist.map _))
    exact (find?_eq_some hnodup homem).trans (find?_eq_some hn ho).symm

theorem mem_of_lockByIDs (hn : (s.orders.map OrderRow.id).Nodup)
    (h : lockByIDs s ids = .ok orders) : ∀ id ∈ ids, id ∈ s.orders.map OrderRow.id := by
  obtain ⟨hlen, -⟩ := guard_eq_ok.mp h
  exact mem_of_length_filter hn ((List.length_insertionSort _ _).symm.trans (not_not.mp hlen))

theorem mem_orderIDs : id ∈ orderIDs trades ↔ id ∈ tradeOrders trades :=
  (List.mem_insertionSort _).trans List.mem_dedup

theorem nodup_orderIDs : (orderIDs trades).Nodup :=
  (List.perm_insertionSort _ _).nodup_iff.mpr (List.nodup_dedup _)

theorem Planned.owner (h : Planned orders row plan) :
    ∀ i ∈ plan.postings, isSystemAccountType i.accountType = i.ownerUserID.isNone := by
  obtain ⟨o, p, -, -, hterms, -⟩ := h
  obtain ⟨n, -, hplan⟩ := bind_eq_ok.mp hterms.postings
  have hpostings := (Prod.mk.inj (Except.ok.inj hplan)).1
  exact hpostings ▸ fun i hi => (tradePostings_owner i hi).1

/-- The specs of all postings of the plans. -/
theorem mem_planSpecs {spec : AccountSpec} :
    spec ∈ plans.flatMap (fun p => p.postings.map PostingInput.spec) ↔
    ∃ p ∈ plans, ∃ i ∈ p.postings, i.spec = spec := by
  simp only [List.mem_flatMap, List.mem_map]

theorem lockBatchAccounts_ok (hl : Stored s.ledger)
    (hv : ∀ p ∈ plans, ∀ i ∈ p.postings, i.spec.Valid) :
    ∃ t, lockBatchAccounts s plans = .ok { s with ledger := t } ∧ Twin s.ledger t := by
  have hspecs : ∀ spec ∈ plans.flatMap (fun p => p.postings.map PostingInput.spec), spec.Valid :=
    fun spec hspec => by
    obtain ⟨p, hp, i, hi, rfl⟩ := mem_planSpecs.mp hspec
    exact hv p hp i hi
  obtain ⟨t, accounts, ht, -⟩ := ensureAccounts_ok hl.toProvisioned hspecs
  obtain ⟨bs, hbs⟩ := lockEnsured_ok hl.toProvisioned ht
  exact ⟨t, bind_eq_ok.mpr ⟨_, ht, bind_eq_ok.mpr ⟨bs, hbs, rfl⟩⟩, ensureAccounts_twin hl ht hspecs⟩

theorem lockBatchAccounts_twin (hl : Stored s.ledger)
    (howner : ∀ p ∈ plans, ∀ i ∈ p.postings, isSystemAccountType i.accountType =
      i.ownerUserID.isNone)
    (h : lockBatchAccounts s plans = .ok s') :
    ∃ t, s' = { s with ledger := t } ∧ Twin s.ledger t := by
  obtain ⟨⟨t, accounts⟩, ht, h⟩ := bind_eq_ok.mp h
  obtain ⟨bs, -, h⟩ := bind_eq_ok.mp h
  cases h
  refine ⟨t, rfl, ensureAccounts_twin hl ht fun spec hspec => ?_⟩
  obtain ⟨p, hp, i, hi, rfl⟩ := mem_planSpecs.mp hspec
  exact valid_of_ensureAccounts ht hspec (howner p hp i hi)

/-! ## The loop's ends -/

theorem numberedTrades_numbered (seq : Nat) (trades : List TradeRow) :
    numberedTrades seq (numberedTrades seq trades) = numberedTrades seq trades := by
  induction trades generalizing seq with
  | nil => rfl
  | cons t ts ih => simp only [numberedTrades, ih]

/-- Before its first trade the batch has inserted all of them and provisioned their accounts. -/
theorem looping_start (hins : Insertable s trades) (hn : (s.orders.map OrderRow.id).Nodup)
    (hlock : LockedRows s.orders orders (orderIDs (numberedTrades s.tradeSeq trades))) {t : Tables}
    (ht : Twin s.ledger t) :
    Looping s.orders s ⟨{ withTrades s trades with ledger := t }, orders, []⟩
      (numberedTrades s.tradeSeq trades) where
  ledger := ht
  store := by simp only [withTrades, length_numberedTrades]
  orders := (overlay_eq_self hn hlock.mem).symm
  copies c hc := ⟨c, hlock.mem c hc, .refl c⟩
  ids id := by
    rw [hlock.covers, mem_orderIDs]
    simp
  touched := .nil
  numbered := (numberedTrades_numbered _ _).symm
  events := by
    rw [map_numberedTrades (fun t => t.eventID) fun _ _ => rfl]
    exact hins.events

/-- Writing the fills of the touched orders gives the orders of the single settlements. -/
theorem Looping.finish (h : Looping base s run []) (hn : (base.map OrderRow.id).Nodup) :
    batchUpdateExecutions run.store (run.touched.filterMap fun id => run.orders.find? (·.id = id)) =
      .ok { s with ledger := run.store.ledger } := by
  have hids : ∀ id, id ∈ run.orders.map OrderRow.id ↔ id ∈ run.touched :=
    fun id => by simpa [tradeOrders] using h.ids id
  have htouched : ∀ id ∈ run.touched, id ∈ run.orders.map OrderRow.id :=
    fun id hid => (hids id).mpr hid
  have hbase : ∀ id ∈ run.touched, id ∈ base.map OrderRow.id := fun id hid => by
    obtain ⟨c, hc, rfl⟩ := List.mem_map.mp (htouched id hid)
    obtain ⟨o, ho, hterms⟩ := h.copies c hc
    exact hterms.eq_fields.1 ▸ List.mem_map_of_mem ho
  have hkeys := map_key_lookup htouched
  have horders : run.store.orders = base := by rw [h.store]
  have hcount : (run.store.orders.filter fun o => o.id ∈ (run.touched.filterMap fun id =>
      run.orders.find? (·.id = id)).map OrderRow.id).length =
      (run.touched.filterMap fun id => run.orders.find? (·.id = id)).length := by
    have hlen := congrArg List.length hkeys
    rw [List.length_map] at hlen
    rw [hkeys, hlen, horders, length_filter hn h.touched hbase]
  have hwritten : run.store.orders.map (fun o =>
      ((run.touched.filterMap fun id => run.orders.find? (·.id = id)).find? (·.id = o.id)).elim o
        fun u => setExecution u.filledAmount u.filledQuoteAmount u.status o) = s.orders := by
    rw [horders, h.orders]
    refine List.map_congr_left fun o ho => ?_
    by_cases hid : o.id ∈ run.touched
    · rw [find?_lookup htouched hid]
      cases hc : run.orders.find? (·.id = o.id) with
      | none => rfl
      | some c =>
        obtain ⟨hmem, hcid⟩ := of_find? hc
        obtain ⟨x, hx, hterms⟩ := h.copies c hmem
        rw [List.inj_on_of_nodup_map hn hx ho (hterms.eq_fields.1.symm.trans hcid)] at hterms
        exact Eq.symm hterms
    · rw [find?_eq_none.mpr (hkeys.symm ▸ hid), find?_eq_none.mpr fun hmem =>
        hid ((hids _).mp hmem)]
      rfl
  unfold batchUpdateExecutions
  rw [if_neg (not_not.mpr hcount), hwritten]
  have hstore := h.store
  rw [List.append_nil, List.length_nil, Nat.add_zero] at hstore
  rw [hstore]

/-! ## One by one -/

/-- `SettleTrade` on each trade in turn. -/
def Database.settleTrades :
    Database → List TradeBatchItem → Except DomainError (Database × List SettlementResult)
  | d, [] => .ok (d, [])
  | d, item :: items => do
    let (d, r) ← d.settleTrade item.trade item.outboxEventID
    let (d, rs) ← d.settleTrades items
    return (d, r :: rs)

variable {d d' : Database} {items items' : List TradeBatchItem} {x : Database × List TradeRow}

/-- The steps of a settlement on the caller's trade. -/
def prepareTrade (trade : TradeRow) : Except DomainError TradeRow :=
  prepareTradeForSettlement trade >>= applyTradeFeePolicy

theorem settleTrade_eq (trade : TradeRow) (outboxEventID : Nat) :
    d.settleTrade trade outboxEventID =
      (prepareTrade trade >>= fun trade => settlePrepared d.toStore trade >>= fun r =>
      .ok (markSettledOutbox { d with toStore := r.1 } outboxEventID, r.2)) := by
  unfold Database.settleTrade prepareTrade
  cases prepareTradeForSettlement trade with
  | error e => rfl
  | ok x =>
    simp only [bind, Except.bind]
    cases applyTradeFeePolicy x with
    | error e => rfl
    | ok y =>
      simp only [settlePrepared, findByKey]
      cases d.trades.find? (·.idempotencyKey = y.idempotencyKey) with
      | none =>
        simp only
        cases settleCreatedTrade d.toStore y <;> rfl
      | some existing =>
        simp only
        cases validateIdempotentTradePayload existing y <;> rfl

def Prepared (item item' : TradeBatchItem) : Prop :=
  prepareTrade item.trade = .ok item'.trade ∧ item'.outboxEventID = item.outboxEventID

theorem prepareItems_cons_ok {item : TradeBatchItem} {trade : TradeRow}
    (h : prepareTrade item.trade = .ok trade) :
    prepareItems (item :: items) =
      ({ item with trade := trade } :: (prepareItems items).1, (prepareItems items).2) := by
  obtain ⟨x, hx, hy⟩ := bind_eq_ok.mp h
  simp only [prepareItems, hx, hy]

theorem prepareItems_cons_error {item : TradeBatchItem} {e : DomainError}
    (h : prepareTrade item.trade = .error e) : (prepareItems (item :: items)).2 = .error e := by
  unfold prepareTrade at h
  cases hx : prepareTradeForSettlement item.trade with
  | error e' =>
    rw [hx] at h
    cases h
    simp only [prepareItems, hx]
  | ok x =>
    rw [hx] at h
    have hy : applyTradeFeePolicy x = .error e := h
    simp only [prepareItems, hx, hy]

theorem prepareItems_iff :
    prepareItems items = (items', .ok ()) ↔ List.Forall₂ Prepared items items' := by
  induction items generalizing items' with
  | nil =>
    rw [List.forall₂_nil_left_iff]
    simp [prepareItems, eq_comm]
  | cons item items ih =>
    rw [List.forall₂_cons_left_iff]
    cases hx : prepareTrade item.trade with
    | error e =>
      constructor
      · intro h
        have herror : (prepareItems (item :: items)).2 = .error e := prepareItems_cons_error hx
        rw [h] at herror
        cases herror
      · rintro ⟨item', -, hprep, -, -⟩
        exact absurd (hx.symm.trans hprep.1) (by simp)
    | ok trade =>
      rw [prepareItems_cons_ok hx]
      constructor
      · intro h
        obtain ⟨hitems, hok⟩ := Prod.mk.inj h
        exact ⟨{ item with trade := trade }, _, ⟨hx, rfl⟩, ih.mp (Prod.ext rfl hok), hitems.symm⟩
      · rintro ⟨item', rest, hprep, hrest, rfl⟩
        have htrade : item'.trade = trade := Except.ok.inj (hprep.1.symm.trans hx)
        rw [ih.mpr hrest, ← htrade, ← hprep.2]

/-- The rows that the ids name, marked. -/
def markRows (ids : List Nat) (outbox : List TradeOutboxEvent) : List TradeOutboxEvent :=
  outbox.map fun row => if row.id ∈ ids then setProcessed row else row

theorem mem_collectOutboxIDs :
    id ∈ collectOutboxIDs items ↔ id ≠ 0 ∧ ∃ item ∈ items, item.outboxEventID = id := by
  unfold collectOutboxIDs
  rw [List.mem_dedup, List.mem_filter, List.mem_map, decide_eq_true_iff, and_comm]

theorem nodup_collectOutboxIDs : (collectOutboxIDs items).Nodup := List.nodup_dedup _

/-- Marking one row and then the others. -/
theorem markRows_cons (item : TradeBatchItem) :
    markRows (collectOutboxIDs items) (markSettledOutbox d item.outboxEventID).outbox =
      markRows (collectOutboxIDs (item :: items)) d.outbox := by
  have hmem : ∀ id, id ∈ collectOutboxIDs (item :: items) ↔
      id ∈ collectOutboxIDs items ∨ (id ≠ 0 ∧ id = item.outboxEventID) := fun id => by
    simp only [mem_collectOutboxIDs, List.exists_mem_cons_iff]
    grind
  unfold markSettledOutbox
  split <;> rename_i hzero
  · refine List.map_congr_left fun row _ => ?_
    simp only [hmem, hzero]
    simp
  · unfold markRows Rows.modify
    rw [List.map_map]
    refine List.map_congr_left fun row _ => ?_
    by_cases hid : row.id = item.outboxEventID
    · have hne' : row.id ≠ 0 := hid ▸ hzero
      simp [hmem, hid, hzero, setProcessed]
    · simp [hmem, hid]

/-- Settling one by one marks the rows of all trades, and the store does not depend on it. -/
theorem settleTrades_iff {x : Database × List SettlementResult} : d.settleTrades items = .ok x ↔
    ∃ items', List.Forall₂ Prepared items items' ∧
      ∃ r, settleAll d.toStore (items'.map TradeBatchItem.trade) = .ok r ∧
        x = (⟨r.1, markRows (collectOutboxIDs items) d.outbox⟩, r.2) := by
  induction items generalizing d x with
  | nil =>
    have hmark : markRows (collectOutboxIDs []) d.outbox = d.outbox := by
      simp [markRows, collectOutboxIDs]
    simp only [Database.settleTrades, List.forall₂_nil_left_iff, hmark]
    constructor
    · intro h
      exact ⟨[], rfl, _, rfl, (Except.ok.inj h).symm⟩
    · rintro ⟨_, rfl, r, hr, rfl⟩
      cases hr
      rfl
  | cons item items ih =>
    have hstore : ∀ r : Store,
        (markSettledOutbox { d with toStore := r } item.outboxEventID).toStore = r := fun r => by
      unfold markSettledOutbox
      split <;> rfl
    simp only [Database.settleTrades, settleTrade_eq, bind_eq_ok]
    constructor
    · rintro ⟨q, ⟨trade, htrade, r, hr, hq⟩, y, hy, hx⟩
      cases hq
      obtain ⟨items', hprep, r', hr', rfl⟩ := ih.mp hy
      rw [hstore] at hr'
      refine ⟨⟨trade, item.outboxEventID⟩ :: items', .cons ⟨htrade, rfl⟩ hprep,
        (r'.1, r.2 :: r'.2), ?_, ?_⟩
      · exact bind_eq_ok.mpr ⟨r, hr, bind_eq_ok.mpr ⟨r', hr', rfl⟩⟩
      · rw [← Except.ok.inj hx, markRows_cons]
    · rintro ⟨_, hprep, r, hr, rfl⟩
      obtain ⟨item', items', hitem, hitems, rfl⟩ := List.forall₂_cons_left_iff.mp hprep
      obtain ⟨q, hq, hr⟩ := bind_eq_ok.mp hr
      obtain ⟨r', hr', hr⟩ := bind_eq_ok.mp hr
      refine ⟨_, ⟨item'.trade, hitem.1, q, hq, rfl⟩, _, ih.mpr ⟨items', hitems, r', ?_, rfl⟩, ?_⟩
      · rw [hstore]
        exact hr'
      · rw [markRows_cons]
        cases hr
        rfl

/-! ## What single settlements say about the batch -/

/-- A store that single settlements have led to. -/
structure Along (base : List OrderRow) (stored : List TradeRow) (s : Store) : Prop where
  ledger : Stored s.ledger
  orders : ∀ id o', s.orders.find? (·.id = id) = some o' → ∃ o, base.find? (·.id = id) = some o ∧
    SameTerms o o'
  trades : ∃ done, s.trades = stored ++ done

theorem find_writeFill {order o' : OrderRow}
    (h : (writeFill order orders).find? (·.id = id) = some o') :
    ∃ o, orders.find? (·.id = id) = some o ∧ ∀ x, SameTerms x o → SameTerms x o' := by
  have hkeep : ∀ y : OrderRow,
      (setExecution order.filledAmount order.filledQuoteAmount order.status y).id = y.id :=
    fun _ => rfl
  have hfind : (writeFill order orders).find? (·.id = id) = (orders.find? (·.id = id)).map fun y =>
      if y.id = order.id then setExecution order.filledAmount order.filledQuoteAmount order.status y
      else y :=
    find?_modify hkeep orders order.id id
  rw [hfind] at h
  obtain ⟨o, ho, rfl⟩ := Option.map_eq_some_iff.mp h
  refine ⟨o, ho, fun x hx => ?_⟩
  split
  · exact hx.set _ _ _
  · exact hx

/-- A trade settled alone has a plan over the first orders. -/
theorem Along.settle (h : Along base stored s) (hrow : row = { row with id := s.tradeSeq + 1 })
    (hs : settleNewTrade s row = .ok s') :
    (row.eventID ∉ s.trades.map fun t => t.eventID) ∧
    (∃ plan, Planned base row plan ∧ ∀ i ∈ plan.postings, i.spec.Valid) ∧
    Along base stored s' ∧ s'.trades = s.trades ++ [row] ∧ s'.tradeSeq = s.tradeSeq + 1 := by
  obtain ⟨hevent, b, c, plan, hb, hc, hterms, hplan⟩ := settleNewTrade_terms hs
  rw [settleNewTrade_eq hplan hevent hb hc hterms] at hs
  rw [← hrow] at hplan
  obtain ⟨fills, hfills, hbook⟩ := bind_eq_ok.mp hs
  obtain ⟨o, ho, hob⟩ := h.orders _ b hb
  obtain ⟨p, hp, hpc⟩ := h.orders _ c hc
  obtain ⟨s'', -, hbooked⟩ :=
    (bookTrade_agrees (s := withFills s plan.trade fills.1 fills.2) (Twin.refl h.ledger) rfl
    plan).1 s' hbook
  refine ⟨hevent, ⟨plan, ⟨o, p, ho, hp, hterms.same hob.symm hpc.symm, hplan⟩, ?_⟩,
    ⟨hbooked.ledger.left, ?_, ?_⟩, ?_, ?_⟩
  · obtain ⟨_, hrec, -⟩ := bind_eq_ok.mp hbook
    obtain ⟨_, hrec, -⟩ := bind_eq_ok.mp hrec
    exact h.ledger.valid_of_record hrec
  · intro id o' ho'
    rw [hbooked.left] at ho'
    obtain ⟨y, hy, hsame⟩ := find_writeFill ho'
    obtain ⟨x, hx, hsame'⟩ := find_writeFill hy
    obtain ⟨z, hz, hterms'⟩ := h.orders id x hx
    exact ⟨z, hz, hsame z (hsame' z hterms')⟩
  · obtain ⟨done, hdone⟩ := h.trades
    exact ⟨done ++ [plan.trade], by rw [hbooked.left, ← List.append_assoc, ← hdone]; rfl⟩
  · rw [hbooked.left, ← hplan]
    rfl
  · rw [hbooked.left]
    exact (congrArg TradeRow.id hplan).trans (congrArg TradeRow.id hrow)

/-- What the batch checks before its loop holds if the trades can be settled one by one. -/
theorem settleAll_plans (h : Along base stored s) (hzero : ∀ t ∈ trades, t.id = 0)
    (hfresh : Fresh (s.trades.map TradeRow.idempotencyKey)
      ((newTrades stored trades).map TradeRow.idempotencyKey))
    {r : Store × List SettlementResult} (hr : settleAll s trades = .ok r) :
    (∀ t ∈ trades, ∀ e, findByKey stored t = some e → validateIdempotentTradePayload e t = .ok ()) ∧
    Insertable s (newTrades stored trades) ∧
    ∃ plans, List.Forall₂ (Planned base)
      (numberedTrades s.tradeSeq (newTrades stored trades)) plans ∧
      ∀ p ∈ plans, ∀ i ∈ p.postings, i.spec.Valid := by
  induction trades generalizing s r with
  | nil => exact ⟨by simp, ⟨hfresh, .nil, by simp [newTrades]⟩, [], .nil, by simp⟩
  | cons x xs ih =>
    obtain ⟨q, hq, hr⟩ := bind_eq_ok.mp hr
    obtain ⟨r', hr', -⟩ := bind_eq_ok.mp hr
    obtain ⟨hzero₁, hzero'⟩ := List.forall_mem_cons.mp hzero
    obtain ⟨done, hdone⟩ := h.trades
    cases hx : findByKey stored x with
    | some e =>
      have hfind : findByKey s.trades x = some e := hdone ▸ findByKey_append hx done
      rw [newTrades_stored hx] at hfresh ⊢
      unfold settlePrepared at hq
      simp only [hfind] at hq
      obtain ⟨_, hvalid, hq⟩ := bind_eq_ok.mp hq
      cases hq
      obtain ⟨hdup, hrest⟩ := ih h hzero' hfresh hr'
      refine ⟨List.forall_mem_cons.mpr ⟨fun e' he' => ?_, hdup⟩, hrest⟩
      cases hx.symm.trans he'
      exact hvalid
    | none =>
      rw [newTrades_new hx] at hfresh ⊢
      obtain ⟨hkey, hfresh'⟩ := fresh_cons.mp hfresh
      have hfind : findByKey s.trades x = none := find?_eq_none.mpr hkey
      rw [settlePrepared_new hfind hzero₁] at hq
      obtain ⟨s', hs', hq⟩ := bind_eq_ok.mp hq
      cases hq
      obtain ⟨hevent, ⟨plan, hplan, hvalid⟩, halong, htrades, hseq⟩ := h.settle rfl hs'
      obtain ⟨hdup, hins, plans, hplans, hvalids⟩ :=
        ih halong hzero' (by rw [htrades, List.map_append]; exact hfresh') hr'
      have hwith : (withTrades s [x]).trades = s'.trades := htrades.symm
      refine ⟨List.forall_mem_cons.mpr ⟨fun e he => ?_, hdup⟩,
        insertable_cons.mpr ⟨⟨hkey, hevent⟩, ?_, ?_⟩,
        plan :: plans, .cons hplan (hseq ▸ hplans), List.forall_mem_cons.mpr ⟨hvalid, hvalids⟩⟩
      · cases hx.symm.trans he
      · exact hwith ▸ hins.keys
      · exact hwith ▸ hins.events

/-! ## The batch and the single settlements -/

/-- The constraints of the schema. -/
structure Database.Constrained (d : Database) : Prop where
  ledger : Stored d.ledger
  orders : (d.orders.map OrderRow.id).Nodup
  outbox : (d.outbox.map TradeOutboxEvent.id).Nodup

/-- The parts of a batch around its loop, as they stand when each of them has succeeded. -/
structure BatchParts (d : Database) (items : List TradeBatchItem) (orders : List OrderRow)
    (plans : List TradePlan) (t : Tables) : Prop where
  duplicates : ∀ trade ∈ items.map TradeBatchItem.trade, ∀ e, findByKey d.trades trade = some e →
    validateIdempotentTradePayload e trade = .ok ()
  insertable : Insertable d.toStore (newTrades d.trades (items.map TradeBatchItem.trade))
  locked : LockedRows d.orders orders
    (orderIDs (numberedTrades d.tradeSeq (newTrades d.trades (items.map TradeBatchItem.trade))))
  planned : List.Forall₂ (Planned d.orders)
    (numberedTrades d.tradeSeq (newTrades d.trades (items.map TradeBatchItem.trade))) plans
  ledger : Twin d.ledger t

/-- The loop of the batch succeeds if the single settlements do. -/
theorem BatchParts.loop {plans : List TradePlan} {t : Tables}
    (h : BatchParts d items orders plans t)
    (hd : d.Constrained) (hzero : ∀ item ∈ items, item.trade.id = 0) :
    Agrees (fun x run' => Looping d.orders x.1 run' [] ∧ x.2 = (items.map TradeBatchItem.trade).map
        (resultOf d.trades
          (numberedTrades d.tradeSeq (newTrades d.trades (items.map TradeBatchItem.trade)))))
      (settleAll d.toStore (items.map TradeBatchItem.trade))
      (plans.foldlM settleLocked
        ⟨{ withTrades d.toStore (newTrades d.trades (items.map TradeBatchItem.trade)) with
          ledger := t }, orders, []⟩) := by
  refine (looping_start h.insertable hd.orders h.locked h.ledger).all hd.orders ?_
    ⟨[], (List.append_nil _).symm⟩ ?_ h.duplicates rfl (List.Sublist.refl _) ?_ h.planned
  · rw [map_numberedTrades TradeRow.idempotencyKey fun _ _ => rfl]
    exact h.insertable.keys.1
  · exact List.forall_mem_map.mpr hzero
  · rw [map_numberedTrades TradeRow.idempotencyKey fun _ _ => rfl]
    exact h.insertable.keys

/-- Plans made from the locked rows are plans over the table. -/
theorem LockedRows.planned (h : LockedRows base orders (orderIDs rows)) :
    List.Forall₂ (Planned orders) rows plans ↔ List.Forall₂ (Planned base) rows plans := by
  have hrow : ∀ r ∈ rows, ∀ p, Planned orders r p ↔ Planned base r p := fun r hr p => by
    have hin : ∀ id, id = r.buyOrderID ∨ id = r.sellOrderID → id ∈ orderIDs rows := fun id hid =>
      mem_orderIDs.mpr (List.mem_flatMap.mpr ⟨r, hr, by simpa using hid⟩)
    unfold Planned
    rw [h.find _ (hin _ (.inl rfl)), h.find _ (hin _ (.inr rfl))]
  constructor
  · intro hp
    exact ((List.forall₂_and_left rows plans).mpr ⟨fun r hr => hr, hp⟩).imp fun r p hrp =>
      (hrow r hrp.1 p).mp hrp.2
  · intro hp
    exact ((List.forall₂_and_left rows plans).mpr ⟨fun r hr => hr, hp⟩).imp fun r p hrp =>
      (hrow r hrp.1 p).mpr hrp.2

theorem markSettledOutboxBatch_iff (hn : (d.outbox.map TradeOutboxEvent.id).Nodup)
    (hids : ids.Nodup) : markSettledOutboxBatch d ids = .ok d' ↔
      (∀ id ∈ ids, id ∈ d.outbox.map TradeOutboxEvent.id) ∧
      d' = { d with outbox := markRows ids d.outbox } := by
  unfold markSettledOutboxBatch
  constructor
  · intro h
    obtain ⟨hlen, h⟩ := guard_eq_ok.mp h
    cases h
    exact ⟨mem_of_length_filter hn (not_not.mp hlen), rfl⟩
  · rintro ⟨hmem, rfl⟩
    exact guard_eq_ok.mpr ⟨not_not.mpr (length_filter hn hids hmem), rfl⟩

theorem forM_duplicates {trades : List TradeRow} :
    (trades.forM fun trade => (findByKey d.trades trade).elim (.ok ())
      (validateIdempotentTradePayload · trade)) =
      .ok () ↔ ∀ trade ∈ trades, ∀ e, findByKey d.trades trade = some e →
        validateIdempotentTradePayload e trade = .ok () := by
  rw [forM_eq_ok]
  refine forall₂_congr fun trade _ => ?_
  cases findByKey d.trades trade <;> simp

theorem settleTradeBatchTx_parts (hd : d.Constrained)
    (h : settleTradeBatchTx d items = .ok x) :
    ∃ orders plans t run, BatchParts d items orders plans t ∧
      plans.foldlM settleLocked
        ⟨{ withTrades d.toStore (newTrades d.trades (items.map TradeBatchItem.trade)) with
        ledger := t }, orders, []⟩ = .ok run ∧
      ∃ s, batchUpdateExecutions run.store
      (run.touched.filterMap fun id => run.orders.find? (·.id = id)) = .ok s ∧
        x = (⟨s, markRows (collectOutboxIDs items) d.outbox⟩,
          numberedTrades d.tradeSeq (newTrades d.trades (items.map TradeBatchItem.trade))) := by
  obtain ⟨_, hdup, h⟩ := bind_eq_ok.mp h
  obtain ⟨⟨s₁, rows⟩, hcreate, h⟩ := bind_eq_ok.mp h
  obtain ⟨orders, hlock, h⟩ := bind_eq_ok.mp h
  obtain ⟨parties, hcheck, h⟩ := bind_eq_ok.mp h
  obtain ⟨plans, hplan, h⟩ := bind_eq_ok.mp h
  obtain ⟨s₂, haccounts, h⟩ := bind_eq_ok.mp h
  obtain ⟨run, hrun, h⟩ := bind_eq_ok.mp h
  obtain ⟨s₃, hwrite, h⟩ := bind_eq_ok.mp h
  obtain ⟨d₁, hmark, h⟩ := bind_eq_ok.mp h
  obtain ⟨hins, hrows⟩ := createTrades_iff.mp hcreate
  cases hrows
  obtain ⟨orders', hlock', hlocked⟩ :=
    lockByIDs_ok hd.orders nodup_orderIDs (mem_of_lockByIDs hd.orders hlock)
  cases hlock.symm.trans hlock'
  have hplanned := mapM_zip_eq_ok.mp ⟨parties, hcheck, hplan⟩
  have hplanned' : List.Forall₂ (Planned orders) (numberedTrades d.tradeSeq _) plans :=
    hplanned.imp fun r p hrp => planned_iff.mpr hrp
  have howner : ∀ p ∈ plans, ∀ i ∈ p.postings, isSystemAccountType i.accountType =
      i.ownerUserID.isNone :=
    fun p hp => by
      obtain ⟨r, -, hrp⟩ := forall₂_exists_left hplanned' hp
      exact hrp.owner
  obtain ⟨t, rfl, htwin⟩ :=
    lockBatchAccounts_twin (s := withTrades d.toStore _) hd.ledger howner haccounts
  obtain ⟨-, rfl⟩ :=
    (markSettledOutboxBatch_iff (d := { d with toStore := s₃ }) hd.outbox
      nodup_collectOutboxIDs).mp hmark
  cases h
  exact ⟨orders, plans, t, run,
    ⟨forM_duplicates.mp hdup, hins, hlocked, hlocked.planned.mp hplanned', htwin⟩, hrun, s₃,
    hwrite, rfl⟩

/-- The batch settles what the single settlements do. -/
theorem settleTradeBatchTx_settles (hd : d.Constrained) (hzero : ∀ item ∈ items, item.trade.id = 0)
    (h : settleTradeBatchTx d items = .ok x) :
    ∃ r t, settleAll d.toStore (items.map TradeBatchItem.trade) = .ok r ∧ Twin r.1.ledger t ∧
      x.1 = ⟨{ r.1 with ledger := t }, markRows (collectOutboxIDs items) d.outbox⟩ ∧
      r.2 = (items.map TradeBatchItem.trade).map (resultOf d.trades x.2) := by
  obtain ⟨orders, plans, t, run, hparts, hrun, s, hs, rfl⟩ := settleTradeBatchTx_parts hd h
  obtain ⟨r, hr, hloop, hres⟩ := (hparts.loop hd hzero).2 run hrun
  rw [hloop.finish hd.orders] at hs
  cases hs
  exact ⟨r, run.store.ledger, hr, hloop.ledger, rfl, hres⟩

/-- If the single settlements succeed, the new keys are distinct and the outbox rows are there, so
does the batch. -/
theorem settleTradeBatchTx_of_settleAll (hd : d.Constrained)
    (hzero : ∀ item ∈ items, item.trade.id = 0)
    (hkeys : ((newTrades d.trades (items.map TradeBatchItem.trade)).map
      TradeRow.idempotencyKey).Nodup)
    (houtbox : ∀ id ∈ collectOutboxIDs items, id ∈ d.outbox.map TradeOutboxEvent.id)
    {r : Store × List SettlementResult}
    (hr : settleAll d.toStore (items.map TradeBatchItem.trade) = .ok r) :
    ∃ x, settleTradeBatchTx d items = .ok x := by
  have halong : Along d.orders d.trades d.toStore :=
    ⟨hd.ledger, fun id o ho => ⟨o, ho, .refl o⟩, [], (List.append_nil _).symm⟩
  have hfresh : ∀ t ∈ newTrades d.trades (items.map TradeBatchItem.trade),
      t.idempotencyKey ∉ d.trades.map TradeRow.idempotencyKey := fun t ht =>
    find?_eq_none.mp (Option.isNone_iff_eq_none.mp (List.mem_filter.mp ht).2)
  obtain ⟨hdup, hins, plans, hplans, hvalid⟩ :=
    settleAll_plans halong (List.forall_mem_map.mpr hzero)
    ⟨hkeys, List.forall_mem_map.mpr hfresh⟩ hr
  -- every order of the new trades is there
  have horders : ∀ id ∈ orderIDs
      (numberedTrades d.tradeSeq (newTrades d.trades (items.map TradeBatchItem.trade))),
      id ∈ d.orders.map OrderRow.id := fun id hid => by
    obtain ⟨row, hrow, hid⟩ := List.mem_flatMap.mp (mem_orderIDs.mp hid)
    obtain ⟨p, -, o, o', ho, ho', -⟩ := forall₂_exists_right hplans hrow
    rcases List.mem_cons.mp hid with rfl | hid
    · exact mem_of_find? ho
    · exact List.mem_singleton.mp hid ▸ mem_of_find? ho'
  obtain ⟨orders, hlock, hlocked⟩ :=
    lockByIDs_ok (s := withTrades d.toStore _) hd.orders nodup_orderIDs horders
  obtain ⟨parties, hcheck, hplan⟩ :=
    mapM_zip_eq_ok.mpr ((hlocked.planned.mpr hplans).imp fun r p hrp => planned_iff.mp hrp)
  obtain ⟨t, haccounts, htwin⟩ :=
    lockBatchAccounts_ok (s := withTrades d.toStore _) hd.ledger hvalid
  have hparts : BatchParts d items orders plans t := ⟨hdup, hins, hlocked, hplans, htwin⟩
  obtain ⟨run, hrun, hloop, -⟩ := (hparts.loop hd hzero).1 r hr
  have hmark :=
    (markSettledOutboxBatch_iff (d := { d with toStore := { r.1 with ledger := run.store.ledger } })
      hd.outbox nodup_collectOutboxIDs).mpr ⟨houtbox, rfl⟩
  exact ⟨_, bind_eq_ok.mpr ⟨(), forM_duplicates.mpr hdup,
    bind_eq_ok.mpr ⟨_, createTrades_iff.mpr ⟨hins, rfl⟩,
    bind_eq_ok.mpr ⟨orders, hlock, bind_eq_ok.mpr ⟨parties, hcheck, bind_eq_ok.mpr ⟨plans, hplan,
      bind_eq_ok.mpr ⟨_, haccounts,
        bind_eq_ok.mpr ⟨run, hrun, bind_eq_ok.mpr ⟨_, hloop.finish hd.orders,
        bind_eq_ok.mpr ⟨_, hmark, rfl⟩⟩⟩⟩⟩⟩⟩⟩⟩⟩

/-- The keys of the items that are not stored yet. -/
def Database.newKeys (d : Database) (items : List TradeBatchItem) : List String :=
  (items.map fun item => settlementKey item.trade).filter fun key =>
    key ∉ d.trades.map TradeRow.idempotencyKey

/-- Databases that do not differ in orders, trades, balances, average prices and outbox marks. -/
structure SameTables (d d' : Database) : Prop where
  orders : d.orders = d'.orders
  trades : d.trades = d'.trades
  balances : ∀ k, balanceOf d.ledger k = balanceOf d'.ledger k
  stats : d.stats = d'.stats
  outbox : d.outbox = d'.outbox

theorem prepareTrade_keeps {trade trade' : TradeRow} (h : prepareTrade trade = .ok trade') :
    trade'.idempotencyKey = settlementKey trade ∧ trade'.id = trade.id ∧
    trade'.toTrade = trade.toTrade := by
  obtain ⟨x, hx, hy⟩ := bind_eq_ok.mp h
  obtain ⟨-, rfl⟩ := prepareTradeForSettlement_iff.mp hx
  exact applyTradeFeePolicy_keeps hy

theorem newTrades_keys (h : List.Forall₂ Prepared items items') :
    (newTrades d.trades (items'.map TradeBatchItem.trade)).map TradeRow.idempotencyKey =
      d.newKeys items := by
  have hkeys : items'.map (fun item => item.trade.idempotencyKey) = items.map fun item =>
      settlementKey item.trade := by
    induction h with
    | nil => rfl
    | cons hprep _ ih => rw [List.map_cons, List.map_cons, ih, (prepareTrade_keeps hprep.1).1]
  have hnone : ∀ t : TradeRow, (findByKey d.trades t).isNone =
      decide (t.idempotencyKey ∉ d.trades.map TradeRow.idempotencyKey) := fun t => by
    rw [Bool.eq_iff_iff, Option.isNone_iff_eq_none, decide_eq_true_iff]
    exact find?_eq_none
  unfold newTrades Database.newKeys
  rw [← hkeys, ← Function.comp_def TradeRow.idempotencyKey TradeBatchItem.trade, ← List.map_map]
  simp only [List.filter_map, hnone, Function.comp_def]

theorem collectOutboxIDs_prepared (h : List.Forall₂ Prepared items items') :
    collectOutboxIDs items' = collectOutboxIDs items := by
  have hsame : items'.map TradeBatchItem.outboxEventID =
      items.map TradeBatchItem.outboxEventID := by
    induction h with
    | nil => rfl
    | cons h _ ih => rw [List.map_cons, List.map_cons, ih, h.2]
  unfold collectOutboxIDs
  rw [hsame]

theorem resultOf_row (stored rows : List TradeRow) (item : TradeBatchItem) :
    batchResult stored { item with trade := (findByKey rows item.trade).getD item.trade } =
      resultOf stored rows item.trade := by
  have hkey : findByKey stored ((findByKey rows item.trade).getD item.trade) =
      findByKey stored item.trade := by
    have hsame : ((findByKey rows item.trade).getD item.trade).idempotencyKey =
        item.trade.idempotencyKey :=
      @key_overlay TradeRow String TradeRow.idempotencyKey _ rows item.trade
    unfold findByKey at hsame ⊢
    rw [hsame]
  cases hstored : findByKey stored item.trade with
  | none => simp [batchResult, resultOf, hkey, hstored]
  | some row => simp [batchResult, resultOf, hkey, hstored]

/-- The first loop does not touch the ids. -/
theorem prepareItems_ids (hzero : ∀ item ∈ items, item.trade.id = 0) :
    ∀ item ∈ (prepareItems items).1, item.trade.id = 0 := by
  induction items with
  | nil => simp [prepareItems]
  | cons item items ih =>
    obtain ⟨hitem, hitems⟩ := List.forall_mem_cons.mp hzero
    unfold prepareItems
    split
    · exact hzero
    · rename_i x hx
      obtain ⟨-, rfl⟩ := prepareTradeForSettlement_iff.mp hx
      split
      · exact List.forall_mem_cons.mpr ⟨hitem, hitems⟩
      · rename_i hy
        exact List.forall_mem_cons.mpr ⟨(applyTradeFeePolicy_keeps hy).2.1.trans hitem, ih hitems⟩

/-- What a batch that succeeds has done. -/
theorem settleTradeBatch_ok (hd : d.Constrained) (hzero : ∀ item ∈ items, item.trade.id = 0)
    {rs : List SettlementResult} (h : (d.settleTradeBatch items).result = .ok rs) :
    ∃ items' r t, List.Forall₂ Prepared items items' ∧
    settleAll d.toStore (items'.map TradeBatchItem.trade) = .ok r ∧
      r.2 = rs ∧ Twin r.1.ledger t ∧
      (d.settleTradeBatch items).database =
        ⟨{ r.1 with ledger := t }, markRows (collectOutboxIDs items) d.outbox⟩ := by
  unfold Database.settleTradeBatch at h ⊢
  split at h <;> rename_i hnil
  · subst hnil
    cases h
    refine ⟨[], (d.toStore, []), d.ledger, .nil, rfl, rfl, Twin.refl hd.ledger, ?_⟩
    simp [markRows, collectOutboxIDs]
  · rw [if_neg hnil]
    have hids := prepareItems_ids hzero
    cases hprep : prepareItems items with
    | mk items' res =>
      rw [hprep] at h hids
      cases res with
      | error e => cases h
      | ok _ =>
        have hprepared := prepareItems_iff.mp hprep
        cases htx : settleTradeBatchTx d items' with
        | error e =>
          simp only [htx] at h
          cases h
        | ok x =>
          simp only [htx] at h ⊢
          obtain ⟨r, t, hr, htwin, hx, hres⟩ := settleTradeBatchTx_settles hd hids htx
          refine ⟨items', r, t, hprepared, hr, ?_, htwin, ?_⟩
          · rw [hres, ← Except.ok.inj h, List.map_map, List.map_map]
            exact List.map_congr_left fun item _ => (resultOf_row d.trades x.2 item).symm
          · rw [hx, collectOutboxIDs_prepared hprepared]

/-- For trades without a row id: a batch that succeeds leaves the tables and results of the single
settlements in the same order; it succeeds if they do, the new keys are distinct and the outbox rows
are there; if it fails, the database is as it was and no trade has an id. -/
theorem settleTradeBatch_agrees (hd : d.Constrained) (hzero : ∀ item ∈ items, item.trade.id = 0) :
    (∀ rs, (d.settleTradeBatch items).result = .ok rs →
      ∃ d', d.settleTrades items = .ok (d', rs) ∧
      SameTables (d.settleTradeBatch items).database d') ∧
    ((∃ r, d.settleTrades items = .ok r) → (d.newKeys items).Nodup →
      (∀ item ∈ items, item.outboxEventID ≠ 0 →
        item.outboxEventID ∈ d.outbox.map TradeOutboxEvent.id) →
      ∃ rs, (d.settleTradeBatch items).result = .ok rs) ∧
    ∀ e, (d.settleTradeBatch items).result = .error e →
      (d.settleTradeBatch items).database = d ∧ ∀ item ∈ (d.settleTradeBatch items).items,
      item.trade.id = 0 := by
  refine ⟨fun rs hrs => ?_, ?_⟩
  · obtain ⟨items', r, t, hprepared, hr, rfl, htwin, hdb⟩ := settleTradeBatch_ok hd hzero hrs
    refine ⟨_, settleTrades_iff.mpr ⟨items', hprepared, r, hr, rfl⟩, ?_⟩
    rw [hdb]
    exact ⟨rfl, rfl, fun k => (htwin.balance k).symm, rfl, rfl⟩
  by_cases hnil : items = []
  · subst hnil
    exact ⟨fun _ _ _ => ⟨[], rfl⟩, nofun⟩
  unfold Database.settleTradeBatch
  rw [if_neg hnil]
  have hids := prepareItems_ids hzero
  cases hprep : prepareItems items with
  | mk items' res =>
    rw [hprep] at hids
    cases res with
    | error e =>
      refine ⟨fun ⟨r, hr⟩ => ?_, fun _ _ => ⟨rfl, hids⟩⟩
      obtain ⟨items'', hprep', -⟩ := settleTrades_iff.mp hr
      rw [prepareItems_iff.mpr hprep'] at hprep
      cases hprep
    | ok _ =>
      have hprepared := prepareItems_iff.mp hprep
      cases htx : settleTradeBatchTx d items' with
      | error e =>
        simp only [htx]
        refine ⟨fun ⟨r, hr⟩ hkeys houtbox => ?_, fun _ _ => ⟨trivial, fun item hitem => ?_⟩⟩
        · obtain ⟨items'', hprep', q, hq, -⟩ := settleTrades_iff.mp hr
          obtain rfl : items' = items'' :=
            congrArg Prod.fst (hprep.symm.trans (prepareItems_iff.mpr hprep'))
          obtain ⟨x, hx⟩ :=
            settleTradeBatchTx_of_settleAll hd hids (newTrades_keys hprepared ▸ hkeys)
            (fun id hid => by
              obtain ⟨hne, item, hitem, rfl⟩ :=
                mem_collectOutboxIDs.mp (collectOutboxIDs_prepared hprepared ▸ hid)
              exact houtbox item hitem hne) hq
          exact absurd (htx.symm.trans hx) (by simp)
        · obtain ⟨x, -, rfl⟩ := List.mem_map.mp hitem
          rfl
      | ok x =>
        simp only [htx]
        exact ⟨fun _ _ _ => ⟨_, rfl⟩, nofun⟩

/-- A buyer and two sellers. -/
def crossedTwice : Database where
  ledger := ⟨[⟨1, .userLocked, some 1, "KRW", false⟩, ⟨2, .userLocked, some 2, "BTC", false⟩,
    ⟨3, .userLocked, some 3, "BTC", false⟩], [⟨1, 2001 / 10, 0⟩, ⟨2, 1, 0⟩, ⟨3, 1, 0⟩], [],
    [], 3, 0, 0⟩
  orders := [⟨1, 1, 2, 0, "BTC", .buy, .pending, 0, 0, .limit, 100⟩,
    ⟨2, 2, 1, 0, "BTC", .sell, .pending, 0, 0, .limit, 90⟩,
    ⟨3, 3, 1, 0, "BTC", .sell, .pending, 0, 0, .limit, 100⟩]
  trades := []
  stats := []
  orderSeq := 3
  tradeSeq := 0
  outbox := [⟨7, .trade ⟨⟨1, 1⟩, "BTC", 90, 1, 1, 2⟩, .pending⟩,
    ⟨8, .trade ⟨⟨1, 2⟩, "BTC", 100, 1, 1, 3⟩, .pending⟩]

/-- The two trades of the buyer's order. -/
def bothTrades : List TradeBatchItem :=
  [⟨.ofTrade ⟨⟨1, 1⟩, "BTC", 90, 1, 1, 2⟩, 7⟩, ⟨.ofTrade ⟨⟨1, 2⟩, "BTC", 100, 1, 1, 3⟩, 8⟩]

theorem crossedTwice_constrained : crossedTwice.Constrained :=
  ⟨⟨⟨⟨by decide, by decide, by decide, by decide⟩, ⟨by decide, fun _ => Iff.rfl⟩⟩,
    by decide, by decide⟩, by decide, by decide⟩

theorem settleTradeBatch_agrees_bothTrades :
    ∃ rs d', (crossedTwice.settleTradeBatch bothTrades).result = .ok rs ∧
    rs.length = 2 ∧ crossedTwice.settleTrades bothTrades = .ok (d', rs) ∧
    SameTables (crossedTwice.settleTradeBatch bothTrades).database d' := by
  have hsingle : ((crossedTwice.settleTrades bothTrades).toOption.map fun r => r.2.length) =
      some 2 := by decide +kernel
  obtain ⟨hsame, hsucceeds, -⟩ :=
    settleTradeBatch_agrees crossedTwice_constrained (show ∀ item ∈ bothTrades, _ by decide)
  cases hr : crossedTwice.settleTrades bothTrades with
  | error e =>
    rw [hr] at hsingle
    cases hsingle
  | ok r =>
    obtain ⟨rs, hrs⟩ := hsucceeds ⟨r, hr⟩ (by decide) (by decide)
    obtain ⟨d', hd', hequal⟩ := hsame rs hrs
    rw [hd'] at hsingle
    exact ⟨rs, d', hrs, Option.some.inj hsingle, hr ▸ hd', hequal⟩

end GoExchange.Service
