import GoExchange.Failures
import GoExchange.SettlementEffect

/-!
# Delivery of trades to settlement

The trades of the engine reach settlement from the live pipeline, alone or in
a batch, from the outbox when it is replayed at boot, and from the failed
settlements that the retry worker takes up again. Whatever the mixture, each
of them is settled once.
-/
namespace GoExchange.Delivery

open Ledger Service Rows Fallible

/-! ## The model -/

/-- `memory` are the trades of the live pipeline, which settlement works on in place, and `told`
those of which an attempt has reported success. -/
structure State where
  database : Database
  failures : List FailedSettlement
  memory : List TradeBatchItem
  told : List Trade
  deriving DecidableEq, Repr

def init (d : Database) : State := ⟨d, [], [], []⟩

/-- Where an attempt has its trade from. -/
inductive Source where
  | live (outboxID : Nat)
  | replay (outboxID : Nat)
  | retry (key : String)
  deriving DecidableEq, Repr

inductive Label where
  | commit (outboxID : Nat) (trade : Trade)
  | attempt (source : Source) (fault : Option Fault) (rowID : Nat) (recorded : Bool)
  | batch (outboxIDs : List Nat) (fault : Option Fault)
  | handoff (outboxIDs : List Nat)
  | resolve (key : String)
  | mark (outboxID : Nat)
  | restart
  | lost (trades accounts journals postings : Nat)
  deriving DecidableEq, Repr

/-- The replay rebuilds a trade from its event, the retry worker from the failed settlement. -/
def State.trade? (s : State) : Source → Option TradeRow
  | .live id => (s.memory.find? (·.outboxEventID = id)).map TradeBatchItem.trade
  | .replay id =>
    ((s.database.outbox.find? (·.id = id)).filter (·.status = .pending)).bind fun row =>
      row.event.trade?.map TradeRow.ofTrade
  | .retry key =>
    ((s.failures.find? (·.tradeIdempotencyKey = key)).filter (·.isRetried)).map
      tradeFromFailedSettlement

/-- Only the live pipeline has its outbox row marked with the settlement. -/
def Source.outboxID : Source → Nat
  | .live id => id
  | _ => 0

/-- What a failed attempt leaves in the caller's struct: key, fees and the id of the row that was
rolled back. -/
def leftBehind (trade : TradeRow) (rowID : Nat) : TradeRow :=
  match prepareTrade trade with
  | .ok prepared => { prepared with id := rowID }
  | .error _ => trade

/-- The live pipeline forgets the trades that are settled. -/
def State.settled (s : State) (outboxIDs : List Nat) (trades : List Trade) : State :=
  { s with
    memory := s.memory.filter fun cell => cell.outboxEventID ∉ outboxIDs
    told := s.told ++ trades }

/-- `RecordFailure`, which may fail. -/
def State.record (s : State) (trade : TradeRow) (error : CallError) : State :=
  transact s (fun failures => { s with failures := failures })
    (recordSettlementFailure s.failures trade error)

def attempt (s : State) (source : Source) (fault : Option Fault) (rowID : Nat) (recorded : Bool) :
    Option State := do
  let trade ← s.trade? source
  let (d, reported) := call fault s.database (s.database.settleTrade trade source.outboxID)
  let s := { s with database := d }
  match reported with
  | .ok _ => return s.settled [source.outboxID] [trade.toTrade]
  | .error e =>
    let left := leftBehind trade rowID
    let s := { s with
      memory := modify TradeBatchItem.outboxEventID source.outboxID ({ · with trade := left })
        s.memory }
    return if recorded then s.record left e else s

/-- The live trades with these outbox rows. -/
def State.cells (s : State) (outboxIDs : List Nat) : Option (List TradeBatchItem) :=
  outboxIDs.mapM fun id => s.memory.find? (·.outboxEventID = id)

/-- A batch is made of trades that no transaction has given an id. -/
def batch (s : State) (outboxIDs : List Nat) (fault : Option Fault) : Option State := do
  let items ← s.cells outboxIDs
  if ∀ item ∈ items, item.trade.id = 0 then
    let outcome := s.database.settleTradeBatch items
    let (d, reported) := call fault s.database (outcome.result.map (outcome.database, ·))
    let s := { s with database := d }
    match reported with
    | .ok _ => return s.settled outboxIDs (items.map fun item => item.trade.toTrade)
    | .error _ => return { s with
      memory := overlay TradeBatchItem.outboxEventID (prepareItems items).1 s.memory }
  else none

def handoff (s : State) (outboxIDs : List Nat) : Option State := do
  let items ← s.cells outboxIDs
  match handoffBatch s.failures s.database.outbox items (.database .queryCanceled) with
  | .ok (failures, outbox) =>
    return { s with failures := failures, database := { s.database with outbox := outbox } }
  | .error _ => return s

def step (l : Label) (s : State) : Option State :=
  match l with
  | .commit outboxID trade =>
    if outboxID ≠ 0 ∧ outboxID ∉ s.database.outbox.map TradeOutboxEvent.id then
      some { s with
        database := { s.database with
          outbox := s.database.outbox ++ [⟨outboxID, .trade trade, .pending⟩] }
        memory := s.memory ++ [⟨.ofTrade trade, outboxID⟩] }
    else none
  | .attempt source fault rowID recorded => attempt s source fault rowID recorded
  | .batch outboxIDs fault => batch s outboxIDs fault
  | .handoff outboxIDs => handoff s outboxIDs
  | .resolve key => some { s with failures := resolveFailedSettlement s.failures key }
  | .mark outboxID => some { s with database := markSettledOutbox s.database outboxID }
  | .restart => some { s with memory := [] }
  | .lost t a j p =>
    let ledger := { s.database.ledger with
      accountSeq := s.database.ledger.accountSeq + a
      journalSeq := s.database.ledger.journalSeq + j
      postingSeq := s.database.ledger.postingSeq + p }
    some { s with database := { s.database with
      ledger := ledger, tradeSeq := s.database.tradeSeq + t } }

/-! ## What has been settled -/

section

variable {c : Trade → Prop} {d s s' : Store} {trade : Trade} {row : TradeRow} {n : Nat}

theorem settleNewTrade_stored (hl : Stored s.ledger) (h : settleNewTrade s row = .ok s') :
    Stored s'.ledger := by
  have halong : Along s.orders s.trades s :=
    ⟨hl, fun id o ho => ⟨o, ho, .refl o⟩, [], (List.append_nil _).symm⟩
  have hrow : settleNewTrade s { row with id := s.tradeSeq + 1 } = .ok s' := h
  exact (halong.settle rfl hrow).2.2.1.ledger

/-- The row may keep the id of an attempt that was rolled back. -/
theorem settleCreatedTrade_effect (hl : Stored s.ledger) (hn : (s.orders.map OrderRow.id).Nodup)
    (hkey : (JournalKey.trade row.idempotencyKey).text ∉
      s.ledger.journals.map JournalEntry.idempotencyKey)
    {r : Store × Nat} (h : settleCreatedTrade s row = .ok r) :
    Effect s r.1 [{ row with id := r.2 }] ∧ Stored r.1.ledger := by
  unfold settleCreatedTrade at h
  split at h
  · obtain ⟨s', hs', h⟩ := bind_eq_ok.mp h
    cases h
    exact ⟨settleNewTrade_effect hl.toProvisioned hn hkey hs', settleNewTrade_stored hl hs'⟩
  · rename_i hid
    obtain ⟨-, h⟩ := guard_eq_ok.mp h
    obtain ⟨s', hs', h⟩ := bind_eq_ok.mp h
    cases h
    have heffect := settleNewTrade_effect (s := { s with tradeSeq := row.id - 1 })
      hl.toProvisioned hn hkey hs'
    have hseq : row.id - 1 + 1 = row.id := by omega
    simp only [hseq] at heffect
    have hstored := settleNewTrade_stored (s := { s with tradeSeq := row.id - 1 }) hl hs'
    exact ⟨⟨heffect.provisioned, heffect.orders, heffect.trades, heffect.balances,
      heffect.journals⟩, hstored⟩

/-- Between the tables `d` and `s` nothing has happened but the settlement of trades with `c`, each
once. -/
structure Progress (c : Trade → Prop) (d s : Store) : Prop where
  ledger : Stored s.ledger
  orders : (s.orders.map OrderRow.id).Nodup
  keys : (s.trades.map TradeRow.idempotencyKey).Nodup
  journals : ∀ k, (JournalKey.trade k).text ∈ s.ledger.journals.map JournalEntry.idempotencyKey →
    k ∈ s.trades.map TradeRow.idempotencyKey
  effect : ∃ rows, Effect d s rows ∧ ∀ row ∈ rows, ∃ trade, c trade ∧ row = settledRow trade row.id

theorem Progress.add (h : Progress c d s) (hc : c trade)
    (hkey : engineKey trade.eventID ∉ s.trades.map TradeRow.idempotencyKey)
    (heffect : Effect s s' [settledRow trade n]) (hl : Stored s'.ledger) : Progress c d s' := by
  have htrades : s'.trades.map TradeRow.idempotencyKey =
      s.trades.map TradeRow.idempotencyKey ++ [engineKey trade.eventID] := by
    rw [heffect.trades, List.map_append]
    rfl
  obtain ⟨rows, hrows, hall⟩ := h.effect
  refine ⟨hl, ?_, ?_, fun k hk => ?_, rows ++ [settledRow trade n], hrows.trans heffect, ?_⟩
  · rw [heffect.orders, ids_executed]
    exact h.orders
  · rw [heffect.trades]
    exact nodup_concat h.keys hkey
  · rw [heffect.journals, List.mem_append] at hk
    rw [htrades, List.mem_append]
    refine hk.imp (h.journals k) fun hk => ?_
    cases JournalKey.text_injective (List.mem_singleton.mp hk)
    exact List.mem_singleton_self _
  · exact forall_mem_concat hall ⟨trade, hc, rfl⟩

/-- An attempt that succeeds settles the trade, or finds it settled. -/
theorem Progress.settle (h : Progress c d s) (hc : c trade) {r : Store × SettlementResult}
    (hr : settlePrepared s (settledRow trade n) = .ok r) :
    Progress c d r.1 ∧ s.trades ⊆ r.1.trades ∧
    ∃ row ∈ r.1.trades, row = settledRow trade row.id := by
  unfold settlePrepared at hr
  cases hfind : findByKey s.trades (settledRow trade n) with
  | some existing =>
    simp only [hfind] at hr
    obtain ⟨_, hvalid, hr⟩ := bind_eq_ok.mp hr
    cases hr
    refine ⟨h, List.Subset.refl _, existing, (of_find? hfind).1, ?_⟩
    obtain ⟨hsame, -⟩ := guard_eq_ok.mp hvalid
    exact not_not.mp hsame
  | none =>
    simp only [hfind] at hr
    obtain ⟨q, hq, hr⟩ := bind_eq_ok.mp hr
    cases hr
    have hkey : engineKey trade.eventID ∉ s.trades.map TradeRow.idempotencyKey :=
      find?_eq_none.mp hfind
    obtain ⟨heffect, hl⟩ :=
      settleCreatedTrade_effect h.ledger h.orders (fun hj => hkey (h.journals _ hj)) hq
    have hrow : ({ settledRow trade n with id := q.2 } : TradeRow) = settledRow trade q.2 := rfl
    rw [hrow] at heffect
    refine ⟨h.add hc hkey heffect hl, ?_, settledRow trade q.2, ?_, rfl⟩
    · rw [heffect.trades]
      exact List.subset_append_left _ _
    · rw [heffect.trades]
      exact List.mem_append_right _ (List.mem_singleton_self _)

theorem Progress.settleAll (h : Progress c d s) {rows : List TradeRow}
    (hrows : ∀ row ∈ rows, ∃ trade n, c trade ∧ row = settledRow trade n)
    {r : Store × List SettlementResult} (hr : settleAll s rows = .ok r) :
    Progress c d r.1 ∧ s.trades ⊆ r.1.trades ∧
      ∀ row ∈ rows, ∃ stored ∈ r.1.trades, stored = { row with id := stored.id } := by
  induction rows generalizing s r with
  | nil =>
    cases hr
    exact ⟨h, List.Subset.refl _, List.forall_mem_nil _⟩
  | cons row rows ih =>
    obtain ⟨⟨trade, n, hc, rfl⟩, hrest⟩ := List.forall_mem_cons.mp hrows
    obtain ⟨q, hq, hr⟩ := bind_eq_ok.mp hr
    obtain ⟨q', hq', hr⟩ := bind_eq_ok.mp hr
    cases hr
    obtain ⟨hprogress, hsub, stored, hmem, hstored⟩ := h.settle hc hq
    obtain ⟨hprogress', hsub', hall⟩ := ih hprogress hrest hq'
    exact ⟨hprogress', List.Subset.trans hsub hsub',
      List.forall_mem_cons.mpr ⟨⟨stored, hsub' hmem, hstored⟩, hall⟩⟩

/-- What a reader of orders, trades, balances and journals does not see does not matter. -/
theorem Progress.congr (h : Progress c d s) (hl : Stored s'.ledger) (horders : s'.orders = s.orders)
    (htrades : s'.trades = s.trades) (hbalance : ∀ k, balanceOf s'.ledger k = balanceOf s.ledger k)
    (hjournals : s'.ledger.journals = s.ledger.journals) : Progress c d s' := by
  obtain ⟨rows, hrows, hall⟩ := h.effect
  refine ⟨hl, horders ▸ h.orders, htrades ▸ h.keys, ?_, rows,
    hrows.congr hl.toProvisioned horders htrades hbalance hjournals, hall⟩
  rw [hjournals, htrades]
  exact h.journals

end

/-! ## The forms of a trade -/

/-- A trade of the engine that is known as `c`, as settlement may be handed it. -/
def Known (c : Trade → Prop) (row : TradeRow) : Prop := Delivered row ∧ c row.toTrade

section

variable {c : Trade → Prop} {row : TradeRow} {items : List TradeBatchItem}
  {failure : FailedSettlement} {failures : List FailedSettlement} {error : CallError}

theorem delivered_settledRow (trade : Trade) (id : Nat) : Delivered (settledRow trade id) :=
  ⟨.inr rfl, .inr rfl⟩

theorem Known.ofTrade {trade : Trade} (h : c trade) : Known c (.ofTrade trade) :=
  ⟨.ofTrade trade, h⟩

theorem Known.leftBehind (h : Known c row) (rowID : Nat) : Known c (leftBehind row rowID) := by
  unfold Delivery.leftBehind
  cases hprep : prepareTrade row with
  | error e => exact h
  | ok x =>
    obtain ⟨-, rfl⟩ := h.1.prepare_iff.mp hprep
    exact ⟨delivered_settledRow row.toTrade rowID, h.2⟩

theorem Known.keyed (h : Known c row) :
    Known c { row with idempotencyKey := settlementKey row } := by
  refine ⟨⟨.inr h.1.settlementKey_eq, h.1.fees.imp id fun hfees => ?_⟩, h.2⟩
  conv_lhs => rw [hfees]
  rfl

/-- The first loop of a batch. -/
theorem prepareItems_known (h : ∀ item ∈ items, Known c item.trade) :
    ∀ item ∈ (prepareItems items).1, Known c item.trade := by
  induction items with
  | nil => exact List.forall_mem_nil _
  | cons item items ih =>
    obtain ⟨hitem, hitems⟩ := List.forall_mem_cons.mp h
    cases hkey : prepareTradeForSettlement item.trade with
    | error e =>
      simp only [prepareItems, hkey]
      exact h
    | ok x =>
      obtain ⟨-, hx⟩ := prepareTradeForSettlement_iff.mp hkey
      cases hfees : applyTradeFeePolicy x with
      | error e =>
        simp only [prepareItems, hkey, hfees]
        exact List.forall_mem_cons.mpr ⟨hx ▸ hitem.keyed, hitems⟩
      | ok y =>
        simp only [prepareItems, hkey, hfees]
        obtain ⟨-, rfl⟩ := hitem.1.prepare_iff.mp (bind_eq_ok.mpr ⟨x, hkey, hfees⟩)
        exact List.forall_mem_cons.mpr ⟨⟨delivered_settledRow _ _, hitem.2⟩, ih hitems⟩

/-- The failed settlement keeps what a later attempt needs. -/
theorem Known.failed (h : Known c row) (hf : failedSettlementFromTrade row error = .ok failure) :
    Known c (tradeFromFailedSettlement failure) := by
  obtain ⟨-, -, hf⟩ := bind_eq_ok.mp hf
  cases hf
  refine ⟨⟨.inr h.1.settlementKey_eq, h.1.fees.imp id fun hfees => ?_⟩, h.2⟩
  simp only [tradeFromFailedSettlement, withDefaultFees, TradeRow.mk.injEq, true_and, and_true]
  exact ⟨congrArg TradeRow.feeRate hfees, congrArg TradeRow.buyerFee hfees,
    congrArg TradeRow.sellerFee hfees⟩

theorem insertFailedSettlement_known (h : ∀ f ∈ failures, Known c (tradeFromFailedSettlement f))
    (hf : Known c (tradeFromFailedSettlement failure)) :
    ∀ f ∈ insertFailedSettlement failures failure, Known c (tradeFromFailedSettlement f) := by
  intro f hmem
  rcases of_mem_upsert hmem with ⟨hold, -⟩ | rfl | ⟨old, hold, -, rfl⟩
  · exact h f hold
  · exact hf
  · exact h old hold

theorem recordSettlementFailure_known (h : ∀ f ∈ failures, Known c (tradeFromFailedSettlement f))
    (hrow : Known c row)
    {failures' : List FailedSettlement}
    (hr : recordSettlementFailure failures row error = .ok failures') :
    ∀ f ∈ failures', Known c (tradeFromFailedSettlement f) := by
  obtain ⟨failure, hfailure, hr⟩ := bind_eq_ok.mp hr
  cases hr
  exact insertFailedSettlement_known h (hrow.failed hfailure)

theorem handoffBatch_known (h : ∀ f ∈ failures, Known c (tradeFromFailedSettlement f))
    (hitems : ∀ item ∈ items, Known c item.trade) {outbox : List TradeOutboxEvent}
    {r : List FailedSettlement × List TradeOutboxEvent}
    (hr : handoffBatch failures outbox items error = .ok r) :
    (∀ f ∈ r.1, Known c (tradeFromFailedSettlement f)) ∧
      r.2.map TradeOutboxEvent.event = outbox.map TradeOutboxEvent.event ∧
      r.2.map TradeOutboxEvent.id = outbox.map TradeOutboxEvent.id := by
  obtain ⟨handoffs, hmap, hr⟩ := bind_eq_ok.mp hr
  obtain ⟨-, hr⟩ := guard_eq_ok.mp hr
  obtain ⟨_, -, hr⟩ := bind_eq_ok.mp hr
  obtain ⟨outbox', hmark, hr⟩ := bind_eq_ok.mp hr
  obtain ⟨-, hmark⟩ := guard_eq_ok.mp hmark
  cases hmark
  cases hr
  refine ⟨?_, ?_, ?_⟩
  · refine List.foldlRecOn (motive := fun fs => ∀ f ∈ fs, Known c (tradeFromFailedSettlement f)) _ _
      h fun fs hfs f hf => insertFailedSettlement_known hfs ?_
    obtain ⟨handoff, hhandoff, rfl⟩ := List.mem_map.mp hf
    obtain ⟨item, hitem, hfrom⟩ := forall₂_exists_left (mapM_eq_ok.mp hmap) hhandoff
    obtain ⟨failure, hfailure, heq⟩ := bind_eq_ok.mp hfrom
    cases heq
    exact (hitems item hitem).failed hfailure
  · rw [List.map_map]
    exact List.map_congr_left fun row _ => by simp only [Function.comp_apply]; split <;> rfl
  · rw [List.map_map]
    exact List.map_congr_left fun row _ => by simp only [Function.comp_apply]; split <;> rfl

end

/-! ## The invariant -/

/-- A trade with a row in the outbox. -/
def Committed (outbox : List TradeOutboxEvent) (trade : Trade) : Prop :=
  ExecutionEvent.trade trade ∈ outbox.map TradeOutboxEvent.event

structure Inv (d : Store) (s : State) : Prop where
  outbox : (s.database.outbox.map TradeOutboxEvent.id).Nodup
  progress : Progress (Committed s.database.outbox) d s.database.toStore
  told : ∀ trade ∈ s.told, ∃ row ∈ s.database.trades, row = settledRow trade row.id
  memory : ∀ cell ∈ s.memory, Known (Committed s.database.outbox) cell.trade
  failures : ∀ f ∈ s.failures, Known (Committed s.database.outbox) (tradeFromFailedSettlement f)

variable {d : Store} {s s' : State} {d' : Database} {trade : TradeRow} {items : List TradeBatchItem}
  {outboxIDs : List Nat}

theorem Inv.constrained (h : Inv d s) : s.database.Constrained :=
  ⟨h.progress.ledger, h.progress.orders, h.outbox⟩

/-- The tables change and the outbox keeps its events. -/
theorem Inv.tables (h : Inv d s)
    (hids : d'.outbox.map TradeOutboxEvent.id = s.database.outbox.map TradeOutboxEvent.id)
    (hevents : d'.outbox.map TradeOutboxEvent.event = s.database.outbox.map TradeOutboxEvent.event)
    (hprogress : Progress (Committed s.database.outbox) d d'.toStore)
    (hsub : s.database.trades ⊆ d'.trades) : Inv d { s with database := d' } := by
  have hc : Committed d'.outbox = Committed s.database.outbox := by
    funext t
    unfold Committed
    rw [hevents]
  refine ⟨hids ▸ h.outbox, hc ▸ hprogress, fun t ht => ?_, hc ▸ h.memory, hc ▸ h.failures⟩
  obtain ⟨row, hrow, heq⟩ := h.told t ht
  exact ⟨row, hsub hrow, heq⟩

theorem map_markRows (ids : List Nat) (outbox : List TradeOutboxEvent) :
    (markRows ids outbox).map TradeOutboxEvent.id = outbox.map TradeOutboxEvent.id ∧
      (markRows ids outbox).map TradeOutboxEvent.event = outbox.map TradeOutboxEvent.event := by
  unfold markRows
  rw [List.map_map, List.map_map]
  constructor
  · exact List.map_congr_left fun row _ => by simp only [Function.comp_apply]; split <;> rfl
  · exact List.map_congr_left fun row _ => by simp only [Function.comp_apply]; split <;> rfl

theorem map_markSettledOutbox (d : Database) (outboxID : Nat) :
    (markSettledOutbox d outboxID).outbox.map TradeOutboxEvent.id =
      d.outbox.map TradeOutboxEvent.id ∧
      (markSettledOutbox d outboxID).outbox.map TradeOutboxEvent.event =
        d.outbox.map TradeOutboxEvent.event ∧
      (markSettledOutbox d outboxID).toStore = d.toStore := by
  unfold markSettledOutbox
  split
  · exact ⟨rfl, rfl, rfl⟩
  · exact ⟨map_modify _ fun _ _ _ => rfl, map_modify _ fun _ _ _ => rfl, rfl⟩

theorem Inv.mark (h : Inv d s) (outboxID : Nat) :
    Inv d { s with database := markSettledOutbox s.database outboxID } := by
  obtain ⟨hids, hevents, hstore⟩ := map_markSettledOutbox s.database outboxID
  exact h.tables hids hevents (hstore ▸ h.progress) (by rw [hstore]; exact List.Subset.refl _)

/-- The tables after a transaction that settles. -/
structure Settling (d : Store) (s : State) (d' : Database) : Prop where
  events : d'.outbox.map TradeOutboxEvent.event = s.database.outbox.map TradeOutboxEvent.event
  inv : Inv d { s with database := d' }

theorem Settling.committed (h : Settling d s d') :
    Committed d'.outbox = Committed s.database.outbox := by
  funext t
  unfold Committed
  rw [h.events]

theorem Inv.settleTrade (h : Inv d s) (hk : Known (Committed s.database.outbox) trade)
    {outboxID : Nat}
    {r : SettlementResult} (hr : s.database.settleTrade trade outboxID = .ok (d', r)) :
    Settling d s d' ∧ ∃ row ∈ d'.trades, row = settledRow trade.toTrade row.id := by
  rw [settleTrade_eq] at hr
  obtain ⟨x, hx, hr⟩ := bind_eq_ok.mp hr
  obtain ⟨q, hq, hr⟩ := bind_eq_ok.mp hr
  cases hr
  obtain ⟨-, rfl⟩ := hk.1.prepare_iff.mp hx
  obtain ⟨hprogress, hsub, hrow⟩ := h.progress.settle hk.2 hq
  obtain ⟨hids, hevents, hstore⟩ :=
    map_markSettledOutbox { s.database with toStore := q.1 } outboxID
  refine ⟨⟨hevents, h.tables hids hevents (hstore ▸ hprogress) (by rw [hstore]; exact hsub)⟩, ?_⟩
  rw [hstore]
  exact hrow

theorem Inv.settleTradeBatch (h : Inv d s)
    (hk : ∀ item ∈ items, Known (Committed s.database.outbox) item.trade)
    (hzero : ∀ item ∈ items, item.trade.id = 0)
    {rs : List SettlementResult} (hr : (s.database.settleTradeBatch items).result = .ok rs) :
    Settling d s (s.database.settleTradeBatch items).database ∧
      ∀ item ∈ items, ∃ row ∈ (s.database.settleTradeBatch items).database.trades,
        row = settledRow item.trade.toTrade row.id := by
  obtain ⟨items', r, t, hprepared, hall, -, htwin, hdb⟩ :=
    settleTradeBatch_ok h.constrained hzero hr
  have hrows : ∀ row ∈ items'.map TradeBatchItem.trade, ∃ trade n,
      Committed s.database.outbox trade ∧ row = settledRow trade n := by
    intro row hrow
    obtain ⟨item', hitem', rfl⟩ := List.mem_map.mp hrow
    obtain ⟨item, hitem, hprep, -⟩ := forall₂_exists_left hprepared hitem'
    exact ⟨_, _, (hk item hitem).2, ((hk item hitem).1.prepare_iff.mp hprep).2⟩
  obtain ⟨hprogress, hsub, hstored⟩ := h.progress.settleAll hrows hall
  have hprogress' : Progress (Committed s.database.outbox) d { r.1 with ledger := t } :=
    hprogress.congr htwin.right rfl rfl (fun k => (htwin.balance k).symm) htwin.journals.symm
  obtain ⟨hids, hevents⟩ := map_markRows (collectOutboxIDs items) s.database.outbox
  rw [hdb]
  refine ⟨⟨hevents, h.tables hids hevents hprogress' hsub⟩, fun item hitem => ?_⟩
  obtain ⟨item', hitem', hprep, -⟩ := forall₂_exists_right hprepared hitem
  obtain ⟨row, hrow, heq⟩ := hstored item'.trade (List.mem_map_of_mem hitem')
  rw [((hk item hitem).1.prepare_iff.mp hprep).2] at heq
  exact ⟨row, hrow, heq⟩

/-! ## Every step keeps it -/

theorem Inv.known_trade (h : Inv d s) {source : Source} (ht : s.trade? source = some trade) :
    Known (Committed s.database.outbox) trade := by
  cases source with
  | live id =>
    obtain ⟨cell, hcell, rfl⟩ := Option.map_eq_some_iff.mp ht
    exact h.memory cell (of_find? hcell).1
  | replay id =>
    obtain ⟨row, hrow, ht⟩ := Option.bind_eq_some_iff.mp ht
    obtain ⟨hfind, -⟩ := Option.filter_eq_some_iff.mp hrow
    obtain ⟨t, hevent, rfl⟩ := Option.map_eq_some_iff.mp ht
    refine .ofTrade (List.mem_map.mpr ⟨row, (of_find? hfind).1, ?_⟩)
    cases hcase : row.event <;> rw [hcase] at hevent <;> cases hevent
    rfl
  | retry key =>
    obtain ⟨f, hf, rfl⟩ := Option.map_eq_some_iff.mp ht
    exact h.failures f (of_find? (Option.filter_eq_some_iff.mp hf).1).1

theorem Inv.settled (h : Inv d s) (outboxIDs : List Nat) {trades : List Trade}
    (ht : ∀ t ∈ trades, ∃ row ∈ s.database.trades, row = settledRow t row.id) :
    Inv d (s.settled outboxIDs trades) where
  outbox := h.outbox
  progress := h.progress
  told := fun t hmem => (List.mem_append.mp hmem).elim (h.told t) (ht t)
  memory := fun cell hcell => h.memory cell (List.mem_of_mem_filter hcell)
  failures := h.failures

theorem Inv.withMemory (h : Inv d s) {memory : List TradeBatchItem}
    (hm : ∀ cell ∈ memory, Known (Committed s.database.outbox) cell.trade) :
    Inv d { s with memory := memory } :=
  { h with memory := hm }

theorem Inv.withFailures (h : Inv d s) {failures : List FailedSettlement}
    (hf : ∀ f ∈ failures, Known (Committed s.database.outbox) (tradeFromFailedSettlement f)) :
    Inv d { s with failures := failures } :=
  { h with failures := hf }

theorem Inv.record (h : Inv d s) (hk : Known (Committed s.database.outbox) trade)
    (error : CallError) : Inv d (s.record trade error) :=
  transact_of h fun _ hr => h.withFailures (recordSettlementFailure_known h.failures hk hr)

theorem Inv.attempt (h : Inv d s) {source : Source} {fault : Option Fault} {rowID : Nat}
    {recorded : Bool} (ha : attempt s source fault rowID recorded = some s') : Inv d s' := by
  obtain ⟨trade, ht, ha⟩ := Option.bind_eq_some_iff.mp ha
  have hk := h.known_trade ht
  cases hcall : call fault s.database (s.database.settleTrade trade source.outboxID) with
  | mk d' reported =>
    simp only [hcall] at ha
    obtain ⟨hdatabase, hreported⟩ := call_spec hcall
    have hs : Settling d s d' := by
      rcases hdatabase with rfl | ⟨a, hx⟩
      · exact ⟨rfl, h⟩
      · exact (h.settleTrade hk hx).1
    cases reported with
    | ok a =>
      cases ha
      have hrow := (h.settleTrade hk (hreported a rfl)).2
      exact hs.inv.settled _ fun t hmem => by
        rw [List.mem_singleton.mp hmem]
        exact hrow
    | error e =>
      cases ha
      have hleft : Known (Committed d'.outbox) (leftBehind trade rowID) := by
        rw [hs.committed]
        exact hk.leftBehind rowID
      have hmemory : ∀ cell ∈ modify TradeBatchItem.outboxEventID source.outboxID
          ({ · with trade := leftBehind trade rowID }) s.memory,
          Known (Committed d'.outbox) cell.trade := by
        intro cell hcell
        rcases mem_modify.mp hcell with ⟨old, -, -, rfl⟩ | ⟨hold, -⟩
        · exact hleft
        · exact hs.inv.memory cell hold
      split
      · exact (hs.inv.withMemory hmemory).record hleft e
      · exact hs.inv.withMemory hmemory

theorem Inv.cells (h : Inv d s)
    (hc : s.cells outboxIDs = some items) :
    ∀ item ∈ items, Known (Committed s.database.outbox) item.trade := by
  induction outboxIDs generalizing items with
  | nil =>
    cases hc
    exact List.forall_mem_nil _
  | cons id ids ih =>
    unfold State.cells at hc
    rw [List.mapM_cons] at hc
    obtain ⟨cell, hcell, hc⟩ := Option.bind_eq_some_iff.mp hc
    obtain ⟨rest, hrest, hc⟩ := Option.bind_eq_some_iff.mp hc
    cases hc
    exact List.forall_mem_cons.mpr ⟨h.memory cell (of_find? hcell).1, ih hrest⟩

theorem Inv.batch (h : Inv d s) {fault : Option Fault}
    (hb : batch s outboxIDs fault = some s') : Inv d s' := by
  obtain ⟨items, hitems, hb⟩ := Option.bind_eq_some_iff.mp hb
  have hk := h.cells hitems
  obtain ⟨hzero, hb⟩ := Option.ite_none_right_eq_some.mp hb
  cases hcall : call fault s.database ((s.database.settleTradeBatch items).result.map
    ((s.database.settleTradeBatch items).database, ·)) with
  | mk d' reported =>
    simp only [hcall] at hb
    obtain ⟨hdatabase, hreported⟩ := call_spec hcall
    have hbatch : ∀ a, ((s.database.settleTradeBatch items).result.map
        ((s.database.settleTradeBatch items).database, ·)) = .ok (d', a) →
        Settling d s d' ∧ ∀ item ∈ items, ∃ row ∈ d'.trades,
        row = settledRow item.trade.toTrade row.id := by
      intro a ha
      cases hr : (s.database.settleTradeBatch items).result with
      | error e =>
        rw [hr] at ha
        cases ha
      | ok rs =>
        rw [hr] at ha
        cases ha
        exact h.settleTradeBatch hk hzero hr
    have hs : Settling d s d' := by
      rcases hdatabase with rfl | ⟨a, hx⟩
      · exact ⟨rfl, h⟩
      · exact (hbatch a hx).1
    cases reported with
    | ok a =>
      cases hb
      obtain ⟨-, hrows⟩ := hbatch a (hreported a rfl)
      exact hs.inv.settled _ fun t hmem => by
        obtain ⟨item, hitem, rfl⟩ := List.mem_map.mp hmem
        exact hrows item hitem
    | error e =>
      cases hb
      exact hs.inv.withMemory fun cell hcell => by
        obtain ⟨old, hold, rfl⟩ := List.mem_map.mp hcell
        cases hfind : (prepareItems items).1.find? (·.outboxEventID = old.outboxEventID) with
        | none => exact hs.inv.memory old hold
        | some new =>
          have hnew := prepareItems_known hk new (of_find? hfind).1
          rw [← hs.committed] at hnew
          exact hnew

theorem Inv.handoff (h : Inv d s) (hh : handoff s outboxIDs = some s') : Inv d s' := by
  obtain ⟨items, hitems, hh⟩ := Option.bind_eq_some_iff.mp hh
  cases hr : handoffBatch s.failures s.database.outbox items (.database .queryCanceled) with
  | error e =>
    simp only [hr] at hh
    cases hh
    exact h
  | ok r =>
    simp only [hr] at hh
    cases hh
    obtain ⟨hfailures, hevents, hids⟩ := handoffBatch_known h.failures (h.cells hitems) hr
    have htables : Inv d { s with database := { s.database with outbox := r.2 } } :=
      h.tables hids hevents h.progress (List.Subset.refl _)
    refine htables.withFailures fun f hf => ?_
    have hc : Committed r.2 = Committed s.database.outbox := by
      funext t
      unfold Committed
      rw [hevents]
    exact hc ▸ hfailures f hf

theorem Inv.commit (h : Inv d s) {outboxID : Nat} (t : Trade)
    (hnew : outboxID ∉ s.database.outbox.map TradeOutboxEvent.id) :
    Inv d { s with
      database := { s.database with
        outbox := s.database.outbox ++ [⟨outboxID, .trade t, .pending⟩] }
      memory := s.memory ++ [⟨.ofTrade t, outboxID⟩] } := by
  have hevents : ∀ t', Committed (s.database.outbox ++ [⟨outboxID, .trade t, .pending⟩]) t' ↔
      Committed s.database.outbox t' ∨ t' = t := by
    simp [Committed]
  have hold : ∀ t', Committed s.database.outbox t' →
      Committed (s.database.outbox ++ [⟨outboxID, .trade t, .pending⟩]) t' :=
    fun t' ht' => (hevents t').mpr (.inl ht')
  obtain ⟨rows, heffect, hrows⟩ := h.progress.effect
  refine ⟨nodup_concat h.outbox hnew, { h.progress with effect := ⟨rows, heffect, ?_⟩ }, h.told,
    forall_mem_concat (fun cell hcell => ?_) (.ofTrade ((hevents t).mpr (.inr rfl))),
    fun f hf => ?_⟩
  · intro row hrow
    obtain ⟨t', ht', heq⟩ := hrows row hrow
    exact ⟨t', hold t' ht', heq⟩
  · exact ⟨(h.memory cell hcell).1, hold _ (h.memory cell hcell).2⟩
  · exact ⟨(h.failures f hf).1, hold _ (h.failures f hf).2⟩

theorem Inv.step (h : Inv d s) {l : Label} (hs : step l s = some s') : Inv d s' := by
  cases l with
  | commit outboxID t =>
    obtain ⟨⟨-, hnew⟩, rfl⟩ := Lts.of_enabled hs
    exact h.commit t hnew
  | attempt source fault rowID recorded => exact h.attempt hs
  | batch outboxIDs fault => exact h.batch hs
  | handoff outboxIDs => exact h.handoff hs
  | resolve key =>
    cases hs
    refine h.withFailures fun f hf => ?_
    rcases mem_modify.mp hf with ⟨old, hold, -, rfl⟩ | ⟨hold, -⟩
    · exact h.failures old hold
    · exact h.failures f hold
  | mark outboxID =>
    cases hs
    exact h.mark outboxID
  | restart =>
    cases hs
    exact h.withMemory (List.forall_mem_nil _)
  | lost t a j p =>
    cases hs
    have hl := h.progress.ledger.sequences a j p
    exact h.tables rfl rfl (h.progress.congr hl rfl rfl (fun _ => rfl) rfl) (List.Subset.refl _)

variable {d : Database}

theorem inv_init (hd : d.Constrained) (hkeys : (d.trades.map TradeRow.idempotencyKey).Nodup)
    (hjournals : ∀ k, (JournalKey.trade k).text ∈
      d.ledger.journals.map JournalEntry.idempotencyKey →
      k ∈ d.trades.map TradeRow.idempotencyKey) : Inv d.toStore (init d) where
  outbox := hd.outbox
  progress := ⟨hd.ledger, hd.orders, hkeys, hjournals, [], .refl hd.ledger.toProvisioned,
    List.forall_mem_nil _⟩
  told := List.forall_mem_nil _
  memory := List.forall_mem_nil _
  failures := List.forall_mem_nil _

/-! ## A key that is taken -/

/-- The trade would be settled under the key of a stored row and differs from it in more than the
id. -/
structure Conflicts (d : Database) (trade : TradeRow) : Prop where
  taken : settlementKey trade ∈ d.trades.map TradeRow.idempotencyKey
  differs : ∀ stored ∈ d.trades, stored.idempotencyKey = settlementKey trade →
    ∀ x, prepareTrade trade = .ok x → stored ≠ { x with id := stored.id }

theorem Conflicts.refused (h : Conflicts d trade) {x : TradeRow} (hx : prepareTrade trade = .ok x) :
    ∃ stored e, findByKey d.trades x = some stored ∧
    validateIdempotentTradePayload stored x = .error e := by
  have hkey := (prepareTrade_keeps hx).1
  cases hfind : findByKey d.trades x with
  | none => exact absurd (hkey ▸ h.taken) (find?_eq_none.mp hfind)
  | some stored =>
    obtain ⟨hmem, hstored⟩ := of_find? hfind
    exact ⟨stored, _, rfl, if_pos (h.differs stored hmem (hstored.trans hkey) x hx)⟩

theorem Conflicts.settleTrade (h : Conflicts d trade) (outboxID : Nat) :
    ∃ e, d.settleTrade trade outboxID = .error e := by
  rw [settleTrade_eq]
  cases hx : prepareTrade trade with
  | error e => exact ⟨e, rfl⟩
  | ok x =>
    obtain ⟨stored, e, hfind, hvalid⟩ := h.refused hx
    refine ⟨e, ?_⟩
    simp only [bind, Except.bind, settlePrepared, hfind, hvalid]

/-- A batch with such a trade fails as a whole. -/
theorem Conflicts.settleTradeBatch {item : TradeBatchItem}
    (h : Conflicts d item.trade) (hitem : item ∈ items) :
    (∃ e, (d.settleTradeBatch items).result = .error e) ∧
    (d.settleTradeBatch items).database = d := by
  unfold Database.settleTradeBatch
  rw [if_neg (List.ne_nil_of_mem hitem)]
  cases hprep : prepareItems items with
  | mk items' res =>
    cases res with
    | error e => exact ⟨⟨e, rfl⟩, rfl⟩
    | ok _ =>
      cases htx : settleTradeBatchTx d items' with
      | error e =>
        simp only [htx]
        exact ⟨⟨e, rfl⟩, trivial⟩
      | ok x =>
        obtain ⟨_, hvalid, -⟩ := bind_eq_ok.mp htx
        obtain ⟨item', hitem', hx, -⟩ := forall₂_exists_right (prepareItems_iff.mp hprep) hitem
        obtain ⟨stored, e, hfind, herror⟩ := h.refused hx
        have hok := forM_duplicates.mp hvalid item'.trade (List.mem_map_of_mem hitem') stored hfind
        rw [herror] at hok
        cases hok

/-! ## Every delivery settles once -/

/-- However the trades are delivered, the tables are the first ones with the trades of some new rows
applied, no two rows have one key, every trade with a successful attempt has its row, and an attempt
under a taken key with another payload fails and changes nothing. -/
theorem trades_settled_once (d : Database) (hd : d.Constrained)
    (hkeys : (d.trades.map TradeRow.idempotencyKey).Nodup)
    (hjournals : ∀ k, (JournalKey.trade k).text ∈
      d.ledger.journals.map JournalEntry.idempotencyKey → k ∈ d.trades.map TradeRow.idempotencyKey)
    {s : State} (h : Lts.Reach step Lts.free (init d) s) :
    (∃ rows, s.database.trades = d.trades ++ rows ∧
      s.database.orders = d.orders.map (executed rows) ∧
      (∀ k, balanceOf s.database.ledger k =
        balanceOf d.ledger k + (rows.map (movedBy d.orders k)).sum) ∧
      ∀ row ∈ rows, ∃ trade, Committed s.database.outbox trade ∧ row = settledRow trade row.id) ∧
    (s.database.trades.map TradeRow.idempotencyKey).Nodup ∧
    (∀ trade ∈ s.told, ∃ row ∈ s.database.trades, row = settledRow trade row.id) ∧
    (∀ trade, Conflicts s.database trade →
      ∀ outboxID, ∃ e, s.database.settleTrade trade outboxID = .error e) ∧
    ∀ items, ∀ item ∈ items, Conflicts s.database item.trade →
      (∃ e, (s.database.settleTradeBatch items).result = .error e) ∧
        (s.database.settleTradeBatch items).database = s.database := by
  have hinv : Inv d.toStore s :=
    h.invariant (Inv d.toStore) (inv_init hd hkeys hjournals) fun _ _ _ _ hi _ hs => hi.step hs
  obtain ⟨rows, heffect, hrows⟩ := hinv.progress.effect
  refine ⟨⟨rows, heffect.trades, heffect.orders, heffect.balances, hrows⟩, hinv.progress.keys,
    hinv.told, ?_, ?_⟩
  · intro trade hc outboxID
    exact hc.settleTrade outboxID
  · intro items item hitem hc
    exact hc.settleTradeBatch hitem

/-- The batch fails and so does the trade alone; after a crash the replay's answer is lost, and the
retry worker finds the trade settled. -/
def crossedDelivery : List Label :=
  [.commit 9 ⟨⟨1, 1⟩, "BTC", 90, 1, 1, 2⟩, .batch [9] (some (.failed .lockNotAvailable)),
    .attempt (.live 9) (some (.failed .deadlockDetected)) 4 true, .restart,
    .attempt (.replay 9) (some (.unanswered .serializationFailure)) 0 false,
    .attempt (.retry "engine:1-1") none 0 false]

theorem trades_settled_once_crossedDelivery :
    ∃ s, Lts.exec step crossedDelivery (init crossedTwice) = some s ∧
    s.told = [⟨⟨1, 1⟩, "BTC", 90, 1, 1, 2⟩] ∧
    (∃ rows, s.database.trades = crossedTwice.trades ++ rows ∧
      s.database.orders = crossedTwice.orders.map (executed rows)) ∧
    ∀ trade ∈ s.told, ∃ row ∈ s.database.trades, row = settledRow trade row.id := by
  have hrun : (Lts.exec step crossedDelivery (init crossedTwice)).map State.told =
      some [⟨⟨1, 1⟩, "BTC", 90, 1, 1, 2⟩] := by decide +kernel
  obtain ⟨s, hs, htold⟩ := Option.map_eq_some_iff.mp hrun
  obtain ⟨⟨rows, htrades, horders, -⟩, -, hstored, -⟩ :=
    trades_settled_once crossedTwice crossedTwice_constrained .nil nofun (Lts.reach_of_exec _ hs)
  exact ⟨s, hs, htold, ⟨rows, htrades, horders⟩, hstored⟩

end GoExchange.Delivery
