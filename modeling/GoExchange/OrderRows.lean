import GoExchange.Delivery

/-!
# The rows of orders

What the transactions of settlement, completion, cancellation and rejection do
to the table of orders: a row keeps its terms, its fills only grow, and a row
with a final status is not written again.
-/
namespace GoExchange.Service

open Ledger Rows Fallible

/-- FILLED, CANCELLED and REJECTED. -/
def isClosedOrderStatus (status : OrderStatus) : Bool :=
  status == .filled || status == .cancelled || status == .rejected

theorem isClosedOrderStatus_eq_false {status : OrderStatus}
    (h : isCancellableOrderStatus status = true) : isClosedOrderStatus status = false := by
  cases status <;> first | rfl | cases h

/-! ## One row -/

/-- What the fills of a row may be, and when it is FILLED. -/
structure SoundRow (o : OrderRow) : Prop where
  known : o.status ≠ .unknown
  fits : Fits o o.filledAmount o.filledQuoteAmount
  filled : ¬ (o.orderType = .market ∧ o.side = .buy) →
    (o.status = .filled ↔ o.filledAmount = o.amount)

variable {o : OrderRow}

theorem SameTerms.trans {p q : OrderRow} (h : SameTerms o p) (h' : SameTerms p q) :
    SameTerms o q := by
  unfold SameTerms at h h' ⊢
  rw [h'.trans (congrArg _ h)]
  rfl

/-- A row and what it may become. -/
structure Evolves (o o' : OrderRow) : Prop where
  terms : SameTerms o o'
  amount : o.filledAmount ≤ o'.filledAmount
  quote : o.filledQuoteAmount ≤ o'.filledQuoteAmount
  closed : isClosedOrderStatus o.status = true → o' = o
  sound : SoundRow o → SoundRow o'

theorem Evolves.refl (o : OrderRow) : Evolves o o :=
  ⟨.refl o, le_refl _, le_refl _, fun _ => rfl, id⟩

theorem Evolves.trans {p q : OrderRow} (h : Evolves o p) (h' : Evolves p q) : Evolves o q where
  terms := h.terms.trans h'.terms
  amount := h.amount.trans h'.amount
  quote := h.quote.trans h'.quote
  closed hc := by
    have hp := h.closed hc
    rw [hp] at h'
    exact h'.closed hc
  sound hs := h'.sound (h.sound hs)

theorem Evolves.id_eq {o' : OrderRow} (h : Evolves o o') : o'.id = o.id := h.terms.eq_fields.1

/-- A trade fills an open row that has room for it. -/
theorem evolves_fill {quantity quote : Decimal} (hq : 0 < quantity) (hv : 0 < quote)
    (hopen : isCancellableOrderStatus o.status = true)
    (hfits : Fits o (o.filledAmount + quantity) (o.filledQuoteAmount + quote)) :
    Evolves o (setExecution (o.filledAmount + quantity) (o.filledQuoteAmount + quote)
      (fillStatus o (o.filledAmount + quantity) (o.filledQuoteAmount + quote)) o) where
  terms := (SameTerms.refl o).set _ _ _
  amount := le_add_of_nonneg_right hq.le
  quote := le_add_of_nonneg_right hv.le
  closed hc := by
    rw [isClosedOrderStatus_eq_false hopen] at hc
    cases hc
  sound _ := by
    constructor
    · exact (fillStatus_ne _ _ _).1
    · exact hfits
    · intro hm
      have hm' : ¬ (o.orderType = .market ∧ o.side = .buy) := hm
      simp only [setExecution, fillStatus, if_neg hm']
      split <;> simp [*]

/-- A status is written to an open row with its fills as they are. -/
theorem evolves_close {st : OrderStatus} (hclosed : isClosedOrderStatus o.status = false)
    (hst : st ≠ .unknown)
    (hfilled : SoundRow o → ¬ (o.orderType = .market ∧ o.side = .buy) →
      (st = .filled ↔ o.filledAmount = o.amount)) :
    Evolves o (setExecution o.filledAmount o.filledQuoteAmount st o) where
  terms := (SameTerms.refl o).set _ _ _
  amount := le_refl _
  quote := le_refl _
  closed hc := by
    rw [hclosed] at hc
    cases hc
  sound hs := ⟨hst, hs.fits, fun hm => hfilled hs hm⟩

/-- An open row that is not FILLED for a reason other than its fills. -/
theorem SoundRow.unfilled (h : SoundRow o) (hopen : isCancellableOrderStatus o.status = true)
    (hm : ¬ (o.orderType = .market ∧ o.side = .buy)) : o.filledAmount < o.amount := by
  have hfits := h.fits
  unfold Fits at hfits
  rw [if_neg hm] at hfits
  apply lt_of_le_of_ne hfits
  intro he
  rw [(h.filled hm).mpr he] at hopen
  cases hopen

/-! ## The table -/

/-- Only rows that `named` picks are written, every row evolves and none is rejected. -/
def Touches (named : Nat → Prop) : List OrderRow → List OrderRow → Prop :=
  List.Forall₂ fun o o' => Evolves o o' ∧ (o' = o ∨ named o.id ∧ o'.status ≠ .rejected)

section Touches

variable {named named' : Nat → Prop} {orders orders' orders'' : List OrderRow} {o o' : OrderRow}

theorem Touches.refl (named : Nat → Prop) (orders : List OrderRow) : Touches named orders orders :=
  List.forall₂_same.mpr fun o _ => ⟨.refl o, .inl rfl⟩

theorem Touches.trans (h : Touches named orders orders') (h' : Touches named' orders' orders'') :
    Touches (fun id => named id ∨ named' id) orders orders'' := by
  induction h generalizing orders'' with
  | nil =>
    cases h'
    exact .nil
  | cons ho hos ih =>
    cases h' with
    | cons hp hps =>
      refine .cons ⟨ho.1.trans hp.1, ?_⟩ (ih hps)
      rcases hp.2 with hp' | ⟨hp', hst⟩
      · rcases ho.2 with ho' | ⟨ho', hst⟩
        · exact .inl (hp'.trans ho')
        · exact .inr ⟨.inl ho', hp'.symm ▸ hst⟩
      · exact .inr ⟨.inr (ho.1.id_eq ▸ hp'), hst⟩

theorem Touches.mono (h : Touches named orders orders') (hle : ∀ id, named id → named' id) :
    Touches named' orders orders' :=
  h.imp fun _ _ hoo => ⟨hoo.1, hoo.2.imp_right fun hn => ⟨hle _ hn.1, hn.2⟩⟩

theorem Touches.ids (h : Touches named orders orders') :
    orders'.map OrderRow.id = orders.map OrderRow.id := by
  induction h with
  | nil => rfl
  | cons ho _ ih => rw [List.map_cons, List.map_cons, ho.1.id_eq, ih]

theorem Touches.after (h : Touches named orders orders') (ho : o ∈ orders) :
    ∃ o' ∈ orders', Evolves o o' ∧ (o' = o ∨ named o.id ∧ o'.status ≠ .rejected) :=
  forall₂_exists_right h ho

theorem Touches.before (h : Touches named orders orders') (ho : o' ∈ orders') :
    ∃ o ∈ orders, Evolves o o' ∧ (o' = o ∨ named o.id ∧ o'.status ≠ .rejected) :=
  forall₂_exists_left h ho

theorem Touches.kept (h : Touches named orders orders') (ho : o ∈ orders) (hn : ¬ named o.id) :
    o ∈ orders' := by
  obtain ⟨o', ho', -, hsame⟩ := h.after ho
  rcases hsame with rfl | ⟨hyes, -⟩
  · exact ho'
  · exact absurd hyes hn

/-- One row is written. -/
theorem touches_modify (hn : (orders.map OrderRow.id).Nodup) (ho : o ∈ orders)
    {g : OrderRow → OrderRow}
    (hg : Evolves o (g o)) (hst : (g o).status ≠ .rejected) :
    Touches (· = o.id) orders (modify OrderRow.id o.id g orders) := by
  unfold Rows.modify
  refine List.forall₂_map_right_iff.mpr (List.forall₂_same.mpr fun p hp => ?_)
  by_cases hid : p.id = o.id
  · rw [List.inj_on_of_nodup_map hn hp ho hid, if_pos rfl]
    exact ⟨hg, .inr ⟨rfl, hst⟩⟩
  · rw [if_neg hid]
    exact ⟨.refl p, .inl rfl⟩

end Touches

/-! ## Journals -/

/-- A store with another ledger that is as good as the one before. -/
def Rebooked (s s' : Store) : Prop :=
  ∃ t, s' = { s with ledger := t } ∧ (Stored s.ledger → Stored t)

theorem recordJournal_rebooked {s s' : Store} {key : JournalKey} {eventType : JournalEventType}
    {referenceType : JournalReferenceType} {referenceID : Nat} {postings : List PostingInput}
    (h : recordJournal s key eventType referenceType referenceID postings = .ok s') :
    Rebooked s s' := by
  obtain ⟨⟨t, entry, created⟩, hrec, h⟩ := bind_eq_ok.mp h
  cases h
  exact ⟨t, rfl, fun hl => hl.record hrec⟩

theorem releaseOrderAssets_rebooked {s s' : Store} {amount : Decimal} {reason : ReleaseReason}
    (h : releaseOrderAssets s o amount reason = .ok s') : Rebooked s s' := by
  obtain ⟨-, h⟩ := guard_eq_ok.mp h
  obtain ⟨-, h⟩ := guard_eq_ok.mp h
  exact recordJournal_rebooked h

/-! ## Settled trades -/

section Fulfilled

variable {s s' s'' : Store} {row trade : TradeRow} {rows xs : List TradeRow} {d d' : Database}
  {named named' : Nat → Prop}

/-- The order is one of the two of the trade. -/
def names (row : TradeRow) (orderID : Nat) : Prop :=
  orderID = row.buyOrderID ∨ orderID = row.sellOrderID

/-- The store after trades were settled that name only orders of `named`. -/
structure Fulfilled (s s' : Store) (named : Nat → Prop) : Prop where
  ledger : Stored s'.ledger
  touches : Touches named s.orders s'.orders
  orderSeq : s'.orderSeq = s.orderSeq

theorem Fulfilled.refl (hl : Stored s.ledger) (named : Nat → Prop) : Fulfilled s s named :=
  ⟨hl, .refl _ _, rfl⟩

theorem Fulfilled.trans (h : Fulfilled s s' named) (h' : Fulfilled s' s'' named) :
    Fulfilled s s'' named :=
  ⟨h'.ledger, (h.touches.trans h'.touches).mono fun _ => Or.rec id id, h'.orderSeq.trans h.orderSeq⟩

/-- A settlement of a new trade fills its two orders. -/
theorem settleNewTrade_fulfilled (hl : Stored s.ledger) (hn : (s.orders.map OrderRow.id).Nodup)
    (h : settleNewTrade s trade = .ok s') : Fulfilled s s' (names trade) := by
  have hstored := Delivery.settleNewTrade_stored hl h
  obtain ⟨b, c, plan, hf⟩ := settleNewTrade_filling hn h
  have hs' := (bookTrade_record hf.booked).1
  have hnames : ∀ id, names plan.trade id → names trade id := by
    intro id
    rw [hf.row]
    exact fun hid => hid
  refine ⟨hstored, ?_, by rw [hs']⟩
  rw [hs']
  refine List.forall₂_map_right_iff.mpr (List.forall₂_same.mpr fun o ho => ?_)
  rcases hf.row_cases hn ho with ⟨rfl, hid⟩ | ⟨rfl, hid⟩ | ⟨-, hsame⟩
  · rw [executed_singleton (.inl hid)]
    exact ⟨evolves_fill hf.positive.1 hf.positive.2 hf.buyFill.isOpen hf.buyFill.fits,
      .inr ⟨hnames _ (.inl hid), (fillStatus_ne _ _ _).2⟩⟩
  · rw [executed_singleton (.inr hid)]
    exact ⟨evolves_fill hf.positive.1 hf.positive.2 hf.sellFill.isOpen hf.sellFill.fits,
      .inr ⟨hnames _ (.inr hid), (fillStatus_ne _ _ _).2⟩⟩
  · rw [hsame]
    exact ⟨.refl o, .inl rfl⟩

/-- An attempt that succeeds settles the trade, or finds it settled. -/
theorem settlePrepared_fulfilled (hl : Stored s.ledger) (hn : (s.orders.map OrderRow.id).Nodup)
    {r : Store × SettlementResult} (h : settlePrepared s row = .ok r) :
    Fulfilled s r.1 (names row) := by
  unfold settlePrepared at h
  split at h
  · obtain ⟨_, -, h⟩ := bind_eq_ok.mp h
    cases h
    exact .refl hl _
  · obtain ⟨q, hq, h⟩ := bind_eq_ok.mp h
    cases h
    unfold settleCreatedTrade at hq
    split at hq
    · obtain ⟨s', hs', hq⟩ := bind_eq_ok.mp hq
      cases hq
      exact settleNewTrade_fulfilled hl hn hs'
    · -- the row keeps the id of an attempt that was rolled back
      obtain ⟨-, hq⟩ := guard_eq_ok.mp hq
      obtain ⟨s', hs', hq⟩ := bind_eq_ok.mp hq
      cases hq
      obtain ⟨hl', ht, hseq⟩ :=
        settleNewTrade_fulfilled (s := { s with tradeSeq := row.id - 1 }) hl hn hs'
      exact ⟨hl', ht, hseq⟩

theorem settleAll_fulfilled (hl : Stored s.ledger) (hn : (s.orders.map OrderRow.id).Nodup)
    {r : Store × List SettlementResult} (hxs : ∀ row ∈ xs, ∀ id, names row id → named id)
    (h : settleAll s xs = .ok r) : Fulfilled s r.1 named := by
  induction xs generalizing s r with
  | nil =>
    cases h
    exact .refl hl _
  | cons row xs ih =>
    obtain ⟨hrow, hxs⟩ := List.forall_mem_cons.mp hxs
    obtain ⟨q, hq, h⟩ := bind_eq_ok.mp h
    obtain ⟨q', hq', h⟩ := bind_eq_ok.mp h
    cases h
    obtain ⟨hl', ht, hseq⟩ := settlePrepared_fulfilled hl hn hq
    have hfirst : Fulfilled s q.1 named := ⟨hl', ht.mono hrow, hseq⟩
    have hrest := ih hl' (by rw [ht.ids]; exact hn) hxs hq'
    exact hfirst.trans hrest

theorem names_prepared {x : TradeRow} (h : prepareTrade row = .ok x) (id : Nat) :
    names x id → names row id := by
  unfold names
  rw [(prepareTrade_keeps h).2.2]
  exact fun hid => hid

/-- A transaction on the whole database that settles trades. -/
structure Settles (d d' : Database) (named : Nat → Prop) : Prop where
  store : Fulfilled d.toStore d'.toStore named
  outbox : d'.outbox.map TradeOutboxEvent.id = d.outbox.map TradeOutboxEvent.id

theorem settleTrade_settles {outboxID : Nat} {r : SettlementResult} (hd : d.Constrained)
    (h : d.settleTrade row outboxID = .ok (d', r)) : Settles d d' (names row) := by
  rw [settleTrade_eq] at h
  obtain ⟨x, hx, h⟩ := bind_eq_ok.mp h
  obtain ⟨q, hq, h⟩ := bind_eq_ok.mp h
  cases h
  obtain ⟨hl, ht, hseq⟩ := settlePrepared_fulfilled hd.ledger hd.orders hq
  obtain ⟨houtbox, -, hstore⟩ := Delivery.map_markSettledOutbox { d with toStore := q.1 } outboxID
  refine ⟨?_, houtbox⟩
  rw [hstore]
  exact ⟨hl, ht.mono (names_prepared hx), hseq⟩

theorem settleTradeBatch_settles {items : List TradeBatchItem} (hd : d.Constrained)
    (hzero : ∀ item ∈ items, item.trade.id = 0)
    {rs : List SettlementResult} (h : (d.settleTradeBatch items).result = .ok rs) :
    Settles d (d.settleTradeBatch items).database
      (fun id => ∃ item ∈ items, names item.trade id) := by
  obtain ⟨items', r, t, hprepared, hall, -, htwin, hdb⟩ := settleTradeBatch_ok hd hzero h
  have hful : Fulfilled d.toStore r.1 (fun id => ∃ item ∈ items, names item.trade id) := by
    refine settleAll_fulfilled hd.ledger hd.orders ?_ hall
    intro row hrow id hid
    obtain ⟨item', hitem', rfl⟩ := List.mem_map.mp hrow
    obtain ⟨item, hitem, hprep, -⟩ := forall₂_exists_left hprepared hitem'
    exact ⟨item, hitem, names_prepared hprep id hid⟩
  rw [hdb]
  exact ⟨⟨htwin.right, hful.touches, hful.orderSeq⟩, (Delivery.map_markRows _ _).1⟩

end Fulfilled

/-! ## Rows that are closed and rows that are new -/

section Closes

variable {s s' : Store} {o : OrderRow} {st : OrderStatus}

/-- A status is written to one row, and its fills as `o` has them. -/
structure Closes (s s' : Store) (o : OrderRow) (st : OrderStatus) : Prop where
  store : s' = { s with
    ledger := s'.ledger
    orders := modify OrderRow.id o.id
      (setExecution o.filledAmount o.filledQuoteAmount st) s.orders }
  ledger : Stored s.ledger → Stored s'.ledger

theorem Rebooked.closes {u : Store} (h : Rebooked s u)
    (hu : updateOrderExecution u o.id o.filledAmount o.filledQuoteAmount st = .ok s') :
    Closes s s' o st := by
  obtain ⟨t, rfl, ht⟩ := h
  cases updateOrderExecution_ok hu
  exact ⟨rfl, ht⟩

theorem Closes.touches (h : Closes s s' o st) (hn : (s.orders.map OrderRow.id).Nodup)
    (ho : o ∈ s.orders)
    (hevolves : Evolves o (setExecution o.filledAmount o.filledQuoteAmount st o))
    (hst : st ≠ .rejected) : Touches (· = o.id) s.orders s'.orders := by
  rw [h.store]
  exact touches_modify hn ho hevolves hst

theorem rejectAcceptedOrder_closes (h : rejectAcceptedOrder s o = .ok s') :
    Closes s s' o .rejected := by
  obtain ⟨u, hu, h⟩ := bind_eq_ok.mp h
  exact (releaseOrderAssets_rebooked hu).closes h

theorem releaseRemain_rebooked {u : Store} {remaining : Decimal}
    (h : releaseRemain s o remaining = .ok u) : Rebooked s u := by
  unfold releaseRemain at h
  split at h
  · exact releaseOrderAssets_rebooked h
  · cases h
    exact ⟨s.ledger, rfl, id⟩

/-- What a cancellation does: nothing, if there is nothing to cancel. -/
theorem processOrderCancellation_ok {orderID : Nat}
    (h : processOrderCancellation s orderID = .ok s') : ∃ o ∈ s.orders, o.id = orderID ∧
      ((¬ (isCancellableOrderStatus o.status = true ∧ o.filledAmount < o.amount) ∧ s' = s) ∨
        isCancellableOrderStatus o.status = true ∧ o.filledAmount < o.amount ∧
        Closes s s' o .cancelled) := by
  obtain ⟨-, h⟩ := guard_eq_ok.mp h
  obtain ⟨o, ho, h⟩ := bind_eq_ok.mp h
  obtain ⟨hmem, hid⟩ := findByIDForUpdate_ok ho
  refine ⟨o, hmem, hid, ?_⟩
  simp only [sub_pos] at h
  split at h <;> rename_i hnone
  · cases h
    exact .inl ⟨fun hsome => hnone.elim (fun hst => hst hsome.1) fun hrem => hrem hsome.2, rfl⟩
  · rw [not_or, not_not, not_not] at hnone
    obtain ⟨u, hu, h⟩ := bind_eq_ok.mp h
    have hbooked : Rebooked s u := by
      unfold releaseOrderHold at hu
      split at hu
      · exact releaseOrderAssets_rebooked hu
      · exact releaseOrderAssets_rebooked hu
      · cases hu
    exact .inr ⟨hnone.1, hnone.2, hbooked.closes h⟩

/-- What a completion does: nothing, if the order is FILLED or CANCELLED. -/
theorem completeMarketOrder_ok {input : CompleteMarketOrderInput}
    (h : completeMarketOrder s input = .ok s') :
    ∃ o ∈ s.orders, o.id = input.orderID ∧ o.orderType = .market ∧
      (((o.status = .filled ∨ o.status = .cancelled) ∧ s' = s) ∨
        ¬ (o.status = .filled ∨ o.status = .cancelled) ∧ ∃ st, (st = .filled ∨ st = .cancelled) ∧
          (o.side ≠ .buy → (st = .filled ↔ o.filledAmount = o.amount)) ∧ Closes s s' o st) := by
  obtain ⟨-, h⟩ := guard_eq_ok.mp h
  obtain ⟨o, ho, h⟩ := bind_eq_ok.mp h
  obtain ⟨hmem, hid⟩ := findByIDForUpdate_ok ho
  obtain ⟨htype, h⟩ := guard_eq_ok.mp h
  refine ⟨o, hmem, hid, not_not.mp htype, ?_⟩
  split at h <;> rename_i hdone
  · cases h
    exact .inl ⟨hdone, rfl⟩
  · obtain ⟨-, h⟩ := guard_eq_ok.mp h
    refine .inr ⟨hdone, ?_⟩
    split at h
    · rename_i hside
      obtain ⟨remaining, -, h⟩ := bind_eq_ok.mp h
      obtain ⟨u, hu, h⟩ := bind_eq_ok.mp h
      refine ⟨_, ?_, fun hside' => absurd hside hside', (releaseRemain_rebooked hu).closes h⟩
      split
      · exact .inr rfl
      · exact .inl rfl
    · obtain ⟨-, h⟩ := guard_eq_ok.mp h
      obtain ⟨u, hu, h⟩ := bind_eq_ok.mp h
      refine ⟨_, ?_, fun _ => ?_, (releaseRemain_rebooked hu).closes h⟩
      · split
        · exact .inl rfl
        · exact .inr rfl
      · split <;> simp [*]
    · cases h

/-- The new row and its hold. -/
theorem persistAndHold_new {o' : OrderRow} (h : persistAndHold s o = .ok (s', o')) :
    o' = { o with id := s.orderSeq + 1 } ∧ (Stored s.ledger → Stored s'.ledger) ∧
    s' = { s with
      ledger := s'.ledger, orderSeq := s.orderSeq + 1, orders := s.orders ++ [o'] } := by
  obtain ⟨u, hu, h⟩ := bind_eq_ok.mp h
  cases h
  obtain ⟨-, hu⟩ := guard_eq_ok.mp hu
  obtain ⟨-, hu⟩ := guard_eq_ok.mp hu
  obtain ⟨t, rfl, ht⟩ := recordJournal_rebooked (asInsufficientBalance_ok hu)
  exact ⟨rfl, ht, rfl⟩

end Closes

end GoExchange.Service
