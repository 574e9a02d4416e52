import GoExchange.OrderRows

/-!
# The table of orders over whole runs

Everything that writes a row of an order: `CreateOrder` with the hand-over to
the engine and its compensation, the settlement of trades one by one and in
batches, completions and cancellations, live or by the retry worker, and the
boot. What comes out of the engine is left open: it may be any event about
orders that an engine was given, in any order and any number of times.
-/
namespace GoExchange.OrderRun

open Service Ledger Rows Fallible

/-- The tables, the orders that are stored and not yet taken or refused by the engine, and the ids
of those that an engine was ever given. -/
structure State where
  database : Database
  handoff : List OrderRow
  submitted : List Nat
  deriving DecidableEq, Repr

def init : State := ⟨⟨⟨Ledger.empty, [], [], [], 0, 0⟩, []⟩, [], []⟩

inductive Label where
  | create (input : CreateOrderInput)
  | submit (orderID : Nat)
  /-- The engine did not take the order in time. -/
  | reject (orderID : Nat)
  | settle (trade : TradeRow) (outboxID : Nat)
  | batch (items : List TradeBatchItem)
  | complete (input : CompleteMarketOrderInput)
  | cancel (orderID : Nat)
  | finalize (input : CompleteMarketOrderInput)
  | restart
  | commit (event : TradeOutboxEvent)
  | mark (outboxIDs : List Nat)
  /-- Another service records a journal. -/
  | journal (input : JournalInput)
  /-- Transactions that failed have used up ids. -/
  | lost (orderIDs tradeIDs accountIDs journalIDs postingIDs : Nat)
  deriving DecidableEq, Repr

def State.onDatabase (s : State) : Except DomainError Database → State :=
  transact s fun d => { s with database := d }

def State.onStore (s : State) : Except DomainError Store → State :=
  transact s fun store => { s with database := { s.database with toStore := store } }

variable (policy : OrderRow → Except DomainError Unit)

/-- The finalizer runs before requests are served; a restart gives the open limit orders to the new
engine. -/
def step : Label → State → Option State
  | .create input, s =>
    some (transact s
      (fun (store, order) =>
        { s with database := { s.database with
          toStore := store }, handoff := s.handoff ++ [order] })
      (createHeldOrder s.database.toStore policy input))
  | .submit id, s =>
    if id ∈ s.handoff.map OrderRow.id then
      some { s with handoff := s.handoff.filter (·.id ≠ id), submitted := s.submitted ++ [id] }
    else none
  | .reject id, s =>
    match s.handoff.find? (·.id = id) with
    | some order =>
      some ({ s with handoff := s.handoff.filter (·.id ≠ id) }.onStore
        (rejectAcceptedOrder s.database.toStore order))
    | none => none
  | .settle trade outboxID, s =>
    if trade.buyOrderID ∈ s.submitted ∧ trade.sellOrderID ∈ s.submitted then
      some (s.onDatabase do
        let (d, _) ← s.database.settleTrade trade outboxID
        return d)
    else none
  | .batch items, s =>
    if ∀ item ∈ items, item.trade.id = 0 ∧ item.trade.buyOrderID ∈ s.submitted ∧
        item.trade.sellOrderID ∈ s.submitted then
      let outcome := s.database.settleTradeBatch items
      some (s.onDatabase do
        let _ ← outcome.result
        return outcome.database)
    else none
  | .complete input, s =>
    if input.orderID ∈ s.submitted then
      some (s.onStore (completeMarketOrder s.database.toStore input))
    else none
  | .cancel id, s =>
    if id ∈ s.submitted then some (s.onStore (processOrderCancellation s.database.toStore id))
    else none
  | .finalize input, s =>
    if s.handoff = [] ∧ s.database.orders.any (fun o => o.id = input.orderID ∧
        isCancellableOrderStatus o.status) then
      some (s.onStore (completeMarketOrder s.database.toStore input))
    else none
  | .restart, s =>
    some { s with
      handoff := []
      submitted := s.submitted ++ (findOpenOrdersForBootstrap s.database.orders).map OrderRow.id }
  | .commit event, s =>
    if event.id ∉ s.database.outbox.map TradeOutboxEvent.id then
      some { s with database := { s.database with outbox := s.database.outbox ++ [event] } }
    else none
  | .mark ids, s =>
    some { s with database := { s.database with outbox := markRows ids s.database.outbox } }
  | .journal input, s =>
    some (s.onStore do
      let (ledger, _, _) ← record s.database.ledger input
      return { s.database.toStore with ledger := ledger })
  | .lost o t a j p, s =>
    let ledger := { s.database.ledger with
      accountSeq := s.database.ledger.accountSeq + a
      journalSeq := s.database.ledger.journalSeq + j
      postingSeq := s.database.ledger.postingSeq + p }
    some { s with database := { s.database with
      ledger := ledger, orderSeq := s.database.orderSeq + o, tradeSeq := s.database.tradeSeq + t } }

/-! ## What is kept -/

section

variable {policy} {s s' : State} {o : OrderRow} {d : Database} {named : Nat → Prop}

/-- An order that waits for the engine is as it was stored, and no engine is given an order that was
refused. -/
structure Inv (s : State) : Prop where
  constrained : s.database.Constrained
  rows : ∀ o ∈ s.database.orders,
    SoundRow o ∧ o.id ≤ s.database.orderSeq ∧ (o.status = .rejected → o.id ∉ s.submitted)
  given : ∀ id ∈ s.submitted, id ≤ s.database.orderSeq
  waiting : ∀ o ∈ s.handoff, o ∈ s.database.orders ∧ o.status = .pending ∧ o.id ∉ s.submitted

/-- Every row is still there, as what it may become. -/
def Grows (orders orders' : List OrderRow) : Prop := ∀ o ∈ orders, ∃ o' ∈ orders', Evolves o o'

theorem Grows.refl (orders : List OrderRow) : Grows orders orders := fun o ho => ⟨o, ho, .refl o⟩

/-- What one step does. -/
structure Steps (s s' : State) : Prop where
  inv : Inv s'
  grows : Grows s.database.orders s'.database.orders

theorem Inv.steps_refl (h : Inv s) : Steps s s := ⟨h, .refl _⟩

/-- Rows that no order waiting for the engine has are written. -/
theorem Inv.touched (h : Inv s) (hd : d.Constrained) (ht : Touches named s.database.orders d.orders)
    (hseq : d.orderSeq = s.database.orderSeq) (haway : ∀ o ∈ s.handoff, ¬ named o.id) :
    Steps s { s with database := d } := by
  refine ⟨⟨hd, ?_, ?_, ?_⟩, ?_⟩
  · intro o' ho'
    obtain ⟨o, ho, hev, hsame⟩ := ht.before ho'
    obtain ⟨hsound, hle, hrej⟩ := h.rows o ho
    refine ⟨hev.sound hsound, ?_, ?_⟩
    · rw [hev.id_eq, hseq]
      exact hle
    · intro hst
      rcases hsame with rfl | ⟨-, hne⟩
      · exact hrej hst
      · exact absurd hst hne
  · rw [hseq]
    exact h.given
  · intro o ho
    obtain ⟨hmem, hrest⟩ := h.waiting o ho
    exact ⟨ht.kept hmem (haway o ho), hrest⟩
  · intro o ho
    obtain ⟨o', ho', hev, -⟩ := ht.after ho
    exact ⟨o', ho', hev⟩

/-- What an engine was given is not waiting. -/
theorem Inv.away (h : Inv s) (hn : ∀ id, named id → id ∈ s.submitted) :
    ∀ o ∈ s.handoff, ¬ named o.id :=
  fun o ho hid => (h.waiting o ho).2.2 (hn _ hid)

theorem Inv.settled (h : Inv s) (hd : Settles s.database d named)
    (hn : ∀ id, named id → id ∈ s.submitted) : Steps s { s with database := d } := by
  have hids := hd.store.touches.ids
  refine h.touched ⟨hd.store.ledger, ?_, ?_⟩ hd.store.touches hd.store.orderSeq (h.away hn)
  · rw [hids]
    exact h.constrained.orders
  · rw [hd.outbox]
    exact h.constrained.outbox

/-- A row is closed. -/
theorem Inv.closed (h : Inv s) {store : Store} {st : OrderStatus}
    (hc : Closes s.database.toStore store o st) (ho : o ∈ s.database.orders) (hst : st ≠ .rejected)
    (hev : Evolves o (setExecution o.filledAmount o.filledQuoteAmount st o))
    (haway : ∀ p ∈ s.handoff, p.id ≠ o.id) :
    Steps s { s with database := { s.database with toStore := store } } := by
  have ht := hc.touches h.constrained.orders ho hev hst
  refine h.touched ⟨hc.ledger h.constrained.ledger, ?_, h.constrained.outbox⟩ ht ?_ haway
  · rw [ht.ids]
    exact h.constrained.orders
  · rw [hc.store]

/-! ## The steps -/

theorem soundRow_new (h : NewRow o) (id : Nat) : SoundRow { o with id := id } := by
  obtain ⟨-, -, -, hst, ⟨hf, hq⟩, hamounts⟩ := h
  refine ⟨by rw [hst]; exact nofun, ?_, ?_⟩
  · unfold Fits
    simp only [hf, hq]
    split
    · rename_i hm
      rcases hamounts with ⟨ht, -⟩ | ⟨-, -, -, -, hpos⟩ | ⟨-, hs, -⟩
      · simp [ht] at hm
      · exact hpos.le
      · simp [hs] at hm
    · rcases hamounts with ⟨-, -, hpos, -⟩ | ⟨-, -, -, hzero, -⟩ | ⟨-, -, -, hpos, -⟩
      · exact hpos.le
      · exact hzero.ge
      · exact hpos.le
  · intro hm
    simp only [hst, hf, reduceCtorEq, false_iff]
    rcases hamounts with ⟨-, -, hpos, -⟩ | ⟨ht, hs, -⟩ | ⟨-, -, -, hpos, -⟩
    · exact hpos.ne
    · exact absurd ⟨ht, hs⟩ hm
    · exact hpos.ne

theorem Inv.create (h : Inv s) {input : CreateOrderInput}
    (hs : step policy (.create input) s = some s') : Steps s s' := by
  cases hs
  refine transact_of h.steps_refl ?_
  rintro ⟨store, o'⟩ hc
  obtain ⟨o, hparse, hc⟩ := bind_eq_ok.mp hc
  obtain ⟨_, -, hc⟩ := bind_eq_ok.mp hc
  obtain ⟨rfl, hledger, hstore⟩ := persistAndHold_new hc
  have hnew := parseOrderRequest_newRow hparse
  rw [hstore]
  -- the new id is above every id in use
  refine ⟨⟨⟨hledger h.constrained.ledger, ?_, h.constrained.outbox⟩, ?_, ?_, ?_⟩, ?_⟩
  · exact nodup_concat_succ h.constrained.orders (fun p hp => (h.rows p hp).2.1) rfl
  · refine forall_mem_concat (fun p hp => ?_) ⟨soundRow_new hnew _, Nat.le_refl _, fun hst => ?_⟩
    · obtain ⟨hsound, hle, hrej⟩ := h.rows p hp
      exact ⟨hsound, Nat.le_succ_of_le hle, hrej⟩
    · cases hnew.status.symm.trans hst
  · intro id hid
    exact Nat.le_succ_of_le (h.given id hid)
  · refine forall_mem_concat (fun p hp => ?_)
      ⟨List.mem_append_right _ (List.mem_singleton_self _), hnew.status, fun hid => ?_⟩
    · obtain ⟨hmem, hrest⟩ := h.waiting p hp
      exact ⟨List.mem_append_left _ hmem, hrest⟩
    · exact absurd (h.given _ hid) (Nat.not_succ_le_self _)
  · intro p hp
    exact ⟨p, List.mem_append_left _ hp, .refl p⟩

theorem Inv.submit (h : Inv s) {id : Nat} (hs : step policy (.submit id) s = some s') :
    Steps s s' := by
  obtain ⟨hmem, rfl⟩ := Lts.of_enabled hs
  obtain ⟨o, ho, rfl⟩ := List.mem_map.mp hmem
  obtain ⟨hrow, hst, -⟩ := h.waiting o ho
  refine ⟨⟨h.constrained, ?_, ?_, ?_⟩, .refl _⟩
  · intro p hp
    obtain ⟨hsound, hle, hrej⟩ := h.rows p hp
    refine ⟨hsound, hle, ?_⟩
    intro hp' hgiven
    rcases List.mem_append.mp hgiven with hold | hnew
    · exact hrej hp' hold
    · rw [List.inj_on_of_nodup_map h.constrained.orders hp hrow (List.mem_singleton.mp hnew), hst]
        at hp'
      cases hp'
  · exact forall_mem_concat h.given (h.rows o hrow).2.1
  · intro p hp
    obtain ⟨hp, hne⟩ := List.mem_filter.mp hp
    obtain ⟨hmem, hpend, haway⟩ := h.waiting p hp
    refine ⟨hmem, hpend, ?_⟩
    intro hgiven
    rcases List.mem_append.mp hgiven with hold | hnew
    · exact haway hold
    · exact absurd (List.mem_singleton.mp hnew) (of_decide_eq_true hne)

/-- The compensation writes a row that is as it was stored. -/
theorem Inv.reject (h : Inv s) {id : Nat} (hs : step policy (.reject id) s = some s') :
    Steps s s' := by
  simp only [step] at hs
  split at hs
  · rename_i o hfind
    cases hs
    obtain ⟨ho, rfl⟩ := of_find? hfind
    obtain ⟨hrow, hst, hgiven⟩ := h.waiting o ho
    have hkept : ∀ p ∈ s.handoff.filter (·.id ≠ o.id), p ∈ s.handoff ∧ p.id ≠ o.id := by simp
    have hrest : Inv { s with handoff := s.handoff.filter (·.id ≠ o.id) } :=
      ⟨h.constrained, h.rows, h.given, fun p hp => h.waiting p (hkept p hp).1⟩
    have hev : Evolves o (setExecution o.filledAmount o.filledQuoteAmount .rejected o) := by
      refine evolves_close (by rw [hst]; rfl) nofun ?_
      intro hsound hm
      have hlt := hsound.unfilled (by rw [hst]; rfl) hm
      exact ⟨nofun, fun he => absurd he hlt.ne⟩
    refine transact_of ⟨hrest, .refl _⟩ fun store hr => ?_
    have hc := rejectAcceptedOrder_closes hr
    have hids : store.orders.map OrderRow.id = s.database.orders.map OrderRow.id := by
      rw [hc.store]
      exact map_modify _ fun _ _ _ => rfl
    have hseq : store.orderSeq = s.database.orderSeq := by rw [hc.store]
    have horders : store.orders = modify OrderRow.id o.id
        (setExecution o.filledAmount o.filledQuoteAmount .rejected) s.database.orders := by
      rw [hc.store]
    refine ⟨⟨⟨hc.ledger h.constrained.ledger, hids ▸ h.constrained.orders, h.constrained.outbox⟩,
      ?_, ?_, ?_⟩, ?_⟩
    · intro p hp
      simp only [horders] at hp
      rcases mem_modify_row h.constrained.orders hrow hp with rfl | ⟨hp, -⟩
      · exact ⟨hev.sound (h.rows o hrow).1, hseq ▸ (h.rows o hrow).2.1, fun _ => hgiven⟩
      · exact hseq ▸ h.rows p hp
    · intro id hid
      exact hseq ▸ h.given id hid
    · intro p hp
      obtain ⟨hp, hne⟩ := hkept p hp
      obtain ⟨hmem, hwait⟩ := h.waiting p hp
      refine ⟨?_, hwait⟩
      simp only [horders]
      exact mem_modify.mpr (.inr ⟨hmem, hne⟩)
    · intro p hp
      simp only [horders]
      by_cases hid : p.id = o.id
      · rw [List.inj_on_of_nodup_map h.constrained.orders hp hrow hid]
        exact ⟨_, mem_modify.mpr (.inl ⟨o, hrow, rfl, rfl⟩), hev⟩
      · exact ⟨p, mem_modify.mpr (.inr ⟨hp, hid⟩), .refl p⟩
  · cases hs

/-- A completion of an order that was not refused. -/
theorem Inv.completed (h : Inv s) {input : CompleteMarketOrderInput}
    (hrej : ∀ o ∈ s.database.orders, o.id = input.orderID → o.status ≠ .rejected)
    (haway : ∀ p ∈ s.handoff, p.id ≠ input.orderID) :
    Steps s (s.onStore (completeMarketOrder s.database.toStore input)) := by
  refine transact_of h.steps_refl fun store hr => ?_
  obtain ⟨o, ho, hid, htype, ⟨-, rfl⟩ | ⟨hopen, st, hst, hfilled, hc⟩⟩ := completeMarketOrder_ok hr
  · exact h.steps_refl
  · rw [not_or] at hopen
    have hclosed : isClosedOrderStatus o.status = false := by
      simp [isClosedOrderStatus, hopen.1, hopen.2, hrej o ho hid]
    refine h.closed hc ho ?_ (evolves_close hclosed ?_ ?_) (hid ▸ haway)
    · rcases hst with rfl | rfl <;> exact nofun
    · rcases hst with rfl | rfl <;> exact nofun
    · intro _ hm
      exact hfilled fun hside => hm ⟨htype, hside⟩

theorem Inv.cancelled (h : Inv s) {id : Nat} (hgiven : id ∈ s.submitted) :
    Steps s (s.onStore (processOrderCancellation s.database.toStore id)) := by
  refine transact_of h.steps_refl fun store hr => ?_
  obtain ⟨o, ho, rfl, ⟨-, rfl⟩ | ⟨hopen, hlt, hc⟩⟩ := processOrderCancellation_ok hr
  · exact h.steps_refl
  · refine h.closed hc ho nofun (evolves_close (isClosedOrderStatus_eq_false hopen) nofun ?_) ?_
    · intro _ _
      exact ⟨nofun, fun he => absurd he hlt.ne⟩
    · intro p hp he
      exact (h.waiting p hp).2.2 (he ▸ hgiven)

/-- No order that was refused is open, and so none is given to the new engine. -/
theorem Inv.restarted (h : Inv s) : Inv { s with
    handoff := []
    submitted := s.submitted ++
      (findOpenOrdersForBootstrap s.database.orders).map OrderRow.id } := by
  refine ⟨h.constrained, ?_, ?_, by simp⟩
  · intro p hp
    obtain ⟨hsound, hle, hrej⟩ := h.rows p hp
    refine ⟨hsound, hle, ?_⟩
    intro hst hgiven
    rcases List.mem_append.mp hgiven with hold | hnew
    · exact hrej hst hold
    · obtain ⟨o, ho, hid, hopen⟩ := open_of_bootstrap hnew
      rw [List.inj_on_of_nodup_map h.constrained.orders ho hp hid, hst] at hopen
      cases hopen
  · intro id hid
    rcases List.mem_append.mp hid with hold | hnew
    · exact h.given id hold
    · obtain ⟨o, ho, rfl, -⟩ := open_of_bootstrap hnew
      exact (h.rows o ho).2.1

theorem step_steps {l : Label} (h : Inv s) (hs : step policy l s = some s') : Steps s s' := by
  cases l with
  | create input => exact h.create hs
  | submit id => exact h.submit hs
  | reject id => exact h.reject hs
  | settle trade outboxID =>
    obtain ⟨⟨hbuy, hsell⟩, rfl⟩ := Lts.of_enabled hs
    refine transact_of h.steps_refl fun d hd => ?_
    obtain ⟨⟨d', r⟩, hr, hd⟩ := bind_eq_ok.mp hd
    cases hd
    refine h.settled (settleTrade_settles h.constrained hr) ?_
    rintro id (rfl | rfl)
    · exact hbuy
    · exact hsell
  | batch items =>
    obtain ⟨hitems, rfl⟩ := Lts.of_enabled hs
    refine transact_of h.steps_refl fun d hd => ?_
    obtain ⟨rs, hr, hd⟩ := bind_eq_ok.mp hd
    cases hd
    refine h.settled
      (settleTradeBatch_settles h.constrained (fun item hi => (hitems item hi).1) hr) ?_
    rintro id ⟨item, hitem, rfl | rfl⟩
    · exact (hitems item hitem).2.1
    · exact (hitems item hitem).2.2
  | complete input =>
    obtain ⟨hgiven, rfl⟩ := Lts.of_enabled hs
    refine h.completed ?_ ?_
    · intro o ho hid hst
      exact (h.rows o ho).2.2 hst (hid ▸ hgiven)
    · intro p hp hid
      exact (h.waiting p hp).2.2 (hid ▸ hgiven)
  | cancel id =>
    obtain ⟨hgiven, rfl⟩ := Lts.of_enabled hs
    exact h.cancelled hgiven
  | finalize input =>
    obtain ⟨⟨hnone, hopen⟩, rfl⟩ := Lts.of_enabled hs
    obtain ⟨p, hp, hopen⟩ := List.any_eq_true.mp hopen
    obtain ⟨hpid, hopen⟩ := of_decide_eq_true hopen
    refine h.completed ?_ (by simp [hnone])
    intro o ho hid hst
    rw [← List.inj_on_of_nodup_map h.constrained.orders ho hp (hid.trans hpid.symm), hst] at hopen
    cases hopen
  | restart =>
    cases hs
    exact ⟨h.restarted, .refl _⟩
  | commit event =>
    obtain ⟨hnew, rfl⟩ := Lts.of_enabled hs
    refine ⟨⟨⟨h.constrained.ledger, h.constrained.orders, ?_⟩, h.rows, h.given, h.waiting⟩, .refl _⟩
    exact nodup_concat h.constrained.outbox hnew
  | mark ids =>
    cases hs
    refine ⟨⟨⟨h.constrained.ledger, h.constrained.orders, ?_⟩, h.rows, h.given, h.waiting⟩, .refl _⟩
    exact (Delivery.map_markRows ids s.database.outbox).1.symm ▸ h.constrained.outbox
  | journal input =>
    cases hs
    refine transact_of h.steps_refl fun store hstore => ?_
    obtain ⟨⟨t, entry, created⟩, hr, hstore⟩ := bind_eq_ok.mp hstore
    cases hstore
    have hledger := h.constrained.ledger.record hr
    exact ⟨⟨⟨hledger, h.constrained.orders, h.constrained.outbox⟩, h.rows, h.given, h.waiting⟩,
      .refl _⟩
  | lost n m a j p =>
    cases hs
    refine ⟨⟨⟨h.constrained.ledger.sequences a j p, h.constrained.orders, h.constrained.outbox⟩, ?_,
      ?_, h.waiting⟩, .refl _⟩
    · intro o ho
      obtain ⟨hsound, hle, hrej⟩ := h.rows o ho
      exact ⟨hsound, Nat.le_add_right_of_le hle, hrej⟩
    · intro id hid
      exact Nat.le_add_right_of_le (h.given id hid)

theorem inv_init : Inv init := by
  refine ⟨⟨⟨empty_sound.provisioned, by simp [init, Ledger.empty], by simp [init, Ledger.empty]⟩,
    ?_, ?_⟩, ?_, ?_, ?_⟩ <;> simp [init]

theorem reach_inv (h : Lts.Reach (step policy) Lts.free init s) : Inv s :=
  h.invariant Inv inv_init fun _ _ _ _ hi _ hs => (step_steps hi hs).inv

theorem grows_of_run (hs : Lts.Reach (step policy) Lts.free init s)
    (hrun : Lts.Reach (step policy) Lts.free s s') :
    Grows s.database.orders s'.database.orders := by
  induction hrun with
  | refl => exact .refl _
  | next hr _ hstep ih =>
    intro o ho
    obtain ⟨o₁, ho₁, hev₁⟩ := ih o ho
    obtain ⟨o', ho', hev'⟩ := (step_steps (reach_inv (hs.trans hr)) hstep).grows o₁ ho₁
    exact ⟨o', ho', hev₁.trans hev'⟩

end

/-- Over every run, under any rules of the markets: an order stays, under its id and with its terms,
its fills only grow, and a status FILLED, CANCELLED or REJECTED stays. An order is never filled
beyond its amount, a market buy not beyond its quote amount; every other order is FILLED if and only
if its amount is filled. -/
theorem final_status_stays (policy : OrderRow → Except DomainError Unit) {s s' : State}
    (hs : Lts.Reach (step policy) Lts.free init s) (hrun : Lts.Reach (step policy) Lts.free s s') :
    (s'.database.orders.map OrderRow.id).Nodup ∧
    (∀ o ∈ s.database.orders, ∃ o' ∈ s'.database.orders, SameTerms o o' ∧
      o.filledAmount ≤ o'.filledAmount ∧
      o.filledQuoteAmount ≤ o'.filledQuoteAmount ∧
      (isClosedOrderStatus o.status = true → o'.status = o.status)) ∧
    ∀ o ∈ s'.database.orders,
      (if o.orderType = .market ∧ o.side = .buy then o.filledQuoteAmount ≤ o.quoteAmount
        else o.filledAmount ≤ o.amount) ∧
      (¬ (o.orderType = .market ∧ o.side = .buy) →
        (o.status = .filled ↔ o.filledAmount = o.amount)) := by
  have hinv := reach_inv (hs.trans hrun)
  refine ⟨hinv.constrained.orders, ?_, ?_⟩
  · intro o ho
    obtain ⟨o', ho', hev⟩ := grows_of_run hs hrun o ho
    exact ⟨o', ho', hev.terms, hev.amount, hev.quote, fun hc => by rw [hev.closed hc]⟩
  · intro o ho
    have hsound := (hinv.rows o ho).1
    exact ⟨hsound.fits, hsound.filled⟩

/-- An order whose hold the compensation has given back is not written again, and no engine is ever
given it: not the one that did not take it in time, and none that is started later. -/
theorem rejected_never_submitted (policy : OrderRow → Except DomainError Unit) {s s' : State}
    (hs : Lts.Reach (step policy) Lts.free init s) (hrun : Lts.Reach (step policy) Lts.free s s')
    {o : OrderRow}
    (ho : o ∈ s.database.orders) (hst : o.status = .rejected) :
    o ∈ s'.database.orders ∧ o.id ∉ s'.submitted := by
  obtain ⟨o', ho', hev⟩ := grows_of_run hs hrun o ho
  obtain rfl : o' = o := hev.closed (by rw [hst]; rfl)
  exact ⟨ho', ((reach_inv (hs.trans hrun)).rows o' ho').2.2 hst⟩

/-- User 1 buys BTC of user 2; the sell order is filled, the rest of the bid waits, a third order is
refused. -/
def tradedAndRefused : List Label :=
  [.journal ⟨.deposit, "krw", .transfer, 1, none,
      [⟨.externalBank, none, "KRW", -1000⟩, ⟨.userAvailable, some 1, "KRW", 1000⟩]⟩,
    .journal ⟨.deposit, "btc", .transfer, 2, none,
      [⟨.externalChain, none, "BTC", -10⟩, ⟨.userAvailable, some 2, "BTC", 10⟩]⟩,
    .create ⟨1, "BTC", .buy, .limit, some 100, some 2, none⟩, .submit 1,
    .create ⟨2, "BTC", .sell, .limit, some 100, some 1, none⟩, .submit 2,
    .create ⟨2, "BTC", .sell, .limit, some 100, some 1, none⟩, .reject 3,
    .settle (.ofTrade ⟨⟨1, 1⟩, "BTC", 100, 1, 1, 2⟩) 0]

/-- After a crash the rest of the bid is given to the next engine and cancelled; late events change
nothing. -/
def restartedAndCancelled : List Label :=
  [.restart, .settle (.ofTrade ⟨⟨1, 1⟩, "BTC", 100, 1, 1, 2⟩) 0, .cancel 2, .cancel 1, .cancel 1]

theorem final_status_stays_restart : ∃ s s',
    Lts.Reach (step fun _ => .ok ()) Lts.free init s ∧
    Lts.Reach (step fun _ => .ok ()) Lts.free s s' ∧
    s.database.orders.map OrderRow.status = [.partiallyFilled, .filled, .rejected] ∧
    s'.database.orders.map OrderRow.status = [.cancelled, .filled, .rejected] ∧
    (s'.database.orders.map OrderRow.id).Nodup ∧
    (∀ o ∈ s.database.orders, ∃ o' ∈ s'.database.orders, SameTerms o o' ∧
      o.filledAmount ≤ o'.filledAmount ∧
      o.filledQuoteAmount ≤ o'.filledQuoteAmount ∧
      (isClosedOrderStatus o.status = true → o'.status = o.status)) ∧
    ∀ o ∈ s'.database.orders,
      (if o.orderType = .market ∧ o.side = .buy then o.filledQuoteAmount ≤ o.quoteAmount
        else o.filledAmount ≤ o.amount) ∧
      (¬ (o.orderType = .market ∧ o.side = .buy) →
        (o.status = .filled ↔ o.filledAmount = o.amount)) := by
  have hrun : ((Lts.exec (step fun _ => .ok ()) tradedAndRefused init).bind fun s =>
      (Lts.exec (step fun _ => .ok ()) restartedAndCancelled s).map fun s' =>
        (s.database.orders.map OrderRow.status, s'.database.orders.map OrderRow.status)) =
      some ([.partiallyFilled, .filled, .rejected], [.cancelled, .filled, .rejected]) := by
        decide +kernel
  obtain ⟨s, hs, hrest⟩ := Option.bind_eq_some_iff.mp hrun
  obtain ⟨s', hs', hrows⟩ := Option.map_eq_some_iff.mp hrest
  have hreach := Lts.reach_of_exec tradedAndRefused hs
  have hreach' := Lts.reach_of_exec restartedAndCancelled hs'
  exact ⟨s, s', hreach, hreach', congrArg Prod.fst hrows, congrArg Prod.snd hrows,
    final_status_stays _ hreach hreach'⟩

/-- Neither the engine of the first run nor the one that the restart builds is given the refused
order. -/
theorem rejected_never_submitted_refused : ∃ s s' o,
    Lts.exec (step fun _ => .ok ()) tradedAndRefused init = some s ∧
    Lts.exec (step fun _ => .ok ()) restartedAndCancelled s = some s' ∧
    o ∈ s.database.orders ∧ o.status = .rejected ∧ o ∈ s'.database.orders ∧
    o.id ∉ s'.submitted := by
  have hrun : ((Lts.exec (step fun _ => .ok ()) tradedAndRefused init).bind fun s =>
      (Lts.exec (step fun _ => .ok ()) restartedAndCancelled s).bind fun _ =>
        s.database.orders.find? (·.status = .rejected)).isSome = true := by decide +kernel
  obtain ⟨o, ho⟩ := Option.isSome_iff_exists.mp hrun
  obtain ⟨s, hs, ho⟩ := Option.bind_eq_some_iff.mp ho
  obtain ⟨s', hs', ho⟩ := Option.bind_eq_some_iff.mp ho
  have hmem := List.mem_of_find?_eq_some ho
  have hst : o.status = .rejected := by simpa using List.find?_some ho
  have hkept := rejected_never_submitted _ (Lts.reach_of_exec _ hs)
    (Lts.reach_of_exec _ hs') hmem hst
  exact ⟨s, s', o, hs, hs', hmem, hst, hkept⟩

end GoExchange.OrderRun
