import GoExchange.Desk
import GoExchange.EngineBooks
import GoExchange.EngineSerial

/-!
# The engine is a desk

Every run of the scheduler on orders with distinct ids is a run of the desk:
the books hold what rests at the desk, the active sweep is the desk's, and both
have sent the same events. What the desk says about the life of an order holds
of the engine.
-/
namespace GoExchange.Matching

open Buckets

/-! ## All resting orders -/

def OrderBook.orders (b : OrderBook) : List Order := b.resting .bids ++ b.resting .asks

/-- The resting orders of all books. -/
def Core.resting (c : Core) : List Order := c.heap.flatMap OrderBook.orders

variable {b c : OrderBook} {o m : Order} {core : Core} {i : Nat} {f : Order → Option Order}

theorem OrderBook.mem_orders {h : Half} (hm : m ∈ b.resting h) : m ∈ b.orders := by
  cases h with
  | bids => exact List.mem_append_left _ hm
  | asks => exact List.mem_append_right _ hm

theorem OrderBook.resting_sublist_orders (b : OrderBook) (h : Half) :
    (b.resting h).Sublist b.orders := by
  cases h with
  | bids => exact List.sublist_append_left _ _
  | asks => exact List.sublist_append_right _ _

/-- One resting order rewritten or taken out. -/
theorem OrderBook.orders_modifyFirst {h : Half} {p : Order → Bool}
    (hn : (b.orders.map Order.id).Nodup) (hfind : (b.resting h).find? p = some m)
    (hc : ∀ h', c.resting h' = if h' = h then modifyFirst p f (b.resting h') else b.resting h') :
    c.orders = b.orders.filterMap fun r => if r.id = m.id then f r else some r := by
  have hhalf : ∀ h', c.resting h' = (b.resting h').filterMap fun r => if r.id = m.id then f r
      else some r := by
    intro h'
    rw [hc]
    split <;> rename_i he
    · subst he
      exact modifyFirst_eq_filterMap (hn.sublist ((b.resting_sublist_orders h').map _)) hfind
    · have hm := List.mem_of_find?_eq_some hfind
      -- the order rests in the other half
      have hne : ∀ r ∈ b.resting h', r.id ≠ m.id := by
        intro r hr hid
        rw [OrderBook.orders, List.map_append, List.nodup_append] at hn
        cases h <;> cases h'
        · exact he rfl
        · exact hn.2.2 _ (List.mem_map_of_mem hm) _ (List.mem_map_of_mem hr) hid.symm
        · exact hn.2.2 _ (List.mem_map_of_mem hr) _ (List.mem_map_of_mem hm) hid
        · exact he rfl
      rw [List.filterMap_congr fun r hr => if_neg (hne r hr), List.filterMap_some]
  rw [OrderBook.orders, hhalf, hhalf, ← List.filterMap_append, OrderBook.orders]

theorem OrderBook.orders_addOrder (hb : b.Wf) (o : Order) :
    (b.addOrder o).orders.Perm (o :: b.orders) := by
  rw [OrderBook.orders, OrderBook.resting_addOrder hb, OrderBook.resting_addOrder hb,
    OrderBook.orders]
  by_cases hs : o.side = .buy
  · simp only [halfOf, hs, if_true, reduceCtorEq, if_false]
    exact (insertBehind_perm _ _).append_right _
  · simp only [halfOf, hs, if_false, reduceCtorEq, if_true]
    exact ((insertBehind_perm _ _).append_left _).trans List.perm_middle

namespace Core

/-- One book set apart from the others. -/
theorem resting_setBook (hi : i < core.heap.length) :
    ∃ rest, core.resting.Perm ((core.book i).orders ++ rest) ∧
      ∀ b, (core.setBook i b).resting.Perm (b.orders ++ rest) := by
  have hbook : core.book i = core.heap.get ⟨i, hi⟩ := by
    rw [book, List.getD_eq_getElem?_getD, List.getElem?_eq_getElem hi]
    rfl
  refine ⟨((core.heap.take i) ++ core.heap.drop (i + 1)).flatMap OrderBook.orders, ?_, fun b => ?_⟩
  · have hsplit : core.heap = core.heap.take i ++ core.heap.get ⟨i, hi⟩ ::
        core.heap.drop (i + 1) := by
      simp
    rw [resting, hbook, ← List.flatMap_cons]
    nth_rewrite 1 [hsplit]
    exact List.perm_middle.flatMap_right _
  · have hsplit : (core.setBook i b).heap = core.heap.take i ++ b :: core.heap.drop (i + 1) :=
      List.set_eq_take_append_cons_drop.trans (if_pos hi)
    rw [resting, hsplit, ← List.flatMap_cons]
    exact List.perm_middle.flatMap_right _

theorem book_orders_sublist (hi : i < core.heap.length) :
    (core.book i).orders.Sublist core.resting :=
  List.sublist_flatten_of_mem (List.mem_map_of_mem (book_mem hi))

theorem Looked.resting {d : Core} {a : String} (h : Looked core d a i) :
    d.resting = core.resting := by
  rcases h.heap with hh | hh
  · rw [Core.resting, hh, Core.resting]
  · rw [Core.resting, hh, List.flatMap_append]
    exact List.append_nil _

/-- Rewriting one order of a book rewrites it among all resting orders. -/
theorem resting_setBook_filterMap (hn : (core.resting.map Order.id).Nodup)
    (hi : i < core.heap.length) (hm : m ∈ (core.book i).orders)
    (hc : c.orders = (core.book i).orders.filterMap fun r => if r.id = m.id then f r else some r) :
    (core.setBook i c).resting.Perm
      (core.resting.filterMap fun r => if r.id = m.id then f r else some r) := by
  obtain ⟨rest, hperm, hset⟩ := resting_setBook hi
  have hrest : rest.filterMap (fun r => if r.id = m.id then f r else some r) = rest := by
    rw [(hperm.map _).nodup_iff, List.map_append, List.nodup_append] at hn
    rw [List.filterMap_congr fun r hr =>
      if_neg fun he => hn.2.2 _ (List.mem_map_of_mem hm) _ (List.mem_map_of_mem hr) he.symm,
        List.filterMap_some]
  refine (hset c).trans (List.Perm.trans ?_ (hperm.filterMap _).symm)
  rw [List.filterMap_append, hrest, hc]

end Core

end GoExchange.Matching

namespace GoExchange.Engine

open Matching Core

variable {cfg : EngineConfig} {s s' : State} {l : Label} {engineID : Nat} {d : Desk}

/-! ## The simulation -/

/-- The desk an engine is at; which book an order rests in and where in it is left out. -/
structure AtDesk (s : State) (d : Desk) : Prop where
  engineID : d.engineID = s.core.engineID
  seq : d.seq = s.core.tradeSeq
  taken : d.taken = s.admitted
  sweep : d.sweep = s.activeSweep.map ActiveSweep.order
  resting : d.resting.Perm s.core.resting
  sent : d.events = events s

theorem init_atDesk (engineID : Nat) : AtDesk (init engineID) (.new engineID) :=
  ⟨rfl, rfl, rfl, rfl, .refl _, rfl⟩

/-- The desk does not notice the step. -/
theorem AtDesk.keep (h : AtDesk s d) {c : Core} {a : String} {i : Nat} (hl : Looked s.core c a i)
    (hcore : s'.core = c)
    (hsweep : s'.activeSweep.map ActiveSweep.order = s.activeSweep.map ActiveSweep.order)
    (hemitted : s'.emitted = s.emitted) (hadmitted : s'.admitted = s.admitted) : AtDesk s' d where
  engineID := by rw [hcore, hl.engineID, h.engineID]
  seq := by rw [hcore, hl.tradeSeq, h.seq]
  taken := by rw [hadmitted, h.taken]
  sweep := by rw [hsweep, h.sweep]
  resting := by
    rw [hcore, hl.resting]
    exact h.resting
  sent := by rw [h.sent, events, events, hemitted]

theorem AtDesk.ids (h : AtDesk s d) (hd : d.Inv) : (s.core.resting.map Order.id).Nodup :=
  (h.resting.map _).nodup_iff.mp hd.resting_ids

/-- An order of a book rests at the desk, where its id finds it. -/
theorem AtDesk.find (h : AtDesk s d) (hd : d.Inv) {m : Order} (hm : m ∈ s.core.resting) :
    d.resting.find? (Order.id · = m.id) = some m :=
  Rows.find?_eq_some hd.resting_ids (h.resting.mem_iff.mpr hm)

theorem AtDesk.removed (h : AtDesk s d) (hd : d.Inv) (hb : BookInv s) {cmd : CancelOrderCommand}
    {core : Core}
    (hcancel : s.core.handleCancel cmd = (core, .removed)) (hcore : s'.core = core.nextTradeEvent.1)
    (hsweep : s'.activeSweep = s.activeSweep) (hadmitted : s'.admitted = s.admitted)
    (hevents : events s' = events s ++
      [.orderCancelled ⟨cmd.commandID, cmd.orderID, cmd.coinSymbol, cmd.side,
        core.nextTradeEvent.2⟩]) :
    ∃ d', Desk.step (.cancel cmd) d = some d' ∧ AtDesk s' d' := by
  obtain ⟨-, c, i, hl, hany, rfl⟩ :=
    (handleCancel_heap hb.bounded hb.wf hcancel).resolve_left fun h => h.1 rfl
  have hn : (c.resting.map Order.id).Nodup := by
    rw [hl.resting]
    exact h.ids hd
  have hwf := hl.forall_heap hb.wf OrderBook.newOrderBook_wf _ (book_mem hl.bound)
  obtain ⟨m, hfind⟩ :=
    Option.isSome_iff_exists.mp (List.find?_isSome.mpr (List.any_eq_true.mp hany))
  have hmbook := OrderBook.mem_orders (List.mem_of_find?_eq_some hfind)
  have hm : m ∈ s.core.resting := hl.resting ▸ (book_orders_sublist hl.bound).subset hmbook
  have hid : m.id = cmd.orderID := by
    have := List.find?_some hfind
    simp only [OrderBook.names, Bool.and_eq_true, beq_iff_eq] at this
    exact this.2
  refine ⟨d.cancelling cmd m, ?_, ?_⟩
  · rw [Desk.step, ← hid, h.find hd hm]
    rfl
  · have horders :=
      OrderBook.orders_modifyFirst (hn.sublist ((book_orders_sublist hl.bound).map _)) hfind
      (OrderBook.resting_without hwf cmd.side cmd.price cmd.orderID)
    have hperm := resting_setBook_filterMap hn hl.bound hmbook horders
    refine ⟨?_, ?_, ?_, ?_, ?_, ?_⟩
    · rw [hcore]
      exact h.engineID.trans hl.engineID.symm
    · rw [hcore]
      exact congrArg (· + 1) (h.seq.trans hl.tradeSeq.symm)
    · rw [hadmitted]
      exact h.taken
    · rw [hsweep]
      exact h.sweep
    · have hrest : s'.core.resting =
          (c.setBook i ((c.book i).without cmd.side cmd.price cmd.orderID)).resting := by
        rw [hcore]
        rfl
      rw [hrest]
      refine List.Perm.trans ?_ hperm.symm
      rw [hl.resting]
      refine List.Perm.trans ?_ (h.resting.filterMap _)
      have hfilter : (d.cancelling cmd m).resting =
          d.resting.filterMap fun r => if r.id = m.id then none else some r := by
        rw [Desk.cancelling, ← List.filterMap_eq_filter]
        exact List.filterMap_congr fun r _ => by
          by_cases hr : r.id = m.id <;> simp [Option.guard, hr]
      rw [hfilter]
    · rw [hevents, Desk.cancelling, h.sent, h.engineID, h.seq, ← hl.engineID, ← hl.tradeSeq]
      rfl

theorem AtDesk.traded (h : AtDesk s d) (hd : d.Inv) (hb : BookInv s) {sweep : ActiveSweep}
    {k : MatchKind}
    {book : OrderBook} {order : Order} {fill : Fill} (hsweep : s.activeSweep = some sweep)
    (hkind : kindOf sweep.order = some k) (hact : k.active sweep.order = true)
    (hround : k.round (s.core.book sweep.book) sweep.order = .trade book order fill)
    (hcore : s'.core = (s.core.setBook sweep.book book).nextTradeEvent.1)
    (hsweep' : s'.activeSweep = some { sweep with order := order })
    (hadmitted : s'.admitted = s.admitted)
    (hevents : events s' = events s ++ [.trade (newTrade s.core.nextTradeEvent.2 order fill)]) :
    ∃ d', Desk.step (.trade fill.makerID) d = some d' ∧ AtDesk s' d' := by
  obtain ⟨m, qty, hr⟩ := hb.round hsweep hkind hround
  have hbound := hb.bound sweep hsweep
  have hmhalf := List.mem_of_find?_eq_some hr.found
  have hmbook := OrderBook.mem_orders hmhalf
  have hm : m ∈ s.core.resting := (book_orders_sublist hbound).subset hmbook
  have hcand : k.candidate sweep.order m = true := List.find?_some hr.found
  have hqty : Desk.quantity? k sweep.order m = some qty := by
    rw [Desk.quantity?, if_pos ⟨hact, (hb.fair hsweep).side _ m hmhalf, hcand⟩, hr.quantity]
    simp [hr.positive]
  have hdsweep : d.sweep = some sweep.order := by rw [h.sweep, hsweep]; rfl
  refine ⟨d.trading k sweep.order m qty, ?_, ?_⟩
  · rw [hr.fill]
    simp only [Desk.step, hdsweep, h.find hd hm, hkind, hqty, Option.bind_eq_bind, Option.bind_some,
      Option.pure_def]
  · have horders :=
      OrderBook.orders_modifyFirst
        ((h.ids hd).sublist ((book_orders_sublist hbound).map _)) hr.found
      hr.resting
    have hperm := resting_setBook_filterMap (h.ids hd) hbound hmbook horders
    refine ⟨?_, ?_, ?_, ?_, ?_, ?_⟩
    · rw [hcore]
      exact h.engineID
    · rw [hcore]
      exact congrArg (· + 1) h.seq
    · rw [hadmitted]
      exact h.taken
    · rw [hsweep', hr.taker]
      rfl
    · have hrest : s'.core.resting = (s.core.setBook sweep.book book).resting := by
        rw [hcore]
        rfl
      rw [hrest]
      exact (h.resting.filterMap _).trans hperm.symm
    · rw [hevents, Desk.trading, h.sent, h.engineID, h.seq, hr.taker, hr.fill]
      rfl

theorem AtDesk.finished (h : AtDesk s d) (hb : BookInv s) {sweep : ActiveSweep}
    (hsweep : s.activeSweep = some sweep) (hcore : s'.core = closing s.core sweep)
    (hsweep' : s'.activeSweep = none) (hadmitted : s'.admitted = s.admitted)
    (hevents : events s' = events s ++ finishEvents sweep.order) :
    ∃ d', Desk.step .finish d = some d' ∧ AtDesk s' d' := by
  have hdsweep : d.sweep = some sweep.order := by rw [h.sweep, hsweep]; rfl
  refine ⟨d.finishing sweep.order, by rw [Desk.step, hdsweep]; rfl, ?_⟩
  by_cases hrests : sweep.order.orderType ≠ .market ∧ 0 < sweep.order.amount
  · rw [closing, if_pos hrests] at hcore
    obtain ⟨rest, hperm, hset⟩ := resting_setBook (hb.bound sweep hsweep)
    refine ⟨?_, ?_, ?_, ?_, ?_, ?_⟩
    · rw [hcore]
      exact h.engineID
    · rw [hcore]
      exact h.seq
    · rw [hadmitted]
      exact h.taken
    · rw [hsweep']
      rfl
    · rw [hcore]
      simp only [Desk.finishing, Order.rests, hrests, ne_eq, not_false_eq_true, and_self,
        decide_true, if_true]
      have hadd := OrderBook.orders_addOrder (hb.fair hsweep).wf sweep.order
      refine (List.perm_append_singleton _ _).trans (List.Perm.trans ?_ (hset _).symm)
      exact ((h.resting.trans hperm).cons _).trans (hadd.append_right rest).symm
    · rw [hevents, Desk.finishing, h.sent]
  · rw [closing, if_neg hrests] at hcore
    refine ⟨?_, ?_, ?_, ?_, ?_, ?_⟩
    · rw [hcore]
      exact h.engineID
    · rw [hcore]
      exact h.seq
    · rw [hadmitted]
      exact h.taken
    · rw [hsweep']
      rfl
    · rw [hcore]
      simp only [Desk.finishing, Order.rests, hrests, decide_false, Bool.false_eq_true, if_false]
      exact h.resting
    · rw [hevents, Desk.finishing, h.sent]

/-- Admission, of an order that is swept or one that is passed over. -/
theorem AtDesk.taken_order (h : AtDesk s d) (hin : Lined s) (hslot : s.activeSweep = none)
    {o : Order} {c : Core}
    {a : String} {i : Nat} {rest : List Order} (hintake : intake s = o :: rest)
    (hl : Looked s.core c a i) (hcore : s'.core = c)
    (hsweep : s'.activeSweep.map ActiveSweep.order = if orderIsAdmissible o then some o else none)
    (hemitted : s'.emitted = s.emitted) (hadmitted : s'.admitted = s.admitted ++ [o]) :
    ∃ d', Desk.step (.take o) d = some d' ∧ AtDesk s' d' := by
  have hdsweep : d.sweep = none := by rw [h.sweep, hslot]; rfl
  have hfresh : o.id ∉ d.taken.map Order.id := by
    rw [h.taken]
    exact hin.next_fresh hintake
  refine ⟨d.taking o, by rw [Desk.step, if_pos ⟨hdsweep, hfresh⟩], ?_⟩
  refine ⟨?_, ?_, ?_, ?_, ?_, ?_⟩
  · rw [hcore, hl.engineID]
    exact h.engineID
  · rw [hcore, hl.tradeSeq]
    exact h.seq
  · rw [hadmitted, Desk.taking, h.taken]
  · rw [hsweep]
    rfl
  · rw [hcore, hl.resting]
    exact h.resting
  · rw [events, hemitted]
    exact h.sent

/-- Every move of the scheduler is a move of the desk, or none. -/
theorem AtDesk.move (h : AtDesk s d) (hd : d.Inv) (hb : BookInv s) (hin : Lined s)
    (hm : Move s l s') : ∃ d', Lts.Reach Desk.step Lts.free d d' ∧ AtDesk s' d' := by
  have hlook := getOrderBook_looked hb.bounded ""
  have hstay : AtDesk s' d → ∃ d', Lts.Reach Desk.step Lts.free d d' ∧ AtDesk s' d' :=
    fun h => ⟨d, .refl, h⟩
  have hone : ∀ a, (∃ d', Desk.step a d = some d' ∧ AtDesk s' d') →
      ∃ d', Lts.Reach Desk.step Lts.free d d' ∧ AtDesk s' d' :=
    fun a ⟨d', hstep, h⟩ => ⟨d', Lts.Reach.refl.next trivial hstep, h⟩
  cases hm with
  | idle same | halted same =>
    exact hstay (h.keep hlook same.core (by rw [same.activeSweep]) same.emitted same.admitted)
  | submit o => exact hstay (h.keep hlook rfl rfl rfl rfl)
  | register symbol => exact hstay (h.keep (getOrderBook_looked hb.bounded symbol) rfl rfl rfl rfl)
  | refused same hresult hcore =>
    obtain ⟨a, i, hl⟩ := handleCancel_refused hb.bounded hb.wf hresult hcore
    exact hstay (h.keep hl rfl (congrArg (Option.map ActiveSweep.order) same.activeSweep)
      same.emitted same.admitted)
  | removed same hcancel hcore _ emitted event =>
    refine hone _ (h.removed hd hb hcancel hcore same.activeSweep same.admitted ?_)
    rw [events, emitted, List.map_append, List.map_cons, List.map_nil, event]
    rfl
  | traded same hsweep hkind hact hround hcore hsweep' emitted event =>
    refine hone _ (h.traded hd hb hsweep hkind hact hround hcore hsweep' same.admitted ?_)
    rw [events, emitted, List.map_append, List.map_cons, List.map_nil, event]
    rfl
  | finished same hsweep _ hcore hsweep' emitted =>
    exact hone _ (h.finished hb hsweep hcore hsweep' same.admitted emitted)
  | yielded same hsweep hsweep' =>
    exact hstay (h.keep hlook same.core (by rw [hsweep, hsweep']; rfl) same.emitted same.admitted)
  | admitted same hpc hadm hintake hcore hsweep hadmitted =>
    exact hone _ (h.taken_order hin (hb.slot hpc) hintake (getOrderBook_looked hb.bounded _) hcore
      (by rw [hsweep, hadm]; rfl) same.emitted hadmitted)
  | skipped same hpc hadm hintake hadmitted =>
    exact hone _ (h.taken_order hin (hb.slot hpc) hintake hlook same.core
      (by rw [hadm]; exact congrArg _ (same.activeSweep.trans (hb.slot hpc)))
      same.emitted hadmitted)

/-- Every run on orders with distinct ids is a run of the desk. -/
theorem reach_atDesk (h : Lts.Reach (step cfg) DistinctOrder (init engineID) s) :
    ∃ d, Lts.Reach Desk.step Lts.free (.new engineID) d ∧ Lined s ∧ AtDesk s d := by
  refine h.simulate (fun s d => Lined s ∧ AtDesk s d) ⟨init_lined engineID, init_atDesk engineID⟩ ?_
  rintro t a u d hr hd ⟨hin, hat⟩ hok hstep
  have hm := move_of_step (reach_reserve hr) hstep
  obtain ⟨d', hd', hat'⟩ := hat.move (Desk.reach_inv hd) (reach_books hr) hin hm
  exact ⟨d', hd', hin.move hok hm, hat'⟩

/-! ## The life of an order -/

/-- Where an admitted order is, and what has become of it. -/
inductive Place (s : State) (p : Order) : Prop
  | sweeping : s.activeSweep.map ActiveSweep.order = some p → Place s p
  | resting : p ∈ s.core.resting → Place s p
  | done : p.orderType = .market → .marketOrderDone (marketOrderDone p) ∈ events s → Place s p
  | filled : p.orderType ≠ .market → p.amount = 0 → Place s p
  | cancelled (c : OrderCancelled) : p.orderType ≠ .market → 0 < p.amount → c.orderID = p.id →
      .orderCancelled c ∈ events s → Place s p

theorem AtDesk.place (h : AtDesk s d) (hd : d.Inv) {p : Order} (hp : p ∈ d.all) : Place s p := by
  rcases Desk.mem_all.mp hp with hp | hp | hp
  · exact .sweeping (h.sweep ▸ hp)
  · exact .resting (h.resting.mem_iff.mp hp)
  · have hended := hd.ended p hp
    rw [Desk.Ended, h.sent] at hended
    split at hended <;> rename_i hm
    · exact .done hm hended
    · rcases hended with hzero | ⟨hpos, c, hc, he⟩
      · exact .filled hm hzero
      · exact .cancelled c hm hpos hc he

/-- An admissible order has a place, and its account. -/
theorem AtDesk.account (h : AtDesk s d) (hd : d.Inv) {o : Order} (ho : o ∈ s.admitted)
    (hadm : orderIsAdmissible o = true) :
    ∃ p ∈ d.all, p.fixed = o.fixed ∧ Desk.Account (events s) o p := by
  rw [← h.taken] at ho
  have hin := hd.cast.mem_iff.mpr (List.mem_map_of_mem (List.mem_filter.mpr ⟨ho, hadm⟩))
  obtain ⟨p, hp, hfix⟩ := List.mem_map.mp hin
  exact ⟨p, hp, hfix, h.sent ▸ hd.accounts o ho p hp (Desk.fixed_iff.mp hfix).1⟩

/-- An order has at most one terminal event and no trade after it, and a market order whose sweep
has ended has exactly one result, which adds to its filled amounts what its trades have exchanged.
-/
theorem terminal_events_final (cfg : EngineConfig) (engineID : Nat) {s : State}
    (h : Lts.Reach (step cfg) DistinctOrder (init engineID) s) :
    (∀ id, (terminalsFor (events s) id).length ≤ 1) ∧
    ((events s).Pairwise fun e e' => ∀ id, e.terminalOrder? = some id → ∀ t, e' = .trade t →
      t.names id = false) ∧
    ∀ o ∈ s.admitted, orderIsAdmissible o = true → o.orderType = .market →
      (∀ sweep, s.activeSweep = some sweep → sweep.order.id ≠ o.id) →
      ∃ r, doneFor (events s) o.id = [r] ∧
        r.filledAmount = o.filledAmount + tradedAmount (events s) o.id ∧
        r.filledQuoteAmount = o.filledQuoteAmount + tradedQuote (events s) o.id := by
  obtain ⟨d, hd, -, hat⟩ := reach_atDesk h
  have hinv := Desk.reach_inv hd
  refine ⟨?_, ?_, ?_⟩
  · intro id
    rw [← hat.sent]
    exact hinv.terminalsFor_le_one id
  · rw [← hat.sent]
    refine hinv.final.imp fun {e e'} hfinal id hid t ht => ?_
    have := hfinal id hid
    rwa [ht] at this
  · intro o ho hadm hmarket hended
    obtain ⟨p, hp, hfix, hacc⟩ := hat.account hinv ho hadm
    obtain ⟨hid, -, -, -, htype, -⟩ := Desk.fixed_iff.mp hfix
    have hpmarket : p.orderType = .market := htype.trans hmarket
    have hgone : p ∈ d.gone := by
      rcases Desk.mem_all.mp hp with hp | hp | hp
      · rw [hat.sweep, Option.map_eq_some_iff] at hp
        obtain ⟨sweep, hsweep, hps⟩ := hp
        exact absurd (hps ▸ hid) (hended sweep hsweep)
      · exact absurd hpmarket (hinv.rest p hp).1
      · exact hp
    refine ⟨marketOrderDone p, ?_, hacc.filledAmount, hacc.filledQuote hmarket⟩
    rw [← hat.sent, ← hid]
    exact hinv.doneFor_gone hgone hpmarket

/-- What was admitted of an order is what is left of it and what its trades have used; nothing left
is negative, every trade exchanges something and every resting order has something left. -/
theorem admitted_amount_conserved (cfg : EngineConfig) (engineID : Nat) {s : State}
    (h : Lts.Reach (step cfg) DistinctOrder (init engineID) s) :
    (∀ o ∈ s.admitted, orderIsAdmissible o = true →
      ∃ p, p.fixed = o.fixed ∧ Place s p ∧ p.budget + o.spent (events s) = o.budget ∧
        (0 ≤ o.budget → 0 ≤ p.budget)) ∧
    (∀ t, .trade t ∈ events s → 0 < t.quantity) ∧
    ∀ m ∈ s.core.resting, 0 < m.amount := by
  obtain ⟨d, hd, -, hat⟩ := reach_atDesk h
  have hinv := Desk.reach_inv hd
  refine ⟨?_, ?_, ?_⟩
  · intro o ho hadm
    obtain ⟨p, hp, hfix, hacc⟩ := hat.account hinv ho hadm
    exact ⟨p, hfix, hat.place hinv hp, hacc.budget, hacc.nonneg⟩
  · rw [← hat.sent]
    exact hinv.positive
  · intro m hm
    exact (hinv.rest m (hat.resting.mem_iff.mpr hm)).2

/-! ## The numbers of events -/

/-- The number an event carries; the end of a market order has none. -/
def number? : ExecutionEvent → Option EventID
  | .trade t => some t.eventID
  | .orderCancelled c => some c.eventID
  | .marketOrderDone _ => none

theorem reach_numbers (h : Lts.Reach Desk.step Lts.free (.new engineID) d) :
    d.engineID = engineID ∧ d.events.filterMap number? = (List.range d.seq).map fun n =>
      ⟨engineID, n + 1⟩ := by
  refine h.invariant (fun d => d.engineID = engineID ∧ d.events.filterMap number? =
    (List.range d.seq).map fun n => ⟨engineID, n + 1⟩) ⟨rfl, rfl⟩ fun d m d' _ hi _ hs => ?_
  cases m with
  | take o =>
    simp only [Desk.step, Option.ite_none_right_eq_some, Option.some.injEq] at hs
    exact hs.2 ▸ hi
  | trade makerID =>
    simp only [Desk.step, Option.bind_eq_bind, Option.bind_eq_some_iff, Option.pure_def,
      Option.some.injEq] at hs
    obtain ⟨o, -, m, -, k, -, qty, -, rfl⟩ := hs
    exact ⟨hi.1, by simp [Desk.trading, number?, newTrade, List.range_succ, hi]⟩
  | cancel cmd =>
    obtain ⟨m, -, rfl⟩ := Option.map_eq_some_iff.mp hs
    exact ⟨hi.1, by simp [Desk.cancelling, number?, List.range_succ, hi]⟩
  | finish =>
    obtain ⟨o, -, rfl⟩ := Option.map_eq_some_iff.mp hs
    refine ⟨hi.1, ?_⟩
    by_cases ho : o.orderType = .market <;> simp [Desk.finishing, finishEvents, number?, ho, hi]

/-- An engine numbers its trades and cancellations 1, 2, 3, … in the order in which it sends them,
so no two of them share an event id, and whatever it sends is about orders it was sent. -/
theorem events_identified (cfg : EngineConfig) (engineID : Nat) {s : State}
    (h : Lts.Reach (step cfg) DistinctOrder (init engineID) s) :
    (events s).filterMap number? = (List.range s.core.tradeSeq).map (fun n => ⟨engineID, n + 1⟩) ∧
      ((events s).filterMap number?).Nodup ∧
      ∀ e ∈ events s, ∀ id, e.names id = true → id ∈ s.submitted.map Order.id := by
  obtain ⟨d, hd, hin, hat⟩ := reach_atDesk h
  have hinv := Desk.reach_inv hd
  have hnumbers := (reach_numbers hd).2
  rw [hat.sent, hat.seq] at hnumbers
  refine ⟨hnumbers, hnumbers ▸ List.nodup_range.map fun m n he => by simpa using he,
    fun e he id hid => ?_⟩
  have hall := hinv.all_perm.mem_iff.mp (hinv.named e (hat.sent ▸ he) id hid)
  rw [hat.taken] at hall
  exact (((List.filter_sublist.trans (List.sublist_append_left _ _)).trans hin.order).map
    Order.id).subset hall

instance (s : State) : DecidablePred (DistinctOrder s)
  | .submitOrder o => inferInstanceAs (Decidable (o.id ∉ s.submitted.map Order.id))
  | .advance | .flush _ | .recvCancel | .recvOrder | .recvTick | .recvStop | .recvCapacity
  | .sendCancel _ | .consume
  | .consumeSnapshot | .tick | .stop | .wake => isTrue trivial

/-- An ask, a market buy that takes two thirds of it, and the turns until both are at their end. -/
def marketBuyRun : List Label :=
  [.submitOrder ⟨1, 1, 3, 0, "BTC", .sell, 0, 0, .limit, 10⟩,
    .submitOrder ⟨2, 2, 0, 20, "BTC", .buy, 0, 0, .market, 0⟩] ++
  List.replicate 17 .advance ++ [.recvOrder] ++ List.replicate 18 .advance

theorem terminal_events_final_marketBuyRun :
    ∃ s r, Lts.exec (Lts.guarded (step smallestConfig) DistinctOrder) marketBuyRun (init 1) =
      some s ∧ (events s).length = 2 ∧ doneFor (events s) 2 = [r] ∧ tradedAmount (events s) 2 = 2 ∧
      r.filledAmount = 0 + tradedAmount (events s) 2 := by
  have hrun : (Lts.exec (Lts.guarded (step smallestConfig) DistinctOrder) marketBuyRun (init 1)).map
      (fun s => ((events s).length, tradedAmount (events s) 2, s.activeSweep.isNone,
        s.admitted.getLast?)) =
      some (2, 2, true, some ⟨2, 2, 0, 20, "BTC", .buy, 0, 0, .market, 0⟩) := by
    decide +kernel
  obtain ⟨s, hs, hend⟩ := Option.map_eq_some_iff.mp hrun
  simp only [Prod.mk.injEq, Option.isNone_iff_eq_none] at hend
  obtain ⟨hlen, hamount, hnone, hlast⟩ := hend
  obtain ⟨-, -, hdone⟩ := terminal_events_final smallestConfig 1 (Lts.reach_of_exec_guarded _ hs)
  obtain ⟨r, hr, hfilled, -⟩ := hdone _ (List.mem_of_getLast? hlast) (by decide) rfl
    (fun sweep hsweep => by rw [hnone] at hsweep; cases hsweep)
  exact ⟨s, r, hs, hlen, hr, hamount, hfilled⟩

theorem admitted_amount_conserved_marketBuyRun :
    ∃ s p, Lts.exec (Lts.guarded (step smallestConfig) DistinctOrder) marketBuyRun (init 1) =
      some s ∧ Place s p ∧ p.id = 1 ∧ p.amount + 2 = 3 := by
  have hrun : (Lts.exec (Lts.guarded (step smallestConfig) DistinctOrder) marketBuyRun (init 1)).map
      (fun s => (tradedAmount (events s) 1, s.admitted.head?)) =
      some (2, some ⟨1, 1, 3, 0, "BTC", .sell, 0, 0, .limit, 10⟩) := by
    decide +kernel
  obtain ⟨s, hs, hend⟩ := Option.map_eq_some_iff.mp hrun
  obtain ⟨hamount, hhead⟩ := Prod.mk.inj hend
  obtain ⟨hall, -, -⟩ := admitted_amount_conserved smallestConfig 1 (Lts.reach_of_exec_guarded _ hs)
  obtain ⟨p, hfix, hplace, hbudget, -⟩ := hall _ (List.mem_of_mem_head? hhead) (by decide)
  obtain ⟨hid, -, -, hside, -, -⟩ := Desk.fixed_iff.mp hfix
  refine ⟨s, p, hs, hplace, hid, ?_⟩
  simpa [Order.budget, Order.spent, hside, hamount] using hbudget

theorem events_identified_marketBuyRun :
    ∃ s, Lts.exec (Lts.guarded (step smallestConfig) DistinctOrder) marketBuyRun (init 1) = some s ∧
      s.core.tradeSeq = 1 ∧ (events s).filterMap number? = [⟨1, 1⟩] := by
  have hrun : (Lts.exec (Lts.guarded (step smallestConfig) DistinctOrder) marketBuyRun (init 1)).map
      (fun s => s.core.tradeSeq) = some 1 := by decide +kernel
  obtain ⟨s, hs, hseq⟩ := Option.map_eq_some_iff.mp hrun
  have hnumbers := (events_identified smallestConfig 1 (Lts.reach_of_exec_guarded _ hs)).1
  exact ⟨s, hs, hseq, by simpa [hseq] using hnumbers⟩

end GoExchange.Engine
