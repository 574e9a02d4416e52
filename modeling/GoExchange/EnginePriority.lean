import GoExchange.EngineDesk

/-!
# Price and time

Orders queue at their price in the order in which they were admitted, however
their makers are filled, passed over and cancelled in between. So the maker of
every trade is the oldest order at the best price that the taker may trade
with, and a cancel finds the order it names.
-/
namespace GoExchange.Matching

open Buckets

/-- Admitted in this order. -/
def Before (admitted : List Order) (x y : Order) : Prop :=
  [x.id, y.id].Sublist (admitted.map Order.id)

/-- A book of one symbol in which equal prices queue by admission. -/
structure OrderBook.Queued (b : OrderBook) (symbol : String) (admitted : List Order) : Prop where
  home : ∀ h, ∀ m ∈ b.resting h, m.coinSymbol = symbol
  arrival : ∀ h, (b.resting h).Pairwise fun x y => x.price = y.price → Before admitted x y

variable {b c : OrderBook} {symbol : String} {admitted admitted' : List Order} {o m x y : Order}
  {k : MatchKind}

theorem Before.mono (h : Before admitted x y) (hp : admitted <+: admitted') :
    Before admitted' x y :=
  h.trans (hp.sublist.map _)

/-- An order already admitted is before the next one. -/
theorem before_next (h : x.id ∈ admitted.map Order.id) (o : Order) :
    Before (admitted ++ [o]) x o := by
  rw [Before, List.map_append]
  exact (List.singleton_sublist.mpr h).append (.refl _)

theorem newOrderBook_queued (symbol : String) (admitted : List Order) :
    newOrderBook.Queued symbol admitted where
  home h m hm := by cases h <;> cases hm
  arrival h := by cases h <;> exact .nil

theorem OrderBook.Queued.mono (hb : b.Queued symbol admitted) (hp : admitted <+: admitted') :
    b.Queued symbol admitted' :=
  ⟨hb.home, fun h => (hb.arrival h).imp fun hxy he => (hxy he).mono hp⟩

theorem OrderBook.Queued.consumed (hb : b.Queued symbol admitted) (hc : b.Consumed c) :
    c.Queued symbol admitted where
  home h m hm := by
    obtain ⟨m', hm', hfix⟩ := hc.exists_mem hm
    exact (Desk.fixed_iff.mp hfix).2.2.1 ▸ hb.home h m' hm'
  arrival h := by
    -- the relation only reads ids and prices
    have hpair : ((b.resting h).map Order.fixed).Pairwise fun x y =>
        x.2.2.2.2.2 = y.2.2.2.2.2 → [x.1, y.1].Sublist (admitted.map Order.id) :=
      List.pairwise_map.mpr (hb.arrival h)
    exact List.pairwise_map.mp (hpair.sublist (hc h))

/-- A new order goes behind those that were there. -/
theorem OrderBook.Queued.addOrder (hb : b.Queued symbol admitted) (hw : b.Wf)
    (hsymbol : o.coinSymbol = symbol)
    (hlast : ∀ h, ∀ m ∈ b.resting h, Before admitted m o) :
    (b.addOrder o).Queued symbol admitted where
  home h m hm := by
    rw [OrderBook.resting_addOrder hw] at hm
    split at hm
    · rcases List.mem_cons.mp ((insertBehind_perm _ _).mem_iff.mp hm) with rfl | hm
      · exact hsymbol
      · exact hb.home h m hm
    · exact hb.home h m hm
  arrival h := by
    rw [OrderBook.resting_addOrder hw]
    split
    · have hsorted := (hw h).flatten_sorted (OrderBook.before_strict h)
      refine insertBehind_pairwise (OrderBook.before_strict h) hsorted (hb.arrival h)
        (fun m hm _ => hlast h m hm) ?_
      intro m hm hbefore he
      rw [he, (OrderBook.before_strict h).irrefl] at hbefore
      cases hbefore
    · exact hb.arrival h

/-! ## The maker of a trade -/

/-- The first candidate has the best price of all orders the taker may trade with, and among those
of that price it is the oldest. -/
theorem first_candidate (hk : k.Lawful) (hw : b.Wf) (hb : b.Queued symbol admitted)
    (hfound : (b.resting k.half).find? (k.candidate o) = some m) :
    ∀ x ∈ b.resting k.half, isSelfTrade o x = false →
      k.half.before x.price m.price = false ∧
      (x.price = m.price → x ≠ m → Before admitted m x) := by
  intro x hx hself
  obtain ⟨hcand, l₁, l₂, hsplit, hnone⟩ := List.find?_eq_some_iff_append.mp hfound
  have hacc : k.accepts o m.price = true := by
    simp only [MatchKind.candidate, Bool.and_eq_true] at hcand
    exact hcand.1
  have hsorted := (hw k.half).flatten_sorted (OrderBook.before_strict k.half)
  have harrival := hb.arrival k.half
  rw [← OrderBook.resting, hsplit, List.pairwise_append, List.pairwise_cons] at hsorted
  rw [hsplit, List.pairwise_append, List.pairwise_cons] at harrival
  rw [hsplit, List.mem_append, List.mem_cons] at hx
  have hlater : k.accepts o x.price = true → x = m ∨ x ∈ l₂ := by
    intro hxacc
    refine hx.resolve_left fun hx₁ => ?_
    have := hnone x hx₁
    simp [MatchKind.candidate, hxacc, hself] at this
  refine ⟨?_, fun hprice hne => ?_⟩
  · rw [Bool.eq_false_iff]
    intro hbefore
    rcases hlater (hk.accepts_mono o _ _ hbefore hacc) with rfl | hx₂
    · rw [(OrderBook.before_strict k.half).irrefl] at hbefore
      cases hbefore
    · rw [hsorted.2.1.1 x hx₂] at hbefore
      cases hbefore
  · have hx₂ := (hlater (hprice ▸ hacc)).resolve_left hne
    exact harrival.2.1.1 x hx₂ hprice.symm

end GoExchange.Matching

namespace GoExchange.Engine

open Matching Core

variable {cfg : EngineConfig} {s s' : State} {l : Label} {engineID : Nat} {cmd : CancelOrderCommand}

/-! ## Queues along a run -/

theorem view_resting {c : Core} (hc : c.Bounded) {a : String} {h : Half} {m : Order}
    (hm : m ∈ (c.view a).resting h) : m ∈ c.resting := by
  cases hl : c.orderBooks.lookup a with
  | none =>
    rw [view, hl] at hm
    cases h <;> cases hm
  | some i =>
    rw [view_of_lookup hl] at hm
    exact (book_orders_sublist (hc.lookup a i hl)).subset (OrderBook.mem_orders hm)

structure PriorityInv (s : State) : Prop where
  queued : ∀ a, (s.core.view a).Queued a s.admitted
  front : ∀ sweep, s.activeSweep = some sweep → ∀ a h, ∀ m ∈ (s.core.view a).resting h,
    Before s.admitted m sweep.order

theorem init_priority (engineID : Nat) : PriorityInv (init engineID) where
  queued a := newOrderBook_queued a _
  front sweep hs := by cases hs

/-- The books are as before and nothing is swept that was not. -/
theorem PriorityInv.keep (h : PriorityInv s) (hview : s'.core.view = s.core.view)
    (hadm : s.admitted <+: s'.admitted) (hsweep : ∀ sweep', s'.activeSweep = some sweep' →
      ∃ sweep, s.activeSweep = some sweep ∧ sweep.order.id = sweep'.order.id) : PriorityInv s' where
  queued a := hview ▸ (h.queued a).mono hadm
  front sweep' hs a half m hm := by
    obtain ⟨sweep, hsome, hid⟩ := hsweep sweep' hs
    have := (h.front sweep hsome a half m (hview ▸ hm)).mono hadm
    rwa [Before, hid] at this

/-- One book has lost some of its orders, or some of their amounts. -/
theorem PriorityInv.consumed (h : PriorityInv s) {a : String} {b : OrderBook}
    (hview : s'.core.view = Function.update s.core.view a b) (hcons : (s.core.view a).Consumed b)
    (hadm : s'.admitted = s.admitted)
    (hsweep : ∀ sweep', s'.activeSweep = some sweep' →
      ∃ sweep, s.activeSweep = some sweep ∧ sweep.order.id = sweep'.order.id) : PriorityInv s' := by
  have hall : ∀ a', (s.core.view a').Consumed (s'.core.view a') := by
    intro a'
    rw [hview]
    by_cases ha : a' = a
    · rw [ha, Function.update_self]
      exact hcons
    · rw [Function.update_of_ne ha]
      exact fun _ => .refl _
  refine ⟨fun a' => hadm ▸ (h.queued a').consumed (hall a'), fun sweep' hs a' half m hm => ?_⟩
  obtain ⟨sweep, hsome, hid⟩ := hsweep sweep' hs
  obtain ⟨m', hm', hfix⟩ := (hall a').exists_mem hm
  have := h.front sweep hsome a' half m' hm'
  rwa [Before, hid, (Desk.fixed_iff.mp hfix).1, ← hadm] at this

theorem PriorityInv.finished (h : PriorityInv s) (hser : SerialInv engineID s) {sweep : ActiveSweep}
    (hsweep : s.activeSweep = some sweep)
    (hcore : s'.core = closing s.core sweep)
    (hsweep' : s'.activeSweep = none) (hadm : s'.admitted = s.admitted) : PriorityInv s' := by
  have hfront : ∀ sweep', s'.activeSweep = some sweep' →
      ∀ a half, ∀ m ∈ (s'.core.view a).resting half,
      Before s'.admitted m sweep'.order := fun sweep' hs => by
    rw [hsweep'] at hs
    cases hs
  refine ⟨fun a => ?_, hfront⟩
  rw [hcore, hadm, closing]
  split
  · have hlookup := hser.sweep_symbol hsweep
    rw [view_setBook hser.ok hlookup]
    by_cases ha : a = sweep.order.coinSymbol
    · rw [ha, Function.update_self, ← view_of_lookup hlookup]
      exact (h.queued _).addOrder (hser.wf _) rfl (h.front sweep hsweep _)
    · rw [Function.update_of_ne ha]
      exact h.queued a
  · exact h.queued a

theorem PriorityInv.move (h : PriorityInv s) (hser : SerialInv engineID s) (hb : BookInv s)
    (hknown : ∀ m ∈ s.core.resting, m.id ∈ s.admitted.map Order.id) (hm : Move s l s') :
    PriorityInv s' := by
  have hsame : ∀ {t : State}, t.activeSweep = s.activeSweep →
      ∀ sweep', t.activeSweep = some sweep' →
      ∃ sweep, s.activeSweep = some sweep ∧ sweep.order.id = sweep'.order.id :=
    fun he sweep' hs => ⟨sweep', he ▸ hs, rfl⟩
  cases hm with
  | idle same | halted same =>
    exact h.keep (by rw [same.core]) (by rw [same.admitted]) (hsame same.activeSweep)
  | submit o => exact h.keep rfl List.prefix_rfl (hsame rfl)
  | register symbol =>
    exact h.keep ((getOrderBook_looked hb.bounded symbol).view hser.ok) List.prefix_rfl (hsame rfl)
  | refused same hresult hcore =>
    obtain ⟨a, i, hl⟩ := handleCancel_refused hb.bounded hb.wf hresult hcore
    have hadm : s'.admitted = s.admitted := same.admitted
    exact h.keep (hl.view hser.ok) (by rw [hadm]) (hsame same.activeSweep)
  | @removed _ _ cmd _ _ same hcancel hcore =>
    have hview : s'.core.view = Core.removed s.core.view cmd := by
      rw [hcore]
      exact (handleCancel_spec hser.ok hser.wf hcancel).view_removed rfl
    exact h.consumed hview (fun half => (OrderBook.without_sublist (hser.wf _) _ _ _ half).map _)
      same.admitted (hsame same.activeSweep)
  | @traded _ _ sweep _ book _ _ _ same hsweep hkind _ hround hcore hsweep' =>
    obtain ⟨m, qty, hr⟩ := hb.round hsweep hkind hround
    have hlookup := hser.sweep_symbol hsweep
    have hview : s'.core.view = Function.update s.core.view sweep.order.coinSymbol book := by
      rw [hcore]
      exact view_setBook hser.ok hlookup book
    refine h.consumed hview ?_ same.admitted fun sweep' hs => ?_
    · rw [view_of_lookup hlookup]
      exact hr.consumed
    · cases hsweep'.symm.trans hs
      refine ⟨sweep, hsweep, ?_⟩
      have hfix := (lawful_of_kindOf hkind).fill_fixed sweep.order m.price qty
      exact (Desk.fixed_iff.mp (hr.taker ▸ hfix)).1.symm
  | finished same hsweep _ hcore hsweep' => exact h.finished hser hsweep hcore hsweep' same.admitted
  | @yielded _ _ sweep _ same hsweep hsweep' =>
    have hcore : s'.core = s.core := same.core
    have hadm : s'.admitted = s.admitted := same.admitted
    refine h.keep (by rw [hcore]) (by rw [hadm]) fun sweep' hs => ?_
    cases hsweep'.symm.trans hs
    exact ⟨sweep, hsweep, rfl⟩
  | @admitted _ _ o _ _ _ _ hcore hsweep hadmitted =>
    have hview : s'.core.view = s.core.view :=
      hcore ▸ (getOrderBook_looked hb.bounded o.coinSymbol).view hser.ok
    refine ⟨fun a => ?_, fun sweep' hs a half m hm => ?_⟩
    · rw [hview, hadmitted]
      exact (h.queued a).mono (List.prefix_append _ _)
    · cases hsweep.symm.trans hs
      rw [hadmitted]
      exact before_next (hknown m (view_resting hb.bounded (hview ▸ hm))) o
  | skipped same _ _ _ hadmitted =>
    have hcore : s'.core = s.core := same.core
    refine h.keep (by rw [hcore]) ?_ (hsame same.activeSweep)
    rw [hadmitted]
    exact List.prefix_append _ _

/-- What a run on orders with distinct ids, symbols and prices has in every state. -/
theorem reach_priority (h : Lts.Reach (step cfg) FreshOrder (init engineID) s) :
    PriorityInv s ∧ SerialInv engineID s ∧ ∃ d, d.Inv ∧ AtDesk s d := by
  have hserial : ∀ {t : State}, Lts.Reach (step cfg) FreshOrder (init engineID) t →
      SerialInv engineID t ∧ ∃ d, d.Inv ∧ AtDesk t d := by
    intro t ht
    obtain ⟨d, hd, -, hat⟩ := reach_atDesk (ht.mono fun _ _ => distinctOrder_of_fresh)
    exact ⟨(reach_serial ht).2, d, Desk.reach_inv hd, hat⟩
  refine ⟨?_, hserial h⟩
  refine h.invariant PriorityInv (init_priority engineID) fun t a u hr hi _ hs => ?_
  obtain ⟨hser, d, hd, hat⟩ := hserial hr
  refine hi.move hser (reach_books hr) (fun m hm => ?_) (move_of_step (reach_reserve hr) hs)
  rw [← hat.taken]
  exact hd.id_taken
    (List.mem_map_of_mem (Desk.mem_all.mpr (.inr (.inl (hat.resting.mem_iff.mpr hm)))))

/-! ## Trades -/

/-- A step that emits a trade is a round of the sweep. -/
theorem Move.trade {t : Trade} (hm : Move s l s') (ht : events s' = events s ++ [.trade t]) :
    ∃ sweep k book order fill, s.activeSweep = some sweep ∧ kindOf sweep.order = some k ∧
      k.round (s.core.book sweep.book) sweep.order = .trade book order fill ∧
      t = newTrade s.core.nextTradeEvent.2 order fill := by
  have hnone : ∀ {u : State}, u.emitted = s.emitted →
      events u = events s ++ [.trade t] → False := by
    intro u he hu
    rw [events, he, ← events, List.self_eq_append_right] at hu
    cases hu
  cases hm with
  | idle same | refused same | halted same | yielded same | admitted same | skipped same =>
    exact (hnone same.emitted ht).elim
  | submit | register => exact (hnone rfl ht).elim
  | removed _ _ _ _ emitted event =>
    rw [events, emitted, List.map_append, ← events, List.append_cancel_left_eq, List.map_cons,
      event] at ht
    cases ht
  | traded _ hsweep hkind _ hround _ _ emitted event =>
    rw [events, emitted, List.map_append, ← events, List.append_cancel_left_eq, List.map_cons,
      event] at ht
    cases ht
    exact ⟨_, _, _, _, _, hsweep, hkind, hround, rfl⟩
  | finished _ _ _ _ _ emitted =>
    rw [events, emitted, ← events, List.append_cancel_left_eq, finishEvents] at ht
    split at ht <;> cases ht

/-- Both orders belong to one user. -/
def SameUser (x y : Order) : Prop := x.userID = y.userID ∧ x.userID ≠ 0

theorem isSelfTrade_iff {x y : Order} : isSelfTrade x y = true ↔ SameUser x y := by
  simp only [isSelfTrade, SameUser, Bool.and_eq_true, bne_iff_ne, beq_iff_eq]
  constructor
  · rintro ⟨⟨hx, -⟩, he⟩
    exact ⟨he, hx⟩
  · rintro ⟨he, hx⟩
    exact ⟨⟨hx, he ▸ hx⟩, he⟩

/-- The half a taker trades with. -/
def opposite (side : OrderSide) : Half := if side = .buy then .asks else .bids

/-- `m` has priority for `o` in the state `s`, and `t` is their trade. -/
structure Priority (s : State) (o m : Order) (t : Trade) : Prop where
  symbol : o.coinSymbol ≠ "" ∧ m.coinSymbol = o.coinSymbol ∧ t.coinSymbol = o.coinSymbol
  rests : m ∈ (s.core.view o.coinSymbol).resting (opposite o.side)
  parties : o.side = .buy ∧ t.buyOrderID = o.id ∧ t.sellOrderID = m.id ∨
    o.side = .sell ∧ t.sellOrderID = o.id ∧ t.buyOrderID = m.id
  price : t.price = m.price
  limit : o.orderType ≠ .market →
    (o.side = .buy → t.price ≤ o.price) ∧ (o.side = .sell → o.price ≤ t.price)
  users : ¬ SameUser o m
  best : ∀ x ∈ (s.core.view o.coinSymbol).resting (opposite o.side), ¬ SameUser o x →
    (o.side = .buy → m.price ≤ x.price) ∧ (o.side = .sell → x.price ≤ m.price)
  oldest : ∀ x ∈ (s.core.view o.coinSymbol).resting (opposite o.side), ¬ SameUser o x →
    x.price = m.price → x ≠ m → Before s.admitted m x

/-- Every trade is made with the oldest order, at the best price, that is not the taker's own
user's. -/
theorem trade_has_priority (cfg : EngineConfig) (engineID : Nat) {s s' : State}
    {l : Label} {t : Trade}
    (h : Lts.Reach (step cfg) FreshOrder (init engineID) s) (hstep : step cfg l s = some s')
    (ht : events s' = events s ++ [.trade t]) :
    ∃ sweep m, s.activeSweep = some sweep ∧ Priority s sweep.order m t := by
  obtain ⟨hprio, hser, -⟩ := reach_priority h
  have hb := reach_books h
  obtain ⟨sweep, k, book, order, fill, hsweep, hkind, hround, rfl⟩ :=
    (move_of_step (reach_reserve h) hstep).trade ht
  obtain ⟨m, qty, hr⟩ := hb.round hsweep hkind hround
  have hk := lawful_of_kindOf hkind
  have hlookup := hser.sweep_symbol hsweep
  have hbook := view_of_lookup hlookup
  have hfix := Desk.fixed_iff.mp (hr.taker ▸ hk.fill_fixed sweep.order m.price qty : order.fixed =
    sweep.order.fixed)
  have hfirst := first_candidate hk (hser.wf sweep.order.coinSymbol) (hprio.queued _)
    (hbook ▸ hr.found)
  have hm : m ∈ (s.core.view sweep.order.coinSymbol).resting k.half :=
    hbook ▸ List.mem_of_find?_eq_some hr.found
  have hcand : k.accepts sweep.order m.price = true ∧ isSelfTrade sweep.order m = false := by
    simpa [MatchKind.candidate] using List.find?_some hr.found
  have hself : ∀ x, ¬ SameUser sweep.order x → isSelfTrade sweep.order x = false := fun x hx =>
    Bool.eq_false_iff.mpr fun he => hx (isSelfTrade_iff.mp he)
  have hhalf : k.half = opposite sweep.order.side := by
    cases takes_of_kindOf hkind with
    | marketBuy hs => simp [opposite, hs, matchMarketBuy]
    | buy hs => simp [opposite, hs, matchBuy]
    | marketSell hs => simp [opposite, hs, matchMarketSell]
    | sell hs => simp [opposite, hs, matchSell]
  have hsides : sweep.order.side = .buy ∨ sweep.order.side = .sell := by
    cases takes_of_kindOf hkind with
    | marketBuy hs => exact .inl hs
    | buy hs => exact .inl hs
    | marketSell hs => exact .inr hs
    | sell hs => exact .inr hs
  refine ⟨sweep, m, hsweep, ?_, hhalf ▸ hm, ?_, ?_, ?_, ?_, ?_, ?_⟩
  · exact ⟨hser.sweep_symbol_ne hsweep, (hprio.queued _).home _ m hm, hfix.2.2.1⟩
  · rcases hsides with hs | hs
    · exact .inl ⟨hs, by simp [newTrade, hfix.2.2.2.1, hs, hfix.1],
        by simp [newTrade, hfix.2.2.2.1, hs, hr.fill]⟩
    · exact .inr ⟨hs, by simp [newTrade, hfix.2.2.2.1, hs, hfix.1],
        by simp [newTrade, hfix.2.2.2.1, hs, hr.fill]⟩
  · simp [newTrade, hr.fill]
  · intro hlimit
    have hprice : (newTrade s.core.nextTradeEvent.2 order fill).price = m.price := by
      simp [newTrade, hr.fill]
    rw [hprice]
    cases takes_of_kindOf hkind with
    | marketBuy _ htype => exact absurd htype hlimit
    | buy hs =>
      refine ⟨fun _ => by simpa [matchBuy] using hcand.1, fun hs' => ?_⟩
      rw [hs] at hs'
      cases hs'
    | marketSell _ htype => exact absurd htype hlimit
    | sell hs =>
      refine ⟨fun hs' => ?_, fun _ => by simpa [matchSell] using hcand.1⟩
      rw [hs] at hs'
      cases hs'
  · intro hsame
    rw [isSelfTrade_iff.mpr hsame] at hcand
    cases hcand.2
  · intro x hx hother
    have hbest := (hfirst x (hhalf ▸ hx) (hself x hother)).1
    rw [hhalf] at hbest
    refine ⟨fun hs => ?_, fun hs => ?_⟩
    · simpa [opposite, hs, Half.before] using hbest
    · simpa [opposite, hs, Half.before] using hbest
  · intro x hx hother hprice hne
    exact (hfirst x (hhalf ▸ hx) (hself x hother)).2 hprice hne

/-- Four orders to sell rest, and one of their owners sends an order to buy: their own is the first
at the best price, two come after it, and the fourth is at a worse one. The engine is about to make
the first trade. -/
def severalMakers : List Label :=
  [.submitOrder ⟨1, 1, 1, 0, "BTC", .sell, 0, 0, .limit, 11⟩,
    .submitOrder ⟨2, 9, 1, 0, "BTC", .sell, 0, 0, .limit, 10⟩,
    .submitOrder ⟨3, 3, 1, 0, "BTC", .sell, 0, 0, .limit, 10⟩,
    .submitOrder ⟨4, 4, 1, 0, "BTC", .sell, 0, 0, .limit, 10⟩,
    .submitOrder ⟨5, 9, 2, 0, "BTC", .buy, 0, 0, .limit, 11⟩] ++
  (List.replicate 4 (List.replicate 17 .advance ++ [.recvOrder])).flatten ++
    List.replicate 13 .advance

theorem trade_has_priority_severalMakers :
    ∃ s s' t, Lts.exec (Lts.guarded (step smallestConfig) FreshOrder) severalMakers (init 1) =
      some s ∧ ((s.core.view "BTC").resting .asks).map Order.id = [2, 3, 4, 1] ∧
      step smallestConfig .advance s = some s' ∧ events s' = [.trade t] ∧ t.sellOrderID = 3 ∧
      ∃ sweep m, s.activeSweep = some sweep ∧ Priority s sweep.order m t := by
  have hrun : ((Lts.exec (Lts.guarded (step smallestConfig) FreshOrder) severalMakers (init 1)).bind
      fun s =>
      (step smallestConfig .advance s).map fun s' =>
        (((s.core.view "BTC").resting .asks).map Order.id, events s, events s')) =
      some ([2, 3, 4, 1], [], [.trade ⟨⟨1, 1⟩, "BTC", 10, 1, 5, 3⟩]) := by
    decide +kernel
  obtain ⟨s, hs, hnext⟩ := Option.bind_eq_some_iff.mp hrun
  obtain ⟨s', hs', hend⟩ := Option.map_eq_some_iff.mp hnext
  simp only [Prod.mk.injEq] at hend
  obtain ⟨hbook, hbefore, hafter⟩ := hend
  exact ⟨s, s', _, hs, hbook, hs', hafter, rfl,
    trade_has_priority smallestConfig 1 (Lts.reach_of_exec_guarded _ hs) hs'
    (by rw [hbefore, hafter]; rfl)⟩

/-! ## Cancels -/

/-- The order rests in the book of some symbol. -/
def Rests (s : State) (id : Nat) : Prop := ∃ a h, ∃ p ∈ (s.core.view a).resting h, p.id = id

/-- The levels of a half: strictly ordered, none empty, every order at the price and on the side of
its level. -/
structure Levels (h : Half) (levels : List PriceLevel) : Prop where
  ordered : levels.Pairwise fun l l' => h.before l.key l'.key = true
  nonempty : ∀ l ∈ levels, l.items ≠ []
  placed : ∀ l ∈ levels, ∀ m ∈ l.items, m.price = l.key ∧ halfOf m.side = h

/-- The command carries the id, the symbol, the side and the price of the order. -/
def Carries (cmd : CancelOrderCommand) (o : Order) : Prop :=
  cmd.orderID = o.id ∧ cmd.coinSymbol = o.coinSymbol ∧ cmd.side = o.side ∧ cmd.price = o.price

theorem fair_of_view (hb : BookInv s) (a : String) : (s.core.view a).Fair := by
  cases hl : s.core.orderBooks.lookup a with
  | none =>
    rw [view, hl]
    exact newOrderBook_fair
  | some i =>
    rw [view_of_lookup hl]
    exact hb.books _ (book_mem (hb.bounded.lookup a i hl))

theorem levels_of_fair {b : OrderBook} (hb : b.Fair) (h : Half) : Levels h (b.half h) where
  ordered := (hb.wf h).sorted
  nonempty := (hb.wf h).nonempty
  placed l hl m hm :=
    ⟨(hb.wf h).keyed l hl m hm, hb.side h m (List.mem_flatMap.mpr ⟨l, hl, hm⟩)⟩

/-- A cancel that is not turned away is handled on the books as they are. -/
theorem Move.answer {r : CancelOrderResult} (hm : Move s l s')
    (ha : s'.answers = s.answers ++ [(cmd, r)]) (hr : r ≠ .backpressured) :
    ∃ core, s.core.handleCancel cmd = (core, r) ∧ s'.core.view = core.view := by
  have hnone : ∀ {u : State}, u.answers = s.answers →
      u.answers = s.answers ++ [(cmd, r)] → False := by
    intro u he hu
    rw [he, List.self_eq_append_right] at hu
    cases hu
  have hlast : ∀ {x : CancelOrderCommand × CancelOrderResult}, s'.answers = s.answers ++ [x] →
      x = (cmd, r) := by
    intro x hx
    rw [hx, List.append_cancel_left_eq] at ha
    exact List.singleton_inj.mp ha
  cases hm with
  | idle same | traded same | halted same | finished same | yielded same | admitted same
  | skipped same =>
    exact (hnone same.answers ha).elim
  | submit | register => exact (hnone rfl ha).elim
  | refused _ _ hcore answers =>
    cases hlast answers
    rcases hcore with ⟨-, hback⟩ | hcore
    · exact absurd hback hr
    · exact ⟨_, hcore, rfl⟩
  | removed _ hcancel hcore answers =>
    cases hlast answers
    exact ⟨_, hcancel, by rw [hcore]; rfl⟩

/-- A resting order is in the book of its symbol, on its own side, as it was sent. -/
theorem resting_place {d : Desk} (hb : BookInv s) (hin : IntakeInv s) (hprio : PriorityInv s)
    (hd : d.Inv)
    (hat : AtDesk s d) {a : String} {h : Half} {p o : Order} (hp : p ∈ (s.core.view a).resting h)
    (ho : o ∈ s.submitted) (hid : p.id = o.id) :
    a = o.coinSymbol ∧ h = halfOf o.side ∧ p.price = o.price ∧ p.orderType = o.orderType := by
  have hall : p ∈ d.all :=
    Desk.mem_all.mpr (.inr (.inl (hat.resting.mem_iff.mpr (view_resting hb.bounded hp))))
  obtain ⟨o', ho', hido⟩ := List.mem_map.mp (hd.id_taken (List.mem_map_of_mem hall))
  have hsub : o' ∈ s.submitted := hin.order.subset (List.mem_append_left _ (hat.taken ▸ ho'))
  obtain rfl : o' = o := List.inj_on_of_nodup_map hin.ids hsub ho (hido.trans hid)
  obtain ⟨-, -, hsymbol, hside, htype, hprice⟩ := Desk.fixed_iff.mp (hd.fixed hall ho' hid)
  refine ⟨?_, ?_, hprice, htype⟩
  · rw [← hsymbol]
    exact ((hprio.queued a).home h p hp).symm
  · rw [← hside]
    exact ((fair_of_view hb a).side h p hp).symm

/-- A cancel that carries an order as it was sent names it where it rests. -/
theorem removal_iff_rests {d : Desk} (hb : BookInv s) (hin : IntakeInv s) (hprio : PriorityInv s)
    (hd : d.Inv) (hat : AtDesk s d) {o : Order} (ho : o ∈ s.submitted) (hid : o.id ≠ 0)
    (hcmd : Carries cmd o) : Removal s.core.view cmd ↔ Rests s o.id := by
  obtain ⟨hcid, hcsymbol, hcside, hcprice⟩ := hcmd
  constructor
  · intro hr
    obtain ⟨p, hp, hname⟩ := List.any_eq_true.mp hr.holds
    simp only [OrderBook.names, Bool.and_eq_true, beq_iff_eq] at hname
    exact ⟨_, _, p, hp, hname.2.trans hcid⟩
  · rintro ⟨a, h, p, hp, hpid⟩
    obtain ⟨rfl, rfl, hprice, htype⟩ := resting_place hb hin hprio hd hat hp ho hpid
    have hlimit := (fair_of_view hb _).limit _ p hp
    have hsane := hin.sane o ho
    have hside : o.side = .buy ∨ o.side = .sell := by
      have hall : p ∈ d.all :=
        Desk.mem_all.mpr (.inr (.inl (hat.resting.mem_iff.mpr (view_resting hb.bounded hp))))
      obtain ⟨o', ho', hfix⟩ := List.mem_map.mp (hd.cast.mem_iff.mp (List.mem_map_of_mem hall))
      obtain ⟨ho', hadm⟩ := List.mem_filter.mp ho'
      have hsub : o' ∈ s.submitted := hin.order.subset (List.mem_append_left _ (hat.taken ▸ ho'))
      have heq : o' = o :=
        List.inj_on_of_nodup_map hin.ids hsub ho ((Desk.fixed_iff.mp hfix).1.trans hpid)
      rw [heq] at hadm
      cases hs : o.side with
      | buy => exact .inl rfl
      | sell => exact .inr rfl
      | unknown => simp [orderIsAdmissible, hs] at hadm
    refine ⟨hcid ▸ hid, hcsymbol ▸ hsane.1, ?_, hcside ▸ hside, ?_⟩
    · rw [hcprice]
      exact (hsane.2 (htype ▸ hlimit)).le
    · rw [hcsymbol, hcside, hcprice, hcid]
      exact List.any_eq_true.mpr ⟨p, hp, by simp [OrderBook.names, hprice, hpid]⟩

/-- Every half of every book is sorted into its levels and every resting order is in one place; so a
cancel that carries an order as it was sent is answered as removed exactly if the order rests, and
then takes out that order and no other. -/
theorem cancel_removed_iff_rests (cfg : EngineConfig) (engineID : Nat) {s : State}
    (h : Lts.Reach (step cfg) FreshOrder (init engineID) s) :
    (∀ a half, Levels half ((s.core.view a).half half) ∧
      (((s.core.view a).resting half).map Order.id).Nodup) ∧
    (∀ a a' half half', ∀ x ∈ (s.core.view a).resting half, ∀ y ∈ (s.core.view a').resting half',
      x.id = y.id → a = a' ∧ half = half') ∧
    ∀ l s' cmd r o, step cfg l s = some s' → s'.answers = s.answers ++ [(cmd, r)] →
    r ≠ .backpressured →
      o ∈ s.submitted → o.id ≠ 0 → Carries cmd o →
      (r = .removed ↔ Rests s o.id) ∧
      ∀ a half, (s'.core.view a).resting half = ((s.core.view a).resting half).filter fun m =>
        m.id ≠ o.id := by
  obtain ⟨hprio, hser, d, hd, hat⟩ := reach_priority h
  have hb := reach_books h
  have hin := (reach_serial h).1
  have hids : ∀ a half, (((s.core.view a).resting half).map Order.id).Nodup := by
    intro a half
    cases hl : s.core.orderBooks.lookup a with
    | none =>
      rw [view, hl]
      cases half <;> exact .nil
    | some i =>
      rw [view_of_lookup hl]
      have hsub := (OrderBook.resting_sublist_orders (s.core.book i) half).trans
        (book_orders_sublist (hb.bounded.lookup a i hl))
      exact (hat.ids hd).sublist (hsub.map _)
  refine ⟨fun a half => ⟨levels_of_fair (fair_of_view hb a) half, hids a half⟩, ?_, ?_⟩
  · intro a a' half half' x hx y hy hid
    obtain rfl : x = y :=
      List.inj_on_of_nodup_map (hat.ids hd) (view_resting hb.bounded hx)
        (view_resting hb.bounded hy) hid
    refine ⟨?_, ?_⟩
    · rw [← (hprio.queued a).home half x hx, (hprio.queued a').home half' x hy]
    · rw [← (fair_of_view hb a).side half x hx, (fair_of_view hb a').side half' x hy]
  · intro l s' cmd r o hstep hans hr ho hid hcmd
    obtain ⟨core, hcancel, hview⟩ := (move_of_step (reach_reserve h) hstep).answer hans hr
    have hspec := handleCancel_spec hser.ok hser.wf hcancel
    have hiff := hspec.removed_iff.trans (removal_iff_rests hb hin hprio hd hat ho hid hcmd)
    refine ⟨hiff, fun a half => ?_⟩
    -- where the order does not rest, nothing is left out
    have hskip : (∀ p ∈ (s.core.view a).resting half, p.id ≠ o.id) →
        (s.core.view a).resting half = ((s.core.view a).resting half).filter fun m => m.id ≠ o.id :=
      fun hne =>
      (List.filter_eq_self.mpr fun p hp => by simpa using hne p hp).symm
    by_cases hremoved : r = .removed
    · rw [hview, hspec.view_removed hremoved]
      have hholds := (hspec.removed_iff.mp hremoved).holds
      have helse : ∀ p ∈ (s.core.view a).resting half, p.id = o.id → a = cmd.coinSymbol ∧
          half = halfOf cmd.side :=
        fun p hp hpid => by
          have hplace := resting_place hb hin hprio hd hat hp ho hpid
          exact ⟨hplace.1.trans hcmd.2.1.symm, hplace.2.1.trans (by rw [hcmd.2.2.1])⟩
      by_cases ha : a = cmd.coinSymbol
      · rw [removed, ha, Function.update_self, (hser.sound _).resting_without hholds, ← ha]
        refine List.filter_congr fun p hp => ?_
        by_cases hhalf : half = halfOf cmd.side
        · by_cases hpid : p.id = o.id <;> simp [spared, hhalf, hcmd.1, hpid]
        · have hne : p.id ≠ o.id := fun he => hhalf (helse p hp he).2
          simp [spared, hhalf, hne]
      · rw [removed, Function.update_of_ne ha]
        exact hskip fun p hp he => ha (helse p hp he).1
    · rw [hview, hspec.view_kept hremoved]
      exact hskip fun p hp he => hremoved (hiff.mpr ⟨a, half, p, hp, he⟩)

/-- Two asks at one price come to rest, and a cancel of the older one is about to be handled. -/
def cancelOlder : List Label :=
  [.submitOrder ⟨1, 1, 1, 0, "BTC", .sell, 0, 0, .limit, 10⟩,
    .submitOrder ⟨2, 2, 1, 0, "BTC", .sell, 0, 0, .limit, 10⟩] ++
  List.replicate 17 .advance ++ [.recvOrder] ++ List.replicate 17 .advance ++
  [.sendCancel ⟨5, "BTC", 1, .sell, 10⟩, .recvCancel, .advance, .advance]

theorem cancel_removed_iff_rests_cancelOlder :
    ∃ s s', Lts.exec (Lts.guarded (step smallestConfig) FreshOrder) cancelOlder (init 1) = some s ∧
      step smallestConfig .advance s = some s' ∧
      s'.answers = [(⟨5, "BTC", 1, .sell, 10⟩, .removed)] ∧
      Rests s 1 ∧ ((s.core.view "BTC").resting .asks).map Order.id = [1, 2] ∧
      (s'.core.view "BTC").resting .asks =
        ((s.core.view "BTC").resting .asks).filter fun m => m.id ≠ 1 := by
  have hrun : ((Lts.exec (Lts.guarded (step smallestConfig) FreshOrder) cancelOlder (init 1)).bind
      fun s =>
      (step smallestConfig .advance s).map fun s' =>
        (s.answers, s'.answers, s.submitted.head?,
          ((s.core.view "BTC").resting .asks).map Order.id)) =
      some ([], [(⟨5, "BTC", 1, .sell, 10⟩, .removed)],
        some ⟨1, 1, 1, 0, "BTC", .sell, 0, 0, .limit, 10⟩, [1, 2]) := by
    decide +kernel
  obtain ⟨s, hs, hnext⟩ := Option.bind_eq_some_iff.mp hrun
  obtain ⟨s', hs', hend⟩ := Option.map_eq_some_iff.mp hnext
  simp only [Prod.mk.injEq] at hend
  obtain ⟨hbefore, hafter, hhead, hids⟩ := hend
  obtain ⟨-, -, hcancel⟩ :=
    cancel_removed_iff_rests smallestConfig 1 (Lts.reach_of_exec_guarded _ hs)
  obtain ⟨hiff, hbooks⟩ := hcancel .advance s' ⟨5, "BTC", 1, .sell, 10⟩ .removed _ hs'
    (by rw [hbefore, hafter]; rfl) (by simp) (List.mem_of_mem_head? hhead) (by simp)
    ⟨rfl, rfl, rfl, rfl⟩
  exact ⟨s, s', hs, hs', hafter, hiff.mp rfl, hids, hbooks "BTC" .asks⟩

end GoExchange.Engine
