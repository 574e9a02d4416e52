import GoExchange.EngineBooks

/-!
# Slices and cancels have a serial order

A sweep is cut into slices with cancels in between. A cancel of an order the
sweep has not touched is placed before the sweep; only the maker of its last
execution can be touched and still rest, and then the sweep has come to its
end, so that the cancel is placed after it.
-/
namespace GoExchange.Engine

open Matching Core

variable {cfg : EngineConfig} {s s' : State} {l : Label} {engineID : Nat}

/-- What the producers of orders promise: distinct ids, a symbol, and a price on limit orders. -/
def FreshOrder (s : State) : Label → Prop
  | .submitOrder o =>
    o.id ∉ s.submitted.map Order.id ∧ o.coinSymbol ≠ "" ∧ (o.orderType ≠ .market → 0 < o.price)
  | _ => True

/-- The cancels answered as removed. -/
def removedCancels (s : State) : List CancelOrderCommand :=
  s.answers.filterMap fun a => if a.2 = .removed then some a.1 else none

def orders (ops : List Op) : List Order := ops.filterMap Op.order?

def cancels (ops : List Op) : List CancelOrderCommand := ops.filterMap Op.cancel?

@[simp] theorem orders_append (ops ops' : List Op) :
    orders (ops ++ ops') = orders ops ++ orders ops' :=
  List.filterMap_append

@[simp] theorem cancels_append (ops ops' : List Op) :
    cancels (ops ++ ops') = cancels ops ++ cancels ops' :=
  List.filterMap_append

@[simp] theorem orders_cancel (cmds : List CancelOrderCommand) :
    orders (cmds.map .cancel) = [] := by
  simp [orders, List.filterMap_map, Function.comp_def, Op.order?]

@[simp] theorem cancels_cancel (cmds : List CancelOrderCommand) :
    cancels (cmds.map .cancel) = cmds := by
  simp [cancels, List.filterMap_map, Function.comp_def, Op.cancel?]

@[simp] theorem orders_order (o : Order) : orders [.order o] = [o] := rfl

@[simp] theorem cancels_order (o : Order) : cancels [.order o] = [] := rfl

/-! ## The orders on their way -/

structure IntakeInv (s : State) : Prop extends Lined s where
  sane : ∀ o ∈ s.submitted, o.coinSymbol ≠ "" ∧ (o.orderType ≠ .market → 0 < o.price)

theorem init_intake (engineID : Nat) : IntakeInv (init engineID) :=
  ⟨init_lined engineID, by simp [init]⟩

theorem distinctOrder_of_fresh (h : FreshOrder s l) : DistinctOrder s l := by
  cases l with
  | submitOrder o => exact h.1
  | _ => trivial

theorem IntakeInv.move (h : IntakeInv s) (hok : FreshOrder s l) (hm : Move s l s') :
    IntakeInv s' := by
  refine ⟨h.toLined.move (distinctOrder_of_fresh hok) hm, fun p hp => ?_⟩
  rcases hm.lined with ⟨hsub, -⟩ | ⟨o, rfl, hsub, -⟩
  · exact h.sane p (hsub ▸ hp)
  · exact Rows.forall_mem_concat h.sane hok.2 p (hsub ▸ hp)

theorem IntakeInv.admitted_sane (h : IntakeInv s) {o : Order} (ho : o ∈ s.admitted) :
    o.coinSymbol ≠ "" ∧ (o.orderType ≠ .market → 0 < o.price) :=
  h.sane o (h.order.subset (List.mem_append_left _ ho))

/-! ## Serial runs -/

/-- A serial run, with what it leaves: sound books that hold only its orders. -/
structure SerialRun (engineID : Nat) (ops : List Op) (c : Core) (es : List ExecutionEvent) :
    Prop where
  run : (Core.new engineID).performAll ops = some (c, es)
  ok : c.Ok
  sound : ∀ a, (c.view a).Sound
  known : ∀ a h, ∀ m ∈ (c.view a).resting h, m.id ∈ (orders ops).map Order.id

variable {ops : List Op} {c : Core} {es : List ExecutionEvent} {b : OrderBook}
  {books : String → OrderBook}

theorem serialRun_nil (engineID : Nat) : SerialRun engineID [] (.new engineID) [] where
  run := rfl
  ok := new_ok engineID
  sound _ := ⟨OrderBook.newOrderBook_wf, fun h => by cases h <;> exact .nil,
    fun h m hm => by cases h <;> cases hm⟩
  known _ h m hm := by cases h <;> cases hm

theorem known_of_consumed {d : OrderBook} {ids : List Nat} (hc : b.Consumed d)
    (hk : ∀ h, ∀ m ∈ b.resting h, m.id ∈ ids) : ∀ h, ∀ m ∈ d.resting h, m.id ∈ ids := by
  intro h m hm
  obtain ⟨m', hm', hfix⟩ := hc.exists_mem hm
  simp only [Order.fixed, Prod.mk.injEq] at hfix
  exact hfix.1 ▸ hk h m' hm'

/-- Removals may be appended to a serial run. -/
theorem SerialRun.cancels (h : SerialRun engineID ops c es) {cmds : List CancelOrderCommand}
    (hcs : Cancelled c.view cmds books) :
    ∃ c' es', SerialRun engineID (ops ++ cmds.map .cancel) c' es' ∧ c'.view = books ∧
    records es' = records es := by
  obtain ⟨d, fs, hrun, hd, hview, hfs⟩ := hcs.performAll h.sound h.ok rfl
  obtain ⟨hsound, hcons⟩ := hcs.sound h.sound
  refine ⟨d, es ++ fs, ⟨performAll_append h.run hrun, hd, hview ▸ hsound, fun a half m hm => ?_⟩,
    hview, ?_⟩
  · rw [hview] at hm
    rw [orders_append, orders_cancel, List.append_nil]
    exact known_of_consumed (hcons a) (h.known a) half m hm
  · rw [records_append, hfs, List.append_nil]

/-- An order that runs to its end may be appended, if its id is new. -/
theorem SerialRun.order (h : SerialRun engineID ops c es) {o p : Order} {k : MatchKind}
    {fills : List Fill} (hsane : o.coinSymbol ≠ "" ∧ (o.orderType ≠ .market → 0 < o.price))
    (hfresh : o.id ∉ (orders ops).map Order.id) (hadm : orderIsAdmissible o = true)
    (hkind : kindOf o = some k)
    (hr : Rounds k (c.view o.coinSymbol) o b p fills)
    (hend : k.active p = false ∨ k.round b p = .stop) :
    ∃ c' es', SerialRun engineID (ops ++ [.order o]) c' es' ∧
      c'.view = Function.update c.view o.coinSymbol (finishBook b p) ∧
      records es' = records es ++ fillRecords o fills ++ finishEvents p := by
  obtain ⟨d, fs, hrun, hd, hview, hfs⟩ :=
    matchOrder_spec h.ok hsane.1 hadm hkind (h.sound _) hr hend
  obtain ⟨hwf, hcons, hfix⟩ := hr.consumed (lawful_of_kindOf hkind) (h.sound _).wf
  have hknown := known_of_consumed hcons (h.known o.coinSymbol)
  simp only [Order.fixed, Prod.mk.injEq] at hfix
  have hbook : (finishBook b p).Sound := by
    refine finishBook_sound (hcons.sound (h.sound _) hwf) (fun half hid => ?_) ?_
    · obtain ⟨m, hm, hmid⟩ := List.mem_map.mp hid
      exact hfresh (hfix.1 ▸ hmid ▸ hknown half m hm)
    · rw [hfix.2.2.2.2.1, hfix.2.2.2.2.2]
      exact hsane.2
  refine ⟨d, es ++ fs, ⟨performAll_append h.run (performAll_single hrun), hd, fun a => ?_,
    fun a half m hm => ?_⟩, hview, by rw [records_append, hfs, List.append_assoc]⟩
  · rw [hview]
    by_cases ha : a = o.coinSymbol
    · rw [ha, Function.update_self]; exact hbook
    · rw [Function.update_of_ne ha]; exact h.sound a
  · rw [orders_append, orders_order, List.map_append, List.mem_append]
    rw [hview] at hm
    by_cases ha : a = o.coinSymbol
    · rw [ha, Function.update_self] at hm
      rcases mem_finishBook hwf hm with hm | rfl
      · exact .inl (hknown half m hm)
      · exact .inr (by simp [hfix.1])
    · rw [Function.update_of_ne ha] at hm
      exact .inl (h.known a half m hm)

theorem SerialRun.skip (h : SerialRun engineID ops c es) {o : Order}
    (hadm : orderIsAdmissible o = false) : SerialRun engineID (ops ++ [.order o]) c es where
  run := by
    have : c.perform (.order o) = some (c, []) := matchOrder_inadmissible hadm
    simpa using performAll_append h.run (performAll_single this)
  ok := h.ok
  sound := h.sound
  known a half m hm := by
    rw [orders_append, List.map_append]
    exact List.mem_append_left _ (h.known a half m hm)

/-! ## The engine against a serial run -/

/-- Between two sweeps the engine is where the serial run is. -/
structure Idle (s : State) (ops : List Op) (c : Core) (es : List ExecutionEvent) : Prop where
  view : s.core.view = c.view
  records : records (events s) = records es
  orders : orders ops = s.admitted
  cancels : (cancels ops).Perm (removedCancels s)

/-- During a sweep of `o` the engine is some rounds past the serial run, and the cancels in `after`
have come once the sweep could trade no more. -/
structure Sweeping (s : State) (ops : List Op) (c : Core) (es : List ExecutionEvent)
    (sweep : ActiveSweep)
    (o : Order) (k : MatchKind) (b : OrderBook) (fills : List Fill)
    (after : List CancelOrderCommand) : Prop where
  admissible : orderIsAdmissible o = true
  kind : kindOf o = some k
  book : s.core.orderBooks.lookup o.coinSymbol = some sweep.book
  rounds : Rounds k (c.view o.coinSymbol) o b sweep.order fills
  view : Cancelled (Function.update c.view o.coinSymbol b) after s.core.view
  exhausted : after ≠ [] → k.Exhausted b sweep.order
  records : records (events s) = records es ++ fillRecords o fills
  orders : orders ops ++ [o] = s.admitted
  cancels : (cancels ops ++ after).Perm (removedCancels s)

/-- The state of the engine explained by a serial run. -/
inductive Explained (engineID : Nat) (s : State) : Prop
  | idle {ops : List Op} {c : Core} {es : List ExecutionEvent} (run : SerialRun engineID ops c es)
      (hsweep : s.activeSweep = none) (idle : Idle s ops c es)
  | sweeping {ops : List Op} {c : Core} {es : List ExecutionEvent} {sweep : ActiveSweep} {o : Order}
      {k : MatchKind} {b : OrderBook} {fills : List Fill} {after : List CancelOrderCommand}
      (run : SerialRun engineID ops c es) (hsweep : s.activeSweep = some sweep)
      (sweeping : Sweeping s ops c es sweep o k b fills after)

structure SerialInv (engineID : Nat) (s : State) : Prop where
  ok : s.core.Ok
  explained : Explained engineID s

theorem init_serial (engineID : Nat) : SerialInv engineID (init engineID) where
  ok := new_ok engineID
  explained := .idle (serialRun_nil engineID) rfl ⟨rfl, rfl, rfl, .refl _⟩

/-- Nothing the explanation speaks of has changed. -/
theorem Explained.frame (h : Explained engineID s) (hview : s'.core.view = s.core.view)
    (hkeep : ∀ a i, s.core.orderBooks.lookup a = some i → s'.core.orderBooks.lookup a = some i)
    (hsweep : s'.activeSweep = s.activeSweep) (hem : s'.emitted = s.emitted)
    (hans : removedCancels s' = removedCancels s) (hadm : s'.admitted = s.admitted) :
    Explained engineID s' := by
  cases h with
  | idle run hnone hi =>
    exact .idle run (hsweep.trans hnone)
      ⟨hview.trans hi.view, by rw [events, hem]; exact hi.records, hi.orders.trans hadm.symm,
        hans ▸ hi.cancels⟩
  | sweeping run hsome hs =>
    exact .sweeping run (hsweep.trans hsome)
      ⟨hs.admissible, hs.kind, hkeep _ _ hs.book, hs.rounds, hview ▸ hs.view, hs.exhausted,
        by rw [events, hem]; exact hs.records, hs.orders.trans hadm.symm, hans ▸ hs.cancels⟩

theorem Explained.same (h : Explained engineID s) (hs : Same s s') : Explained engineID s' :=
  h.frame (by rw [hs.core]) (fun a i h => by rw [hs.core]; exact h) hs.activeSweep hs.emitted
    (by rw [removedCancels, removedCancels, hs.answers]) hs.admitted

variable {sweep : ActiveSweep} {o : Order} {k : MatchKind} {b : OrderBook} {fills : List Fill}
  {after : List CancelOrderCommand} {cmd : CancelOrderCommand}

theorem Sweeping.book_view (hs : Sweeping s ops c es sweep o k b fills after) :
    s.core.book sweep.book = s.core.view o.coinSymbol := (view_of_lookup hs.book).symm

theorem update_sound (h : ∀ a, (books a).Sound) {a : String}
    (hb : b.Sound) (a' : String) : (Function.update books a b a').Sound := by
  by_cases ha : a' = a
  · rw [ha, Function.update_self]; exact hb
  · rw [Function.update_of_ne ha]; exact h a'

/-- The book the sweep has worked on, and all books before the late cancels, are sound. -/
theorem Sweeping.sound (run : SerialRun engineID ops c es)
    (hs : Sweeping s ops c es sweep o k b fills after) :
    b.Sound ∧ ∀ a, (Function.update c.view o.coinSymbol b a).Sound := by
  have hb : b.Sound := hs.rounds.sound (lawful_of_kindOf hs.kind) (run.sound _)
  exact ⟨hb, update_sound run.sound hb⟩

theorem Sweeping.kind_now (run : SerialRun engineID ops c es)
    (hs : Sweeping s ops c es sweep o k b fills after) :
    kindOf sweep.order = some k := hs.rounds.kindOf hs.kind (run.sound _).wf

/-- A late cancel means that the sweep trades no more, also in the book as it is now. -/
theorem Sweeping.exhausted_now (run : SerialRun engineID ops c es)
    (hs : Sweeping s ops c es sweep o k b fills after) (hne : after ≠ []) :
    k.Exhausted (s.core.view o.coinSymbol) sweep.order := by
  have he := hs.exhausted hne
  exact hs.view.exhausted (hs.sound run).2 (by rwa [Function.update_self])

theorem Sweeping.fresh (hin : IntakeInv s) (hs : Sweeping s ops c es sweep o k b fills after) :
    o.id ∉ (Engine.orders ops).map Order.id := by
  have := hin.admitted_ids
  rw [← hs.orders, List.map_append, List.nodup_append] at this
  exact fun hmem => this.2.2 _ hmem _ (by simp) rfl

theorem Sweeping.view_nil (hs : Sweeping s ops c es sweep o k b fills []) :
    s.core.view = Function.update c.view o.coinSymbol b :=
  hs.view.eq_of_nil

/-! ## One step -/

theorem holds_mem {side : OrderSide} {price : Decimal} {id : Nat} (h : b.Holds side price id) :
    id ∈ (b.resting (halfOf side)).map Order.id := by
  obtain ⟨m, hm, hname⟩ := List.any_eq_true.mp h
  simp only [OrderBook.names, Bool.and_eq_true, beq_iff_eq] at hname
  exact List.mem_map.mpr ⟨m, hm, hname.2⟩

/-- A cancel before its sweep: the order was there when the sweep began and no round has met it. -/
theorem Sweeping.early (run : SerialRun engineID ops c es)
    (hs : Sweeping s ops c es sweep o k b fills []) (hr : Removal s.core.view cmd)
    (hun : cmd.coinSymbol = o.coinSymbol → halfOf cmd.side = k.half →
      cmd.orderID ∉ fills.map Fill.makerID) :
    Removal c.view cmd ∧ ∃ b', Rounds k (removed c.view cmd o.coinSymbol) o b' sweep.order fills ∧
      Function.update (removed c.view cmd) o.coinSymbol b' = removed s.core.view cmd := by
  have hk := lawful_of_kindOf hs.kind
  have hview := hs.view_nil
  have hcons := (hs.rounds.consumed hk (run.sound _).wf).2.1
  by_cases ha : cmd.coinSymbol = o.coinSymbol
  · have hbx : b.Holds cmd.side cmd.price cmd.orderID := by
      have := hr.holds
      rwa [hview, ha, Function.update_self] at this
    refine ⟨⟨hr.id, hr.symbol, hr.price, hr.side, by rw [ha]; exact hcons.holds hbx⟩,
      b.without cmd.side cmd.price cmd.orderID, ?_, ?_⟩
    · rw [removed, ha, Function.update_self]
      exact hs.rounds.without hk (run.sound _) hbx (hun ha)
    · rw [removed, removed, hview, ha, Function.update_self, Function.update_idem,
        Function.update_idem]
  · refine ⟨⟨hr.id, hr.symbol, hr.price, hr.side, ?_⟩, b, ?_, ?_⟩
    · have := hr.holds
      rwa [hview, Function.update_of_ne ha] at this
    · rw [removed, Function.update_of_ne (Ne.symm ha)]
      exact hs.rounds
    · rw [removed, removed, hview, Function.update_of_ne ha, Function.update_comm ha]

theorem Explained.removed (h : Explained engineID s) (hr : Removal s.core.view cmd)
    (hview : s'.core.view = Core.removed s.core.view cmd)
    (hkeep : ∀ a i, s.core.orderBooks.lookup a = some i → s'.core.orderBooks.lookup a = some i)
    (hsweep : s'.activeSweep = s.activeSweep)
    (hrec : Matching.records (events s') = Matching.records (events s))
    (hans : removedCancels s' = removedCancels s ++ [cmd]) (hadm : s'.admitted = s.admitted) :
    Explained engineID s' := by
  cases h with
  | @idle ops c es run hnone hi =>
    obtain ⟨c', es', run', hview', hes'⟩ := run.cancels (Cancelled.nil.snoc (hi.view ▸ hr))
    refine .idle run' (hsweep.trans hnone)
      ⟨by rw [hview, hview', hi.view], by rw [hrec, hes', hi.records], ?_, ?_⟩
    · rw [orders_append, orders_cancel, List.append_nil, hi.orders, hadm]
    · rw [cancels_append, cancels_cancel, hans]
      exact hi.cancels.append_right _
  | @sweeping ops c es sweep o k b fills after run hsome hs =>
    by_cases hearly : after = [] ∧
        (cmd.coinSymbol = o.coinSymbol → halfOf cmd.side = k.half →
          cmd.orderID ∉ fills.map Fill.makerID)
    · obtain ⟨rfl, hun⟩ := hearly
      obtain ⟨hrc, b', hrounds, hbooks⟩ := hs.early run hr hun
      obtain ⟨c', es', run', hview', hes'⟩ := run.cancels (Cancelled.nil.snoc hrc)
      have hcancels := hs.cancels
      rw [List.append_nil] at hcancels
      have hs' : Sweeping s' (ops ++ [cmd].map .cancel) c' es' sweep o k b' fills [] :=
        { admissible := hs.admissible
          kind := hs.kind
          book := hkeep _ _ hs.book
          rounds := by rw [hview']; exact hrounds
          view := by rw [hview', hbooks, ← hview]; exact .nil
          exhausted := by simp
          records := by rw [hrec, hs.records, hes']
          orders := by rw [orders_append, orders_cancel, List.append_nil, hs.orders, hadm]
          cancels := by
            rw [cancels_append, cancels_cancel, hans, List.append_nil]
            exact hcancels.append_right _ }
      exact .sweeping run' (hsweep.trans hsome) hs'
    · -- the order was met by the sweep, or the sweep had ended before
      have hex : k.Exhausted b sweep.order := by
        by_cases hnil : after = []
        · subst hnil
          have : cmd.coinSymbol = o.coinSymbol ∧ halfOf cmd.side = k.half ∧
              cmd.orderID ∈ fills.map Fill.makerID := by
            by_contra hcon
            exact hearly ⟨rfl, fun h₁ h₂ h₃ => hcon ⟨h₁, h₂, h₃⟩⟩
          obtain ⟨ha, hhalf, hid⟩ := this
          have hholds := hr.holds
          rw [hs.view_nil, ha, Function.update_self] at hholds
          exact hs.rounds.exhausted_of_touched hs.kind (run.sound _) hid (hhalf ▸ holds_mem hholds)
        · exact hs.exhausted hnil
      refine .sweeping run (hsweep.trans hsome)
        ⟨hs.admissible, hs.kind, hkeep _ _ hs.book, hs.rounds,
        hview ▸ hs.view.snoc hr, fun _ => hex, by rw [hrec, hs.records], by
        rw [hs.orders, hadm], ?_⟩
      rw [hans, ← List.append_assoc]
      exact hs.cancels.append_right _

theorem record_newTrade {p : Order} (h : p.fixed = o.fixed) (id : EventID) (f : Fill) :
    record (.trade (newTrade id p f)) = some (.trade (newTrade ⟨0, 0⟩ o f)) := by
  simp only [Order.fixed, Prod.mk.injEq] at h
  simp [record, newTrade, h]

/-- A round in the engine is a round of the sweep. -/
theorem Explained.traded (h : Explained engineID s) (hok : s.core.Ok) {book : OrderBook}
    {p : Order} {f : Fill}
    {em : Emission} {id : EventID} (hsweep : s.activeSweep = some sweep)
    (hkind : kindOf sweep.order = some k) (hact : k.active sweep.order = true)
    (hround : k.round (s.core.book sweep.book) sweep.order = .trade book p f)
    (hcore : s'.core = (s.core.setBook sweep.book book).nextTradeEvent.1)
    (hsweep' : s'.activeSweep = some { sweep with order := p })
    (hem : s'.emitted = s.emitted ++ [em])
    (hev : em.event = .trade (newTrade id p f)) (hans : s'.answers = s.answers)
    (hadm : s'.admitted = s.admitted) : Explained engineID s' := by
  cases h with
  | idle run hnone hi => rw [hsweep] at hnone; cases hnone
  | @sweeping ops c es sweep₀ o k₀ b fills after run hsome hs =>
    cases hsweep.symm.trans hsome
    cases hkind.symm.trans (hs.kind_now run)
    have hk := lawful_of_kindOf hs.kind
    have hb := (hs.sound run).1
    rw [hs.book_view] at hround
    have hnil : after = [] := by
      by_contra hne
      have hsound := (hs.view.sound (hs.sound run).2).1 o.coinSymbol
      exact (hs.exhausted_now run hne).not_trade hk hsound.wf hact hround
    subst hnil
    rw [hs.view_nil, Function.update_self] at hround
    have hrounds := hs.rounds.next hact hround
    have hfix := (hrounds.consumed hk (run.sound _).wf).2.2
    have hs' : Sweeping s' ops c es { sweep with order := p } o k book (fills ++ [f]) [] :=
      { admissible := hs.admissible
        kind := hs.kind
        book := by rw [hcore]; exact hs.book
        rounds := hrounds
        view := by
          have hset : s'.core.view = Function.update c.view o.coinSymbol book := by
            have := view_setBook hok hs.book book
            rw [hs.view_nil, Function.update_idem] at this
            rw [hcore]
            exact this
          rw [hset]
          exact .nil
        exhausted := by simp
        records := by
          rw [events, hem, List.map_append, records_append]
          have := hs.records
          rw [events] at this
          rw [this, fillRecords, fillRecords, List.map_append, List.append_assoc]
          simp [Matching.records, hev, record_newTrade hfix]
        orders := hs.orders.trans hadm.symm
        cancels := by rw [removedCancels, hans]; exact hs.cancels }
    exact .sweeping run hsweep' hs'

/-- The sweep has ended, so the order and the late cancels join the serial run. -/
theorem Explained.finished (h : Explained engineID s) (hin : IntakeInv s) (hok : s.core.Ok)
    (hsweep : s.activeSweep = some sweep) (hhalt : Halted s sweep)
    (hcore : s'.core = closing s.core sweep) (hsweep' : s'.activeSweep = none)
    (hem : events s' = events s ++ finishEvents sweep.order) (hans : s'.answers = s.answers)
    (hadm : s'.admitted = s.admitted) : Explained engineID s' := by
  cases h with
  | idle run hnone hi => rw [hsweep] at hnone; cases hnone
  | @sweeping ops c es sweep₀ o k b fills after run hsome hs =>
    cases hsweep.symm.trans hsome
    have hk := lawful_of_kindOf hs.kind
    have hb := (hs.sound run).1
    have hkind := hs.kind_now run
    have ho : o ∈ s.admitted := by rw [← hs.orders]; simp
    -- the sweep could go no further when the last late cancel came, or can go no further now
    have hend : k.active sweep.order = false ∨ k.round b sweep.order = .stop := by
      by_cases hnil : after = []
      · subst hnil
        have := hhalt k hkind
        rwa [hs.book_view, hs.view_nil, Function.update_self] at this
      · cases hact : k.active sweep.order with
        | false => exact .inl rfl
        | true => exact .inr ((hs.exhausted hnil).round_stop hk hb hact)
    obtain ⟨c', es', run', hview', hes'⟩ :=
      run.order (hin.admitted_sane ho) (hs.fresh hin) hs.admissible hs.kind hs.rounds hend
    have hbooks : Cancelled c'.view after s'.core.view := by
      rw [hview']
      have hcore' : s'.core.view =
          Function.update s.core.view o.coinSymbol
          (finishBook (s.core.view o.coinSymbol) sweep.order) := by
        rw [hcore, closing, hs.book_view]
        unfold finishBook
        by_cases hm : sweep.order.orderType = .market
        · simp [hm]
        · by_cases hp : 0 < sweep.order.amount
          · simp [hm, hp, view_setBook hok hs.book]
          · simp [hm, hp]
      by_cases hnil : after = []
      · subst hnil
        rw [hcore', hs.view_nil, Function.update_self, Function.update_idem]
        exact .nil
      · have he := hs.exhausted hnil
        rw [hcore', finishBook_of_exhausted hkind he, finishBook_of_exhausted hkind he,
          Function.update_eq_self]
        exact hs.view
    obtain ⟨c'', es'', run'', hview'', hes''⟩ := run'.cancels hbooks
    refine .idle run'' hsweep' ⟨hview''.symm, ?_, ?_, ?_⟩
    · rw [hem, records_append, hs.records, records_finishEvents, hes'', hes']
    · simp only [orders_append, orders_order, orders_cancel, List.append_nil, hs.orders, hadm]
    · rw [cancels_append, cancels_append, cancels_order, cancels_cancel, List.append_nil,
        removedCancels, hans]
      exact hs.cancels

theorem Explained.admitted (h : Explained engineID s) (hok : s.core.Ok)
    (hnone : s.activeSweep = none) (hsymbol : o.coinSymbol ≠ "") (hadm : orderIsAdmissible o = true)
    (hcore : s'.core = (s.core.getOrderBook o.coinSymbol).1)
    (hsweep : s'.activeSweep = some ⟨o, (s.core.getOrderBook o.coinSymbol).2, 0⟩)
    (hem : s'.emitted = s.emitted) (hans : s'.answers = s.answers)
    (hadmitted : s'.admitted = s.admitted ++ [o]) : Explained engineID s' := by
  obtain ⟨k, hkind⟩ := kindOf_of_admissible hadm
  have hl := getOrderBook_looked hok.toBounded o.coinSymbol
  cases h with
  | sweeping run hsome hs => rw [hnone] at hsome; cases hsome
  | @idle ops c es run _ hi =>
    have hs : Sweeping s' ops c es ⟨o, (s.core.getOrderBook o.coinSymbol).2, 0⟩ o k
        (c.view o.coinSymbol) [] [] :=
      { admissible := hadm
        kind := hkind
        book := by rw [hcore]; exact hl.lookup hsymbol
        rounds := .refl
        view := by
          rw [Function.update_eq_self, hcore, hl.view hok, hi.view]
          exact .nil
        exhausted := by simp
        records := by
          rw [events, hem, fillRecords, List.map_nil, List.append_nil]
          exact hi.records
        orders := by rw [hi.orders, hadmitted]
        cancels := by
          rw [removedCancels, hans, List.append_nil]
          exact hi.cancels }
    exact .sweeping run hsweep hs

theorem Explained.skipped (h : Explained engineID s) (hnone : s.activeSweep = none)
    (hadm : orderIsAdmissible o = false) (hcore : s'.core = s.core)
    (hsweep : s'.activeSweep = s.activeSweep)
    (hem : s'.emitted = s.emitted) (hans : s'.answers = s.answers)
    (hadmitted : s'.admitted = s.admitted ++ [o]) : Explained engineID s' := by
  cases h with
  | sweeping run hsome hs => rw [hnone] at hsome; cases hsome
  | @idle ops c es run _ hi =>
    refine .idle (run.skip hadm) (hsweep.trans hnone) ⟨hcore ▸ hi.view, ?_, ?_, ?_⟩
    · rw [events, hem]
      exact hi.records
    · rw [orders_append, orders_order, hi.orders, hadmitted]
    · rw [cancels_append, cancels_order, List.append_nil, removedCancels, hans]
      exact hi.cancels

theorem Explained.sweep_book (h : Explained engineID s) (hsweep : s.activeSweep = some sweep) :
    ∃ a, s.core.orderBooks.lookup a = some sweep.book := by
  cases h with
  | idle run hnone hi => rw [hsweep] at hnone; cases hnone
  | sweeping run hsome hs => cases hsweep.symm.trans hsome; exact ⟨_, hs.book⟩

theorem SerialInv.sound (h : SerialInv engineID s) (a : String) : (s.core.view a).Sound := by
  cases h.explained with
  | idle run _ hi => rw [hi.view]; exact run.sound a
  | sweeping run _ hs => exact (hs.view.sound (hs.sound run).2).1 a

theorem SerialInv.wf (h : SerialInv engineID s) (a : String) : (s.core.view a).Wf := (h.sound a).wf

/-- The sweep is in the book of its order's symbol. -/
theorem SerialInv.sweep_symbol (h : SerialInv engineID s) {sweep : ActiveSweep}
    (hs : s.activeSweep = some sweep) :
    s.core.orderBooks.lookup sweep.order.coinSymbol = some sweep.book := by
  cases h.explained with
  | idle run hnone hi => rw [hs] at hnone; cases hnone
  | sweeping run hsome hsw =>
    cases hs.symm.trans hsome
    obtain ⟨-, -, hfix⟩ := hsw.rounds.consumed (lawful_of_kindOf hsw.kind) (run.sound _).wf
    simp only [Order.fixed, Prod.mk.injEq] at hfix
    rw [hfix.2.2.1]
    exact hsw.book

theorem SerialInv.sweep_symbol_ne (h : SerialInv engineID s) {sweep : ActiveSweep}
    (hs : s.activeSweep = some sweep) : sweep.order.coinSymbol ≠ "" := by
  intro he
  have := h.sweep_symbol hs
  rw [he, h.ok.unnamed] at this
  cases this

theorem removedCancels_snoc {r : CancelOrderResult}
    (h : s'.answers = s.answers ++ [(cmd, r)]) :
    removedCancels s' = removedCancels s ++ if r = .removed then [cmd] else [] := by
  rw [removedCancels, h, List.filterMap_append]
  split <;> simp [removedCancels, *]

theorem SerialInv.move (h : SerialInv engineID s) (hb : BookInv s) (hin : IntakeInv s)
    (hin' : IntakeInv s') (hm : Move s l s') : SerialInv engineID s' := by
  cases hm with
  | idle same | halted same => exact ⟨same.core ▸ h.ok, h.explained.same same⟩
  | submit o => exact ⟨h.ok, h.explained.frame rfl (fun _ _ h => h) rfl rfl rfl rfl⟩
  | register symbol =>
    have hl := getOrderBook_looked hb.bounded symbol
    exact ⟨hl.ok h.ok, h.explained.frame (hl.view h.ok) hl.keeps rfl rfl rfl rfl⟩
  | refused same hresult hcore answers =>
    have hans : removedCancels s' = removedCancels s := by
      rw [removedCancels_snoc answers, if_neg hresult, List.append_nil]
    obtain ⟨a, i, hl⟩ := handleCancel_refused hb.bounded hb.wf hresult hcore
    exact ⟨hl.ok h.ok, h.explained.frame (hl.view h.ok) hl.keeps same.activeSweep same.emitted hans
      same.admitted⟩
  | removed same hcancel hcore answers emitted event =>
    have hspec := handleCancel_spec h.ok h.wf hcancel
    refine ⟨hcore ▸ nextTradeEvent_ok hspec.ok,
      h.explained.removed (hspec.removed_iff.mp rfl) (by rw [hcore]; exact hspec.view_removed rfl)
        (fun a i ha => by rw [hcore]; exact hspec.keeps a i ha) same.activeSweep ?_ ?_
        same.admitted⟩
    · rw [events, emitted, List.map_append, records_append]
      simp [Matching.records, record, event, events]
    · rw [removedCancels_snoc answers, if_pos rfl]
  | traded same hsweep hkind hact hround hcore hsweep' emitted event =>
    obtain ⟨a, ha⟩ := h.explained.sweep_book hsweep
    exact ⟨hcore ▸ nextTradeEvent_ok (setBook_ok h.ok ha _),
      h.explained.traded h.ok hsweep hkind hact hround
      hcore hsweep' emitted event same.answers same.admitted⟩
  | @finished _ _ sweep same hsweep hpc hcore hsweep' emitted =>
    have hok : s'.core.Ok := by
      obtain ⟨a, ha⟩ := h.explained.sweep_book hsweep
      rw [hcore, closing]
      split
      · exact setBook_ok h.ok ha _
      · exact h.ok
    exact ⟨hok, h.explained.finished hin h.ok hsweep (hb.halted hpc sweep hsweep) hcore hsweep'
      emitted same.answers same.admitted⟩
  | yielded same hsweep hsweep' =>
    refine ⟨same.core ▸ h.ok, ?_⟩
    cases h.explained with
    | idle run hnone hi => rw [hsweep] at hnone; cases hnone
    | sweeping run hsome hs =>
      cases hsweep.symm.trans hsome
      have hcore : s'.core = s.core := same.core
      refine .sweeping run hsweep' ⟨hs.admissible, hs.kind, by rw [hcore]; exact hs.book, hs.rounds,
        by rw [hcore]; exact hs.view, hs.exhausted, ?_, hs.orders.trans same.admitted.symm, ?_⟩
      · have hem : s'.emitted = s.emitted := same.emitted
        rw [events, hem]
        exact hs.records
      · have hans : s'.answers = s.answers := same.answers
        rw [removedCancels, hans]
        exact hs.cancels
  | admitted same hpc hadm _ hcore hsweep hadmitted =>
    have hsymbol := (hin'.admitted_sane (hadmitted ▸ List.mem_concat_self)).1
    exact ⟨hcore ▸ (getOrderBook_looked hb.bounded _).ok h.ok,
      h.explained.admitted h.ok (hb.slot hpc) hsymbol hadm
      hcore hsweep same.emitted same.answers hadmitted⟩
  | skipped same hpc hadm _ hadmitted =>
    exact ⟨same.core ▸ h.ok, h.explained.skipped (hb.slot hpc) hadm same.core same.activeSweep
      same.emitted same.answers hadmitted⟩

theorem reach_serial (h : Lts.Reach (step cfg) FreshOrder (init engineID) s) :
    IntakeInv s ∧ SerialInv engineID s := by
  refine h.invariant (fun s => IntakeInv s ∧ SerialInv engineID s)
    ⟨init_intake engineID, init_serial engineID⟩ fun t a u hr hi hok hs => ?_
  have hm := move_of_step (reach_reserve hr) hs
  have hin := hi.1.move hok hm
  exact ⟨hin, hi.2.move (reach_books hr) hi.1 hin hm⟩

/-- A sweep under way could run to its end, which gives a serial run that is ahead of the engine. -/
theorem Sweeping.ahead (run : SerialRun engineID ops c es) (hin : IntakeInv s)
    (hs : Sweeping s ops c es sweep o k b fills after) :
    ∃ ops' c' es', SerialRun engineID ops' c' es' ∧ Engine.orders ops' = s.admitted ∧
      (Engine.cancels ops').Perm (removedCancels s) ∧
      Matching.records (events s) <+: Matching.records es' := by
  have hk := lawful_of_kindOf hs.kind
  have hb := (hs.sound run).1
  have ho : o ∈ s.admitted := by rw [← hs.orders]; simp
  obtain ⟨d, p, gs, hrest, hend⟩ := exists_end (hs.kind_now run) hb
  obtain ⟨c', es', run', hview', hes'⟩ :=
    run.order (hin.admitted_sane ho) (hs.fresh hin) hs.admissible hs.kind
      (hs.rounds.trans hrest) hend
  have hbooks : ∃ books, Cancelled c'.view after books := by
    by_cases hnil : after = []
    · subst hnil
      exact ⟨_, .nil⟩
    · -- late cancels mean that nothing is left to trade
      have he := hs.exhausted hnil
      rcases hrest.head_cases with ⟨rfl, rfl, -⟩ | ⟨_, _, _, _, hact, hround, -⟩
      · rw [hview', finishBook_of_exhausted (hs.kind_now run) he]
        exact ⟨_, hs.view⟩
      · exact absurd hround (he.not_trade hk hb.wf hact)
  obtain ⟨books, hbooks⟩ := hbooks
  obtain ⟨c'', es'', run'', -, hes''⟩ := run'.cancels hbooks
  refine ⟨_, c'', es'', run'', ?_, ?_, ?_⟩
  · simp only [orders_append, orders_order, orders_cancel, List.append_nil, hs.orders]
  · rw [cancels_append, cancels_append, cancels_order, cancels_cancel, List.append_nil]
    exact hs.cancels
  · rw [hes'', hes', hs.records, fillRecords, fillRecords, List.map_append, List.append_assoc,
      List.append_assoc]
    exact ⟨_, by rw [List.append_assoc]⟩

/-- Every run of the scheduler has a serial order of its admitted orders, each matched at once, and
of the cancels it answered as removed. The run has sent what the serial order sends, up to the end
of the sweep under way; without such a sweep it has sent all of it and has the same books. -/
theorem runTurn_serializable (cfg : EngineConfig) (engineID : Nat) {s : State}
    (h : Lts.Reach (step cfg) FreshOrder (init engineID) s) :
    ∃ ops c es, (Core.new engineID).performAll ops = some (c, es) ∧ orders ops = s.admitted ∧
      (cancels ops).Perm (removedCancels s) ∧ Matching.records (events s) <+: Matching.records es ∧
      (s.activeSweep = none →
        Matching.records (events s) = Matching.records es ∧ c.view = s.core.view) := by
  obtain ⟨hin, hinv⟩ := reach_serial h
  cases hinv.explained with
  | @idle ops c es run hsweep hi =>
    exact ⟨ops, c, es, run.run, hi.orders, hi.cancels, hi.records ▸ List.prefix_rfl,
      fun _ => ⟨hi.records, hi.view.symm⟩⟩
  | sweeping run hsweep hs =>
    obtain ⟨ops, c, es, run', hord, hcan, hpre⟩ := hs.ahead run hin
    exact ⟨ops, c, es, run'.run, hord, hcan, hpre,
      fun hnone => by rw [hsweep] at hnone; cases hnone⟩

instance (s : State) (l : Label) : Decidable (FreshOrder s l) := by
  unfold FreshOrder; split <;> infer_instance

/-- An order that buys two of three. After its first slice the next order on the book is cancelled,
and the second slice trades with the last one. -/
def slicedSweep : List Label :=
  [.submitOrder ⟨1, 1, 1, 0, "BTC", .sell, 0, 0, .limit, 10⟩,
    .submitOrder ⟨2, 2, 1, 0, "BTC", .sell, 0, 0, .limit, 10⟩,
    .submitOrder ⟨3, 3, 1, 0, "BTC", .sell, 0, 0, .limit, 10⟩,
    .submitOrder ⟨4, 4, 2, 0, "BTC", .buy, 0, 0, .limit, 10⟩] ++
  (List.replicate 3 (List.replicate 17 .advance ++ [.recvOrder])).flatten ++
    List.replicate 14 .advance ++
  [.consume, .sendCancel ⟨9, "BTC", 2, .sell, 10⟩] ++ List.replicate 7 .advance ++ [.consume] ++
  List.replicate 6 .advance

theorem runTurn_serializable_slicedSweep :
    ∃ s, Lts.exec (Lts.guarded (step smallestConfig) FreshOrder) slicedSweep (init 1) = some s ∧
      s.activeSweep = none ∧ removedCancels s = [⟨9, "BTC", 2, .sell, 10⟩] ∧
      events s = [.trade ⟨⟨1, 1⟩, "BTC", 10, 1, 4, 1⟩, .orderCancelled ⟨9, 2, "BTC", .sell, ⟨1, 2⟩⟩,
        .trade ⟨⟨1, 3⟩, "BTC", 10, 1, 4, 3⟩] ∧
      ∃ ops c es, (Core.new 1).performAll ops = some (c, es) ∧ orders ops = s.admitted ∧
        (cancels ops).Perm (removedCancels s) ∧ Matching.records (events s) = Matching.records es ∧
        c.view = s.core.view := by
  have hrun : (Lts.exec (Lts.guarded (step smallestConfig) FreshOrder) slicedSweep (init 1)).map
      (fun s => (s.activeSweep.isNone, removedCancels s, events s)) =
      some (true, [⟨9, "BTC", 2, .sell, 10⟩], [.trade ⟨⟨1, 1⟩, "BTC", 10, 1, 4, 1⟩,
        .orderCancelled ⟨9, 2, "BTC", .sell, ⟨1, 2⟩⟩, .trade ⟨⟨1, 3⟩, "BTC", 10, 1, 4, 3⟩]) := by
    decide +kernel
  obtain ⟨s, hs, hend⟩ := Option.map_eq_some_iff.mp hrun
  simp only [Prod.mk.injEq, Option.isNone_iff_eq_none] at hend
  obtain ⟨hnone, hcancels, hevents⟩ := hend
  obtain ⟨ops, c, es, hops, horders, hperm, -, hfinal⟩ :=
    runTurn_serializable smallestConfig 1 (Lts.reach_of_exec_guarded _ hs)
  exact ⟨s, hs, hnone, hcancels, hevents, ops, c, es, hops, horders, hperm, hfinal hnone⟩

end GoExchange.Engine
