import GoExchange.Core

/-!
# Serial execution

Orders matched to their end and cancels applied, one after the other. The
engine's scheduler is compared with this: same books, same executions.
-/
namespace GoExchange.Matching

inductive Op where
  | order (o : Order)
  | cancel (cmd : CancelOrderCommand)
  deriving DecidableEq, Repr

/-- One operation and the events it emits; `none` if it panics or the cancel finds nothing. -/
def Core.perform (c : Core) : Op → Option (Core × List ExecutionEvent)
  | .order o => c.matchOrder o
  | .cancel cmd =>
    match c.handleCancel cmd with
    | (c, .removed) =>
      let (c, eventID) := c.nextTradeEvent
      some (c, [.orderCancelled ⟨cmd.commandID, cmd.orderID, cmd.coinSymbol, cmd.side, eventID⟩])
    | _ => none

def Core.performAll (c : Core) : List Op → Option (Core × List ExecutionEvent)
  | [] => some (c, [])
  | op :: ops => do
    let (c, events) ← c.perform op
    let (c, more) ← c.performAll ops
    return (c, events ++ more)

def Op.order? : Op → Option Order
  | .order o => some o
  | .cancel _ => none

def Op.cancel? : Op → Option CancelOrderCommand
  | .order _ => none
  | .cancel cmd => some cmd

/-- Executions without their event ids: trades and market-done results. -/
def record : ExecutionEvent → Option ExecutionEvent
  | .trade t => some (.trade { t with eventID := ⟨0, 0⟩ })
  | .marketOrderDone d => some (.marketOrderDone d)
  | .orderCancelled _ => none

def records (events : List ExecutionEvent) : List ExecutionEvent := events.filterMap record

@[simp] theorem records_nil : records [] = [] := rfl

@[simp] theorem records_append (es fs : List ExecutionEvent) :
    records (es ++ fs) = records es ++ records fs :=
  List.filterMap_append

/-- The records of the executions of a taker. -/
def fillRecords (o : Order) (fills : List Fill) : List ExecutionEvent :=
  fills.map fun f => .trade (newTrade ⟨0, 0⟩ o f)

theorem records_tradesOf (engineID seq : Nat) (o : Order) (fills : List Fill) :
    records ((tradesOf engineID seq o fills).map .trade) = fillRecords o fills := by
  induction fills generalizing seq with
  | nil => rfl
  | cons f fs ih =>
    have := ih (seq + 1)
    simp only [records] at this
    simp [tradesOf, records, fillRecords, record, this, newTrade]

theorem records_finishEvents (o : Order) : records (finishEvents o) = finishEvents o := by
  unfold finishEvents
  split <;> rfl

/-! ## Finishing an order -/

variable {o : Order} {b : OrderBook}

/-- Nothing rests of a taker that is exhausted. -/
theorem finishBook_of_exhausted {k : MatchKind} (hkind : kindOf o = some k)
    (he : k.Exhausted b o) (book : OrderBook) : finishBook book o = book := by
  unfold finishBook
  split
  · rfl
  · rename_i hlimit
    rcases he with he | he
    · unfold kindOf at hkind
      split at hkind
      · simp only [if_neg hlimit, Option.some.injEq] at hkind
        subst hkind
        rw [if_neg (by simpa [matchBuy] using he)]
      · simp only [if_neg hlimit, Option.some.injEq] at hkind
        subst hkind
        rw [if_neg (by simpa [matchSell] using he)]
      · cases hkind
    · exact absurd he.1 hlimit

theorem mem_finishBook {m : Order} {h : Half} (hb : b.Wf) (hm : m ∈ (finishBook b o).resting h) :
    m ∈ b.resting h ∨ m = o := by
  unfold finishBook at hm
  split at hm
  · exact .inl hm
  · split at hm
    · rw [OrderBook.resting_addOrder hb] at hm
      split at hm
      · rcases List.mem_cons.mp ((Buckets.insertBehind_perm _ _).mem_iff.mp hm) with hm | hm
        · exact .inr hm
        · exact .inl hm
      · exact .inl hm
    · exact .inl hm

/-- A new order with an id of its own and a positive price keeps the book sound. -/
theorem finishBook_sound (hb : b.Sound)
    (hid : ∀ h, o.id ∉ (b.resting h).map Order.id) (hprice : o.orderType ≠ .market → 0 < o.price) :
    (finishBook b o).Sound := by
  unfold finishBook
  split
  · exact hb
  · rename_i hlimit
    split
    · refine ⟨OrderBook.addOrder_wf hb.wf o, fun h => ?_, fun h m hm => ?_⟩
      · rw [OrderBook.resting_addOrder hb.wf]
        split
        · exact ((Buckets.insertBehind_perm _ _).map Order.id).nodup_iff.mpr
            (List.nodup_cons.mpr ⟨hid h, hb.ids h⟩)
        · exact hb.ids h
      · rw [OrderBook.resting_addOrder hb.wf] at hm
        split at hm
        · rcases List.mem_cons.mp ((Buckets.insertBehind_perm _ _).mem_iff.mp hm) with rfl | hm
          · exact hprice hlimit
          · exact hb.prices h m hm
        · exact hb.prices h m hm
    · exact hb

namespace Core

variable {c d e : Core} {es fs : List ExecutionEvent} {ops ops' : List Op}

theorem performAll_append (h : c.performAll ops = some (d, es))
    (h' : d.performAll ops' = some (e, fs)) : c.performAll (ops ++ ops') = some (e, es ++ fs) := by
  induction ops generalizing c es with
  | nil =>
    simp only [performAll, Option.some.injEq, Prod.mk.injEq] at h
    obtain ⟨rfl, rfl⟩ := h
    exact h'
  | cons op ops ih =>
    simp only [performAll, Option.bind_eq_bind, Option.bind_eq_some_iff] at h
    obtain ⟨⟨c', es'⟩, hop, ⟨d', more⟩, hrest, h⟩ := h
    simp only [Option.pure_def, Option.some.injEq, Prod.mk.injEq] at h
    obtain ⟨rfl, rfl⟩ := h
    simp [performAll, hop, ih hrest]

theorem performAll_single {op : Op} (h : c.perform op = some (d, es)) :
    c.performAll [op] = some (d, es) := by
  simp [performAll, h]

/-- A command that names a resting order. -/
structure Removal (books : String → OrderBook) (cmd : CancelOrderCommand) : Prop where
  id : cmd.orderID ≠ 0
  symbol : cmd.coinSymbol ≠ ""
  price : 0 ≤ cmd.price
  side : cmd.side = .buy ∨ cmd.side = .sell
  holds : (books cmd.coinSymbol).Holds cmd.side cmd.price cmd.orderID

/-- The books after the removal. -/
def removed (books : String → OrderBook) (cmd : CancelOrderCommand) : String → OrderBook :=
  Function.update books cmd.coinSymbol
    ((books cmd.coinSymbol).without cmd.side cmd.price cmd.orderID)

/-- A cancel removes the order it names, or changes nothing but the register of symbols. -/
structure CancelSpec (c d : Core) (cmd : CancelOrderCommand) (r : CancelOrderResult) : Prop where
  ok : d.Ok
  keeps : ∀ symbol i, c.orderBooks.lookup symbol = some i → d.orderBooks.lookup symbol = some i
  removed_iff : r = .removed ↔ Removal c.view cmd
  view_removed : r = .removed → d.view = removed c.view cmd
  view_kept : r ≠ .removed → d.view = c.view

theorem handleCancel_spec {cmd : CancelOrderCommand} {r : CancelOrderResult} (hc : c.Ok)
    (hw : ∀ symbol, (c.view symbol).Wf) (h : c.handleCancel cmd = (d, r)) :
    CancelSpec c d cmd r := by
  obtain ⟨rfl, rfl⟩ : (c.handleCancel cmd).1 = d ∧ (c.handleCancel cmd).2 = r := by simp [h]
  clear h
  unfold handleCancel
  split <;> rename_i hbad
  · refine ⟨hc, fun _ _ h => h, ⟨by simp, fun h => ?_⟩, by simp, fun _ => rfl⟩
    rcases hbad with hbad | hbad | hbad
    · exact absurd hbad h.id
    · exact absurd hbad h.symbol
    · exact absurd h.price hbad
  · push Not at hbad
    split <;> rename_i hside
    · exact ⟨hc, fun _ _ h => h, ⟨by simp, fun h => absurd h.side (by tauto)⟩, by simp,
        fun _ => rfl⟩
    · have hl := getOrderBook_looked hc.toBounded cmd.coinSymbol
      generalize c.getOrderBook cmd.coinSymbol = r at hl ⊢
      obtain ⟨d, i⟩ := r
      have hbook := hl.book_eq hc hbad.2.1
      have hremove := OrderBook.removeOrder_eq (hw cmd.coinSymbol) cmd.side cmd.price cmd.orderID
      by_cases hholds : (c.view cmd.coinSymbol).Holds cmd.side cmd.price cmd.orderID
      · rw [if_pos (by exact hholds)] at hremove
        simp only [hbook, hremove]
        have hlook := hl.lookup hbad.2.1
        refine ⟨setBook_ok (hl.ok hc) hlook _, hl.keeps, ⟨fun _ => ?_, fun _ => rfl⟩, fun _ => ?_,
          fun h => absurd rfl h⟩
        · exact ⟨hbad.1, hbad.2.1, hbad.2.2, by tauto, hholds⟩
        · rw [view_setBook (hl.ok hc) hlook, hl.view hc]
          rfl
      · rw [if_neg (by exact hholds)] at hremove
        simp only [hbook, hremove]
        exact ⟨hl.ok hc, hl.keeps, ⟨by simp, fun h => absurd h.holds hholds⟩, nofun,
          fun _ => hl.view hc⟩

theorem perform_cancel (hc : c.Ok) (hw : ∀ symbol, (c.view symbol).Wf) {cmd : CancelOrderCommand}
    (h : Removal c.view cmd) :
    ∃ d es, c.perform (.cancel cmd) = some (d, es) ∧ d.Ok ∧ d.view = removed c.view cmd ∧
    records es = [] := by
  unfold perform
  cases hr : c.handleCancel cmd with
  | mk d r =>
    have hspec := handleCancel_spec hc hw hr
    obtain rfl : r = .removed := hspec.removed_iff.mpr h
    exact ⟨d.nextTradeEvent.1,
      [.orderCancelled ⟨cmd.commandID, cmd.orderID, cmd.coinSymbol, cmd.side, d.nextTradeEvent.2⟩],
      by simp only [hr], nextTradeEvent_ok hspec.ok, hspec.view_removed rfl, rfl⟩

/-- A sequence of removals. -/
inductive Cancelled (books : String → OrderBook) :
    List CancelOrderCommand → (String → OrderBook) → Prop
  | nil : Cancelled books [] books
  | snoc {cmds : List CancelOrderCommand} {books' : String → OrderBook} {cmd : CancelOrderCommand} :
      Cancelled books cmds books' → Removal books' cmd →
      Cancelled books (cmds ++ [cmd]) (removed books' cmd)

section

variable {books books' : String → OrderBook} {cmd : CancelOrderCommand}
  {cmds : List CancelOrderCommand}

theorem removed_sound (h : ∀ a, (books a).Sound) (hr : Removal books cmd) (a : String) :
    (removed books cmd a).Sound := by
  by_cases ha : a = cmd.coinSymbol
  · subst ha
    rw [removed, Function.update_self]
    exact (h _).without hr.holds
  · rw [removed, Function.update_of_ne ha]
    exact h a

theorem removed_consumed (h : ∀ a, (books a).Sound) (hr : Removal books cmd) (a : String) :
    (books a).Consumed (removed books cmd a) := by
  by_cases ha : a = cmd.coinSymbol
  · subst ha
    rw [removed, Function.update_self]
    exact (h _).consumed_without hr.holds
  · rw [removed, Function.update_of_ne ha]
    exact fun _ => .refl _

theorem Cancelled.sound (hs : ∀ a, (books a).Sound) (h : Cancelled books cmds books') :
    (∀ a, (books' a).Sound) ∧ ∀ a, (books a).Consumed (books' a) := by
  induction h with
  | nil => exact ⟨hs, fun _ _ => .refl _⟩
  | snoc _ hr ih =>
    exact ⟨removed_sound ih.1 hr, fun a => (ih.2 a).trans (removed_consumed ih.1 hr a)⟩

theorem Cancelled.eq_of_nil (h : Cancelled books [] books') : books' = books := by
  generalize hnil : ([] : List CancelOrderCommand) = l at h
  cases h with
  | nil => rfl
  | snoc => simp at hnil

/-- Removals can be performed one by one. -/
theorem Cancelled.performAll (hs : ∀ a, (books a).Sound)
    (h : Cancelled books cmds books') (hc : c.Ok) (hview : c.view = books) :
    ∃ d es, c.performAll (cmds.map .cancel) = some (d, es) ∧ d.Ok ∧ d.view = books' ∧
    records es = [] := by
  induction h with
  | nil => exact ⟨c, [], rfl, hc, hview, rfl⟩
  | @snoc cmds books' cmd hcs hr ih =>
    obtain ⟨d, es, hrun, hd, hdv, hes⟩ := ih
    have hsound := (hcs.sound hs).1
    obtain ⟨e, fs, hperf, he, hev, hfs⟩ :=
      perform_cancel hd (fun a => by rw [hdv]; exact (hsound a).wf) (hdv ▸ hr)
    refine ⟨e, es ++ fs, ?_, he, by rw [hev, hdv], by rw [records_append, hes, hfs]; rfl⟩
    rw [List.map_append]
    exact performAll_append hrun (performAll_single hperf)

theorem Cancelled.exhausted {k : MatchKind} {o : Order} {a : String} (hs : ∀ a, (books a).Sound)
    (h : Cancelled books cmds books') (he : k.Exhausted (books a) o) :
    k.Exhausted (books' a) o := by
  induction h with
  | nil => exact he
  | @snoc cmds books' cmd hcs hr ih =>
    by_cases ha : a = cmd.coinSymbol
    · subst ha
      rw [removed, Function.update_self]
      exact ih.without ((hcs.sound hs).1 _) hr.holds
    · rwa [removed, Function.update_of_ne ha]

end

/-- `Match` runs the sweep to its end and finishes the order. -/
theorem matchOrder_spec {p : Order} {k : MatchKind} {fills : List Fill} (hc : c.Ok)
    (hs : o.coinSymbol ≠ "") (hadm : orderIsAdmissible o = true) (hkind : kindOf o = some k)
    (hb : (c.view o.coinSymbol).Sound) (hr : Rounds k (c.view o.coinSymbol) o b p fills)
    (hend : k.active p = false ∨ k.round b p = .stop) :
    ∃ d es, c.matchOrder o = some (d, es) ∧ d.Ok ∧
      d.view = Function.update c.view o.coinSymbol (finishBook b p) ∧
      records es = fillRecords o fills ++ finishEvents p := by
  have hl := getOrderBook_looked hc.toBounded o.coinSymbol
  unfold matchOrder
  rw [if_pos hadm]
  generalize c.getOrderBook o.coinSymbol = r at hl ⊢
  obtain ⟨d, i⟩ := r
  have hbook := hl.book_eq hc hs
  have hlook := hl.lookup hs
  have hslice : matchSlice (d.book i) o 0 = ⟨b, p, fills, .done⟩ := by
    simp only [matchSlice, hkind, hbook]
    exact loop_budget_zero hkind hb hr hend
  simp only [hslice]
  refine ⟨_, _, rfl, ?_, ?_, ?_⟩
  · have := setBook_ok (hl.ok hc) hlook (finishBook b p)
    exact ⟨⟨this.pos, this.lookup⟩, this.unnamed, this.owner, this.fresh⟩
  · have := view_setBook (hl.ok hc) hlook (finishBook b p)
    rw [hl.view hc] at this
    exact this
  · rw [records_append, records_tradesOf, records_finishEvents]

theorem matchOrder_inadmissible (h : orderIsAdmissible o = false) :
    c.matchOrder o = some (c, []) := by
  simp [matchOrder, h]

end Core

end GoExchange.Matching
