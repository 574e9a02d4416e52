import GoExchange.EngineMoves
import GoExchange.Serial

/-!
# The books between two steps

What holds of every book of a running engine, for any orders and cancels sent
to it: both halves are well formed and hold positive amounts of their own side,
and a buy and a sell that cross belong to one user. The last needs that a
remainder rests only when its sweep has found nothing more to trade with.
-/
namespace GoExchange.Matching

open Buckets

/-- A buy and a sell that would trade belong to one user. -/
def Uncrossed (x y : Order) : Prop := y.price ≤ x.price → x.userID = y.userID ∧ x.userID ≠ 0

structure OrderBook.Fair (b : OrderBook) : Prop where
  wf : b.Wf
  side : ∀ h, ∀ m ∈ b.resting h, halfOf m.side = h
  limit : ∀ h, ∀ m ∈ b.resting h, m.orderType ≠ .market
  positive : ∀ h, ∀ m ∈ b.resting h, 0 < m.amount
  uncrossed : ∀ x ∈ b.resting .bids, ∀ y ∈ b.resting .asks, Uncrossed x y

variable {k : MatchKind} {b c : OrderBook} {o p m : Order} {f : Fill} {qty : Decimal}

theorem newOrderBook_fair : newOrderBook.Fair where
  wf := OrderBook.newOrderBook_wf
  side h m hm := by cases h <;> cases hm
  limit h m hm := by cases h <;> cases hm
  positive h m hm := by cases h <;> cases hm
  uncrossed x hx := by cases hx

/-- A book whose orders were there before, some of them with less. -/
theorem OrderBook.Fair.of_consumed (hb : b.Fair) (hc : c.Wf) (hcons : b.Consumed c)
    (hpos : ∀ h, ∀ m ∈ c.resting h, 0 < m.amount) : c.Fair where
  wf := hc
  side h m hm := by
    obtain ⟨m', hm', hfix⟩ := hcons.exists_mem hm
    simp only [Order.fixed, Prod.mk.injEq] at hfix
    rw [← hfix.2.2.2.1]
    exact hb.side h m' hm'
  limit h m hm := by
    obtain ⟨m', hm', hfix⟩ := hcons.exists_mem hm
    simp only [Order.fixed, Prod.mk.injEq] at hfix
    rw [← hfix.2.2.2.2.1]
    exact hb.limit h m' hm'
  positive := hpos
  uncrossed x hx y hy := by
    obtain ⟨x', hx', hfx⟩ := hcons.exists_mem hx
    obtain ⟨y', hy', hfy⟩ := hcons.exists_mem hy
    simp only [Order.fixed, Prod.mk.injEq] at hfx hfy
    have := hb.uncrossed x' hx' y' hy'
    rwa [Uncrossed, hfx.2.1, hfx.2.2.2.2.2, hfy.2.1, hfy.2.2.2.2.2] at this

theorem TradeRound.fair (hb : b.Fair) (h : TradeRound k b o c p f m qty) : c.Fair := by
  refine hb.of_consumed h.wf h.consumed fun half x hx => ?_
  rw [h.resting] at hx
  split at hx
  · rcases mem_modifyFirst hx with hx | ⟨y, -, -, hred⟩
    · exact hb.positive half x hx
    · simp only [reduce, Option.ite_none_right_eq_some, Option.some.injEq] at hred
      exact hred.2 ▸ hred.1
  · exact hb.positive half x hx

theorem OrderBook.without_sublist (hb : b.Wf) (side : OrderSide) (price : Decimal) (id : Nat)
    (h : Half) : ((b.without side price id).resting h).Sublist (b.resting h) := by
  rw [OrderBook.resting_without hb]
  split
  · have := map_modifyFirst_sublist (p := OrderBook.names price id) (f := fun _ => none)
      (l := b.resting h) (g := fun m : Order => m) (by simp)
    simpa using this
  · exact .refl _

theorem OrderBook.Fair.without (hb : b.Fair) (side : OrderSide) (price : Decimal) (id : Nat) :
    (b.without side price id).Fair := by
  have hrest := OrderBook.without_sublist hb.wf side price id
  exact hb.of_consumed (OrderBook.without_wf hb.wf side price id) (fun h => (hrest h).map _)
    fun h m hm => hb.positive h m ((hrest h).subset hm)

/-- A sweep of a limit order that stops with something left has no order to trade with. -/
theorem not_candidate_of_stop (hkind : kindOf o = some k) (hlimit : o.orderType ≠ .market)
    (hb : b.Fair)
    (hpos : 0 < o.amount) (hstop : k.round b o = .stop) :
    ∀ m ∈ b.resting k.half, k.candidate o m = false := by
  have hk := lawful_of_kindOf hkind
  have hquantity : ∀ price m, k.quantity o price m = some (min o.amount m.amount) := by
    intro price m
    cases takes_of_kindOf hkind with
    | marketBuy _ ht => exact absurd ht hlimit
    | buy => rfl
    | marketSell _ ht => exact absurd ht hlimit
    | sell => rfl
  have hnone : k.best b o = none := by
    cases hbest : k.best b o with
    | none => rfl
    | some r =>
      obtain ⟨level, m⟩ := r
      obtain ⟨hl, hf, -⟩ := best_mem hbest
      have hm : m ∈ b.resting k.half :=
        List.mem_flatMap.mpr ⟨level, hl, List.mem_of_find?_eq_some hf⟩
      have hmin : 0 < min o.amount m.amount := lt_min hpos (hb.positive _ m hm)
      simp [MatchKind.round, hbest, hquantity, hmin] at hstop
  intro m hm
  have hfind := best_eq_find? hk hb.wf o
  rw [hnone, Option.map_none] at hfind
  exact Bool.eq_false_iff.mpr (List.find?_eq_none.mp hfind.symm m hm)

theorem OrderBook.mem_addOrder (hb : b.Wf) {h : Half} (hm : m ∈ (b.addOrder o).resting h) :
    m ∈ b.resting h ∨ m = o ∧ h = halfOf o.side := by
  rw [OrderBook.resting_addOrder hb] at hm
  split at hm
  · rename_i he
    rcases List.mem_cons.mp ((insertBehind_perm _ _).mem_iff.mp hm) with hm | hm
    · exact .inr ⟨hm, he⟩
    · exact .inl hm
  · exact .inl hm

/-- What is left of a limit order rests without crossing others. -/
theorem OrderBook.Fair.addOrder (hb : b.Fair) (hkind : kindOf o = some k)
    (hlimit : o.orderType ≠ .market)
    (hpos : 0 < o.amount) (hstop : k.round b o = .stop) : (b.addOrder o).Fair := by
  have hnone := not_candidate_of_stop hkind hlimit hb hpos hstop
  refine ⟨OrderBook.addOrder_wf hb.wf o, fun h m hm => ?_, fun h m hm => ?_, fun h m hm => ?_,
    fun x hx y hy hcross => ?_⟩
  · rcases OrderBook.mem_addOrder hb.wf hm with hm | ⟨rfl, rfl⟩
    · exact hb.side h m hm
    · rfl
  · rcases OrderBook.mem_addOrder hb.wf hm with hm | ⟨rfl, -⟩
    · exact hb.limit h m hm
    · exact hlimit
  · rcases OrderBook.mem_addOrder hb.wf hm with hm | ⟨rfl, -⟩
    · exact hb.positive h m hm
    · exact hpos
  · rcases OrderBook.mem_addOrder hb.wf hx with hx' | ⟨rfl, hxh⟩
    · rcases OrderBook.mem_addOrder hb.wf hy with hy' | ⟨rfl, hyh⟩
      · exact hb.uncrossed x hx' y hy' hcross
      · -- a sell comes to rest
        cases takes_of_kindOf hkind with
        | marketBuy _ ht => exact absurd ht hlimit
        | buy hs => simp [halfOf, hs] at hyh
        | marketSell _ ht => exact absurd ht hlimit
        | sell hs =>
          have := hnone x hx'
          simp only [MatchKind.candidate, matchSell, not_lt.mpr hcross, decide_false,
            Bool.not_false, Bool.true_and,
            isSelfTrade, Bool.not_eq_false', Bool.and_eq_true, bne_iff_ne, beq_iff_eq] at this
          exact ⟨this.2.symm, this.1.2⟩
    · rcases OrderBook.mem_addOrder hb.wf hy with hy' | ⟨rfl, hyh⟩
      · -- a buy comes to rest
        cases takes_of_kindOf hkind with
        | marketBuy _ ht => exact absurd ht hlimit
        | buy hs =>
          have := hnone y hy'
          simp only [MatchKind.candidate, matchBuy, not_lt.mpr hcross, decide_false, Bool.not_false,
            Bool.true_and,
            isSelfTrade, Bool.not_eq_false', Bool.and_eq_true, bne_iff_ne, beq_iff_eq] at this
          exact ⟨this.2, this.1.1⟩
        | marketSell _ ht => exact absurd ht hlimit
        | sell hs => simp [halfOf, hs] at hxh
      · rw [← hxh] at hyh
        cases hyh

/-! ## The heap of books -/

namespace Core

variable {c d : Core} {a : String} {i : Nat}

theorem book_mem (hi : i < c.heap.length) : c.book i ∈ c.heap := by
  rw [book, List.getD_eq_getElem?_getD, List.getElem?_eq_getElem hi]
  exact List.getElem_mem hi

theorem Looked.forall_heap {P : OrderBook → Prop} (h : Looked c d a i) (hP : ∀ b ∈ c.heap, P b)
    (hnew : P newOrderBook) : ∀ b ∈ d.heap, P b := by
  rcases h.heap with hh | hh
  · exact hh ▸ hP
  · rw [hh]
    exact Rows.forall_mem_concat hP hnew

theorem forall_heap_setBook {P : OrderBook → Prop} (hP : ∀ b ∈ c.heap, P b) {b : OrderBook}
    (hb : P b) (i : Nat) : ∀ b' ∈ (c.setBook i b).heap, P b' := by
  intro b' hb'
  rcases List.mem_or_eq_of_mem_set hb' with hb' | rfl
  · exact hP b' hb'
  · exact hb

/-- A cancel looks a book up and, if it finds the order there, takes it out. -/
theorem handleCancel_heap {cmd : CancelOrderCommand} {r : CancelOrderResult} (hc : c.Bounded)
    (hw : ∀ b ∈ c.heap, b.Wf) (h : c.handleCancel cmd = (d, r)) :
    (r ≠ .removed ∧ ∃ a i, Looked c d a i) ∨ r = .removed ∧ ∃ e i, Looked c e cmd.coinSymbol i ∧
      ((e.book i).resting (halfOf cmd.side)).any (OrderBook.names cmd.price cmd.orderID) = true ∧
      d = e.setBook i ((e.book i).without cmd.side cmd.price cmd.orderID) := by
  have hlook := getOrderBook_looked hc cmd.coinSymbol
  have hwf := hlook.forall_heap hw OrderBook.newOrderBook_wf _ (book_mem hlook.bound)
  unfold handleCancel at h
  split at h
  · cases h
    exact .inl ⟨by simp, "", _, getOrderBook_looked hc ""⟩
  · split at h
    · cases h
      exact .inl ⟨by simp, "", _, getOrderBook_looked hc ""⟩
    · simp only [OrderBook.removeOrder_eq hwf] at h
      split at h
      · rename_i hsome
        obtain ⟨hany, rfl⟩ := Lts.of_enabled hsome
        cases h
        exact .inr ⟨rfl, _, _, hlook, hany, rfl⟩
      · cases h
        exact .inl ⟨by simp, _, _, hlook⟩

theorem handleCancel_refused {cmd : CancelOrderCommand} {r : CancelOrderResult} (hc : c.Bounded)
    (hw : ∀ b ∈ c.heap, b.Wf)
    (hr : r ≠ .removed) (h : d = c ∧ r = .backpressured ∨ c.handleCancel cmd = (d, r)) :
    ∃ a i, Looked c d a i := by
  rcases h with ⟨rfl, -⟩ | h
  · exact ⟨"", _, getOrderBook_looked hc ""⟩
  · exact ((handleCancel_heap hc hw h).resolve_right fun h => hr h.1).2

end Core

end GoExchange.Matching

namespace GoExchange.Engine

open Matching Core

variable {cfg : EngineConfig} {s s' : State} {l : Label} {engineID : Nat} {sweep : ActiveSweep}
  {ok : State → Label → Prop}

/-! ## The invariant -/

structure BookInv (s : State) : Prop where
  bounded : s.core.Bounded
  books : ∀ b ∈ s.core.heap, b.Fair
  bound : ∀ sweep, s.activeSweep = some sweep → sweep.book < s.core.heap.length
  kind : ∀ sweep, s.activeSweep = some sweep → ∃ k, kindOf sweep.order = some k
  slot : s.pc.Vacant = true → s.activeSweep = none
  halted : s.pc.Done = true → ∀ sweep, s.activeSweep = some sweep → Halted s sweep

theorem init_books (engineID : Nat) : BookInv (init engineID) where
  bounded := (new_ok engineID).toBounded
  books b hb := by
    have : b = newOrderBook := by simpa [init, Core.new] using hb
    exact this ▸ newOrderBook_fair
  bound sweep hs := by cases hs
  kind sweep hs := by cases hs
  slot _ := rfl
  halted hd := by cases hd

theorem BookInv.wf (h : BookInv s) : ∀ b ∈ s.core.heap, b.Wf := fun b hb => (h.books b hb).wf

theorem BookInv.fair (h : BookInv s) (hs : s.activeSweep = some sweep) :
    (s.core.book sweep.book).Fair := h.books _ (book_mem (h.bound sweep hs))

/-- A round of the sweep, in the flat list of the book. -/
theorem BookInv.round (h : BookInv s) {k : MatchKind} {book : OrderBook} {order : Order}
    {fill : Fill} (hs : s.activeSweep = some sweep) (hkind : kindOf sweep.order = some k)
    (hround : k.round (s.core.book sweep.book) sweep.order = .trade book order fill) :
    ∃ m qty, TradeRound k (s.core.book sweep.book) sweep.order book order fill m qty :=
  round_trade (lawful_of_kindOf hkind) (h.fair hs).wf hround

/-- A core that only looked a book up. -/
theorem BookInv.looked (h : BookInv s) {c : Core} {a : String} {i : Nat} (hl : Looked s.core c a i)
    (hcore : s'.core = c)
    (hsweep : s'.activeSweep = s.activeSweep) (hslot : s'.pc.Vacant = true → s'.activeSweep = none)
    (hdone : s'.pc.Done = true → s.pc.Done = true) : BookInv s' := by
  refine ⟨hcore ▸ hl.bounded, hcore ▸ hl.forall_heap h.books newOrderBook_fair, fun sweep hs => ?_,
    hsweep ▸ h.kind, hslot, fun hd sweep hs => ?_⟩
  · rw [hcore]
    exact (h.bound sweep (hsweep ▸ hs)).trans_le hl.length_le
  · intro k hk
    rw [hcore, hl.book (h.bound sweep (hsweep ▸ hs))]
    exact h.halted (hdone hd) sweep (hsweep ▸ hs) k hk

/-- Nothing the invariant reads has changed. -/
theorem BookInv.keep (h : BookInv s) (hcore : s'.core = s.core)
    (hsweep : s'.activeSweep = s.activeSweep)
    (hslot : s'.pc.Vacant = true → s'.activeSweep = none)
    (hdone : s'.pc.Done = true → s.pc.Done = true) : BookInv s' :=
  h.looked (getOrderBook_looked h.bounded "") (hcore.trans rfl) hsweep hslot hdone

theorem kindOf_of_admissible {o : Order} (h : orderIsAdmissible o = true) :
    ∃ k, kindOf o = some k := by
  cases hs : o.side with
  | buy => exact ⟨_, by rw [kindOf, hs]⟩
  | sell => exact ⟨_, by rw [kindOf, hs]⟩
  | unknown => simp [orderIsAdmissible, hs] at h

theorem BookInv.move (h : BookInv s) (hm : Move s l s') : BookInv s' := by
  have hdone : ∀ {t : State}, t.pc.Done = false → t.pc.Done = true → s.pc.Done = true :=
    fun h₁ h₂ => by
    rw [h₁] at h₂
    cases h₂
  have hnot : ∀ {t : State}, t.pc.Done = false → t.pc.Done = true →
      ∀ sweep, t.activeSweep = some sweep → Halted t sweep := fun h₁ h₂ => by
    rw [h₁] at h₂
    cases h₂
  cases hm with
  | idle same done slot =>
    refine h.keep same.core same.activeSweep (fun hv => ?_) (fun hd => ?_)
    · rw [same.activeSweep]
      exact (slot hv).elim h.slot id
    · rcases done with hpc | hpc
      · rwa [← hpc]
      · exact hdone hpc hd
  | submit o => exact h.keep rfl rfl h.slot id
  | register symbol => exact h.looked (getOrderBook_looked h.bounded symbol) rfl rfl h.slot id
  | refused same hresult hcore _ done slot =>
    obtain ⟨a, i, hl⟩ := handleCancel_refused h.bounded h.wf hresult hcore
    exact h.looked hl rfl same.activeSweep (fun hv => same.activeSweep.trans (h.slot (slot ▸ hv)))
      (hdone done)
  | removed same hcancel hcore _ _ _ done slot =>
    obtain ⟨-, d, i, hl, -, rfl⟩ :=
      (handleCancel_heap h.bounded h.wf hcancel).resolve_left fun h => h.1 rfl
    have hfair := hl.forall_heap h.books newOrderBook_fair
    refine ⟨?_, ?_, fun sweep hs => ?_, fun sweep hs => h.kind sweep (same.activeSweep ▸ hs),
      fun hv => same.activeSweep.trans (h.slot (slot ▸ hv)), hnot done⟩
    · rw [hcore]
      exact ⟨(setBook_bounded hl.bounded _ _).pos, (setBook_bounded hl.bounded _ _).lookup⟩
    · rw [hcore]
      exact forall_heap_setBook hfair ((hfair _ (book_mem hl.bound)).without _ _ _) i
    · rw [hcore, nextTradeEvent, setBook, List.length_set]
      exact (h.bound sweep (same.activeSweep ▸ hs)).trans_le hl.length_le
  | @traded _ _ sweep k _ _ _ _ same hsweep hkind _ hround hcore hsweep' _ _ done slot =>
    obtain ⟨m, qty, hr⟩ := h.round hsweep hkind hround
    refine ⟨?_, ?_, ?_, ?_, ?_, hnot done⟩
    · rw [hcore]
      exact ⟨(setBook_bounded h.bounded _ _).pos, (setBook_bounded h.bounded _ _).lookup⟩
    · rw [hcore]
      exact forall_heap_setBook h.books (hr.fair (h.fair hsweep)) _
    · intro sweep' hs
      cases hsweep'.symm.trans hs
      rw [hcore]
      simp only [nextTradeEvent, setBook, List.length_set]
      exact h.bound sweep hsweep
    · intro sweep' hs
      cases hsweep'.symm.trans hs
      refine ⟨k, ?_⟩
      rw [kindOf_fixed (o := sweep.order) (hr.taker ▸ (lawful_of_kindOf hkind).fill_fixed _ _ _)]
      exact hkind
    · intro hv
      rw [h.slot (slot ▸ hv)] at hsweep
      cases hsweep
  | halted same hsweep halted slot =>
    refine ⟨same.core ▸ h.bounded, same.core ▸ h.books, fun sweep' hs => ?_, fun sweep' hs => ?_,
      fun hv => ?_, fun _ sweep' hs => ?_⟩
    · rw [same.core]
      exact h.bound sweep' (same.activeSweep ▸ hs)
    · exact h.kind sweep' (same.activeSweep ▸ hs)
    · exact same.activeSweep.trans (h.slot (slot ▸ hv))
    · cases hsweep.symm.trans (same.activeSweep ▸ hs)
      intro k hk
      rw [same.core]
      exact halted k hk
  | @finished _ _ sweep same hsweep hpc hcore hsweep' emitted done =>
    refine ⟨?_, ?_, fun sweep' hs => ?_, fun sweep' hs => ?_, fun _ => hsweep', hnot done⟩
    · rw [hcore, closing]
      split
      · exact setBook_bounded h.bounded _ _
      · exact h.bounded
    · rw [hcore, closing]
      split
      · rename_i hrests
        obtain ⟨hlimit, hpos⟩ := hrests
        obtain ⟨k, hkind⟩ := h.kind sweep hsweep
        have hstop : k.round (s.core.book sweep.book) sweep.order = .stop := by
          refine (h.halted hpc sweep hsweep k hkind).resolve_left ?_
          cases takes_of_kindOf hkind with
          | marketBuy _ ht => exact absurd ht hlimit
          | buy => simpa [matchBuy] using hpos
          | marketSell _ ht => exact absurd ht hlimit
          | sell => simpa [matchSell] using hpos
        exact forall_heap_setBook h.books ((h.fair hsweep).addOrder hkind hlimit hpos hstop) _
      · exact h.books
    · rw [hsweep'] at hs
      cases hs
    · rw [hsweep'] at hs
      cases hs
  | @yielded _ _ sweep _ same hsweep hsweep' done slot =>
    have hcore : s'.core = s.core := same.core
    refine ⟨hcore ▸ h.bounded, hcore ▸ h.books, fun sweep' hs => ?_, fun sweep' hs => ?_,
      fun hv => ?_, hnot done⟩
    · cases hsweep'.symm.trans hs
      rw [hcore]
      exact h.bound sweep hsweep
    · cases hsweep'.symm.trans hs
      exact h.kind sweep hsweep
    · rw [h.slot (slot ▸ hv)] at hsweep
      cases hsweep
  | @admitted _ _ o same hpc hadm hintake hcore hsweep hadmitted done slot =>
    have hl := getOrderBook_looked h.bounded o.coinSymbol
    refine ⟨hcore ▸ hl.bounded, hcore ▸ hl.forall_heap h.books newOrderBook_fair,
      fun sweep hs => ?_, fun sweep hs => ?_, fun hv => ?_, hnot done⟩
    · cases hsweep.symm.trans hs
      rw [hcore]
      exact hl.bound
    · cases hsweep.symm.trans hs
      exact kindOf_of_admissible hadm
    · rw [slot] at hv
      cases hv
  | skipped same _ _ _ _ done slot =>
    refine h.keep same.core same.activeSweep (fun hv => ?_) (hdone done)
    rw [slot] at hv
    cases hv

/-- Whatever is sent to the engine, its books are fair between any two of its steps. -/
theorem reach_books (h : Lts.Reach (step cfg) ok (init engineID) s) : BookInv s :=
  h.invariant BookInv (init_books engineID) fun _ _ _ hr hi _ hs =>
    hi.move (move_of_step (reach_reserve hr) hs)

/-! ## The prices of resting orders -/

/-- The limit orders sent so far have a price. -/
def Priced (s : State) : Prop := ∀ o ∈ s.submitted, o.orderType ≠ .market → 0 < o.price

/-- What waits was sent, and with prices on the orders sent there are prices on those that rest. -/
structure PriceInv (s : State) : Prop where
  sent : (s.admitted ++ intake s).Sublist s.submitted
  resting : Priced s → ∀ b ∈ s.core.heap, ∀ h, ∀ m ∈ b.resting h, 0 < m.price
  sweep : Priced s → ∀ sweep, s.activeSweep = some sweep → sweep.order.orderType ≠ .market →
    0 < sweep.order.price

theorem newOrderBook_prices (h : Half) : ∀ m ∈ newOrderBook.resting h, 0 < m.price := by
  intro m hm
  cases h <;> cases hm

theorem init_prices (engineID : Nat) : PriceInv (init engineID) where
  sent := .refl _
  resting _ b hb := by
    have : b = newOrderBook := by simpa [init, Core.new] using hb
    exact this ▸ newOrderBook_prices
  sweep _ sweep hs := by cases hs

theorem Move.priced (hm : Move s l s') (h : Priced s') : Priced s := by
  intro o ho
  rcases hm.lined with ⟨hsub, -⟩ | ⟨p, -, hsub, -⟩
  · exact h o (hsub ▸ ho)
  · exact h o (hsub ▸ List.mem_append_left _ ho)

theorem Move.sent (hm : Move s l s') (h : (s.admitted ++ intake s).Sublist s.submitted) :
    (s'.admitted ++ intake s').Sublist s'.submitted := by
  rcases hm.lined with ⟨hsub, horder⟩ | ⟨o, -, hsub, horder⟩
  · exact hsub ▸ horder.trans h
  · rw [hsub, horder]
    exact h.append_right [o]

theorem PriceInv.move (h : PriceInv s) (hb : BookInv s) (hm : Move s l s') : PriceInv s' := by
  have hpriced := hm.priced
  have hsent := hm.sent h.sent
  have hlooked : ∀ {c a i}, Looked s.core c a i → s'.core = c → s'.activeSweep = s.activeSweep →
      PriceInv s' := by
    intro c a i hl hcore hsweep
    exact ⟨hsent, fun hp => hcore ▸ hl.forall_heap (h.resting (hpriced hp)) newOrderBook_prices,
      fun hp => hsweep ▸ h.sweep (hpriced hp)⟩
  have hkeep : s'.core = s.core → s'.activeSweep = s.activeSweep → PriceInv s' :=
    hlooked (getOrderBook_looked hb.bounded "")
  cases hm with
  | idle same | halted same | skipped same => exact hkeep same.core same.activeSweep
  | submit o => exact hkeep rfl rfl
  | register symbol => exact hlooked (getOrderBook_looked hb.bounded symbol) rfl rfl
  | refused same hresult hcore =>
    obtain ⟨a, i, hl⟩ := handleCancel_refused hb.bounded hb.wf hresult hcore
    exact hlooked hl rfl same.activeSweep
  | removed same hcancel hcore =>
    obtain ⟨-, d, i, hl, -, rfl⟩ :=
      (handleCancel_heap hb.bounded hb.wf hcancel).resolve_left fun h => h.1 rfl
    refine ⟨hsent, fun hp => ?_, fun hp => same.activeSweep ▸ h.sweep (hpriced hp)⟩
    have hd := hl.forall_heap (h.resting (hpriced hp)) newOrderBook_prices
    have hw := hl.forall_heap hb.wf OrderBook.newOrderBook_wf
    rw [hcore]
    refine forall_heap_setBook hd (fun half m hm => ?_) i
    exact hd _ (book_mem hl.bound) half m
      ((OrderBook.without_sublist (hw _ (book_mem hl.bound)) _ _ _ half).subset hm)
  | @traded _ _ sweep _ _ order _ _ same hsweep hkind _ hround hcore hsweep' =>
    obtain ⟨m, qty, hr⟩ := hb.round hsweep hkind hround
    have hfix : order.fixed = sweep.order.fixed := by
      rw [hr.taker]
      exact (lawful_of_kindOf hkind).fill_fixed _ _ _
    refine ⟨hsent, fun hp => ?_, fun hp sweep' hs hlimit => ?_⟩
    · rw [hcore]
      refine forall_heap_setBook (h.resting (hpriced hp)) (fun half x hx => ?_) sweep.book
      obtain ⟨x', hx', hfx⟩ := hr.consumed.exists_mem hx
      simp only [Order.fixed, Prod.mk.injEq] at hfx
      exact hfx.2.2.2.2.2 ▸ h.resting (hpriced hp) _ (book_mem (hb.bound sweep hsweep)) half x' hx'
    · cases hsweep'.symm.trans hs
      simp only [Order.fixed, Prod.mk.injEq] at hfix
      exact hfix.2.2.2.2.2 ▸ h.sweep (hpriced hp) sweep hsweep (hfix.2.2.2.2.1 ▸ hlimit)
  | @finished _ _ sweep same hsweep _ hcore hsweep' =>
    refine ⟨hsent, fun hp => ?_, fun hp sweep' hs => by rw [hsweep'] at hs; cases hs⟩
    rw [hcore, closing]
    split
    · rename_i hrest
      refine forall_heap_setBook (h.resting (hpriced hp)) (fun half x hx => ?_) sweep.book
      rcases OrderBook.mem_addOrder (hb.fair hsweep).wf hx with hx | ⟨rfl, -⟩
      · exact h.resting (hpriced hp) _ (book_mem (hb.bound sweep hsweep)) half x hx
      · exact h.sweep (hpriced hp) sweep hsweep hrest.1
    · exact h.resting (hpriced hp)
  | @yielded _ _ sweep _ same hsweep hsweep' =>
    refine ⟨hsent, fun hp => same.core ▸ h.resting (hpriced hp), fun hp sweep' hs => ?_⟩
    cases hsweep'.symm.trans hs
    exact h.sweep (hpriced hp) sweep hsweep
  | @admitted _ _ o _ _ _ hintake hcore hsweep =>
    refine ⟨hsent, fun hp => ?_, fun hp sweep hs => ?_⟩
    · rw [hcore]
      exact (getOrderBook_looked hb.bounded o.coinSymbol).forall_heap (h.resting (hpriced hp))
        newOrderBook_prices
    · cases hsweep.symm.trans hs
      exact hpriced hp o (h.sent.subset (by simp [hintake]))

theorem reach_prices (h : Lts.Reach (step cfg) ok (init engineID) s) : PriceInv s :=
  h.invariant PriceInv (init_prices engineID) fun _ _ _ hr hi _ hs =>
    hi.move (reach_books hr) (move_of_step (reach_reserve hr) hs)

/-- With prices on the orders sent, no round of the active sweep panics. -/
theorem PriceInv.round_ne_panic (h : PriceInv s) (hb : BookInv s) (hp : Priced s) {k : MatchKind}
    (hsweep : s.activeSweep = some sweep) (hkind : kindOf sweep.order = some k) :
    k.round (s.core.book sweep.book) sweep.order ≠ .panic :=
  Matching.round_ne_panic (lawful_of_kindOf hkind) (hb.fair hsweep).wf
    (h.resting hp _ (book_mem (hb.bound sweep hsweep)) _)

/-- The book `GetOrderBook` returns for a symbol. -/
def bookOf (s : State) (symbol : String) : OrderBook :=
  (s.core.getOrderBook symbol).1.book (s.core.getOrderBook symbol).2

theorem BookInv.bookOf_fair (h : BookInv s) (symbol : String) : (bookOf s symbol).Fair := by
  have hl := getOrderBook_looked h.bounded symbol
  exact hl.forall_heap h.books newOrderBook_fair _ (book_mem hl.bound)

/-- A buy and a sell that rest in one book and cross belong to the same user, in every state of
every run. -/
theorem resting_orders_uncrossed (cfg : EngineConfig) (engineID : Nat) {s : State}
    (h : Lts.Reach (step cfg) Lts.free (init engineID) s) (symbol : String) :
    ∀ x ∈ (bookOf s symbol).resting .bids, ∀ y ∈ (bookOf s symbol).resting .asks,
    y.price ≤ x.price →
      x.userID = y.userID ∧ x.userID ≠ 0 :=
  ((reach_books h).bookOf_fair symbol).uncrossed

/-- Two orders of one user that would trade, and the turns until both rest. -/
def ownOrders : List Label :=
  [.submitOrder ⟨1, 7, 1, 0, "BTC", .sell, 0, 0, .limit, 10⟩,
    .submitOrder ⟨2, 7, 1, 0, "BTC", .buy, 0, 0, .limit, 11⟩] ++
  List.replicate 17 .advance ++ [.recvOrder] ++ List.replicate 17 .advance

theorem resting_orders_uncrossed_ownOrders :
    ∃ s x y, Lts.exec (step smallestConfig) ownOrders (init 1) = some s ∧
      (bookOf s "BTC").resting .bids = [x] ∧ (bookOf s "BTC").resting .asks = [y] ∧
      y.price ≤ x.price ∧ x.userID = y.userID ∧ x.userID ≠ 0 := by
  have hrun : (Lts.exec (step smallestConfig) ownOrders (init 1)).map
      (fun s => ((bookOf s "BTC").resting .bids, (bookOf s "BTC").resting .asks)) =
      some ([⟨2, 7, 1, 0, "BTC", .buy, 0, 0, .limit, 11⟩],
        [⟨1, 7, 1, 0, "BTC", .sell, 0, 0, .limit, 10⟩]) := by
    decide +kernel
  obtain ⟨s, hs, hend⟩ := Option.map_eq_some_iff.mp hrun
  obtain ⟨hbids, hasks⟩ := Prod.mk.inj hend
  have hprice : (10 : Decimal) ≤ 11 := by decide
  exact ⟨s, _, _, hs, hbids, hasks, hprice,
    resting_orders_uncrossed smallestConfig 1 (Lts.reach_of_exec _ hs) "BTC" _
    (hbids ▸ List.mem_singleton_self _)
      _ (hasks ▸ List.mem_singleton_self _) hprice⟩

end GoExchange.Engine
