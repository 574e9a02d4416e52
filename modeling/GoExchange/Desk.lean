import GoExchange.Core
import GoExchange.Lts
import GoExchange.Rows

/-!
# The desk

An engine without books, queues and turns: the orders it has taken, the one it
sweeps, those that rest and those it is done with, and the events it has sent.
Which resting order a trade picks is left open. What the events say about the
life of an order does not depend on it.
-/
namespace GoExchange

/-- The events that speak of an order. -/
def ExecutionEvent.names (e : ExecutionEvent) (orderID : Nat) : Bool :=
  match e with
  | .trade t => t.names orderID
  | .marketOrderDone d => d.orderID == orderID
  | .orderCancelled c => c.orderID == orderID

/-- The trades of an order. -/
def tradesFor (es : List ExecutionEvent) (orderID : Nat) : List Trade :=
  (es.filterMap ExecutionEvent.trade?).filter (Trade.names · orderID)

def tradedAmount (es : List ExecutionEvent) (orderID : Nat) : Decimal :=
  ((tradesFor es orderID).map Trade.quantity).sum

def tradedQuote (es : List ExecutionEvent) (orderID : Nat) : Decimal :=
  ((tradesFor es orderID).map fun t => t.price * t.quantity).sum

def ExecutionEvent.marketOrderDone? : ExecutionEvent → Option MarketOrderDone
  | .marketOrderDone d => some d
  | _ => none

/-- The market-done events of an order. -/
def doneFor (es : List ExecutionEvent) (orderID : Nat) : List MarketOrderDone :=
  (es.filterMap ExecutionEvent.marketOrderDone?).filter fun d => d.orderID = orderID

/-- The terminal events of an order. -/
def terminalsFor (es : List ExecutionEvent) (orderID : Nat) : List ExecutionEvent :=
  es.filter fun e => e.terminalOrder? = some orderID

variable {id : Nat} {es : List ExecutionEvent}

theorem ExecutionEvent.names_of_terminalOrder? {e : ExecutionEvent}
    (h : e.terminalOrder? = some id) : e.names id = true := by
  cases e with
  | trade t => cases h
  | marketOrderDone d => simpa [terminalOrder?, names] using h
  | orderCancelled c => simpa [terminalOrder?, names] using h

theorem tradesFor_append (es fs : List ExecutionEvent) (id : Nat) :
    tradesFor (es ++ fs) id = tradesFor es id ++ tradesFor fs id := by
  simp [tradesFor]

theorem tradesFor_snoc_of_not_names {e : ExecutionEvent}
    (h : e.names id = false ∨ e.trade? = none) : tradesFor (es ++ [e]) id = tradesFor es id := by
  rw [tradesFor_append]
  cases e with
  | trade t =>
    have ht : t.names id = false := by simpa [ExecutionEvent.names, ExecutionEvent.trade?] using h
    simp [tradesFor, ExecutionEvent.trade?, ht]
  | marketOrderDone d => simp [tradesFor, ExecutionEvent.trade?]
  | orderCancelled c => simp [tradesFor, ExecutionEvent.trade?]

/-- An order that no event names has no trades. -/
theorem tradesFor_eq_nil (h : ∀ e ∈ es, e.names id = false) :
    tradesFor es id = [] := by
  refine List.filter_eq_nil_iff.mpr fun t ht => ?_
  obtain ⟨e, he, het⟩ := List.mem_filterMap.mp ht
  cases e with
  | trade t' => cases het; simpa [ExecutionEvent.names] using h _ he
  | marketOrderDone d => cases het
  | orderCancelled c => cases het

namespace Matching

/-- What an order has to give: the quote amount of a market buy, the amount of every other. -/
def Order.budget (o : Order) : Decimal :=
  if o.side = .buy ∧ o.orderType = .market then o.quoteAmount else o.amount

/-- What the trades of an order have used of its budget. -/
def Order.spent (o : Order) (es : List ExecutionEvent) : Decimal :=
  if o.side = .buy ∧ o.orderType = .market then tradedQuote es o.id else tradedAmount es o.id

/-- A resting order after it has given `qty`. -/
def Order.give (m : Order) (qty : Decimal) : Order :=
  { m with amount := m.amount - qty, filledAmount := m.filledAmount + qty }

theorem reduce_eq (qty : Decimal) (m : Order) :
    reduce qty m = if 0 < (m.give qty).amount then some (m.give qty) else none := rfl

/-- What is left of a limit order rests. -/
def Order.rests (o : Order) : Bool := decide (o.orderType ≠ .market ∧ 0 < o.amount)

structure Desk where
  engineID : Nat
  seq : Nat
  taken : List Order
  sweep : Option Order
  resting : List Order
  gone : List Order
  events : List ExecutionEvent
  deriving DecidableEq, Repr

namespace Desk

def new (engineID : Nat) : Desk := ⟨engineID, 0, [], none, [], [], []⟩

/-- Every order with a place at the desk. -/
def all (d : Desk) : List Order := d.sweep.toList ++ d.resting ++ d.gone

inductive Act where
  | take (o : Order)
  | trade (makerID : Nat)
  | cancel (cmd : CancelOrderCommand)
  | finish
  deriving DecidableEq, Repr

def taking (d : Desk) (o : Order) : Desk :=
  { d with taken := d.taken ++ [o], sweep := if orderIsAdmissible o then some o else none }

def trading (d : Desk) (k : MatchKind) (o m : Order) (qty : Decimal) : Desk :=
  let taker := k.fill o m.price qty
  { d with
    seq := d.seq + 1
    sweep := some taker
    resting := d.resting.filterMap fun r => if r.id = m.id then reduce qty r else some r
    gone := if 0 < (m.give qty).amount then d.gone else d.gone ++ [m.give qty]
    events := d.events ++ [.trade (newTrade ⟨d.engineID, d.seq + 1⟩ taker ⟨m.id, m.price, qty⟩)] }

def cancelling (d : Desk) (cmd : CancelOrderCommand) (m : Order) : Desk :=
  { d with
    seq := d.seq + 1
    resting := d.resting.filter fun r => r.id ≠ m.id
    gone := d.gone ++ [m]
    events := d.events ++
      [.orderCancelled ⟨cmd.commandID, cmd.orderID, cmd.coinSymbol, cmd.side,
        ⟨d.engineID, d.seq + 1⟩⟩] }

def finishing (d : Desk) (o : Order) : Desk :=
  { d with
    sweep := none
    resting := if o.rests then d.resting ++ [o] else d.resting
    gone := if o.rests then d.gone else d.gone ++ [o]
    events := d.events ++ finishEvents o }

/-- The quantity a taker and a resting order trade, if they can. -/
def quantity? (k : MatchKind) (o m : Order) : Option Decimal :=
  if k.active o ∧ halfOf m.side = k.half ∧ k.candidate o m then
    (k.quantity o m.price m).filter (0 < ·)
  else none

def step : Act → Desk → Option Desk
  | .take o, d => if d.sweep = none ∧ o.id ∉ d.taken.map Order.id then some (d.taking o) else none
  | .trade makerID, d => do
    let o ← d.sweep
    let m ← d.resting.find? (Order.id · = makerID)
    let k ← kindOf o
    let qty ← quantity? k o m
    return d.trading k o m qty
  | .cancel cmd, d => (d.resting.find? (Order.id · = cmd.orderID)).map (d.cancelling cmd)
  | .finish, d => d.sweep.map d.finishing

/-! ## One trade -/

/-- What a trade of `qty` does to the taker and asks of the maker. -/
structure Exchange (k : MatchKind) (o m : Order) (qty : Decimal) : Prop where
  positive : 0 < qty
  le_maker : qty ≤ m.amount
  fixed : (k.fill o m.price qty).fixed = o.fixed
  budget : (k.fill o m.price qty).budget =
    o.budget - if o.side = .buy ∧ o.orderType = .market then m.price * qty else qty
  nonneg : 0 ≤ (k.fill o m.price qty).budget
  filledAmount : (k.fill o m.price qty).filledAmount = o.filledAmount + qty
  filledQuote : o.orderType = .market →
    (k.fill o m.price qty).filledQuoteAmount = o.filledQuoteAmount + m.price * qty

/-- What a market buy pays stays within its quote amount. -/
theorem price_mul_le {quote price qty : Decimal} {maxQty : Decimal} (hquote : 0 < quote)
    (hmax : Decimal.quoRem quote price = some maxQty) (hpos : 0 < qty) (hle : qty ≤ maxQty) :
    price * qty ≤ quote := by
  simp only [Decimal.quoRem, Option.ite_none_left_eq_some, Option.some.injEq] at hmax
  obtain ⟨hne, rfl⟩ := hmax
  rcases lt_or_gt_of_ne hne with hneg | hprice
  · have hdiv : quote / price ≤ 0 := div_nonpos_of_nonneg_of_nonpos hquote.le hneg.le
    have := Rounding.truncate_nonpos (d := divisionPrecision) hdiv
    linarith
  · have htrunc := Rounding.truncate_le (d := divisionPrecision) (div_nonneg hquote.le hprice.le)
    have hqty := hle.trans htrunc
    rwa [le_div_iff₀ hprice, mul_comm] at hqty

theorem exchange_of_quantity? {k : MatchKind} {o m : Order} {qty : Decimal}
    (hkind : kindOf o = some k) (h : quantity? k o m = some qty) : Exchange k o m qty := by
  simp only [quantity?, Option.ite_none_right_eq_some, Option.filter_eq_some_iff, decide_eq_true_eq]
    at h
  obtain ⟨⟨hact, -, -⟩, hqty, hpos⟩ := h
  have hmin : minAmount o m.price m = some qty → qty ≤ o.amount ∧ qty ≤ m.amount := by
    rintro ⟨⟩
    exact ⟨min_le_left _ _, min_le_right _ _⟩
  cases takes_of_kindOf hkind with
  | marketBuy hs ht =>
    obtain ⟨maxQty, hmax, rfl⟩ := Option.map_eq_some_iff.mp hqty
    have hle := price_mul_le (by simpa [matchMarketBuy] using hact) hmax hpos (min_le_left _ _)
    exact ⟨hpos, min_le_right _ _, rfl, by simp [matchMarketBuy, Order.budget, hs, ht],
      by simpa [matchMarketBuy, Order.budget, hs, ht] using hle, rfl, fun _ => rfl⟩
  | buy hs ht =>
    obtain ⟨hle, hle'⟩ := hmin hqty
    exact ⟨hpos, hle',
      rfl, by simp [matchBuy, Order.budget, ht], by simpa [matchBuy, Order.budget, ht] using hle,
      rfl, fun h => absurd h ht⟩
  | marketSell hs ht =>
    obtain ⟨hle, hle'⟩ := hmin hqty
    exact ⟨hpos, hle', rfl, by simp [matchMarketSell, Order.budget, hs],
      by simpa [matchMarketSell, Order.budget, hs] using hle, rfl, fun _ => rfl⟩
  | sell hs ht =>
    obtain ⟨hle, hle'⟩ := hmin hqty
    exact ⟨hpos, hle',
      rfl, by simp [matchSell, Order.budget, hs], by simpa [matchSell, Order.budget, hs] using hle,
      rfl, fun h => absurd h ht⟩

theorem names_newTrade (eventID : EventID) (o : Order) (f : Fill) (id : Nat) :
    (newTrade eventID o f).names id = true ↔ id = o.id ∨ id = f.makerID := by
  simp only [Trade.names, newTrade, Bool.or_eq_true, beq_iff_eq]
  split
  · exact or_congr eq_comm eq_comm
  · exact or_comm.trans (or_congr eq_comm eq_comm)

/-! ## Accounts -/

/-- What is left of an order and what its trades have used make up what was admitted. -/
structure Account (es : List ExecutionEvent) (o p : Order) : Prop where
  budget : p.budget + o.spent es = o.budget
  filledAmount : p.filledAmount = o.filledAmount + tradedAmount es o.id
  filledQuote : o.orderType = .market →
    p.filledQuoteAmount = o.filledQuoteAmount + tradedQuote es o.id
  nonneg : 0 ≤ o.budget → 0 ≤ p.budget

variable {es es' : List ExecutionEvent} {k : MatchKind} {o p m : Order} {qty : Decimal}
  {d d' : Desk}

theorem Account.of_tradesFor (h : Account es o p) (ht : tradesFor es' o.id = tradesFor es o.id) :
    Account es' o p := by
  have ha : tradedAmount es' o.id = tradedAmount es o.id := by rw [tradedAmount, ht, tradedAmount]
  have hq : tradedQuote es' o.id = tradedQuote es o.id := by rw [tradedQuote, ht, tradedQuote]
  refine ⟨?_, ?_, ?_, h.nonneg⟩
  · rw [Order.spent, ha, hq]
    exact h.budget
  · rw [ha]
    exact h.filledAmount
  · rw [hq]
    exact h.filledQuote

theorem account_of_untraded (h : tradesFor es o.id = []) : Account es o o := by
  have ha : tradedAmount es o.id = 0 := by simp [tradedAmount, h]
  have hq : tradedQuote es o.id = 0 := by simp [tradedQuote, h]
  exact ⟨by simp [Order.spent, ha, hq], by simp [ha], by simp [hq], id⟩

/-- One more trade of the order. -/
theorem traded_snoc (es : List ExecutionEvent) {t : Trade} (h : t.names id = true) :
    tradedAmount (es ++ [.trade t]) id = tradedAmount es id + t.quantity ∧
      tradedQuote (es ++ [.trade t]) id = tradedQuote es id + t.price * t.quantity := by
  have : tradesFor (es ++ [.trade t]) id = tradesFor es id ++ [t] := by
    rw [tradesFor_append]
    simp [tradesFor, ExecutionEvent.trade?, h]
  simp [tradedAmount, tradedQuote, this]

theorem fixed_iff {o p : Order} : p.fixed = o.fixed ↔ p.id = o.id ∧ p.userID = o.userID ∧
    p.coinSymbol = o.coinSymbol ∧ p.side = o.side ∧ p.orderType = o.orderType ∧
    p.price = o.price := by
  simp [Order.fixed]

/-- The taker's account after a trade. -/
theorem Account.fill (h : Account es o p) (hfix : p.fixed = o.fixed)
    (hx : Exchange k p m qty) {t : Trade}
    (hnames : t.names o.id = true) (hprice : t.price = m.price) (hqty : t.quantity = qty) :
    Account (es ++ [.trade t]) o (k.fill p m.price qty) := by
  obtain ⟨-, -, -, hside, htype, -⟩ := fixed_iff.mp hfix
  obtain ⟨hamount, hquote⟩ := traded_snoc es hnames
  rw [hprice, hqty] at hquote
  rw [hqty] at hamount
  have hbudget := hx.budget
  have := h.budget
  rw [hside, htype] at hbudget
  refine ⟨?_, ?_, fun hm => ?_, fun _ => hx.nonneg⟩
  · rw [hbudget, Order.spent, hamount, hquote]
    rw [Order.spent] at this
    split at this <;> rename_i hmb
    · rw [if_pos hmb, if_pos hmb]
      linarith
    · rw [if_neg hmb, if_neg hmb]
      linarith
  · rw [hx.filledAmount, hamount, h.filledAmount, add_assoc]
  · rw [hx.filledQuote (htype.trans hm), hquote, h.filledQuote hm, add_assoc]

theorem budget_of_limit (h : o.orderType ≠ .market) : o.budget = o.amount := if_neg fun hm => h hm.2

/-- The maker's account after a trade. -/
theorem Account.give (h : Account es o p) (hfix : p.fixed = o.fixed)
    (hlimit : p.orderType ≠ .market)
    (hle : qty ≤ p.amount) {t : Trade} (hnames : t.names o.id = true) (hqty : t.quantity = qty) :
    Account (es ++ [.trade t]) o (p.give qty) := by
  obtain ⟨-, -, -, hside, htype, -⟩ := fixed_iff.mp hfix
  have hlim : o.orderType ≠ .market := htype ▸ hlimit
  have hno : ¬ (o.side = .buy ∧ o.orderType = .market) := fun hm => hlim hm.2
  obtain ⟨hamount, -⟩ := traded_snoc es hnames
  rw [hqty] at hamount
  have hbudget : (p.give qty).budget = p.amount - qty := budget_of_limit (o := p.give qty) hlimit
  refine ⟨?_, ?_, fun hm => absurd hm hlim, fun _ => ?_⟩
  · have := h.budget
    rw [budget_of_limit hlimit, Order.spent, if_neg hno] at this
    rw [hbudget, Order.spent, if_neg hno, hamount]
    linarith
  · rw [hamount, ← add_assoc, ← h.filledAmount]
    rfl
  · rw [hbudget]
    linarith

/-! ## The invariant -/

/-- Why an order has left: its market order is done, nothing is left of it, or it was cancelled. -/
def Ended (es : List ExecutionEvent) (p : Order) : Prop :=
  if p.orderType = .market then .marketOrderDone (marketOrderDone p) ∈ es
  else p.amount = 0 ∨ 0 < p.amount ∧ ∃ c, c.orderID = p.id ∧ .orderCancelled c ∈ es

theorem Ended.mono (h : Ended es p) (hsub : es ⊆ es') : Ended es' p := by
  unfold Ended at h ⊢
  split at h <;> rename_i hm
  · rw [if_pos hm]
    exact hsub h
  · rw [if_neg hm]
    exact h.imp_right fun ⟨hpos, c, hc, he⟩ => ⟨hpos, c, hc, hsub he⟩

structure Inv (d : Desk) : Prop where
  ids : (d.taken.map Order.id).Nodup
  -- every admissible order has exactly one place
  cast : (d.all.map Order.fixed).Perm ((d.taken.filter orderIsAdmissible).map Order.fixed)
  accounts : ∀ o ∈ d.taken, ∀ p ∈ d.all, p.id = o.id → Account d.events o p
  rest : ∀ m ∈ d.resting, m.orderType ≠ .market ∧ 0 < m.amount
  named : ∀ e ∈ d.events, ∀ id, e.names id = true → id ∈ d.all.map Order.id
  closed : ∀ e ∈ d.events, ∀ id, e.terminalOrder? = some id → id ∈ d.gone.map Order.id
  final : d.events.Pairwise fun e e' => ∀ id, e.terminalOrder? = some id → e'.names id = false
  ended : ∀ p ∈ d.gone, Ended d.events p
  positive : ∀ t, .trade t ∈ d.events → 0 < t.quantity

theorem inv_new (engineID : Nat) : Inv (new engineID) where
  ids := .nil
  cast := .refl _
  accounts := by simp [new]
  rest := by simp [new]
  named := by simp [new]
  closed := by simp [new]
  final := .nil
  ended := by simp [new]
  positive := by simp [new]

theorem Inv.all_perm (h : Inv d) :
    (d.all.map Order.id).Perm ((d.taken.filter orderIsAdmissible).map Order.id) := by
  have := h.cast.map Prod.fst
  rwa [List.map_map, List.map_map] at this

theorem Inv.all_ids (h : Inv d) : (d.all.map Order.id).Nodup :=
  h.all_perm.nodup_iff.mpr (h.ids.sublist (List.filter_sublist.map _))

theorem Inv.id_taken (h : Inv d) (hid : id ∈ d.all.map Order.id) : id ∈ d.taken.map Order.id :=
  (List.filter_sublist.map Order.id).subset (h.all_perm.mem_iff.mp hid)

/-- The order as it was taken. -/
theorem Inv.fixed (h : Inv d) (hp : p ∈ d.all) (ho : o ∈ d.taken) (hid : p.id = o.id) :
    p.fixed = o.fixed := by
  obtain ⟨o', ho', hfix⟩ := List.mem_map.mp (h.cast.mem_iff.mp (List.mem_map_of_mem hp))
  have : o' = o := List.inj_on_of_nodup_map h.ids (List.mem_of_mem_filter ho') ho
    ((fixed_iff.mp hfix).1.trans hid)
  rw [← hfix, this]

theorem Inv.resting_ids (h : Inv d) : (d.resting.map Order.id).Nodup :=
  h.all_ids.sublist
    (((List.sublist_append_right _ _).trans
      (List.sublist_append_left (d.sweep.toList ++ d.resting) d.gone)).map _)

theorem mem_all : p ∈ d.all ↔ d.sweep = some p ∨ p ∈ d.resting ∨ p ∈ d.gone := by
  simp [all]

/-- A live order has not left. -/
theorem Inv.not_gone (h : Inv d) (hp : d.sweep = some p ∨ p ∈ d.resting) :
    p.id ∉ d.gone.map Order.id := by
  have hlive : p.id ∈ (d.sweep.toList ++ d.resting).map Order.id :=
    List.mem_map_of_mem (List.mem_append.mpr (hp.imp_left Option.mem_toList.mpr))
  have := h.all_ids
  rw [all, List.map_append, List.nodup_append'] at this
  exact fun hg => this.2.2 hlive hg

theorem Inv.taking (h : Inv d) (hs : d.sweep = none) (hid : o.id ∉ d.taken.map Order.id) :
    Inv (d.taking o) := by
  have hall : (d.taking o).all = (if orderIsAdmissible o then [o] else []) ++ d.all := by
    cases ha : orderIsAdmissible o <;> simp [all, Desk.taking, hs, ha]
  have hsub : ∀ id ∈ d.all.map Order.id, id ∈ (d.taking o).all.map Order.id := by
    intro id hin
    rw [hall, List.map_append]
    exact List.mem_append_right _ hin
  have hfresh : ∀ e ∈ d.events, e.names o.id = false := by
    intro e he
    by_contra hn
    exact hid (h.id_taken (h.named e he o.id (by simpa using hn)))
  refine ⟨?_, ?_, ?_, h.rest, fun e he id hn => hsub id (h.named e he id hn), h.closed, h.final,
    h.ended, h.positive⟩
  · exact Rows.nodup_concat h.ids hid
  · rw [hall]
    simp only [Desk.taking, List.filter_append, List.map_append, List.filter_cons, List.filter_nil]
    exact List.perm_append_comm.trans (h.cast.append_right _)
  · intro o' ho' p hp hpo
    rw [hall] at hp
    rcases List.mem_append.mp ho' with ho' | ho'
    · rcases List.mem_append.mp hp with hp | hp
      · have : p = o := by
          split at hp
          · exact List.mem_singleton.mp hp
          · cases hp
        exact absurd (List.mem_map_of_mem ho') (hpo ▸ this ▸ hid)
      · exact h.accounts o' ho' p hp hpo
    · have ho : o' = o := List.mem_singleton.mp ho'
      subst ho
      rcases List.mem_append.mp hp with hp | hp
      · have : p = o' := by
          split at hp
          · exact List.mem_singleton.mp hp
          · cases hp
        rw [this]
        exact account_of_untraded (tradesFor_eq_nil hfresh)
      · exact absurd (h.id_taken (List.mem_map_of_mem hp)) (hpo ▸ hid)

/-- The places before and after a trade. -/
theorem trading_perm (h : Inv d) (hs : d.sweep = some o) (hm : m ∈ d.resting) (k : MatchKind)
    (qty : Decimal) : ∃ rest, d.all.Perm (o :: m :: rest) ∧
      (d.trading k o m qty).all.Perm (k.fill o m.price qty :: m.give qty :: rest) := by
  have hperm := Rows.perm_cons_filter h.resting_ids hm
  have hperm' := Rows.filterMap_perm h.resting_ids hm (reduce qty)
  refine ⟨d.resting.filter (fun r => r.id ≠ m.id) ++ d.gone, ?_, ?_⟩
  · rw [all, hs, Option.toList_some, List.append_assoc]
    exact (hperm.append_right d.gone).cons o
  · rw [all, List.append_assoc]
    refine List.Perm.cons _ ?_
    refine (hperm'.append_right _).trans ?_
    rw [reduce_eq]
    by_cases hpos : 0 < (m.give qty).amount
    · simp [Desk.trading, hpos]
    · simp only [Desk.trading, hpos, if_false, Option.toList_none, List.nil_append]
      rw [← List.append_assoc]
      exact List.perm_append_comm

theorem Inv.trading (h : Inv d) (hs : d.sweep = some o) (hm : m ∈ d.resting)
    (hx : Exchange k o m qty) : Inv (d.trading k o m qty) := by
  obtain ⟨rest, hall, hall'⟩ := trading_perm h hs hm k qty
  have hids := h.all_ids
  rw [(hall.map Order.id).nodup_iff] at hids
  simp only [List.map_cons, List.nodup_cons, List.mem_cons, not_or] at hids
  obtain ⟨⟨hom, hor⟩, hmr, -⟩ := hids
  have hlimit := (h.rest m hm).1
  have hmem : ∀ q, q ∈ d.all ↔ q = o ∨ q = m ∨ q ∈ rest := fun q => by simp [hall.mem_iff]
  have hmem' : ∀ q, q ∈ (d.trading k o m qty).all ↔ q = k.fill o m.price qty ∨
      q = m.give qty ∨ q ∈ rest :=
    fun q => by simp [hall'.mem_iff]
  have hfid : (k.fill o m.price qty).id = o.id := (fixed_iff.mp hx.fixed).1
  have hsame : ((d.trading k o m qty).all.map Order.fixed).Perm (d.all.map Order.fixed) := by
    refine (hall'.map _).trans (List.Perm.trans ?_ (hall.map _).symm)
    simp only [List.map_cons, hx.fixed]
    rfl
  have hsameid : ((d.trading k o m qty).all.map Order.id).Perm (d.all.map Order.id) := by
    have := hsame.map Prod.fst
    rwa [List.map_map, List.map_map] at this
  have hgone : ∀ q ∈ (d.trading k o m qty).gone, q ∈ d.gone ∨ q = m.give qty ∧
      ¬ 0 < (m.give qty).amount := by
    intro q hq
    simp only [Desk.trading] at hq
    split at hq
    · exact .inl hq
    · rename_i hpos
      exact (List.mem_append.mp hq).imp_right fun hq => ⟨List.mem_singleton.mp hq, hpos⟩
  have hgone' : d.gone ⊆ (d.trading k o m qty).gone := by
    simp only [Desk.trading]
    split
    · exact List.Subset.refl _
    · exact List.subset_append_left _ _
  -- the one new event
  obtain ⟨t, ht⟩ : ∃ t, t = newTrade ⟨d.engineID, d.seq + 1⟩ (k.fill o m.price qty) ⟨m.id, m.price,
      qty⟩ := ⟨_, rfl⟩
  have hevents : (d.trading k o m qty).events = d.events ++ [.trade t] := by rw [ht]; rfl
  have hnames : ∀ id, t.names id = true ↔ id = o.id ∨ id = m.id := fun id => by
    rw [ht, names_newTrade, hfid]
  have hprice : t.price = m.price := by rw [ht]; rfl
  have hqty : t.quantity = qty := by rw [ht]; rfl
  refine ⟨h.ids, hsame.trans h.cast, ?_, ?_, ?_, ?_, ?_, ?_, ?_⟩
  · intro o' ho' q hq hid
    rw [hevents]
    rcases (hmem' q).mp hq with rfl | rfl | hq
    · have ho : o.id = o'.id := hfid ▸ hid
      have hin := (hmem o).mpr (.inl rfl)
      exact (h.accounts o' ho' o hin ho).fill (h.fixed hin ho' ho) hx
        ((hnames _).mpr (.inl ho.symm)) hprice hqty
    · have ho : m.id = o'.id := hid
      have hin := (hmem m).mpr (.inr (.inl rfl))
      exact (h.accounts o' ho' m hin ho).give (h.fixed hin ho' ho) hlimit hx.le_maker
        ((hnames _).mpr (.inr ho.symm)) hqty
    · refine (h.accounts o' ho' q ((hmem q).mpr (.inr (.inr hq))) hid).of_tradesFor
        (tradesFor_snoc_of_not_names (.inl ?_))
      rw [Bool.eq_false_iff]
      intro hn
      rcases (hnames _).mp hn with he | he
      · exact hor (he ▸ hid ▸ List.mem_map_of_mem hq)
      · exact hmr (he ▸ hid ▸ List.mem_map_of_mem hq)
  · intro r hr
    obtain ⟨x, hx', hred⟩ := List.mem_filterMap.mp hr
    split at hred
    · rename_i hid
      rw [reduce_eq, Option.ite_none_right_eq_some, Option.some.injEq] at hred
      obtain ⟨hpos, rfl⟩ := hred
      exact ⟨(h.rest x hx').1, hpos⟩
    · cases hred
      exact h.rest _ hx'
  · intro e he id hn
    rw [hsameid.mem_iff]
    rw [hevents] at he
    rcases List.mem_append.mp he with he | he
    · exact h.named e he id hn
    · rw [List.mem_singleton.mp he] at hn
      rcases (hnames id).mp hn with rfl | rfl
      · exact List.mem_map_of_mem ((hmem o).mpr (.inl rfl))
      · exact List.mem_map_of_mem ((hmem m).mpr (.inr (.inl rfl)))
  · intro e he id hc
    rw [hevents] at he
    rcases List.mem_append.mp he with he | he
    · exact List.map_subset _ hgone' (h.closed e he id hc)
    · rw [List.mem_singleton.mp he] at hc
      cases hc
  · rw [hevents, List.pairwise_append]
    refine ⟨h.final, List.pairwise_singleton _ _, fun e he e' he' id hc => ?_⟩
    rw [List.mem_singleton.mp he', Bool.eq_false_iff]
    intro hn
    have hgid := h.closed e he id hc
    rcases (hnames id).mp hn with rfl | rfl
    · exact h.not_gone (.inl hs) hgid
    · exact h.not_gone (.inr hm) hgid
  · intro q hq
    rw [hevents]
    rcases hgone q hq with hq | ⟨rfl, hpos⟩
    · exact (h.ended q hq).mono (List.subset_append_left _ _)
    · have hle := hx.le_maker
      have hzero : (m.give qty).amount = 0 := by
        simp only [Order.give, sub_pos, not_lt] at hpos ⊢
        linarith
      rw [Ended, if_neg (by exact hlimit)]
      exact .inl hzero
  · intro t' ht'
    rw [hevents] at ht'
    rcases List.mem_append.mp ht' with ht' | ht'
    · exact h.positive t' ht'
    · cases List.mem_singleton.mp ht'
      rw [hqty]
      exact hx.positive

/-- A live order leaves, or comes to rest, with at most one event, which ends it. -/
theorem Inv.leave (h : Inv d) (hall : d'.all.Perm d.all) (htaken : d'.taken = d.taken)
    (hp : d.sweep = some p ∨ p ∈ d.resting) (e : Option ExecutionEvent)
    (hevents : d'.events = d.events ++ e.toList)
    (he : ∀ x ∈ e, x.trade? = none ∧ (∀ id, x.names id = true → id = p.id) ∧
      p.id ∈ d'.gone.map Order.id)
    (hrest : ∀ m ∈ d'.resting, m.orderType ≠ .market ∧ 0 < m.amount) (hgone : d.gone ⊆ d'.gone)
    (hended : ∀ q ∈ d'.gone, q ∈ d.gone ∨ Ended d'.events q) : Inv d' := by
  have hpall : p ∈ d.all := mem_all.mpr (or_assoc.mp (.inl hp))
  have htrades : ∀ id, tradesFor d'.events id = tradesFor d.events id := by
    intro id
    rw [hevents]
    cases e with
    | none => rw [Option.toList_none, List.append_nil]
    | some x => exact tradesFor_snoc_of_not_names (.inr (he x rfl).1)
  have hmem : ∀ x ∈ d'.events, x ∈ d.events ∨ e = some x := fun x hx => by
    rw [hevents] at hx
    exact (List.mem_append.mp hx).imp_right Option.mem_toList.mp
  refine ⟨htaken ▸ h.ids, htaken ▸ (hall.map _).trans h.cast, ?_, hrest, ?_, ?_, ?_, ?_, ?_⟩
  · intro o ho q hq hid
    exact (h.accounts o (htaken ▸ ho) q (hall.mem_iff.mp hq) hid).of_tradesFor (htrades _)
  · intro x hx id hn
    rw [(hall.map _).mem_iff]
    rcases hmem x hx with hx | hx
    · exact h.named x hx id hn
    · rw [(he x hx).2.1 id hn]
      exact List.mem_map_of_mem hpall
  · intro x hx id hc
    rcases hmem x hx with hx | hx
    · exact List.map_subset _ hgone (h.closed x hx id hc)
    · rw [(he x hx).2.1 id (ExecutionEvent.names_of_terminalOrder? hc)]
      exact (he x hx).2.2
  · rw [hevents, List.pairwise_append]
    refine ⟨h.final, by cases e <;> simp, fun x hx y hy id hc => ?_⟩
    rw [Bool.eq_false_iff]
    intro hn
    have hid := (he y (Option.mem_toList.mp hy)).2.1 id hn
    exact h.not_gone hp (hid ▸ h.closed x hx id hc)
  · intro q hq
    rcases hended q hq with hq | hq
    · exact (h.ended q hq).mono (by rw [hevents]; exact List.subset_append_left _ _)
    · exact hq
  · intro t ht
    rcases hmem _ ht with ht | ht
    · exact h.positive t ht
    · have := (he _ ht).1
      cases this

theorem Inv.cancelling (h : Inv d) (hm : m ∈ d.resting) {cmd : CancelOrderCommand}
    (hid : m.id = cmd.orderID) : Inv (d.cancelling cmd m) := by
  have hperm := Rows.perm_cons_filter h.resting_ids hm
  have hall : (d.cancelling cmd m).all.Perm d.all := by
    rw [all, all]
    simp only [Desk.cancelling, List.append_assoc]
    refine List.Perm.append_left _ ?_
    rw [← List.append_assoc]
    refine List.perm_append_comm.trans ?_
    rw [List.singleton_append, ← List.cons_append]
    exact (hperm.append_right d.gone).symm
  have hpos := h.rest m hm
  refine h.leave hall rfl (.inr hm)
    (some (.orderCancelled ⟨cmd.commandID, cmd.orderID, cmd.coinSymbol, cmd.side,
      ⟨d.engineID, d.seq + 1⟩⟩)) rfl
    ?_ ?_ (List.subset_append_left _ _) ?_
  · rintro x ⟨⟩
    refine ⟨rfl, fun id hn => ?_,
      List.mem_map_of_mem (List.mem_append_right _ (List.mem_singleton_self m))⟩
    have : cmd.orderID = id := by simpa [ExecutionEvent.names] using hn
    exact this.symm.trans hid.symm
  · intro r hr
    exact h.rest r (List.mem_of_mem_filter hr)
  · intro q hq
    refine (List.mem_append.mp hq).imp_right fun hq => ?_
    rw [List.mem_singleton.mp hq, Ended, if_neg hpos.1]
    exact .inr ⟨hpos.2, _, hid.symm, List.mem_append_right _ (List.mem_singleton_self _)⟩

theorem Inv.finishing (h : Inv d) (hs : d.sweep = some o) : Inv (d.finishing o) := by
  have hoall : o ∈ d.all := mem_all.mpr (.inl hs)
  -- a limit order is admitted with something to trade
  have hnonneg : o.orderType ≠ .market → 0 ≤ o.amount := by
    intro hlimit
    obtain ⟨o', ho', hfix⟩ := List.mem_map.mp (h.cast.mem_iff.mp (List.mem_map_of_mem hoall))
    obtain ⟨hid, -, -, -, htype, -⟩ := fixed_iff.mp hfix
    obtain ⟨ho', hadm⟩ := List.mem_filter.mp ho'
    have hacc := (h.accounts o' ho' o hoall hid.symm).nonneg
    rw [budget_of_limit hlimit, budget_of_limit (htype ▸ hlimit)] at hacc
    refine hacc (le_of_lt ?_)
    cases hside : o'.side with
    | buy => simpa [orderIsAdmissible, hside, htype ▸ hlimit] using hadm
    | sell => simpa [orderIsAdmissible, hside] using hadm
    | unknown => simp [orderIsAdmissible, hside] at hadm
  have hall : (d.finishing o).all.Perm d.all := by
    rw [all, all, hs]
    cases hrests : o.rests with
    | true => simp [Desk.finishing, hrests]
    | false =>
      simp only [Desk.finishing, hrests, Bool.false_eq_true, if_false, Option.toList_none,
        List.nil_append, Option.toList_some, List.cons_append]
      rw [← List.append_assoc]
      exact List.perm_append_singleton _ _
  have hgone : d.gone ⊆ (d.finishing o).gone := by
    simp only [Desk.finishing]
    split
    · exact List.Subset.refl _
    · exact List.subset_append_left _ _
  refine h.leave hall rfl (.inl hs)
    (if o.orderType = .market then some (.marketOrderDone (marketOrderDone o)) else none) ?_
    ?_ ?_ hgone ?_
  · simp only [Desk.finishing, finishEvents]
    split <;> rfl
  · intro x hx
    simp only [Option.mem_def, Option.ite_none_right_eq_some, Option.some.injEq] at hx
    obtain ⟨hmarket, rfl⟩ := hx
    refine ⟨rfl, fun id hn => ?_, ?_⟩
    · have : o.id = id := by simpa [ExecutionEvent.names, marketOrderDone] using hn
      exact this.symm
    · exact List.mem_map_of_mem (by simp [Desk.finishing, Order.rests, hmarket])
  · intro r hr
    simp only [Desk.finishing] at hr
    split at hr
    · rename_i hrests
      rcases List.mem_append.mp hr with hr | hr
      · exact h.rest r hr
      · rw [List.mem_singleton.mp hr]
        simpa [Order.rests] using hrests
    · exact h.rest r hr
  · intro q hq
    simp only [Desk.finishing] at hq ⊢
    split at hq
    · exact .inl hq
    · rename_i hrests
      refine (List.mem_append.mp hq).imp_right fun hq => ?_
      rw [List.mem_singleton.mp hq, Ended]
      split <;> rename_i hmarket
      · exact List.mem_append_right _ (by simp [finishEvents, hmarket])
      · have hle : o.amount ≤ 0 := by simpa [Order.rests, hmarket] using hrests
        exact .inl (le_antisymm hle (hnonneg hmarket))

theorem Inv.step (h : Inv d) {a : Act} (hs : step a d = some d') : Inv d' := by
  cases a with
  | take o =>
    obtain ⟨⟨hsweep, hid⟩, rfl⟩ := Lts.of_enabled hs
    exact h.taking hsweep hid
  | trade makerID =>
    simp only [Desk.step, Option.bind_eq_bind, Option.bind_eq_some_iff, Option.pure_def,
      Option.some.injEq] at hs
    obtain ⟨o, hsweep, m, hm, k, hkind, qty, hqty, rfl⟩ := hs
    exact h.trading hsweep (Rows.of_find? hm).1 (exchange_of_quantity? hkind hqty)
  | cancel cmd =>
    obtain ⟨m, hm, rfl⟩ := Option.map_eq_some_iff.mp hs
    obtain ⟨hm, hid⟩ := Rows.of_find? hm
    exact h.cancelling hm hid
  | finish =>
    obtain ⟨o, hsweep, rfl⟩ := Option.map_eq_some_iff.mp hs
    exact h.finishing hsweep

/-- An order ends once. -/
theorem Inv.terminalsFor_le_one (h : Inv d) (id : Nat) : (terminalsFor d.events id).length ≤ 1 := by
  have hpair := h.final.sublist (List.filter_sublist (p := fun e => e.terminalOrder? = some id))
  rw [← terminalsFor] at hpair
  have hends : ∀ e ∈ terminalsFor d.events id, e.terminalOrder? = some id := fun e he => by
    simpa [terminalsFor] using (List.mem_filter.mp he).2
  match hl : terminalsFor d.events id with
  | [] => exact Nat.zero_le _
  | [_] => exact Nat.le_refl _
  | e :: e' :: rest =>
    rw [hl] at hpair hends
    have hno := List.rel_of_pairwise_cons hpair List.mem_cons_self id (hends e List.mem_cons_self)
    have hyes := ExecutionEvent.names_of_terminalOrder?
      (hends e' (List.mem_cons_of_mem _ List.mem_cons_self))
    rw [hno] at hyes
    cases hyes

theorem doneFor_eq (es : List ExecutionEvent) (id : Nat) :
    doneFor es id = (terminalsFor es id).filterMap ExecutionEvent.marketOrderDone? := by
  rw [doneFor, terminalsFor, List.filter_filterMap, List.filterMap_filter]
  congr 1
  funext e
  cases e with
  | trade t => rfl
  | marketOrderDone r =>
    by_cases hr : r.orderID = id <;>
      simp [ExecutionEvent.marketOrderDone?, ExecutionEvent.terminalOrder?, hr]
  | orderCancelled c => simp [ExecutionEvent.marketOrderDone?]

/-- A market order the desk is done with has exactly one result. -/
theorem Inv.doneFor_gone (h : Inv d) (hp : p ∈ d.gone) (hmarket : p.orderType = .market) :
    doneFor d.events p.id = [marketOrderDone p] := by
  have hended := h.ended p hp
  rw [Ended, if_pos hmarket] at hended
  have hmem : marketOrderDone p ∈ doneFor d.events p.id :=
    List.mem_filter.mpr ⟨List.mem_filterMap.mpr ⟨_, hended, rfl⟩, by simp [marketOrderDone]⟩
  have hlen : (doneFor d.events p.id).length ≤ 1 := by
    rw [doneFor_eq]
    exact (List.length_filterMap_le _ _).trans (h.terminalsFor_le_one p.id)
  match hl : doneFor d.events p.id with
  | [] => rw [hl] at hmem; cases hmem
  | [r] => rw [hl] at hmem; rw [List.mem_singleton.mp hmem]
  | r :: r' :: rest => simp [hl] at hlen

/-- Every desk reached keeps the accounts of its orders and ends each of them once. -/
theorem reach_inv {engineID : Nat} (h : Lts.Reach step Lts.free (new engineID) d) : Inv d :=
  h.invariant Inv (inv_new engineID) fun _ _ _ _ hi _ hs => hi.step hs

end Desk

end Matching

end GoExchange
