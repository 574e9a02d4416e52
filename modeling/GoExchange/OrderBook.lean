import GoExchange.Buckets
import GoExchange.Decimal

/-!
# The order book

`orderbook.go`: each half of the book is a B-tree of price levels, a level a
queue of orders. A half is kept here as the list of its levels, best price
first: the matching loops ascend the asks and descend the bids.
-/
namespace GoExchange.Matching

open Buckets

/-- `matching.Order`, without its timestamps. -/
structure Order where
  id : Nat
  userID : Nat
  amount : Decimal
  quoteAmount : Decimal
  coinSymbol : String
  side : OrderSide
  filledAmount : Decimal
  filledQuoteAmount : Decimal
  orderType : OrderType
  price : Decimal
  deriving DecidableEq, Repr

abbrev PriceLevel := Bucket Decimal Order

structure OrderBook where
  buyOrders : List PriceLevel
  sellOrders : List PriceLevel
  deriving DecidableEq, Repr

def newOrderBook : OrderBook := ⟨[], []⟩

/-- The two trees of a book. -/
inductive Half where
  | bids | asks
  deriving DecidableEq, Repr

/-- The price that is matched first. -/
def Half.before : Half → Decimal → Decimal → Bool
  | .bids, p, q => decide (q < p)
  | .asks, p, q => decide (p < q)

/-- Everything that is not a buy goes to the sell orders. -/
def halfOf (side : OrderSide) : Half := if side = .buy then .bids else .asks

namespace OrderBook

def half (b : OrderBook) : Half → List PriceLevel
  | .bids => b.buyOrders
  | .asks => b.sellOrders

def setHalf (b : OrderBook) : Half → List PriceLevel → OrderBook
  | .bids, l => { b with buyOrders := l }
  | .asks, l => { b with sellOrders := l }

def addOrder (b : OrderBook) (o : Order) : OrderBook :=
  let h := halfOf o.side
  b.setHalf h (push h.before o.price o (b.half h))

/-- The order leaves its level, an empty level its tree; `none` if the level has no such order. -/
def removeOrder (b : OrderBook) (side : OrderSide) (price : Decimal) (id : Nat) :
    Option OrderBook :=
  let h := halfOf side
  match find price (b.half h) with
  | none => none
  | some level =>
    if level.items.any (fun o => o.id == id) then
      some (b.setHalf h (update price (modifyFirst (fun o => o.id == id) fun _ => none) (b.half h)))
    else none

/-- The resting orders of a half in matching order. -/
def resting (b : OrderBook) (h : Half) : List Order := flatten (b.half h)

@[simp] theorem half_setHalf (b : OrderBook) (h : Half) (l : List PriceLevel) :
    (b.setHalf h l).half h = l := by
  cases h <;> rfl

theorem half_setHalf_ne (b : OrderBook) {h h' : Half} (hne : h' ≠ h) (l : List PriceLevel) :
    (b.setHalf h l).half h' = b.half h' := by
  cases h <;> cases h' <;> first | rfl | exact absurd rfl hne

/-- A half is sorted, has no empty level and every order at its own price. -/
def Wf (b : OrderBook) : Prop := ∀ h, Buckets.Wf h.before Order.price (b.half h)

theorem before_strict (h : Half) : StrictOrder h.before where
  irrefl p := by cases h <;> simp [Half.before]
  trans p q r hpq hqr := by
    cases h <;> simp only [Half.before, decide_eq_true_eq] at hpq hqr ⊢
    · exact hqr.trans hpq
    · exact hpq.trans hqr
  total p q hne hnot := by
    cases h <;> simp only [Half.before, decide_eq_true_eq, decide_eq_false_iff_not, not_lt]
      at hnot ⊢
    · exact lt_of_le_of_ne hnot hne
    · exact lt_of_le_of_ne hnot (Ne.symm hne)

theorem newOrderBook_wf : newOrderBook.Wf := by
  intro h; cases h <;> exact wf_nil

variable {b : OrderBook}

theorem setHalf_wf (hb : b.Wf) {h : Half} {l : List PriceLevel}
    (hl : Buckets.Wf h.before Order.price l) : (b.setHalf h l).Wf := by
  intro h'
  by_cases he : h' = h
  · rw [he, half_setHalf]; exact hl
  · rw [half_setHalf_ne b he]; exact hb h'

theorem addOrder_wf (hb : b.Wf) (o : Order) : (b.addOrder o).Wf :=
  setHalf_wf hb (push_wf (before_strict _) (hb _) rfl)

/-- A new order queues behind every order whose price is at least as good. -/
theorem resting_addOrder (hb : b.Wf) (o : Order) (h : Half) :
    (b.addOrder o).resting h =
      if h = halfOf o.side then insertBehind h.before Order.price o (b.resting h)
        else b.resting h := by
  unfold addOrder resting
  split <;> rename_i he
  · rw [he, half_setHalf, flatten_push (before_strict _) (hb _) rfl]
  · rw [half_setHalf_ne b he]

/-- The orders a cancel command can mean. -/
def names (price : Decimal) (id : Nat) (o : Order) : Bool :=
  decide (o.price = price) && (o.id == id)

/-- The book without the named order. -/
def without (b : OrderBook) (side : OrderSide) (price : Decimal) (id : Nat) : OrderBook :=
  b.setHalf (halfOf side)
    (update price (modifyFirst (fun o => o.id == id) fun _ => none) (b.half (halfOf side)))

/-- A cancel succeeds exactly if the order rests at that side and price. -/
theorem removeOrder_eq (hb : b.Wf) (side : OrderSide) (price : Decimal) (id : Nat) :
    b.removeOrder side price id =
      if (b.resting (halfOf side)).any (names price id) then some (b.without side price id)
        else none := by
  have hany := any_find (before_strict (halfOf side)) (hb _) price (fun o => o.id == id)
  unfold removeOrder resting names
  rw [← hany]
  cases hf : find price (b.half (halfOf side)) with
  | none => simp [hf]
  | some level =>
    simp only [hf, Option.any_some]
    rfl

theorem without_wf (hb : b.Wf) (side : OrderSide) (price : Decimal) (id : Nat) :
    (b.without side price id).Wf := by
  refine setHalf_wf hb (update_wf (hb _) (fun level hl o ho => ?_) price)
  rcases mem_modifyFirst ho with ho | ⟨_, _, _, ho⟩
  · exact (hb _).keyed level hl o ho
  · cases ho

theorem resting_without (hb : b.Wf) (side : OrderSide) (price : Decimal) (id : Nat)
    (h : Half) : (b.without side price id).resting h =
      if h = halfOf side then modifyFirst (names price id) (fun _ => none) (b.resting h)
      else b.resting h := by
  unfold without resting
  split <;> rename_i he
  · rw [he, half_setHalf, flatten_update_modifyFirst (before_strict _) (hb _)]
    rfl
  · rw [half_setHalf_ne b he]

/-- A well-formed book is determined by its resting orders. -/
theorem ext_resting {c : OrderBook} (hb : b.Wf) (hc : c.Wf) (h : ∀ h, b.resting h = c.resting h) :
    b = c := by
  have hhalf : ∀ h, b.half h = c.half h := fun h' =>
    flatten_injective (before_strict h') (hb h') (hc h') (h h')
  cases b
  cases c
  simp only [mk.injEq]
  exact ⟨hhalf .bids, hhalf .asks⟩

end OrderBook

end GoExchange.Matching
