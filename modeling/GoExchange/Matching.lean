import GoExchange.OrderBook

/-!
# The matching loops

`engine.go`: a taker is matched round by round against the best resting order
of the opposite half that is not its own user's. The four loops are one
definition with parameters; each keeps its name and its own comparison, quantity
and bookkeeping.
-/
namespace GoExchange.Matching

open Buckets

/-- Orders of user 0 belong to nobody and match with everyone. -/
def isSelfTrade (incoming resting : Order) : Bool :=
  incoming.userID != 0 && resting.userID != 0 && incoming.userID == resting.userID

/-- One execution: the maker, its price and the quantity. -/
structure Fill where
  makerID : Nat
  price : Decimal
  quantity : Decimal
  deriving DecidableEq, Repr

/-- What the four loops differ in: the half they read, the level prices they accept, the loop
condition, the traded quantity (`none` where the division panics) and the taker's bookkeeping. -/
structure MatchKind where
  half : Half
  accepts : Order → Decimal → Bool
  active : Order → Bool
  quantity : Order → Decimal → Order → Option Decimal
  fill : Order → Decimal → Decimal → Order

/-- Both sides give up what they have. -/
def minAmount (order : Order) (_ : Decimal) (maker : Order) : Option Decimal :=
  some (min order.amount maker.amount)

def matchBuy : MatchKind where
  half := .asks
  accepts order price := !decide (order.price < price)
  active order := decide (0 < order.amount)
  quantity := minAmount
  fill order _ qty :=
    { order with amount := order.amount - qty, filledAmount := order.filledAmount + qty }

def matchSell : MatchKind where
  half := .bids
  accepts order price := !decide (price < order.price)
  active order := decide (0 < order.amount)
  quantity := minAmount
  fill order _ qty :=
    { order with amount := order.amount - qty, filledAmount := order.filledAmount + qty }

/-- The quantity the remaining quote amount pays for, cut off at `DivisionPrecision` digits. -/
def matchMarketBuy : MatchKind where
  half := .asks
  accepts _ _ := true
  active order := decide (0 < order.quoteAmount)
  quantity order price maker :=
    (Decimal.quoRem order.quoteAmount price).map fun maxQtyByQuote => min maxQtyByQuote maker.amount
  fill order price qty :=
    { order with
      quoteAmount := order.quoteAmount - price * qty
      filledQuoteAmount := order.filledQuoteAmount + price * qty
      filledAmount := order.filledAmount + qty }

def matchMarketSell : MatchKind where
  half := .bids
  accepts _ _ := true
  active order := decide (0 < order.amount)
  quantity := minAmount
  fill order price qty :=
    { order with
      amount := order.amount - qty
      filledAmount := order.filledAmount + qty
      filledQuoteAmount := order.filledQuoteAmount + price * qty }

/-- The dispatch of `matchSlice`; `none` for a side that is neither. -/
def kindOf (order : Order) : Option MatchKind :=
  match order.side with
  | .buy => some (if order.orderType = .market then matchMarketBuy else matchBuy)
  | .sell => some (if order.orderType = .market then matchMarketSell else matchSell)
  | .unknown => none

/-- The maker after a fill; it leaves its level when nothing is left. -/
def reduce (qty : Decimal) (maker : Order) : Option Order :=
  let maker := { maker with amount := maker.amount - qty, filledAmount := maker.filledAmount + qty }
  if 0 < maker.amount then some maker else none

inductive Round where
  | stop
  | panic
  | trade (book : OrderBook) (order : Order) (fill : Fill)

/-- `bestMatchableSellOrder`, `bestMarketSellOrder`, `bestMatchableBuyOrder` and
`bestMarketBuyOrder`. -/
def MatchKind.best (k : MatchKind) (book : OrderBook) (order : Order) :
    Option (PriceLevel × Order) :=
  Buckets.best (k.accepts order) (fun maker => !isSelfTrade order maker) (book.half k.half)

/-- The loop body after the loop condition and the budget check. -/
def MatchKind.round (k : MatchKind) (book : OrderBook) (order : Order) : Round :=
  match k.best book order with
  | none => .stop
  | some (level, maker) =>
    match k.quantity order level.key maker with
    | none => .panic
    | some qty =>
      if 0 < qty then
        .trade
          (book.setHalf k.half
            (update level.key (modifyFirst (fun m => !isSelfTrade order m) (reduce qty))
              (book.half k.half)))
          (k.fill order level.key qty) ⟨maker.id, level.key, qty⟩
      else .stop

/-- How a run of the loop ends: nothing left to match, the budget used up, or a panic. -/
inductive Outcome where
  | done | yield | panic
  deriving DecidableEq, Repr

structure SliceResult where
  book : OrderBook
  order : Order
  fills : List Fill
  outcome : Outcome

/-- At most `n` rounds. The budget is checked after the loop condition, so a taker filled by
its last round is done. -/
def MatchKind.loop (k : MatchKind) : Nat → OrderBook → Order → SliceResult
  | 0, book, order => ⟨book, order, [], if k.active order then .yield else .done⟩
  | n + 1, book, order =>
    if k.active order then
      match k.round book order with
      | .stop => ⟨book, order, [], .done⟩
      | .panic => ⟨book, order, [], .panic⟩
      | .trade book order fill =>
        let r := loop k n book order
        { r with fills := fill :: r.fills }
    else ⟨book, order, [], .done⟩

/-- A budget of 0 is no limit. Every round but the last takes a maker out of the book, so this
many rounds are enough. -/
def MatchKind.budget (k : MatchKind) (book : OrderBook) (budget : Nat) : Nat :=
  if budget = 0 then (book.resting k.half).length + 1 else budget

def matchSlice (book : OrderBook) (order : Order) (budget : Nat) : SliceResult :=
  match kindOf order with
  | none => ⟨book, order, [], .done⟩
  | some k => k.loop (k.budget book budget) book order

/-- `newTrade` as the loops call it: a taker that buys is the buyer. -/
def newTrade (eventID : EventID) (order : Order) (fill : Fill) : Trade where
  eventID := eventID
  coinSymbol := order.coinSymbol
  price := fill.price
  quantity := fill.quantity
  buyOrderID := if order.side = .buy then order.id else fill.makerID
  sellOrderID := if order.side = .buy then fill.makerID else order.id

/-- The trades of a run of rounds, numbered after `seq`. -/
def tradesOf (engineID seq : Nat) (order : Order) : List Fill → List Trade
  | [] => []
  | f :: fs => newTrade ⟨engineID, seq + 1⟩ order f :: tradesOf engineID (seq + 1) order fs

/-! ## Runs of rounds -/

/-- The book, the taker and the executions after some number of rounds. -/
inductive Rounds (k : MatchKind) (book : OrderBook) (order : Order) :
    OrderBook → Order → List Fill → Prop
  | refl : Rounds k book order book order []
  | next {b c : OrderBook} {o p : Order} {fills : List Fill} {f : Fill} :
      Rounds k book order b o fills → k.active o = true → k.round b o = .trade c p f →
        Rounds k book order c p (fills ++ [f])

section Rounds

variable {k : MatchKind} {b c d : OrderBook} {o p q : Order} {fs gs : List Fill} {f : Fill}

theorem Rounds.trans (h : Rounds k b o c p fs) (h' : Rounds k c p d q gs) :
    Rounds k b o d q (fs ++ gs) := by
  induction h' with
  | refl => simpa using h
  | next _ hact hround ih => simpa using ih.next hact hround

/-- What a round that trades does. -/
theorem MatchKind.round_eq_trade (h : k.round b o = .trade c p f) :
    ∃ level maker qty, k.best b o = some (level, maker) ∧ k.quantity o level.key maker = some qty ∧
      0 < qty ∧ p = k.fill o level.key qty ∧ f = ⟨maker.id, level.key, qty⟩ ∧
      c = b.setHalf k.half
        (update level.key (modifyFirst (fun m => !isSelfTrade o m) (reduce qty))
          (b.half k.half)) := by
  unfold MatchKind.round at h
  split at h
  · cases h
  · rename_i level maker hbest
    split at h
    · cases h
    · rename_i qty hqty
      split at h
      · rename_i hpos
        cases h
        exact ⟨level, maker, qty, hbest, hqty, hpos, rfl, rfl, rfl⟩
      · cases h

/-- Why the loop ended. -/
def MatchKind.Ends (k : MatchKind) (b : OrderBook) (o : Order) : Outcome → Prop
  | .done => k.active o = false ∨ k.round b o = .stop
  | .yield => k.active o = true
  | .panic => k.active o = true ∧ k.round b o = .panic

/-- The loop is a run of rounds, as long as its budget if it yields. -/
theorem MatchKind.loop_spec (k : MatchKind) (n : Nat) (b : OrderBook) (o : Order) :
    Rounds k b o (k.loop n b o).book (k.loop n b o).order (k.loop n b o).fills ∧
      k.Ends (k.loop n b o).book (k.loop n b o).order (k.loop n b o).outcome ∧
      (k.loop n b o).fills.length ≤ n ∧
      ((k.loop n b o).outcome = .yield → (k.loop n b o).fills.length = n) := by
  induction n generalizing b o with
  | zero =>
    cases hact : k.active o <;> simp [loop, hact, Ends, Rounds.refl]
  | succ n ih =>
    cases hact : k.active o with
    | false => simp [loop, hact, Ends, Rounds.refl]
    | true =>
      cases hround : k.round b o with
      | stop => simp [loop, hact, hround, Ends, Rounds.refl]
      | panic => simp [loop, hact, hround, Ends, Rounds.refl]
      | trade c p f =>
        obtain ⟨hrun, hend, hlen, hyield⟩ := ih c p
        have hfirst : Rounds k b o c p [f] := Rounds.refl.next hact hround
        simp only [loop, hact, hround, if_true, List.length_cons, Nat.add_le_add_iff_right,
          Nat.add_right_cancel_iff]
        exact ⟨hfirst.trans hrun, hend, hlen, hyield⟩

end Rounds

end GoExchange.Matching
