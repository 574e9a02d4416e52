import GoExchange.Sweep

/-!
# The engine's books

`engine.go`: the books by symbol, the numbering of events, and the two
operations an engine offers, matching an order to its end and removing an order.
Symbols share one default book until the first of them is registered, which
then owns it; `heap` holds the books and `orderBooks` says which is whose.
-/
namespace GoExchange.Matching

structure Core where
  engineID : Nat
  tradeSeq : Nat
  heap : List OrderBook
  orderBooks : List (String × Nat)
  deriving DecidableEq, Repr

structure CancelOrderCommand where
  commandID : Nat
  coinSymbol : String
  orderID : Nat
  side : OrderSide
  price : Decimal
  deriving DecidableEq, Repr

/-- `CancelOrderResult`: removed, or one of the errors. -/
inductive CancelOrderResult where
  | removed | invalidCommand | notFound | backpressured
  deriving DecidableEq, Repr

/-- An order the loop would do something with. -/
def orderIsAdmissible (o : Order) : Bool :=
  match o.side with
  | .buy => o.orderType == .market || decide (0 < o.amount)
  | .sell => decide (0 < o.amount)
  | .unknown => false

def marketOrderDone (o : Order) : MarketOrderDone where
  orderID := o.id
  coinSymbol := o.coinSymbol
  side := o.side
  filledAmount := o.filledAmount
  filledQuoteAmount := o.filledQuoteAmount
  remainingAmount := o.amount
  remainingQuoteAmount := o.quoteAmount

/-- The book after `finishOrder`: only what is left of a limit order rests. -/
def finishBook (book : OrderBook) (o : Order) : OrderBook :=
  if o.orderType = .market then book else if 0 < o.amount then book.addOrder o else book

/-- What `finishOrder` emits. -/
def finishEvents (o : Order) : List ExecutionEvent :=
  if o.orderType = .market then [.marketOrderDone (marketOrderDone o)] else []

namespace Core

def new (engineID : Nat) : Core := ⟨engineID, 0, [newOrderBook], []⟩

def book (c : Core) (i : Nat) : OrderBook := c.heap.getD i newOrderBook

def setBook (c : Core) (i : Nat) (b : OrderBook) : Core := { c with heap := c.heap.set i b }

def getOrderBook (c : Core) (symbol : String) : Core × Nat :=
  if symbol = "" then (c, 0)
  else
    match c.orderBooks.lookup symbol with
    | some i => (c, i)
    | none =>
      if c.orderBooks.isEmpty then ({ c with orderBooks := [(symbol, 0)] }, 0)
      else
        ({ c with
          heap := c.heap ++ [newOrderBook], orderBooks := (symbol, c.heap.length) :: c.orderBooks },
          c.heap.length)

def nextTradeEvent (c : Core) : Core × EventID :=
  ({ c with tradeSeq := c.tradeSeq + 1 }, ⟨c.engineID, c.tradeSeq + 1⟩)

def handleCancel (c : Core) (cmd : CancelOrderCommand) : Core × CancelOrderResult :=
  if cmd.orderID = 0 ∨ cmd.coinSymbol = "" ∨ ¬ 0 ≤ cmd.price then (c, .invalidCommand)
  else if cmd.side ≠ .buy ∧ cmd.side ≠ .sell then (c, .invalidCommand)
  else
    let (c, i) := c.getOrderBook cmd.coinSymbol
    match (c.book i).removeOrder cmd.side cmd.price cmd.orderID with
    | some b => (c.setBook i b, .removed)
    | none => (c, .notFound)

/-- `Match`: an order matched to its end, with the events it emits; `none` if it panics. -/
def matchOrder (c : Core) (o : Order) : Option (Core × List ExecutionEvent) :=
  if orderIsAdmissible o then
    let (c, i) := c.getOrderBook o.coinSymbol
    let r := matchSlice (c.book i) o 0
    if r.outcome = .panic then none
    else
      some ({ c.setBook i (finishBook r.book r.order) with
        tradeSeq := c.tradeSeq + r.fills.length },
        (tradesOf c.engineID c.tradeSeq o r.fills).map .trade ++ finishEvents r.order)
  else some (c, [])

/-! ## The books as a function of the symbol -/

/-- The book of a symbol; one that is not registered has an empty book. -/
def view (c : Core) (symbol : String) : OrderBook :=
  match c.orderBooks.lookup symbol with
  | some i => c.book i
  | none => newOrderBook

/-- Every registered symbol has a book, and there is the default book. -/
structure Bounded (c : Core) : Prop where
  pos : 0 < c.heap.length
  lookup : ∀ symbol i, c.orderBooks.lookup symbol = some i → i < c.heap.length

/-- Registered symbols own different books, and the default book is empty until it is owned. -/
structure Ok (c : Core) : Prop extends Bounded c where
  unnamed : c.orderBooks.lookup "" = none
  owner : ∀ symbol symbol' i, c.orderBooks.lookup symbol = some i →
    c.orderBooks.lookup symbol' = some i → symbol = symbol'
  fresh : c.orderBooks = [] → c.heap = [newOrderBook]

theorem new_ok (engineID : Nat) : (new engineID).Ok :=
  ⟨⟨Nat.one_pos, by simp [new]⟩, rfl, by simp [new], fun _ => rfl⟩

variable {c d : Core} {symbol : String} {i j : Nat}

theorem view_of_lookup (h : c.orderBooks.lookup symbol = some i) : c.view symbol = c.book i := by
  simp [view, h]

theorem lookup_cons_of_ne {a : String} {l : List (String × Nat)} (h : symbol ≠ a) :
    ((a, i) :: l).lookup symbol = l.lookup symbol := by
  rw [List.lookup_cons, beq_eq_false_iff_ne.mpr h]

/-- What looking a book up may change: a symbol is registered, with an empty book. -/
structure Looked (c d : Core) (symbol : String) (i : Nat) : Prop where
  bounded : d.Bounded
  bound : i < d.heap.length
  heap : d.heap = c.heap ∨ d.heap = c.heap ++ [newOrderBook]
  keeps : ∀ symbol' j, c.orderBooks.lookup symbol' = some j →
    d.orderBooks.lookup symbol' = some j
  lookup : symbol ≠ "" → d.orderBooks.lookup symbol = some i
  ok : c.Ok → d.Ok
  view : c.Ok → d.view = c.view
  engineID : d.engineID = c.engineID
  tradeSeq : d.tradeSeq = c.tradeSeq

theorem Looked.same (hc : c.Bounded) (hi : i < c.heap.length)
    (hs : symbol ≠ "" → c.orderBooks.lookup symbol = some i) : Looked c c symbol i :=
  ⟨hc, hi, .inl rfl, fun _ _ h => h, hs, id, fun _ => rfl, rfl, rfl⟩

/-- The first symbol owns the default book. -/
theorem Looked.first (hc : c.Bounded) (hs : symbol ≠ "") (hnil : c.orderBooks = []) :
    Looked c { c with orderBooks := [(symbol, 0)] } symbol 0 := by
  have hlook : ∀ a j, [(symbol, 0)].lookup a = some j → a = symbol ∧ j = 0 := by
    intro a j h
    by_cases ha : a = symbol
    · subst ha
      simp at h
      exact ⟨rfl, h.symm⟩
    · rw [lookup_cons_of_ne ha] at h
      cases h
  have hb : Bounded { c with orderBooks := [(symbol, 0)] } :=
    ⟨hc.pos, fun a j h => (hlook a j h).2 ▸ hc.pos⟩
  refine ⟨hb, hc.pos, .inl rfl, by simp [hnil], by simp, fun hok => ⟨hb, ?_, ?_, by simp⟩,
    fun hok => ?_, rfl, rfl⟩
  · exact lookup_cons_of_ne (Ne.symm hs)
  · exact fun a a' j h h' => (hlook a j h).1.trans (hlook a' j h').1.symm
  · funext a
    by_cases ha : a = symbol
    · subst ha
      simp [Core.view, Core.book, hnil, hok.fresh hnil]
    · simp [Core.view, lookup_cons_of_ne ha, hnil]

/-- Every other symbol gets a new book. -/
theorem Looked.added (hc : c.Bounded) (hs : symbol ≠ "")
    (hnone : c.orderBooks.lookup symbol = none) :
    Looked c { c with heap := c.heap ++ [newOrderBook],
                      orderBooks := (symbol, c.heap.length) :: c.orderBooks } symbol
                        c.heap.length := by
  have hlook : ∀ a j, ((symbol, c.heap.length) :: c.orderBooks).lookup a = some j →
      a = symbol ∧ j = c.heap.length ∨ a ≠ symbol ∧ c.orderBooks.lookup a = some j := by
    intro a j h
    by_cases ha : a = symbol
    · subst ha
      simp at h
      exact .inl ⟨rfl, h.symm⟩
    · rw [lookup_cons_of_ne ha] at h
      exact .inr ⟨ha, h⟩
  have hb : Bounded { c with heap := c.heap ++ [newOrderBook],
                             orderBooks := (symbol, c.heap.length) :: c.orderBooks } := by
    refine ⟨by simp, fun a j h => ?_⟩
    rw [List.length_append, List.length_singleton]
    rcases hlook a j h with ⟨-, rfl⟩ | ⟨-, h⟩
    · exact Nat.lt_succ_self _
    · exact Nat.lt_succ_of_lt (hc.lookup a j h)
  refine ⟨hb, by simp, .inr rfl, fun a j h => ?_, by simp, fun hok => ⟨hb, ?_, ?_, by simp⟩,
    fun hok => ?_, rfl, rfl⟩
  · have ha : a ≠ symbol := fun ha => by rw [ha, hnone] at h; cases h
    rwa [lookup_cons_of_ne ha]
  · rw [lookup_cons_of_ne (Ne.symm hs)]
    exact hok.unnamed
  · intro a a' j h h'
    rcases hlook a j h with ⟨rfl, rfl⟩ | ⟨-, h⟩
    · rcases hlook a' _ h' with ⟨rfl, -⟩ | ⟨-, h'⟩
      · rfl
      · exact absurd (hc.lookup a' _ h') (lt_irrefl _)
    · rcases hlook a' j h' with ⟨-, rfl⟩ | ⟨-, h'⟩
      · exact absurd (hc.lookup a _ h) (lt_irrefl _)
      · exact hok.owner a a' j h h'
  · funext a
    by_cases ha : a = symbol
    · subst ha
      simp [Core.view, Core.book, hnone]
    · simp only [Core.view, lookup_cons_of_ne ha]
      split
      · rename_i j hj
        simp [Core.book, List.getElem?_append_left (hc.lookup a j hj)]
      · rfl

theorem getOrderBook_looked (hc : c.Bounded) (symbol : String) :
    Looked c (c.getOrderBook symbol).1 symbol (c.getOrderBook symbol).2 := by
  unfold getOrderBook
  split <;> rename_i hs
  · exact .same hc hc.pos (absurd hs)
  · split
    · rename_i i hi
      exact .same hc (hc.lookup symbol i hi) fun _ => hi
    · rename_i hnone
      split
      · rename_i hempty
        exact .first hc hs (List.isEmpty_iff.mp hempty)
      · exact .added hc hs hnone

theorem Looked.book (h : Looked c d symbol i) (hj : j < c.heap.length) : d.book j = c.book j := by
  rcases h.heap with hh | hh
  · rw [Core.book, hh, Core.book]
  · simp only [Core.book, hh, List.getD_eq_getElem?_getD, List.getElem?_append_left hj]

theorem Looked.length_le (h : Looked c d symbol i) : c.heap.length ≤ d.heap.length := by
  rcases h.heap with hh | hh
  · rw [hh]
  · simp [hh]

/-- The book looked up is the symbol's. -/
theorem Looked.book_eq (h : Looked c d symbol i) (hc : c.Ok) (hs : symbol ≠ "") :
    d.book i = c.view symbol := by
  rw [← view_of_lookup (h.lookup hs), h.view hc]

/-- Writing a book is an update at its symbol. -/
theorem view_setBook (hc : c.Ok) (h : c.orderBooks.lookup symbol = some i) (b : OrderBook) :
    (c.setBook i b).view = Function.update c.view symbol b := by
  funext a
  by_cases ha : a = symbol
  · subst ha
    simp [view, setBook, book, h, hc.lookup a i h]
  · rw [Function.update_of_ne ha]
    simp only [view, setBook]
    split
    · rename_i j hj
      have hne : i ≠ j := fun he => ha (hc.owner a symbol j hj (he ▸ h))
      simp [book, List.getElem?_set_ne hne]
    · rfl

theorem setBook_bounded (hc : c.Bounded) (i : Nat) (b : OrderBook) : (c.setBook i b).Bounded := by
  refine ⟨?_, fun symbol j hj => ?_⟩
  · rw [setBook, List.length_set]
    exact hc.pos
  · rw [setBook, List.length_set]
    exact hc.lookup symbol j hj

theorem setBook_ok (hc : c.Ok) (h : c.orderBooks.lookup symbol = some i) (b : OrderBook) :
    (c.setBook i b).Ok := by
  refine ⟨setBook_bounded hc.toBounded i b, hc.unnamed, hc.owner, fun hnil => ?_⟩
  simp only [setBook] at hnil
  rw [hnil] at h
  cases h

theorem nextTradeEvent_ok (hc : c.Ok) : c.nextTradeEvent.1.Ok :=
  ⟨⟨hc.pos, hc.lookup⟩, hc.unnamed, hc.owner, hc.fresh⟩

end Core

end GoExchange.Matching
