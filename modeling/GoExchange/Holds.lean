import GoExchange.LedgerSound
import GoExchange.Transfers

/-!
# What is locked is what is held

The order and transfer services as one transition system, and what the locked
balance of a user should be: the remaining holds of the open orders and the
withdrawals that are not resolved.
-/
namespace GoExchange.Holds

open Ledger Service Rows Tally Fallible

/-- The services in one process. `handoff` are the orders that are stored and not yet taken or
refused by the engine, as `CreateOrder` has them in memory; `submitted` are those that an engine has
taken. -/
structure State where
  bank : Bank
  handoff : List OrderRow
  submitted : List Nat
  deriving DecidableEq, Repr

def init : State := ⟨⟨⟨Ledger.empty, [], [], [], 0, 0⟩, [], [], 0⟩, [], []⟩

inductive Label where
  | create (input : CreateOrderInput)
  | submit (orderID : Nat)
  | reject (orderID : Nat)
  | settle (trade : Trade) (retried : Bool)
  | complete (input : CompleteMarketOrderInput)
  | cancel (orderID : Nat)
  | finalize (input : CompleteMarketOrderInput)
  | deposit (input : TransferInput)
  | withdraw (input : TransferInput)
  | dispatch (requestID : Nat) (submitted : Option String)
  | resolve (input : ResolveInput)
  | restart
  | lost (orderIDs tradeIDs transferIDs accountIDs journalIDs postingIDs : Nat)
  deriving DecidableEq, Repr

variable (policy : OrderRow → Except DomainError Unit)

/-- The trade as the engine sent it, or as the retry worker restores it with its fees. -/
def tradeInput (trade : Trade) (retried : Bool) : TradeRow :=
  if retried then withDefaultFees (TradeRow.ofTrade trade) else TradeRow.ofTrade trade

def State.onBank (s : State) (f : Bank → Except DomainError Bank) : State :=
  transact s (fun bank => { s with bank := bank }) (f s.bank)

def State.onStore (s : State) (f : Store → Except DomainError Store) : State :=
  transact s (fun store => { s with bank := { s.bank with toStore := store } }) (f s.bank.toStore)

def isOpen (order : OrderRow) : Bool := isCancellableOrderStatus order.status

/-- The engine speaks only of orders it was given, `CreateOrder` refuses only an order that the
engine did not take, and the finalizer runs over the open orders before requests are served. A
restart gives the open limit orders to the new engine. -/
def step (l : Label) (s : State) : Option State :=
  match l with
  | .create input =>
    some (transact s
      (fun (store, order) =>
        { s with bank := { s.bank with toStore := store }, handoff := s.handoff ++ [order] })
      (createHeldOrder s.bank.toStore policy input))
  | .submit id =>
    if id ∈ s.handoff.map OrderRow.id then
      some { s with handoff := s.handoff.filter (·.id ≠ id), submitted := s.submitted ++ [id] }
    else none
  | .reject id =>
    match s.handoff.find? (·.id = id) with
    | some order => some ({ s with handoff := s.handoff.filter (·.id ≠ id) }.onStore
      (rejectAcceptedOrder · order))
    | none => none
  | .settle trade retried =>
    if trade.buyOrderID ∈ s.submitted ∧ trade.sellOrderID ∈ s.submitted then
      some (s.onStore (settleTrade · (tradeInput trade retried)))
    else none
  | .complete input =>
    if input.orderID ∈ s.submitted then some (s.onStore (completeMarketOrder · input)) else none
  | .cancel id =>
    if id ∈ s.submitted then some (s.onStore (processOrderCancellation · id)) else none
  | .finalize input =>
    if s.handoff = [] ∧ s.bank.orders.any (fun o => o.id = input.orderID ∧ isOpen o) then
      some (s.onStore (completeMarketOrder · input))
    else none
  | .deposit input => some (s.onBank (requestDeposit · input))
  | .withdraw input => some (s.onBank (requestWithdrawal · input))
  | .dispatch id submitted => some (s.onBank (dispatch · id submitted))
  | .resolve input => some (s.onBank (resolveTransfer · input))
  | .restart =>
    some { s with
      handoff := []
      submitted := s.submitted ++ (findOpenOrdersForBootstrap s.bank.orders).map OrderRow.id }
  | .lost o t r a j p =>
    let ledger := { s.bank.ledger with
      accountSeq := s.bank.ledger.accountSeq + a
      journalSeq := s.bank.ledger.journalSeq + j
      postingSeq := s.bank.ledger.postingSeq + p }
    some { s with bank := { s.bank with
      ledger := ledger
      orderSeq := s.bank.orderSeq + o
      tradeSeq := s.bank.tradeSeq + t
      transferSeq := s.bank.transferSeq + r } }

/-! ## What should be locked -/

/-- What an open order still holds. -/
def remainingHold (trades : List TradeRow) (order : OrderRow) : Decimal :=
  if order.side = .sell then order.amount - order.filledAmount
  else if order.orderType = .market then
    order.quoteAmount - order.filledQuoteAmount - sumBuyerFeesByBuyOrderID trades order.id
  else quoteAmountWithTradingFee (order.price * (order.amount - order.filledAmount))

def openHold (trades : List TradeRow) (order : OrderRow) : Decimal :=
  if isOpen order then remainingHold trades order else 0

def openWithdrawal (request : TransferRequest) : Decimal :=
  if request.direction = .withdrawal ∧ request.status.isTerminal = false then
    request.amount + request.feeAmount
  else 0

def heldFor (order : OrderRow) : Nat × String := (order.userID, orderHoldAsset order)

def requestedBy (request : TransferRequest) : Nat × String := (request.userID, request.asset)

/-- The remaining holds of a user's open orders and their unresolved withdrawals, in one asset. -/
def holdsOf (b : Bank) (u : Nat × String) : Decimal :=
  sumAt heldFor (openHold b.trades) b.orders u + sumAt requestedBy openWithdrawal b.transfers u

def lockedOf (t : Tables) (u : Nat × String) : Decimal := balanceOf t ⟨.userLocked, u.1, u.2⟩

/-- What postings add to a user's locked balance. -/
def lockedBy (postings : List PostingInput) (u : Nat × String) : Decimal :=
  sumAt PostingInput.key PostingInput.amount postings ⟨.userLocked, u.1, u.2⟩

end GoExchange.Holds
