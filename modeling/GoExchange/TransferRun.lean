import GoExchange.Lts
import GoExchange.Transfers

/-!
# Transfers as a system

What happens to the requests of `transfer_service.go` over time: requests are
stored and dispatched, the outside world calls back, and the poller of
`transfer_status_poller.go` asks for the status of requests that are out. A
poll reads `check_attempts` before it asks, and writes under the row lock
later, so other polls may have come in between. Each transaction is one step;
a transaction that fails is rolled back. Times are left out: a poll may read
any request that is out, and whether a threshold has passed is part of a step.
-/
namespace GoExchange.TransferRun

open Service Ledger Rows Fallible

/-- A poll that has read its row and has not written yet. -/
structure Poll where
  requestID : Nat
  checkAttempts : Nat
  deriving DecidableEq, Repr

/-- The bank with the column `check_attempts` of the requests, and the polls under way. -/
structure State where
  bank : Bank
  checkAttempts : Nat → Nat
  polls : List Poll

def init : State := ⟨⟨⟨Ledger.empty, [], [], [], 0, 0⟩, [], [], 0⟩, fun _ => 0, []⟩

def railText : TransferRail → String
  | .bank => "BANK"
  | .chain => "CHAIN"
  | .unknown => ""

def pollKey (requestID attempt : Nat) : String := s!"poll:{requestID}:{attempt}"

def callbackKey (rail : TransferRail) (eventID : String) : String :=
  "callback:" ++ railText rail ++ ":" ++ eventID

/-! ## The schedule -/

inductive PollFailureKind where
  | unknown | pending | unreachable
  deriving DecidableEq, Repr

/-- `overdue` says that the request is older than the threshold. -/
def reviewReasonForPollFailure (kind : PollFailureKind) (overdue : Bool) : Option String :=
  match kind with
  | .unknown => some "EXTERNAL_UNKNOWN"
  | .pending => if overdue then some "PENDING_TOO_LONG" else none
  | .unreachable => if overdue then some "EXTERNAL_UNREACHABLE" else none

def State.setCheckAttempts (s : State) (id attempts : Nat) : State :=
  { s with checkAttempts := Function.update s.checkAttempts id attempts }

def advancePollSchedule (s : State) (request : TransferRequest) (kind : PollFailureKind)
    (overdue : Bool) : State :=
  let s := s.setCheckAttempts request.id (s.checkAttempts request.id + 1)
  match reviewReasonForPollFailure kind overdue with
  | some reason => { s with bank := setReviewRequired s.bank request.id reason }
  | none => s

def updatePollSchedule (s : State) (request : TransferRequest) (outcome : TransferOutcome)
    (overdue : Bool) : State :=
  advancePollSchedule s request (if outcome = .unknown then .unknown else .pending) overdue

/-- The event is stored even if the request is resolved. -/
def recordObservation (s : State) (requestID : Nat) (eventKey : String) (outcome : TransferOutcome)
    (overdue : Bool) : Except DomainError State :=
  if outcome.isTerminal then .error ⟨.other, "RecordObservation requires a non-terminal outcome"⟩
  else if requestID = 0 ∨ eventKey = "" then
    .error ⟨.other, "transfer_request_id and event_key are required"⟩
  else do
    let request ← lockByID s.bank requestID
    if eventKey ∈ s.bank.transferEvents.map TransferStatusEvent.eventKey then .ok s
    else
      let s := { s with bank := { s.bank with
        transferEvents := s.bank.transferEvents ++ [⟨request.id, eventKey, outcome⟩] } }
      match request.status with
      | .processing => .ok (updatePollSchedule s request outcome overdue)
      | .received =>
        .error ⟨.other,
          s!"RecordObservation called for transfer request {request.id} that has not been dispatched yet"⟩
      | .completed | .failed => .ok s

def handleStatusCheckFailure (s : State) (requestID : Nat) (overdue : Bool) :
    Except DomainError State := do
  let request ← lockByID s.bank requestID
  if request.status ≠ .processing then .ok s
  else .ok (advancePollSchedule s request .unreachable overdue)

def handleDispatchFailure (s : State) (requestID : Nat) : Except DomainError State := do
  let request ← lockByID s.bank requestID
  if request.status ≠ .received then .ok s
  else .ok (s.setCheckAttempts request.id (s.checkAttempts request.id + 1))

/-- `SetDispatched`. -/
def setDispatched (s : State) (requestID : Nat) (ref : String) : Except DomainError State := do
  let request ← lockByID s.bank requestID
  if request.status ≠ .received then .error ⟨.other, "transfer dispatch update affected no rows"⟩
  else do
    let bank ← dispatch s.bank requestID (some ref)
    return { s with bank := bank }.setCheckAttempts requestID 0

/-- `Dispatch` of a request that was read as RECEIVED. -/
def dispatchRequest (s : State) (requestID : Nat) : Option String → Except DomainError State
  | none => handleDispatchFailure s requestID
  | some ref => setDispatched s requestID ref

/-! ## The outside world answers -/

/-- What `GetTransferStatus` returns. -/
inductive StatusAnswer where
  | unreachable
  | answered (outcome : TransferOutcome) (reason : Option String)
  deriving DecidableEq, Repr

def State.resolve (s : State) (input : ResolveInput) : Except DomainError State := do
  let bank ← resolveTransfer s.bank input
  return { s with bank := bank }

/-- `checkStatus` after the row was read. -/
def checkStatus (s : State) (poll : Poll) (answer : StatusAnswer) (overdue : Bool) :
    Except DomainError State :=
  match answer with
  | .unreachable => handleStatusCheckFailure s poll.requestID overdue
  | .answered outcome reason =>
    let eventKey := pollKey poll.requestID (poll.checkAttempts + 1)
    if outcome.isTerminal then s.resolve ⟨poll.requestID, eventKey, outcome, reason⟩
    else recordObservation s poll.requestID eventKey outcome overdue

/-- `ReceiveCallback`. -/
def receiveCallback (s : State) (externalRef eventID : String) (outcome : TransferOutcome)
    (reason : Option String) : Except DomainError State :=
  if !outcome.isTerminal then .error ⟨.validation, "callback outcome must be SUCCESS or FAILURE"⟩
  else
    match s.bank.transfers.find? (·.externalRef = some externalRef) with
    | none => .error ⟨.other, "record not found"⟩
    | some request => s.resolve ⟨request.id, callbackKey request.rail eventID, outcome, reason⟩

/-! ## Steps -/

inductive Label where
  | deposit (input : TransferInput)
  | withdraw (input : TransferInput)
  | dispatch (requestID : Nat) (submitted : Option String)
  | callback (externalRef eventID : String) (outcome : TransferOutcome) (reason : Option String)
  /-- A poll reads a request that is out. -/
  | read (requestID : Nat)
  | poll (poll : Poll) (answer : StatusAnswer) (overdue : Bool)
  /-- Another service records a journal. -/
  | journal (input : JournalInput)
  /-- Transactions that failed have used up ids. -/
  | lost (transferIDs : Nat)

/-- The labels of the keys of journals for transfers. -/
def transferKeyLabels : List String :=
  ["withdraw-hold:", "deposit-settle:", "withdraw-settle:", "withdraw-refund:"]

def isTransferKey (key : String) : Bool :=
  transferKeyLabels.any fun label => label.toList.isPrefixOf key.toList

def State.onBank (s : State) (f : Bank → Except DomainError Bank) : State :=
  transact s (fun bank => { s with bank := bank }) (f s.bank)

def State.orUnchanged (s : State) : Except DomainError State → State := transact s fun s' => s'

def step : Label → State → Option State
  | .deposit input, s => some (s.onBank (requestDeposit · input))
  | .withdraw input, s => some (s.onBank (requestWithdrawal · input))
  | .dispatch id submitted, s => some (s.orUnchanged (dispatchRequest s id submitted))
  | .callback ref eventID outcome reason, s =>
    some (s.orUnchanged (receiveCallback s ref eventID outcome reason))
  | .read id, s =>
    if ∃ request ∈ s.bank.transfers, request.id = id ∧ request.status = .processing then
      some { s with polls := s.polls ++ [⟨id, s.checkAttempts id⟩] }
    else none
  | .poll poll answer overdue, s =>
    if poll ∈ s.polls then
      let s := { s with polls := s.polls.erase poll }
      some (s.orUnchanged (checkStatus s poll answer overdue))
    else none
  | .journal input, s =>
    if input.referenceType ≠ .transfer ∧ isTransferKey input.idempotencyKey = false then
      some (s.onBank fun b => do
        let (ledger, _, _) ← record b.ledger input
        return { b with ledger := ledger })
    else none
  | .lost n, s => some { s with bank := { s.bank with transferSeq := s.bank.transferSeq + n } }

end GoExchange.TransferRun
