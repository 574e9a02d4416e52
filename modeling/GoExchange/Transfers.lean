import GoExchange.Settlement

/-!
# Deposits and withdrawals

`transfer_service.go`: a withdrawal locks its amount when it is accepted, and
only a final answer of the outside world moves money again. Times and the
polling schedule are left out.
-/
namespace GoExchange.Service

open Ledger Rows

inductive TransferDirection where
  | deposit | withdrawal
  deriving DecidableEq, Repr

inductive TransferRail where
  | bank | chain | unknown
  deriving DecidableEq, Repr

inductive TransferStatus where
  | received | processing | completed | failed
  deriving DecidableEq, Repr

def TransferStatus.isTerminal (s : TransferStatus) : Bool := s == .completed || s == .failed

inductive TransferOutcome where
  | success | failure | pending | unknown
  deriving DecidableEq, Repr

def TransferOutcome.isTerminal (o : TransferOutcome) : Bool := o == .success || o == .failure

structure TransferRequest where
  id : Nat
  userID : Nat
  direction : TransferDirection
  rail : TransferRail
  asset : String
  amount : Decimal
  feeAmount : Decimal
  feeAsset : String
  status : TransferStatus
  clientRequestKey : String
  externalRef : Option String
  resolutionJournalID : Option Nat
  holdJournalID : Option Nat
  reviewReason : Option String
  failureReason : String
  deriving DecidableEq, Repr

structure TransferStatusEvent where
  transferRequestID : Nat
  eventKey : String
  outcome : TransferOutcome
  deriving DecidableEq, Repr

/-- The store with the tables of transfers. -/
structure Bank extends Store where
  transfers : List TransferRequest
  transferEvents : List TransferStatusEvent
  transferSeq : Nat
  deriving DecidableEq, Repr

variable (b : Bank)

/-- A request whose asset and key are already trimmed. -/
structure TransferInput where
  userID : Nat
  rail : TransferRail
  asset : String
  amount : Option Decimal
  clientRequestKey : String
  deriving DecidableEq, Repr

def maxIdempotencyKeyLength : Nat := 128

/-- The amount of a request that passes `normalizeTransferInput`. -/
def normalizeTransferInput (input : TransferInput) : Except DomainError Decimal :=
  if input.userID = 0 then .error ⟨.validation, "user_id is required"⟩
  else if input.rail = .unknown then .error ⟨.validation, "invalid rail"⟩
  else if input.asset = "" then .error ⟨.validation, "asset is required"⟩
  else if input.rail = .bank ∧ input.asset ≠ krwAssetSymbol then
    .error ⟨.validation, "bank rail requires KRW"⟩
  else do
    let amount ← parsePositiveDecimal input.amount "amount"
    if input.clientRequestKey = "" ∨ maxIdempotencyKeyLength < input.clientRequestKey.length then
      .error ⟨.validation,
        s!"client_request_key is required and must be 1..{maxIdempotencyKeyLength} characters"⟩
    else return amount

def newTransfer (direction : TransferDirection) (input : TransferInput) (amount : Decimal) :
    TransferRequest where
  id := 0
  userID := input.userID
  direction := direction
  rail := input.rail
  asset := input.asset
  amount := amount
  feeAmount := 0
  feeAsset := input.asset
  status := .received
  clientRequestKey := input.clientRequestKey
  externalRef := none
  resolutionJournalID := none
  holdJournalID := none
  reviewReason := none
  failureReason := ""

/-- The row of the request, and whether it is new. -/
def insertOrGetByUserRequestKey (request : TransferRequest) : Bank × TransferRequest × Bool :=
  let key := fun (r : TransferRequest) => (r.userID, r.clientRequestKey)
  match b.transfers.find? (fun r => key r = key request) with
  | some existing => ({ b with transferSeq := b.transferSeq + 1 }, existing, false)
  | none =>
    let row := { request with id := b.transferSeq + 1 }
    ({ b with transferSeq := row.id, transfers := b.transfers ++ [row] }, row, true)

def sameTransferBody (existing request : TransferRequest) : Bool :=
  existing.direction == request.direction && existing.rail == request.rail &&
    existing.asset == request.asset && existing.amount == request.amount

/-- A request under a key that is taken must be the same request. -/
def acceptTransfer (request : TransferRequest) :
    Except DomainError (Bank × TransferRequest × Bool) :=
  let (b, row, created) := insertOrGetByUserRequestKey b request
  if !created && !sameTransferBody row request then
    .error ⟨.conflict,
      s!"client_request_key {request.clientRequestKey.quote} was already used with a different request"⟩
  else .ok (b, row, created)

def requestDeposit (input : TransferInput) : Except DomainError Bank := do
  let amount ← normalizeTransferInput input
  let (b, _) ← acceptTransfer b (newTransfer .deposit input amount)
  return b

def lockPostings (userID : Nat) (asset : String) (locked : Decimal) : List PostingInput :=
  [⟨.userAvailable, some userID, asset, -locked⟩, ⟨.userLocked, some userID, asset, locked⟩]

/-- `Record` on the ledger of the bank, with the id of the journal. -/
def recordTransfer (key : JournalKey) (eventType : JournalEventType) (requestID : Nat)
    (postings : List PostingInput) : Except DomainError (Bank × Nat) := do
  let (ledger, entry, _) ← record b.ledger ⟨eventType, key.text, .transfer, requestID,
    none, postings⟩
  return ({ b with ledger := ledger }, entry.id)

def updateTransfer (id : Nat) (g : TransferRequest → TransferRequest) : Bank :=
  { b with transfers := modify TransferRequest.id id g b.transfers }

/-- The request and its lock are accepted together. -/
def requestWithdrawal (input : TransferInput) : Except DomainError Bank := do
  let amount ← normalizeTransferInput input
  let (b, row, created) ← acceptTransfer b (newTransfer .withdrawal input amount)
  if created then
    let (b, journalID) ← recordTransfer b (.withdrawHold row.id) .withdrawal row.id
      (lockPostings row.userID row.asset (row.amount + row.feeAmount))
    return updateTransfer b row.id fun r => { r with holdJournalID := some journalID }
  else return b

def lockByID (id : Nat) : Except DomainError TransferRequest :=
  match b.transfers.find? (·.id = id) with
  | some request => .ok request
  | none => .error ⟨.other, "record not found"⟩

variable {b} in
theorem lockByID_ok {id : Nat} {request : TransferRequest} (h : lockByID b id = .ok request) :
    request ∈ b.transfers ∧ request.id = id := by
  unfold lockByID at h
  split at h
  · rename_i x hx
    cases h
    exact of_find? hx
  · cases h

/-- `Dispatch` with the outside world's answer to `Submit`; a failed one only moves the schedule. -/
def dispatch (id : Nat) (submitted : Option String) : Except DomainError Bank := do
  let request ← lockByID b id
  if request.status ≠ .received then .ok b
  else match submitted with
    | none => .error ⟨.other, s!"transfer:{id} was not submitted"⟩
    | some ref =>
      if some ref ∈ b.transfers.map TransferRequest.externalRef then
        .error (refused "transfer_requests_external_ref_unique")
      else .ok (updateTransfer b id fun r =>
        { r with status := .processing, externalRef := some ref })

structure ResolveInput where
  transferRequestID : Nat
  eventKey : String
  outcome : TransferOutcome
  reason : Option String
  deriving DecidableEq, Repr

def externalAccountType (request : TransferRequest) : AccountType :=
  if request.rail = .chain then .externalChain else .externalBank

def depositPostings (request : TransferRequest) : List PostingInput :=
  [⟨externalAccountType request, none, request.asset, -request.amount⟩,
    ⟨.userAvailable, some request.userID, request.asset, request.amount⟩]

def withdrawalPostings (request : TransferRequest) : List PostingInput :=
  [⟨.userLocked, some request.userID, request.asset, -(request.amount + request.feeAmount)⟩,
    ⟨externalAccountType request, none, request.asset, request.amount⟩] ++
  if 0 < request.feeAmount then [⟨.feeIncome, none, request.feeAsset, request.feeAmount⟩] else []

def refundPostings (request : TransferRequest) : List PostingInput :=
  [⟨.userLocked, some request.userID, request.asset, -(request.amount + request.feeAmount)⟩,
    ⟨.userAvailable, some request.userID, request.asset, request.amount + request.feeAmount⟩]

/-- Only a failed deposit has no journal. -/
def recordConfirmationJournal (request : TransferRequest) (outcome : TransferOutcome) :
    Except DomainError (Bank × Option Nat) :=
  match request.externalRef with
  | none => .error ⟨.other, s!"transfer request {request.id} is PROCESSING without an external_ref"⟩
  | some ref =>
    match request.direction, outcome with
    | .deposit, .success => do
      let (b, id) ← recordTransfer b (.depositSettle ref) .deposit request.id
        (depositPostings request)
      return (b, some id)
    | .deposit, .failure => .ok (b, none)
    | .withdrawal, .success => do
      let (b, id) ← recordTransfer b (.withdrawSettle ref) .withdrawal request.id
        (withdrawalPostings request)
      return (b, some id)
    | .withdrawal, .failure => do
      let (b, id) ← recordTransfer b (.withdrawRefund ref) .withdrawal request.id
        (refundPostings request)
      return (b, some id)
    | _, _ => .error ⟨.other, "unhandled direction/outcome combination"⟩

def confirmTerminal (request : TransferRequest) (input : ResolveInput) :
    Except DomainError Bank := do
  let (b, journalID) ← recordConfirmationJournal b request input.outcome
  let status := if input.outcome = .success then .completed else .failed
  let failureReason := if input.outcome = .success then "" else input.reason.getD ""
  return updateTransfer b request.id fun r =>
    { r with
      status := status, resolutionJournalID := journalID, reviewReason := none
      failureReason := failureReason }

def matchesTerminalOutcome (status : TransferStatus) (outcome : TransferOutcome) : Bool :=
  (status == .completed && outcome == .success) || (status == .failed && outcome == .failure)

def setReviewRequired (id : Nat) (reason : String) : Bank :=
  updateTransfer b id fun r => { r with reviewReason := some reason }

/-- Money moves only for a request that is out and not yet resolved. -/
def resolveTransfer (input : ResolveInput) : Except DomainError Bank :=
  if !input.outcome.isTerminal then .error ⟨.other, "ResolveTransfer requires a terminal outcome"⟩
  else if input.transferRequestID = 0 ∨ input.eventKey = "" then
    .error ⟨.other, "transfer_request_id and event_key are required"⟩
  else do
    let request ← lockByID b input.transferRequestID
    if input.eventKey ∈ b.transferEvents.map TransferStatusEvent.eventKey then .ok b
    else
      let event := ⟨request.id, input.eventKey, input.outcome⟩
      let b := { b with transferEvents := b.transferEvents ++ [event] }
      match request.status with
      | .received => .ok (setReviewRequired b request.id "TERMINAL_BEFORE_DISPATCH")
      | .processing => confirmTerminal b request input
      | status =>
        if matchesTerminalOutcome status input.outcome then .ok b
        else .ok (setReviewRequired b request.id "CONFLICTING_TERMINAL_OUTCOME")

end GoExchange.Service
