import GoExchange.Failures

/-!
# The hold coordinator

`order_idempotency_repository.go` and `hold_coordinator.go`: requests for an
order are held in batches of one transaction, and one by one where that
transaction failed. The lists of indices of the source are kept as lists of the
requests in the same order. The length check of migration 008 is left out: a
key that was normalized passes it.
-/
namespace GoExchange.Service

open Ledger Rows

/-! ## The table of idempotency keys -/

inductive OrderIdempotencyOutcome where
  | pending | accepted | rejected | unknown
  deriving DecidableEq, Repr

structure OrderIdempotencyKey where
  id : Nat
  userID : Nat
  idempotencyKey : String
  fingerprint : String
  fingerprintVersion : Nat
  orderID : Option Nat
  outcome : OrderIdempotencyOutcome
  deriving DecidableEq, Repr

structure UserKeyPair where
  userID : Nat
  key : String
  deriving DecidableEq, Repr

/-- The columns that are unique together. -/
def OrderIdempotencyKey.pair (record : OrderIdempotencyKey) : UserKeyPair :=
  ⟨record.userID, record.idempotencyKey⟩

/-- The store with the table of keys. -/
structure Intake extends Store where
  keys : List OrderIdempotencyKey
  keySeq : Nat
  deriving DecidableEq, Repr

/-- Sequence values that a transaction took before it was rolled back. -/
structure Gap where
  orderIDs : Nat
  keyIDs : Nat
  accountIDs : Nat
  journalIDs : Nat
  postingIDs : Nat
  deriving DecidableEq, Repr

/-- A rollback restores the tables and not the sequences. -/
def Intake.rollback (s : Intake) (gap : Gap) : Intake :=
  { s with
    orderSeq := s.orderSeq + gap.orderIDs
    keySeq := s.keySeq + gap.keyIDs
    ledger := { s.ledger with
      accountSeq := s.ledger.accountSeq + gap.accountIDs
      journalSeq := s.ledger.journalSeq + gap.journalIDs
      postingSeq := s.ledger.postingSeq + gap.postingIDs } }

variable (s : Intake)

/-- One row of `InsertNew`, which does nothing if the user has used the key: the record keeps the id
0 then. -/
def insertKey (record : OrderIdempotencyKey) : Intake × OrderIdempotencyKey :=
  let id := s.keySeq + 1
  if record.pair ∈ s.keys.map OrderIdempotencyKey.pair then ({ s with keySeq := id }, record)
  else ({ s with keySeq := id, keys := s.keys ++ [{ record with id := id }] },
    { record with id := id })

/-- The records with the ids of the rows that were inserted for them. -/
def insertNew (s : Intake) : List OrderIdempotencyKey → Intake × List OrderIdempotencyKey
  | [] => (s, [])
  | record :: records =>
    let (s, record) := insertKey s record
    let (s, records) := insertNew s records
    (s, record :: records)

def findByUserKeys (pairs : List UserKeyPair) : List OrderIdempotencyKey :=
  s.keys.filter fun record => record.pair ∈ pairs

def setOrderAndOutcome (id orderID : Nat) (outcome : OrderIdempotencyOutcome) :
    Except DomainError Intake :=
  if id ∉ s.keys.map OrderIdempotencyKey.id then
    .error ⟨.other, s!"set order and outcome affected 0 rows for idempotency key {id}, expected 1"⟩
  else .ok { s with
    keys := modify OrderIdempotencyKey.id id
      (fun r => { r with orderID := some orderID, outcome := outcome }) s.keys }

def deleteByIDs (ids : List Nat) : Except DomainError Intake :=
  let removed := (s.keys.filter fun r => r.id ∈ ids).length
  if ids = [] then .ok s
  else if 0 ∈ ids then
    .error ⟨.other, s!"refusing to delete idempotency keys: id 0 in {ids.length} ids"⟩
  else if removed ≠ ids.dedup.length then
    .error ⟨.other, s!"delete idempotency keys removed {removed} rows, expected {ids.dedup.length}"⟩
  else .ok { s with keys := s.keys.filter fun r => r.id ∉ ids }

/-! ## Requests and results -/

structure IdempotencyContext where
  key : String
  fingerprint : String
  version : Nat
  /-- Zero until the key is inserted. -/
  recordID : Nat
  deriving DecidableEq, Repr

/-- `resultCh` names the channel on which the caller waits. -/
structure HoldRequest where
  order : OrderRow
  idem : Option IdempotencyContext
  resultCh : Nat
  deriving DecidableEq, Repr

inductive HoldRole where
  | owner | follower
  deriving DecidableEq, Repr

/-- `recordID` is what the request's own context holds afterwards; the caller reads it there. -/
structure HoldResult where
  order : Option OrderRow := none
  err : Option DomainError := none
  role : HoldRole := .owner
  existing : Option OrderIdempotencyKey := none
  recordID : Nat := 0
  deriving DecidableEq, Repr

namespace HoldRequest

variable (req : HoldRequest)

def groupKey : Option UserKeyPair := req.idem.map fun idem => ⟨req.order.userID, idem.key⟩

def recordID : Nat := (req.idem.map IdempotencyContext.recordID).getD 0

def withRecordID (id : Nat) : HoldRequest :=
  { req with idem := req.idem.map ({ · with recordID := id }) }

/-- The ids that a rolled-back transaction wrote are taken out again. -/
def reset : HoldRequest := { req.withRecordID 0 with order := { req.order with id := 0 } }

/-- The record to insert for a request that has a key. -/
def newRecord : Option OrderIdempotencyKey := req.idem.map fun idem =>
  ⟨0, req.order.userID, idem.key, idem.fingerprint, idem.version, none, .pending⟩

end HoldRequest

def availableKeyOf (order : OrderRow) : AccountKey :=
  newAccountKey .userAvailable (some order.userID) (orderHoldAsset order)

/-! ## Duplicates within a batch -/

inductive Grouping where
  | owner
  | follower (leader : Nat)
  | conflict
  deriving DecidableEq, Repr

/-- An entry of the map `first`. -/
structure Leader where
  groupKey : UserKeyPair
  index : Nat
  fingerprint : String
  deriving DecidableEq, Repr

/-- The loop of `groupIdempotentRequests` at index `i`. -/
def groupFrom (first : List Leader) (i : Nat) : List HoldRequest → List Grouping
  | [] => []
  | req :: reqs =>
    match req.idem with
    | none => .owner :: groupFrom first (i + 1) reqs
    | some idem =>
      match first.find? (·.groupKey = ⟨req.order.userID, idem.key⟩) with
      | none =>
        .owner :: groupFrom (first ++ [⟨⟨req.order.userID, idem.key⟩, i, idem.fingerprint⟩])
          (i + 1) reqs
      | some leader =>
        (if leader.fingerprint = idem.fingerprint then .follower leader.index else .conflict) ::
          groupFrom first (i + 1) reqs

def groupIdempotentRequests (reqs : List HoldRequest) : List Grouping := groupFrom [] 0 reqs

def ownersOf : List Grouping → List HoldRequest → List HoldRequest
  | .owner :: groups, req :: reqs => req :: ownersOf groups reqs
  | _ :: groups, _ :: reqs => ownersOf groups reqs
  | _, _ => []

def conflictResult : HoldResult :=
  { err := some ⟨.conflict, "idempotency key reused with a different request"⟩ }

/-- A duplicate gets what its leader got, but as a follower. -/
def HoldResult.followed (result : HoldResult) : HoldResult :=
  { result with role := .follower, recordID := 0 }

/-- The results by request, from those of the owners. A leader stands before its followers, among
the results that are `done`. -/
def applyFollowerResults (done : List HoldResult) :
    List Grouping → List HoldResult → List HoldResult
  | .owner :: groups, result :: results => applyFollowerResults (done ++ [result]) groups results
  | .owner :: groups, [] => applyFollowerResults (done ++ [{}]) groups []
  | .follower leader :: groups, results =>
    applyFollowerResults (done ++ [(done.getD leader {}).followed]) groups results
  | .conflict :: groups, results => applyFollowerResults (done ++ [conflictResult]) groups results
  | [], _ => done

/-! ## The transaction of a batch -/

/-- What became of an owner's key. `lost` is a key that the lookup did not find again. -/
inductive Claim where
  | active (req : HoldRequest)
  | existing (record : OrderIdempotencyKey)
  | lost
  deriving DecidableEq, Repr

/-- The second loop of `claimIdempotencyKeys`, over the owners and the records of those that have a
key. -/
def claimsOf (found : List OrderIdempotencyKey) :
    List HoldRequest → List OrderIdempotencyKey → List Claim
  | [], _ => []
  | req :: reqs, records =>
    match req.idem, records with
    | none, records => .active req :: claimsOf found reqs records
    | some _, [] => .lost :: claimsOf found reqs []
    | some _, record :: records =>
      (if record.id ≠ 0 then .active (req.withRecordID record.id)
        else (found.find? (·.pair = record.pair)).elim .lost .existing) ::
          claimsOf found reqs records

def claimIdempotencyKeys (owners : List HoldRequest) : Except DomainError (Intake × List Claim) :=
  let (s, records) := insertNew s (owners.filterMap HoldRequest.newRecord)
  let lookup := (records.filter (·.id = 0)).map OrderIdempotencyKey.pair
  let found := findByUserKeys s lookup
  if found.length ≠ lookup.length then
    .error ⟨.other, s!"idempotency lookup found {found.length} of {lookup.length} existing keys"⟩
  else .ok (s, claimsOf found owners records)

def activeOf : List Claim → List HoldRequest
  | .active req :: claims => req :: activeOf claims
  | _ :: claims => activeOf claims
  | [] => []

/-- The accounts to lock: what is taken from and what is added to. -/
def holdSpecs (active : List HoldRequest) : List AccountSpec :=
  active.flatMap fun req =>
    [⟨.userAvailable, some req.order.userID, orderHoldAsset req.order⟩,
      ⟨.userLocked, some req.order.userID, orderHoldAsset req.order⟩]

/-- The map `available` of the balances that were locked. -/
def availableOf (accounts : List Account) (balances : List AccountBalance) (accountID : Nat) :
    Decimal :=
  if accounts.any fun a => a.id = accountID ∧ a.accountType = .userAvailable then
    (balances.find? (·.accountID = accountID)).elim 0 AccountBalance.balance
  else 0

/-- The fold over the requests: each is refused, or what it holds is taken off for the next. -/
def checkHolds (accounts : List Account) (available : Nat → Decimal) :
    List HoldRequest → List (Option DomainError)
  | [] => []
  | req :: reqs =>
    match accounts.find? (·.key = availableKeyOf req.order) with
    | none =>
      some ⟨.conflict, "insufficient available balance"⟩ :: checkHolds accounts available reqs
    | some account =>
      let remaining := available account.id - holdAmountFor req.order
      if remaining < 0 then some (insufficientBalanceError req.order.side) ::
        checkHolds accounts available reqs
      else none :: checkHolds accounts (Function.update available account.id remaining) reqs

def passing : List HoldRequest → List (Option DomainError) → List HoldRequest
  | req :: reqs, none :: errs => req :: passing reqs errs
  | _ :: reqs, some _ :: errs => passing reqs errs
  | _, _ => []

def failedRecordIDs : List HoldRequest → List (Option DomainError) → List Nat
  | req :: reqs, some _ :: errs =>
    if req.recordID ≠ 0 then req.recordID :: failedRecordIDs reqs errs
    else failedRecordIDs reqs errs
  | _ :: reqs, none :: errs => failedRecordIDs reqs errs
  | _, _ => []

/-- `OrderRepository.CreateOrder`: a row without an id gets the next one. -/
def insertOrder (s : Store) (order : OrderRow) : Except DomainError (Store × OrderRow) :=
  if order.id = 0 then
    let order := { order with id := s.orderSeq + 1 }
    .ok ({ s with orderSeq := order.id, orders := s.orders ++ [order] }, order)
  else if order.id ∈ s.orders.map OrderRow.id then .error (refused "orders_pkey")
  else .ok ({ s with orders := s.orders ++ [order] }, order)

/-- `CreateOrders`: the requests with the ids of their rows. -/
def insertOrders (s : Store) : List HoldRequest → Except DomainError (Store × List HoldRequest)
  | [] => .ok (s, [])
  | req :: reqs => do
    let (s, order) ← insertOrder s req.order
    let (s, reqs) ← insertOrders s reqs
    return (s, { req with order := order } :: reqs)

/-- The record of a held order is tied to it. -/
def setOutcomeOf (s : Intake) (req : HoldRequest) : Except DomainError Intake :=
  match req.idem with
  | none => .ok s
  | some idem => setOrderAndOutcome s idem.recordID req.order.id .pending

/-- The orders that passed are stored and held, and their records tied to them. -/
def holdPassing (s : Intake) (reqs : List HoldRequest) :
    Except DomainError (Intake × List HoldRequest) := do
  let (store, reqs) ← insertOrders s.toStore reqs
  let store ← reqs.foldlM (fun store req => holdOrderAssets store req.order) store
  let s ← reqs.foldlM setOutcomeOf { s with toStore := store }
  return (s, reqs)

/-- The owners' results from their claims, the fold's verdicts on the active ones and the requests
that were held. -/
def ownerResults : List Claim → List (Option DomainError) → List HoldRequest → List HoldResult
  | .existing record :: claims, errs, held =>
    { role := .follower, existing := some record } :: ownerResults claims errs held
  | .lost :: claims, errs, held => {} :: ownerResults claims errs held
  | .active _ :: claims, some e :: errs, held => { err := some e } :: ownerResults claims errs held
  | .active _ :: claims, none :: errs, req :: held =>
    { order := some req.order, recordID := req.recordID } :: ownerResults claims errs held
  | .active _ :: claims, errs, held => {} :: ownerResults claims errs held
  | [], _, _ => []

/-- The transaction of `HoldBatch`, over the owners. -/
def holdOwners (owners : List HoldRequest) : Except DomainError (Intake × List HoldResult) := do
  let (s, claims) ← claimIdempotencyKeys s owners
  let active := activeOf claims
  let (ledger, accounts) ← ensureAccounts s.ledger (holdSpecs active)
  let balances ← lockBalances ledger ((accounts.map Account.id).insertionSort (· ≤ ·))
  let errs := checkHolds accounts (availableOf accounts balances) active
  let s ← deleteByIDs { s with ledger := ledger } (failedRecordIDs active errs)
  let (s, held) ← holdPassing s (passing active errs)
  return (s, ownerResults claims errs held)

def holdBatch (reqs : List HoldRequest) : Except DomainError (Intake × List HoldResult) := do
  let groups := groupIdempotentRequests reqs
  let (s, results) ← holdOwners s (ownersOf groups reqs)
  return (s, applyFollowerResults [] groups results)

/-! ## One by one -/

/-- The transaction of `persistAndHoldIdempotent` for a request that has a key. -/
def holdKeyed (req : HoldRequest) (record : OrderIdempotencyKey) :
    Except DomainError (Intake × HoldResult) :=
  let (s, record) := insertKey s record
  if record.id = 0 then
    match findByUserKeys s [record.pair] with
    | [existing] => .ok (s, { role := .follower, existing := some existing })
    | found => .error ⟨.other, s!"idempotency lookup found {found.length} rows for an existing key"⟩
  else do
    let (store, order) ← insertOrder s.toStore req.order
    let store ← holdOrderAssets store order
    let s ← setOrderAndOutcome { s with toStore := store } record.id order.id .pending
    return (s, { order := some order, recordID := record.id })

/-- The transaction of a request, with its result. -/
def holdOne (req : HoldRequest) : Except DomainError (Intake × HoldResult) :=
  match req.newRecord with
  | none => do
    let (store, order) ← persistAndHold s.toStore req.order
    return ({ s with toStore := store }, { order := some order })
  | some record => holdKeyed s req record

/-- The result of a failed transaction: without a key the order keeps the id of the row that was
rolled back. -/
def failedResult (req : HoldRequest) (e : DomainError) : HoldResult :=
  { order := some { req.order with id := if req.idem.isNone then s.orderSeq + 1 else 0 },
    err := some e }

/-- `persistAndHoldIdempotent`. -/
def persistAndHoldOne (gap : Gap) (req : HoldRequest) : Intake × HoldResult :=
  match holdOne s req with
  | .ok (s, result) => (s, result)
  | .error e => (s.rollback gap, failedResult s req e)

/-- `gap` says what each request's transaction takes from the sequences if it is rolled back. -/
def holdEach (gap : HoldRequest → Gap) (s : Intake) : List HoldRequest → Intake × List HoldResult
  | [] => (s, [])
  | req :: reqs =>
    let (s, result) := persistAndHoldOne s (gap req) req
    let (s, results) := holdEach gap s reqs
    (s, result :: results)

def fallbackPerRequest (gap : HoldRequest → Gap) (reqs : List HoldRequest) :
    Intake × List HoldResult :=
  let groups := groupIdempotentRequests reqs
  let (s, results) := holdEach gap s (ownersOf groups reqs)
  (s, applyFollowerResults [] groups results)

def saturated : DomainError := ⟨.unavailable, "order intake is saturated, please retry shortly"⟩

/-- A batch whose transaction fails is taken apart, unless the statement timed out. `gap` is what
the batch's transaction takes from the sequences if it is rolled back. -/
def processBatch (fault : Option Fault) (gap : Gap) (gaps : HoldRequest → Gap)
    (reqs : List HoldRequest) : Intake × List HoldResult :=
  match call fault s (holdBatch s reqs) with
  | (s, .ok results) => (s, results)
  | (s, .error e) =>
    if e = .database .queryCanceled then
      (s.rollback gap, reqs.map fun _ => { err := some saturated })
    else fallbackPerRequest (s.rollback gap) gaps (reqs.map HoldRequest.reset)

end GoExchange.Service
