import GoExchange.Decimal
import GoExchange.Tally
import Mathlib.Data.List.Sort

/-!
# The double-entry ledger

`account_repository.go`, `journal_repository.go` and `ledger_service.go` over
the four tables they write, with the constraints of migration 009 as errors of
the statement that breaks them. A statement takes its ids from a sequence,
which also moves on for rows that are not inserted. Timestamps are left out.
-/
namespace GoExchange.Ledger

open Tally

/-! ## The tables -/

inductive AccountType where
  | userAvailable | userLocked | feeIncome | externalBank | externalChain | devMint | unknown
  deriving DecidableEq, Repr

def AccountType.name : AccountType → String
  | .userAvailable => "USER_AVAILABLE"
  | .userLocked => "USER_LOCKED"
  | .feeIncome => "FEE_INCOME"
  | .externalBank => "EXTERNAL_BANK"
  | .externalChain => "EXTERNAL_CHAIN"
  | .devMint => "DEV_MINT"
  | .unknown => ""

def isSystemAccountType : AccountType → Bool
  | .feeIncome | .externalBank | .externalChain | .devMint => true
  | _ => false

def allowsNegativeBalance : AccountType → Bool
  | .externalBank | .externalChain | .devMint => true
  | _ => false

inductive JournalEventType where
  | deposit | withdrawal | orderHold | orderRelease | trade | devFund | reversal | missing | unknown
  deriving DecidableEq, Repr

inductive JournalReferenceType where
  | order | trade | transfer | devFund | missing | unknown
  deriving DecidableEq, Repr

/-- What makes an account unique; a missing owner counts as 0. -/
structure AccountKey where
  accountType : AccountType
  ownerUserID : Nat
  asset : String
  deriving DecidableEq, Repr

def newAccountKey (accountType : AccountType) (ownerUserID : Option Nat) (asset : String) :
    AccountKey :=
  ⟨accountType, ownerUserID.getD 0, asset⟩

structure Account where
  id : Nat
  accountType : AccountType
  ownerUserID : Option Nat
  asset : String
  allowsNegative : Bool
  deriving DecidableEq, Repr

def Account.key (a : Account) : AccountKey := newAccountKey a.accountType a.ownerUserID a.asset

structure AccountBalance where
  accountID : Nat
  balance : Decimal
  lastPostingID : Nat
  deriving DecidableEq, Repr

structure JournalEntry where
  id : Nat
  eventType : JournalEventType
  idempotencyKey : String
  referenceType : JournalReferenceType
  referenceID : Nat
  reversesJournalID : Option Nat
  deriving DecidableEq, Repr

structure Posting where
  id : Nat
  journalID : Nat
  accountID : Nat
  asset : String
  amount : Decimal
  deriving DecidableEq, Repr

/-- The tables, and the last value each id sequence has given. -/
structure Tables where
  accounts : List Account
  balances : List AccountBalance
  journals : List JournalEntry
  postings : List Posting
  accountSeq : Nat
  journalSeq : Nat
  postingSeq : Nat
  deriving DecidableEq, Repr

def empty : Tables := ⟨[], [], [], [], 0, 0, 0⟩

/-- A statement that the database refuses. -/
def refused (constraint : String) : DomainError := ⟨.other, constraint⟩

variable (t : Tables)

/-! ## Accounts -/

structure AccountSpec where
  accountType : AccountType
  ownerUserID : Option Nat
  asset : String
  deriving DecidableEq, Repr

def AccountSpec.key (s : AccountSpec) : AccountKey :=
  newAccountKey s.accountType s.ownerUserID s.asset

/-- The order in which new accounts are inserted. -/
def AccountSpec.before (s s' : AccountSpec) : Prop :=
  if s.accountType ≠ s'.accountType then s.accountType.name < s'.accountType.name
  else if s.key.ownerUserID ≠ s'.key.ownerUserID then s.key.ownerUserID < s'.key.ownerUserID
  else s.asset ≤ s'.asset

instance : DecidableRel AccountSpec.before := fun s s' => by
  unfold AccountSpec.before; infer_instance

/-- The first of the specs with one key stays. -/
def unique (specs : List AccountSpec) : List AccountSpec :=
  specs.foldl (fun seen s => if s.key ∈ seen.map AccountSpec.key then seen else seen ++ [s]) []

/-- One row of the insert, which does nothing if the key is taken. -/
def insertAccount (s : AccountSpec) : Except DomainError Tables :=
  if s.accountType = .unknown then .error (refused "accounts_type_check")
  else if isSystemAccountType s.accountType ≠ s.ownerUserID.isNone then
    .error (refused "accounts_owner_presence_check")
  else if 16 < s.asset.length then .error (refused "value too long for type character varying(16)")
  else
    let id := t.accountSeq + 1
    if s.key ∈ t.accounts.map Account.key then .ok { t with accountSeq := id }
    else
      let row := ⟨id, s.accountType, s.ownerUserID, s.asset, allowsNegativeBalance s.accountType⟩
      .ok { t with accountSeq := id, accounts := t.accounts ++ [row] }

def findBySpecs (specs : List AccountSpec) : List Account :=
  t.accounts.filter fun a => a.key ∈ specs.map AccountSpec.key

def ensureBalanceRow (id : Nat) : Tables :=
  if id ∈ t.balances.map AccountBalance.accountID then t
  else { t with balances := t.balances ++ [⟨id, 0, 0⟩] }

def ensureBalanceRows (ids : List Nat) : Tables := ids.foldl ensureBalanceRow t

def ensureAccounts (specs : List AccountSpec) : Except DomainError (Tables × List Account) := do
  let specs := (unique specs).insertionSort AccountSpec.before
  let t ← specs.foldlM insertAccount t
  let accounts := findBySpecs t specs
  if accounts.length ≠ specs.length then
    .error ⟨.other, s!"ensure accounts expected {specs.length} rows, found {accounts.length}"⟩
  else
    return (ensureBalanceRows t ((accounts.map Account.id).insertionSort (· ≤ ·)), accounts)

def lockBalances (accountIDs : List Nat) : Except DomainError (List AccountBalance) :=
  let balances := (t.balances.filter fun b => b.accountID ∈ accountIDs).insertionSort
    fun b b' => b.accountID ≤ b'.accountID
  if balances.length ≠ accountIDs.length then
    .error ⟨.other, s!"balance lock expected {accountIDs.length} rows, locked {balances.length}"⟩
  else .ok balances

/-! ## Journals and postings -/

/-- `InsertOrGet`: the entry's row and whether it is new. Only a conflict on the key is passed over.
-/
def insertOrGet (entry : JournalEntry) : Except DomainError (Tables × JournalEntry × Bool) :=
  let row := { entry with id := t.journalSeq + 1 }
  if entry.eventType = .missing ∨ entry.eventType = .unknown then
    .error (refused "journal_entries_event_type_check")
  else if entry.referenceType = .missing ∨ entry.referenceType = .unknown then
    .error (refused "journal_entries_reference_type_check")
  else if (entry.eventType = .reversal) ≠ (entry.reversesJournalID.isSome = true) then
    .error (refused "journal_entries_reversal_pair_check")
  else if 160 < entry.idempotencyKey.length then
    .error (refused "value too long for type character varying(160)")
  else match t.journals.find? (·.idempotencyKey = entry.idempotencyKey) with
    | some existing => .ok ({ t with journalSeq := row.id }, existing, false)
    | none =>
      if entry.reversesJournalID.isSome ∧
          entry.reversesJournalID ∈ t.journals.map JournalEntry.reversesJournalID then
        .error (refused "idx_journal_entries_reverses")
      else if entry.reversesJournalID.any (· ∉ (t.journals ++ [row]).map JournalEntry.id) then
        .error (refused "journal_entries_reverses_fk")
      else .ok ({ t with journalSeq := row.id, journals := t.journals ++ [row] }, row, true)

/-- The rows with the ids that follow `seq`. -/
def numbered (seq : Nat) : List Posting → List Posting
  | [] => []
  | p :: ps => { p with id := seq + 1 } :: numbered (seq + 1) ps

def createPostings (postings : List Posting) : Except DomainError (Tables × List Posting) :=
  let rows := numbered t.postingSeq postings
  if postings = [] then .error ⟨.other, "at least one posting is required"⟩
  else if rows.any (·.amount = 0) then .error (refused "postings_amount_nonzero_check")
  else if rows.any (·.journalID ∉ t.journals.map JournalEntry.id) then
    .error (refused "postings_journal_fk")
  else if rows.any (·.accountID ∉ t.accounts.map Account.id) then
    .error (refused "postings_account_fk")
  else .ok ({ t with postings := t.postings ++ rows, postingSeq := t.postingSeq + rows.length },
    rows)

structure BalanceDelta where
  accountID : Nat
  delta : Decimal
  lastPostingID : Nat
  deriving DecidableEq, Repr

/-- The row after the update, if the update names it. -/
def AccountBalance.apply (b : AccountBalance) (deltas : List BalanceDelta) : AccountBalance :=
  match deltas.find? (·.accountID = b.accountID) with
  | some d =>
    { b with balance := b.balance + d.delta, lastPostingID := max b.lastPostingID d.lastPostingID }
  | none => b

def applyBalanceDeltas (deltas : List BalanceDelta) : Except DomainError Tables :=
  let affected :=
    (t.balances.filter fun b => b.accountID ∈ deltas.map BalanceDelta.accountID).length
  if affected ≠ deltas.length then
    .error ⟨.other, s!"balance delta update affected {affected} rows, expected {deltas.length}"⟩
  else .ok { t with balances := t.balances.map fun b => b.apply deltas }

def findPostingsByJournalID (journalID : Nat) : List Posting :=
  t.postings.filter (·.journalID = journalID)

/-! ## The service -/

structure PostingInput where
  accountType : AccountType
  ownerUserID : Option Nat
  asset : String
  amount : Decimal
  deriving DecidableEq, Repr

def PostingInput.spec (p : PostingInput) : AccountSpec := ⟨p.accountType, p.ownerUserID, p.asset⟩

def PostingInput.key (p : PostingInput) : AccountKey :=
  newAccountKey p.accountType p.ownerUserID p.asset

structure JournalInput where
  eventType : JournalEventType
  idempotencyKey : String
  referenceType : JournalReferenceType
  referenceID : Nat
  reversesJournalID : Option Nat
  postings : List PostingInput
  deriving DecidableEq, Repr

def validatePosting (p : PostingInput) : Except DomainError Unit :=
  if p.asset = "" then .error ⟨.validation, "posting asset is required"⟩
  else if p.amount = 0 then .error ⟨.validation, "posting amount must not be zero"⟩
  else if isSystemAccountType p.accountType ≠ p.ownerUserID.isNone then
    .error ⟨.validation, s!"account {p.accountType.name} has the wrong owner"⟩
  else .ok ()

def validateJournalInput (input : JournalInput) : Except DomainError Unit :=
  if input.idempotencyKey = "" then .error ⟨.validation, "idempotency key is required"⟩
  else if input.eventType = .missing then .error ⟨.validation, "event type is required"⟩
  else if input.referenceType = .missing then .error ⟨.validation, "reference type is required"⟩
  else if input.postings.length < 2 then
    .error ⟨.validation, "a journal needs at least two postings"⟩
  else if (input.eventType = .reversal) ≠ (input.reversesJournalID.isSome = true) then
    .error ⟨.validation, "only a reversal may reference an original journal"⟩
  else do
    input.postings.forM validatePosting
    let sums := tally PostingInput.asset PostingInput.amount input.postings
    match (input.postings.map PostingInput.asset).find? (sums · ≠ 0) with
    | some asset =>
      .error ⟨.validation, s!"journal does not balance for {asset}: {(sums asset).string}"⟩
    | none => .ok ()

/-- A posting by what it says: which account, and how much. -/
structure PostingTuple extends AccountKey where
  amount : String
  deriving DecidableEq, Repr

/-- The comparison of `sortPostingTuples`; account types and amounts are compared as texts. -/
def PostingTuple.less (a b : PostingTuple) : Bool :=
  if a.accountType ≠ b.accountType then a.accountType.name < b.accountType.name
  else if a.ownerUserID ≠ b.ownerUserID then a.ownerUserID < b.ownerUserID
  else if a.asset ≠ b.asset then a.asset < b.asset
  else a.amount < b.amount

/-- `sort.Slice`: no later tuple is less than an earlier one. -/
def sortPostingTuples (tuples : List PostingTuple) : List PostingTuple :=
  tuples.insertionSort fun a b => b.less a = false

/-- The accounts of stored postings, looked up by id. -/
def accountOf (p : Posting) : Except DomainError Account :=
  match t.accounts.find? (·.id = p.accountID) with
  | some a => .ok a
  | none => .error ⟨.other, s!"account {p.accountID} referenced by posting {p.id} is missing"⟩

def assertSameJournal (existing : JournalEntry) (input : JournalInput) : Except DomainError Unit :=
  let key := input.idempotencyKey
  if existing.eventType ≠ input.eventType ∨ existing.referenceType ≠ input.referenceType ∨
      existing.referenceID ≠ input.referenceID ∨
      existing.reversesJournalID ≠ input.reversesJournalID then
    .error ⟨.conflict, s!"idempotency key {key.quote} was used for a different event"⟩
  else
    let stored := findPostingsByJournalID t existing.id
    if stored.length ≠ input.postings.length then
      .error ⟨.conflict,
        s!"idempotency key {key.quote} was used with a different number of postings"⟩
    else do
      let stored ← stored.mapM fun p => do
        let a ← accountOf t p
        return (⟨newAccountKey a.accountType a.ownerUserID p.asset, p.amount.string⟩ : PostingTuple)
      let incoming := input.postings.map fun p => (⟨p.key, p.amount.string⟩ : PostingTuple)
      -- the order of the postings is not part of the contract
      if ((sortPostingTuples stored).zip (sortPostingTuples incoming)).any fun (x, y) => x ≠ y then
        .error ⟨.conflict, s!"idempotency key {key.quote} was used with different postings"⟩
      else .ok ()

/-- The posting row of an input, at the account provisioned for it. -/
def postingRow (journalID : Nat) (accounts : List Account) (p : PostingInput) :
    Except DomainError Posting :=
  match accounts.find? (·.key = p.key) with
  | some a => .ok ⟨0, journalID, a.id, p.asset, p.amount⟩
  | none => .error ⟨.other, s!"account {p.accountType.name}/{p.asset} was not provisioned"⟩

/-- The loop that keeps the greatest posting id of each account. -/
def lastPostingByAccount (postings : List Posting) : Nat → Nat :=
  postings.foldl (fun m p => if m p.accountID < p.id then Function.update m p.accountID p.id else m)
    fun _ => 0

def checkNegative (accounts : List Account) (delta : Nat → Decimal) (b : AccountBalance) :
    Except DomainError Unit :=
  let next := b.balance + delta b.accountID
  let allowsNegative := (accounts.find? (·.id = b.accountID)).any Account.allowsNegative
  if next < 0 ∧ allowsNegative = false then
    .error ⟨.conflict, s!"account {b.accountID} would go negative ({next.string})"⟩
  else .ok ()

/-- What `Record` does for an entry that is new: accounts, postings and balances. -/
def post (journalID : Nat) (inputs : List PostingInput) : Except DomainError Tables := do
  let (t, accounts) ← ensureAccounts t (inputs.map PostingInput.spec)
  let postings ← inputs.mapM (postingRow journalID accounts)
  let delta := tally Posting.accountID Posting.amount postings
  let accountIDs := ((postings.map Posting.accountID).dedup).insertionSort (· ≤ ·)
  let balances ← lockBalances t accountIDs
  balances.forM (checkNegative accounts delta)
  let (t, postings) ← createPostings t postings
  let last := lastPostingByAccount postings
  applyBalanceDeltas t (accountIDs.map fun id => ⟨id, delta id, last id⟩)

def record (input : JournalInput) : Except DomainError (Tables × JournalEntry × Bool) := do
  validateJournalInput input
  let entry := ⟨0, input.eventType, input.idempotencyKey, input.referenceType, input.referenceID,
    input.reversesJournalID⟩
  let (t, entry, created) ← insertOrGet t entry
  if created then
    let t ← post t entry.id input.postings
    return (t, entry, true)
  else
    assertSameJournal t entry input
    return (t, entry, false)

def reverse (journalID : Nat) : Except DomainError (Tables × JournalEntry) :=
  match t.journals.find? (·.id = journalID) with
  | none => .error ⟨.other, "record not found"⟩
  | some source => do
    let original := findPostingsByJournalID t journalID
    if original = [] then
      .error ⟨.validation, s!"journal {journalID} has no postings to reverse"⟩
    else
      let postings ← original.mapM fun p => do
        let a ← accountOf t p
        return (⟨a.accountType, a.ownerUserID, p.asset, -p.amount⟩ : PostingInput)
      let (t, entry, _) ← record t ⟨.reversal, s!"reversal:{journalID}", source.referenceType,
        source.referenceID, some journalID, postings⟩
      return (t, entry)

/-- The balance under a key, zero where there is no account: a line of `ListUserBalances`. -/
def balanceOf (k : AccountKey) : Decimal :=
  match t.accounts.find? (·.key = k) with
  | none => 0
  | some a => (t.balances.find? (·.accountID = a.id)).elim 0 AccountBalance.balance

/-! ## Runs -/

/-- A call of the service, or sequence values lost by calls that were rolled back. -/
inductive Call where
  | record (input : JournalInput)
  | reverse (journalID : Nat)
  | lost (accountIDs journalIDs postingIDs : Nat)
  deriving DecidableEq, Repr

/-- A failing call leaves the tables as they were. -/
def step (call : Call) (t : Tables) : Option Tables :=
  match call with
  | .record input =>
    match record t input with
    | .ok (t', _) => some t'
    | .error _ => some t
  | .reverse journalID =>
    match reverse t journalID with
    | .ok (t', _) => some t'
    | .error _ => some t
  | .lost a j p =>
    some { t with
      accountSeq := t.accountSeq + a, journalSeq := t.journalSeq + j,
      postingSeq := t.postingSeq + p }

end GoExchange.Ledger
