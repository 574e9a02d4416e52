import GoExchange.HoldClaims
import GoExchange.HoldGroups
import GoExchange.LedgerView

/-!
# What a hold transaction writes

A committed transaction of the coordinator gives each owner one of three
verdicts: its key was taken, its hold is refused, or its order is stored, held
and tied to its key. The tables grow by the orders that were held, whether the
transaction was that of a batch or of one request.
-/
namespace GoExchange.Service

open Ledger Rows Fallible

variable {s s' : Intake} {store store' : Store} {req : HoldRequest}
  {reqs owners held : List HoldRequest}

/-! ## Orders and their holds -/

/-- The requests with the ids that follow `seq`. -/
def numberOrders (seq : Nat) : List HoldRequest → List HoldRequest
  | [] => []
  | req :: reqs =>
    { req with order := { req.order with id := seq + 1 } } :: numberOrders (seq + 1) reqs

theorem insertOrders_eq (h0 : ∀ req ∈ reqs, req.order.id = 0) :
    insertOrders store reqs = .ok ({ store with
      orderSeq := store.orderSeq + reqs.length
      orders := store.orders ++ (numberOrders store.orderSeq reqs).map HoldRequest.order },
      numberOrders store.orderSeq reqs) := by
  induction reqs generalizing store with
  | nil => simp [insertOrders, numberOrders]
  | cons req reqs ih =>
    rw [List.forall_mem_cons] at h0
    have hlen : store.orderSeq + 1 + reqs.length = store.orderSeq + (req :: reqs).length := by
      rw [List.length_cons]
      omega
    simp only [insertOrders, insertOrder, h0.1, if_true, bind, Except.bind, ih h0.2, hlen,
      numberOrders, List.map_cons, List.append_assoc]
    rfl

theorem numberOrders_ids (seq : Nat) (reqs : List HoldRequest) :
    ((numberOrders seq reqs).map fun r => r.order.id).Pairwise (· < ·) ∧
    ∀ r ∈ numberOrders seq reqs, seq < r.order.id ∧ r.order.id ≤ seq + reqs.length := by
  induction reqs generalizing seq with
  | nil => simp [numberOrders]
  | cons req reqs ih =>
    obtain ⟨hsorted, hids⟩ := ih (seq + 1)
    simp only [numberOrders, List.map_cons, List.pairwise_cons, List.forall_mem_map,
      List.forall_mem_cons, List.length_cons]
    refine ⟨⟨fun r hr => (hids r hr).1, hsorted⟩, by omega, fun r hr => ?_⟩
    have := hids r hr
    omega

/-- The journal of a hold. -/
def holdInput (order : OrderRow) : JournalInput :=
  ⟨.orderHold, (JournalKey.orderHold order.id).text, .order, order.id, none,
    orderHoldPostings order (holdAmountFor order)⟩

theorem holdOrderAssets_ok {order : OrderRow} (ht : Provisioned store.ledger)
    (hfresh : (JournalKey.orderHold order.id).text ∉
      store.ledger.journals.map JournalEntry.idempotencyKey)
    (h : holdOrderAssets store order = .ok store') : ∃ t', store' = { store with ledger := t' } ∧
      Wrote store.ledger t' (holdInput order) := by
  unfold holdOrderAssets at h
  obtain ⟨-, h⟩ := guard_eq_ok.mp h
  obtain ⟨-, h⟩ := guard_eq_ok.mp h
  obtain ⟨⟨t', entry, created⟩, hrecord, h⟩ := bind_eq_ok.mp (asInsufficientBalance_ok h)
  cases h
  exact ⟨t', rfl, (record_new ht hfresh hrecord).2.1⟩

/-- The key of an order's hold journal. -/
def holdKey (req : HoldRequest) : String := (JournalKey.orderHold req.order.id).text

theorem holdKey_ne {a b : HoldRequest} (h : a.order.id ≠ b.order.id) : holdKey a ≠ holdKey b :=
  fun he =>
  h (JournalKey.orderHold.inj (JournalKey.text_injective he))

/-- The holds of new orders: one journal each. -/
theorem holds_ok (ht : Provisioned store.ledger) (hn : (reqs.map fun r => r.order.id).Nodup)
    (hfresh : ∀ r ∈ reqs, holdKey r ∉ store.ledger.journals.map JournalEntry.idempotencyKey)
    (h : reqs.foldlM (fun store req => holdOrderAssets store req.order) store = .ok store') :
    ∃ t', store' = { store with ledger := t' } ∧ Provisioned t' ∧
      t'.journals.map JournalEntry.idempotencyKey =
        store.ledger.journals.map JournalEntry.idempotencyKey ++ reqs.map holdKey := by
  induction reqs generalizing store with
  | nil =>
    cases h
    exact ⟨store'.ledger, rfl, ht, by simp⟩
  | cons req reqs ih =>
    rw [List.forall_mem_cons] at hfresh
    rw [List.map_cons, List.nodup_cons] at hn
    rw [List.foldlM_cons] at h
    obtain ⟨mid, hmid, h⟩ := bind_eq_ok.mp h
    obtain ⟨t, rfl, hwrote⟩ := holdOrderAssets_ok ht hfresh.1 hmid
    have hkeys : t.journals.map JournalEntry.idempotencyKey =
        store.ledger.journals.map JournalEntry.idempotencyKey ++ [holdKey req] := by
      rw [hwrote.journals, List.map_append]
      rfl
    obtain ⟨t', rfl, ht', hjournals⟩ := ih hwrote.provisioned hn.2 (fun r hr => by
      have hne : r.order.id ≠ req.order.id := fun he => hn.1 (List.mem_map.mpr ⟨r, hr, he⟩)
      show holdKey r ∉ t.journals.map JournalEntry.idempotencyKey
      rw [hkeys, List.mem_append, List.mem_singleton, not_or]
      exact ⟨hfresh.2 r hr, holdKey_ne hne⟩) h
    refine ⟨t', rfl, ht', ?_⟩
    rw [hjournals]
    show t.journals.map JournalEntry.idempotencyKey ++ _ = _
    rw [hkeys, List.append_assoc]
    rfl

/-! ## Keys and their orders -/

/-- The row of a request whose order is stored. -/
def HoldRequest.tied (req : HoldRequest) : Option OrderIdempotencyKey :=
  req.record.map ({ · with orderID := some req.order.id })

/-- Each row is tied to the order of its request. -/
theorem setOutcomes_eq {keys : List OrderIdempotencyKey}
    (hn : ((keys ++ reqs.filterMap HoldRequest.record).map OrderIdempotencyKey.id).Nodup)
    (hkeys : s.keys = keys ++ reqs.filterMap HoldRequest.record) :
    reqs.foldlM setOutcomeOf s =
      .ok { s with keys := keys ++ reqs.filterMap HoldRequest.tied } := by
  induction reqs generalizing s keys with
  | nil =>
    rw [List.filterMap_nil, List.append_nil] at hkeys
    rw [List.foldlM_nil, List.filterMap_nil, List.append_nil, ← hkeys]
    rfl
  | cons req reqs ih =>
    rw [List.foldlM_cons]
    cases hidem : req.idem with
    | none =>
      have hrec : req.record = none := by rw [HoldRequest.record, HoldRequest.newRecord, hidem]; rfl
      have htied : req.tied = none := by rw [HoldRequest.tied, hrec]; rfl
      rw [List.filterMap_cons_none hrec] at hn hkeys
      rw [List.filterMap_cons_none htied, setOutcomeOf, hidem]
      exact ih hn hkeys
    | some idem =>
      obtain ⟨record, hrec, hid, hout⟩ : ∃ record, req.record = some record ∧
          record.id = idem.recordID ∧ record.outcome = .pending := by
        refine ⟨_, by rw [HoldRequest.record, HoldRequest.newRecord, hidem]; rfl, ?_, rfl⟩
        simp [HoldRequest.recordID, hidem]
      obtain ⟨row, hrow⟩ : ∃ row, row = { record with orderID := some req.order.id } := ⟨_, rfl⟩
      have htied : req.tied = some row := by rw [HoldRequest.tied, hrec, hrow]; rfl
      rw [List.filterMap_cons_some hrec] at hn hkeys
      have hmem : idem.recordID ∈ s.keys.map OrderIdempotencyKey.id := by
        rw [hkeys, ← hid]
        simp
      have hset : setOutcomeOf s req =
          .ok { s with keys := keys ++ [row] ++ reqs.filterMap HoldRequest.record } := by
        rw [setOutcomeOf, hidem]
        show setOrderAndOutcome s idem.recordID req.order.id .pending = _
        rw [setOrderAndOutcome, if_neg (not_not.mpr hmem), hkeys, ← hid, modify_append_cons hn,
          List.append_assoc, hrow, ← hout]
        rfl
      have hids :
          ((keys ++ [row] ++ reqs.filterMap HoldRequest.record).map
            OrderIdempotencyKey.id).Nodup := by
        rw [List.append_assoc, List.map_append, hrow] at *
        exact hn
      have hrest : reqs.foldlM setOutcomeOf
          { s with keys := keys ++ [row] ++ reqs.filterMap HoldRequest.record } =
          .ok { s with keys := keys ++ [row] ++ reqs.filterMap HoldRequest.tied } := ih hids rfl
      rw [hset, List.filterMap_cons_some htied]
      rw [List.append_assoc keys [row] (reqs.filterMap HoldRequest.tied)] at hrest
      exact hrest

/-! ## Verdicts -/

/-- The request after its key and its order were stored. -/
def HoldRequest.stored (req : HoldRequest) (recordID orderID : Nat) : HoldRequest :=
  { req.withRecordID recordID with order := { req.order with id := orderID } }

/-- What a committed transaction decides about an owner. -/
inductive Verdict where
  | existing (record : OrderIdempotencyKey)
  | refused (e : DomainError)
  | held (req : HoldRequest)
  deriving DecidableEq, Repr

def Verdict.result : Verdict → HoldResult
  | .existing record => { role := .follower, existing := some record }
  | .refused e => { err := some e }
  | .held req => { order := some req.order, recordID := req.recordID }

def Verdict.held? : Verdict → Option HoldRequest
  | .held req => some req
  | _ => none

/-- Which verdicts an owner can get, with the keys that were there before. -/
inductive Judged (keys : List OrderIdempotencyKey) (req : HoldRequest) : Verdict → Prop where
  | existing {record : OrderIdempotencyKey} :
    record ∈ keys → req.groupKey = some record.pair → Judged keys req (.existing record)
  | refused (e : DomainError) : Unclaimed keys req → Judged keys req (.refused e)
  | held (recordID orderID : Nat) : Unclaimed keys req →
      Judged keys req (.held (req.stored recordID orderID))

variable {errs : List (Option DomainError)} {claims : List Claim} {keys : List OrderIdempotencyKey}

/-- The verdicts on the owners, where the orders that pass are numbered from `seq`. -/
def verdictsOf (seq : Nat) : List Claim → List (Option DomainError) → List Verdict
  | .existing record :: claims, errs => .existing record :: verdictsOf seq claims errs
  | .active _ :: claims, some e :: errs => .refused e :: verdictsOf seq claims errs
  | .active req :: claims, none :: errs =>
    .held { req with order := { req.order with id := seq + 1 } } :: verdictsOf (seq + 1) claims errs
  | _, _ => []

theorem verdictsOf_spec (h : List.Forall₂ (Claimed keys) owners claims) (seq : Nat)
    (hlen : errs.length = (activeOf claims).length) :
    ownerResults claims errs (numberOrders seq (passing (activeOf claims) errs)) =
        (verdictsOf seq claims errs).map Verdict.result ∧
      (verdictsOf seq claims errs).filterMap Verdict.held? =
        numberOrders seq (passing (activeOf claims) errs) ∧
      List.Forall₂ (Judged keys) owners (verdictsOf seq claims errs) := by
  induction h generalizing errs seq with
  | nil =>
    exact ⟨by simp [ownerResults, verdictsOf],
      by simp [verdictsOf, activeOf, passing, numberOrders], .nil⟩
  | @cons req claim owners claims hclaim _ ih =>
    cases hclaim with
    | existing hmem hkey =>
      obtain ⟨hresults, hheld, hjudged⟩ := ih seq hlen
      refine ⟨?_, hheld, .cons (.existing hmem hkey) hjudged⟩
      rw [verdictsOf, List.map_cons, ← hresults]
      rfl
    | active n hfree =>
      obtain _ | ⟨err, errs⟩ := errs
      · cases hlen
      cases err with
      | some e =>
        obtain ⟨hresults, hheld, hjudged⟩ := ih seq (Nat.succ.inj hlen)
        rw [verdictsOf, activeOf, passing, ownerResults, hresults]
        exact ⟨rfl, hheld, .cons (.refused e hfree) hjudged⟩
      | none =>
        obtain ⟨hresults, hheld, hjudged⟩ := ih (seq + 1) (Nat.succ.inj hlen)
        rw [verdictsOf, activeOf, passing, numberOrders, ownerResults, hresults, ← hheld]
        exact ⟨rfl, rfl, .cons (.held n (seq + 1) hfree) hjudged⟩

theorem filterMap_groupKey (reqs : List HoldRequest) :
    reqs.filterMap HoldRequest.groupKey = (reqs.map HoldRequest.groupKey).filterMap id := by
  rw [List.filterMap_map]
  rfl

theorem groupKey_stored (req : HoldRequest) (n m : Nat) :
    (req.stored n m).groupKey = req.groupKey :=
  groupKey_withRecordID req n

/-- The held requests are some of the owners, with keys that were free. -/
theorem judged_keys {verdicts : List Verdict} (h : List.Forall₂ (Judged keys) owners verdicts) :
    ((verdicts.filterMap Verdict.held?).map HoldRequest.groupKey).Sublist
      (owners.map HoldRequest.groupKey) ∧
    ∀ r ∈ verdicts.filterMap Verdict.held?, Unclaimed keys r := by
  induction h with
  | nil => exact ⟨.slnil, by simp⟩
  | @cons req verdict owners verdicts hjudged _ ih =>
    cases hjudged with
    | existing hmem hkey => exact ⟨ih.1.cons _, ih.2⟩
    | refused e hfree => exact ⟨ih.1.cons _, ih.2⟩
    | held n m hfree =>
      simp only [List.filterMap_cons, Verdict.held?, List.map_cons, groupKey_stored,
        List.forall_mem_cons]
      refine ⟨ih.1.cons_cons _, ?_, ih.2⟩
      intro record hrec
      rw [groupKey_stored]
      exact hfree record hrec

/-! ## The tables afterwards -/

/-- The tables of orders, keys and the ledger between transactions. -/
structure IntakeOk (s : Intake) : Prop extends WellKeyed s where
  ledger : Provisioned s.ledger
  orderIDs : (s.orders.map OrderRow.id).Nodup
  orderSeq : ∀ order ∈ s.orders, order.id ≤ s.orderSeq
  holds : ∀ id, (JournalKey.orderHold id).text ∈ s.ledger.journals.map JournalEntry.idempotencyKey →
    id ≤ s.orderSeq

/-- The orders of `held` were stored and held, and their keys tied to them. -/
structure Placed (s s' : Intake) (held : List HoldRequest) : Prop where
  orders : s'.orders = s.orders ++ held.map HoldRequest.order
  orderIDs : (held.map fun r => r.order.id).Pairwise (· < ·)
  orderSeq : s.orderSeq ≤ s'.orderSeq ∧ ∀ r ∈ held, s.orderSeq < r.order.id ∧
    r.order.id ≤ s'.orderSeq
  keys : s'.keys = s.keys ++ held.filterMap HoldRequest.tied
  recordIDs : ((held.filterMap HoldRequest.record).map OrderIdempotencyKey.id).Pairwise (· < ·)
  keySeq : s.keySeq ≤ s'.keySeq ∧
    ∀ record ∈ held.filterMap HoldRequest.record, s.keySeq < record.id ∧ record.id ≤ s'.keySeq
  fresh : ∀ r ∈ held, Unclaimed s.keys r
  pairs : (held.filterMap HoldRequest.groupKey).Nodup
  ledger : Provisioned s'.ledger
  journals : s'.ledger.journals.map JournalEntry.idempotencyKey =
    s.ledger.journals.map JournalEntry.idempotencyKey ++ held.map holdKey

/-- Numbering the orders leaves the keys alone. -/
theorem record_numberOrders (seq : Nat) (reqs : List HoldRequest) :
    (numberOrders seq reqs).filterMap HoldRequest.record = reqs.filterMap HoldRequest.record := by
  induction reqs generalizing seq with
  | nil => rfl
  | cons req reqs ih =>
    rw [numberOrders, List.filterMap_cons, List.filterMap_cons, ih]
    rfl

/-- What the orders that passed leave in the table of keys. -/
theorem holdPassing_keys (hkeys : s.keys = keys ++ reqs.filterMap HoldRequest.record)
    (hn : ((keys ++ reqs.filterMap HoldRequest.record).map OrderIdempotencyKey.id).Nodup)
    (h0 : ∀ req ∈ reqs, req.order.id = 0) (h : holdPassing s reqs = .ok (s', held)) :
    held = numberOrders s.orderSeq reqs ∧ ∃ store,
      held.foldlM (fun store req => holdOrderAssets store req.order) { s.toStore with
        orderSeq := s.orderSeq + reqs.length
        orders := s.orders ++ held.map HoldRequest.order } = .ok store ∧
      s' = { s with toStore := store, keys := keys ++ held.filterMap HoldRequest.tied } := by
  unfold holdPassing at h
  obtain ⟨inserted, hinsert, h⟩ := bind_eq_ok.mp h
  rw [insertOrders_eq h0] at hinsert
  cases hinsert
  obtain ⟨store, hholds, h⟩ := bind_eq_ok.mp h
  obtain ⟨s₁, hset, h⟩ := bind_eq_ok.mp h
  cases h
  rw [← record_numberOrders s.orderSeq reqs] at hkeys hn
  cases (setOutcomes_eq hn (by exact hkeys)).symm.trans hset
  exact ⟨rfl, store, hholds, rfl⟩

/-- The orders that passed, on tables that have the rows of their keys. -/
theorem holdPassing_ok (hkeys : s.keys = keys ++ reqs.filterMap HoldRequest.record)
    (hn : ((keys ++ reqs.filterMap HoldRequest.record).map OrderIdempotencyKey.id).Nodup)
    (ht : Provisioned s.ledger) (h0 : ∀ req ∈ reqs, req.order.id = 0)
    (hfresh : ∀ id, (JournalKey.orderHold id).text ∈
      s.ledger.journals.map JournalEntry.idempotencyKey → id ≤ s.orderSeq)
    (h : holdPassing s reqs = .ok (s', held)) :
    held = numberOrders s.orderSeq reqs ∧ ∃ t', s' = { s with
      orderSeq := s.orderSeq + reqs.length
      orders := s.orders ++ held.map HoldRequest.order
      ledger := t'
      keys := keys ++ held.filterMap HoldRequest.tied } ∧ Provisioned t' ∧
      t'.journals.map JournalEntry.idempotencyKey =
        s.ledger.journals.map JournalEntry.idempotencyKey ++ held.map holdKey := by
  obtain ⟨rfl, store, hholds, rfl⟩ := holdPassing_keys hkeys hn h0 h
  obtain ⟨hsorted, hids⟩ := numberOrders_ids s.orderSeq reqs
  obtain ⟨t', rfl, ht', hjournals⟩ :=
    holds_ok (by exact ht) (hsorted.imp Nat.ne_of_lt) (fun r hr hmem => by
    have := hfresh _ hmem
    have := hids r hr
    omega) hholds
  exact ⟨rfl, t', rfl, ht', hjournals⟩

/-- The orders that passed are placed, on tables where their keys have rows. -/
theorem placed_of_passing (hs : IntakeOk s) {t : Tables} {n : Nat} (ht : Provisioned t)
    (hj : t.journals = s.ledger.journals)
    (hsorted : ((reqs.filterMap HoldRequest.record).map OrderIdempotencyKey.id).Pairwise (· < ·))
    (hids : s.keySeq ≤ n ∧ ∀ record ∈ reqs.filterMap HoldRequest.record, s.keySeq < record.id ∧
      record.id ≤ n)
    (h0 : ∀ req ∈ reqs, req.order.id = 0)
    (hfree : ∀ r ∈ numberOrders s.orderSeq reqs, Unclaimed s.keys r)
    (hpairs : ((numberOrders s.orderSeq reqs).filterMap HoldRequest.groupKey).Nodup)
    (h : holdPassing { s with
      ledger := t, keys := s.keys ++ reqs.filterMap HoldRequest.record, keySeq := n } reqs =
      .ok (s', held)) : held = numberOrders s.orderSeq reqs ∧
        Placed s s' (numberOrders s.orderSeq reqs) := by
  have hkeyIDs := nodup_ids_append hs.ids hs.seq (hsorted.imp Nat.ne_of_lt) fun record hrec =>
    (hids.2 record hrec).1
  obtain ⟨rfl, t', rfl, ht', hjournals⟩ := holdPassing_ok rfl hkeyIDs ht h0
    (by
      show ∀ id, (JournalKey.orderHold id).text ∈ t.journals.map JournalEntry.idempotencyKey →
        id ≤ s.orderSeq
      rw [hj]
      exact hs.holds) h
  obtain ⟨hsortedOrders, hidsOrders⟩ := numberOrders_ids s.orderSeq reqs
  refine ⟨rfl, rfl, hsortedOrders, ⟨Nat.le_add_right _ _, hidsOrders⟩, rfl, ?_, ⟨hids.1, ?_⟩, hfree,
    hpairs, ht', ?_⟩
  · rw [record_numberOrders]
    exact hsorted
  · rw [record_numberOrders]
    exact hids.2
  · rw [hjournals]
    show t.journals.map JournalEntry.idempotencyKey ++ _ = _
    rw [hj]

/-- The owners that passed are placed, on tables where only their keys were inserted. -/
theorem placed_owners {t : Tables} (hs : IntakeOk s)
    (hn : (owners.filterMap HoldRequest.groupKey).Nodup)
    (h0 : ∀ req ∈ owners, req.order.id = 0) (hclaims : claims = claimed s.keys s.keySeq owners)
    (hlen : errs.length = (activeOf claims).length) (ht : Provisioned t)
    (hj : t.journals = s.ledger.journals) (h : holdPassing { s with
      ledger := t
      keys := s.keys ++ (passing (activeOf claims) errs).filterMap HoldRequest.record
      keySeq := s.keySeq + (owners.filterMap HoldRequest.newRecord).length }
        (passing (activeOf claims) errs) = .ok (s', held)) :
    ownerResults claims errs held = (verdictsOf s.orderSeq claims errs).map Verdict.result ∧
      List.Forall₂ (Judged s.keys) owners (verdictsOf s.orderSeq claims errs) ∧
      Placed s s' ((verdictsOf s.orderSeq claims errs).filterMap Verdict.held?) := by
  obtain ⟨hsorted, hids⟩ := active_ids s.keys s.keySeq owners
  have hspec := claimed_spec s.keys s.keySeq owners
  have hactive := fun a (ha : a ∈ activeOf (claimed s.keys s.keySeq owners)) => of_mem_active ha
  rw [← hclaims] at hsorted hids hspec hactive
  have hpass : (passing (activeOf claims) errs).Sublist (activeOf claims) := passing_sublist _ _
  have hrows := hpass.filterMap HoldRequest.record
  have hnew : ∀ req ∈ passing (activeOf claims) errs, req.order.id = 0 := fun req hreq => by
    obtain ⟨r, hr, n, rfl, -⟩ := hactive req (hpass.subset hreq)
    exact h0 r hr
  obtain ⟨hresults, hheld, hjudged⟩ := verdictsOf_spec hspec s.orderSeq hlen
  obtain ⟨hsub, hfree⟩ := judged_keys hjudged
  have hpairs :
      (((verdictsOf s.orderSeq claims errs).filterMap Verdict.held?).filterMap
        HoldRequest.groupKey).Nodup := by
    rw [filterMap_groupKey] at hn ⊢
    exact hn.sublist (hsub.filterMap id)
  rw [hheld] at hfree hpairs
  obtain ⟨rfl, hplaced⟩ := placed_of_passing hs ht hj (hsorted.sublist (hrows.map _))
    ⟨Nat.le_add_right _ _, fun record hrec => hids record (hrows.subset hrec)⟩ hnew hfree hpairs h
  refine ⟨hresults, hjudged, ?_⟩
  rw [hheld]
  exact hplaced

/-- Of the keys that were inserted those of the refused are deleted. -/
theorem deleteByIDs_claimed {t : Tables} (hs : IntakeOk s)
    (hclaims : claims = claimed s.keys s.keySeq owners)
    (hlen : errs.length = (activeOf claims).length) :
    deleteByIDs { s with
      ledger := t
      keys := s.keys ++ (activeOf claims).filterMap HoldRequest.record
      keySeq := s.keySeq + (owners.filterMap HoldRequest.newRecord).length }
        (failedRecordIDs (activeOf claims) errs) =
    .ok { s with
      ledger := t
      keys := s.keys ++ (passing (activeOf claims) errs).filterMap HoldRequest.record
      keySeq := s.keySeq + (owners.filterMap HoldRequest.newRecord).length } := by
  obtain ⟨hsorted, hids⟩ := active_ids s.keys s.keySeq owners
  rw [← hclaims] at hsorted hids
  exact deleteByIDs_failed hlen hs.ids hs.seq (hsorted.imp Nat.ne_of_lt)
    (fun record hrec => (hids record hrec).1) (by rfl)

theorem tied_record (reqs : List HoldRequest) :
    (reqs.filterMap HoldRequest.tied).map OrderIdempotencyKey.id =
      (reqs.filterMap HoldRequest.record).map OrderIdempotencyKey.id ∧
    (reqs.filterMap HoldRequest.tied).map OrderIdempotencyKey.pair =
      reqs.filterMap HoldRequest.groupKey := by
  induction reqs with
  | nil => exact ⟨rfl, rfl⟩
  | cons req reqs ih =>
    cases hrec : req.record with
    | none =>
      have htied : req.tied = none := by rw [HoldRequest.tied, hrec]; rfl
      have hkey : req.groupKey = none := by
        rw [← newRecord_groupKey, Option.map_eq_none_iff]
        exact Option.map_eq_none_iff.mp hrec
      rw [List.filterMap_cons_none htied, List.filterMap_cons_none hrec,
        List.filterMap_cons_none hkey]
      exact ih
    | some record =>
      have htied : req.tied = some { record with orderID := some req.order.id } := by
        rw [HoldRequest.tied, hrec]; rfl
      rw [List.filterMap_cons_some htied, List.filterMap_cons_some hrec,
        List.filterMap_cons_some (record_pair hrec),
        List.map_cons, List.map_cons, List.map_cons, ih.1, ih.2]
      exact ⟨rfl, rfl⟩

/-- The rows of orders that were placed keep the table of keys in order. -/
theorem wellKeyed_tied (hs : WellKeyed s)
    (hkeys : s'.keys = s.keys ++ held.filterMap HoldRequest.tied)
    (hsorted : ((held.filterMap HoldRequest.record).map OrderIdempotencyKey.id).Pairwise (· < ·))
    (hseq : s.keySeq ≤ s'.keySeq ∧
      ∀ record ∈ held.filterMap HoldRequest.record, s.keySeq < record.id ∧ record.id ≤ s'.keySeq)
    (hfree : ∀ r ∈ held, Unclaimed s.keys r)
    (hpairs : (held.filterMap HoldRequest.groupKey).Nodup) : WellKeyed s' := by
  obtain ⟨hids, htied⟩ := tied_record held
  refine hs.grow hkeys (hids ▸ hsorted) ⟨hseq.1, fun record hrec => ?_⟩ (htied ▸ hpairs)
    fun record hrec hmem => ?_
  · have hid := List.mem_map_of_mem (f := OrderIdempotencyKey.id) hrec
    rw [hids] at hid
    obtain ⟨row, hrow, he⟩ := List.mem_map.mp hid
    rw [← he]
    exact hseq.2 row hrow
  · have hpair := List.mem_map_of_mem (f := OrderIdempotencyKey.pair) hrec
    rw [htied] at hpair
    obtain ⟨r, hr, hkey⟩ := List.mem_filterMap.mp hpair
    obtain ⟨row, hrow, he⟩ := List.mem_map.mp hmem
    exact hfree r hr row hrow (hkey.trans (congrArg some he.symm))

/-- Each transaction keeps the tables in order. -/
theorem Placed.ok (hs : IntakeOk s) (h : Placed s s' held) : IntakeOk s' := by
  refine ⟨wellKeyed_tied hs.toWellKeyed h.keys h.recordIDs h.keySeq h.fresh h.pairs,
    h.ledger, ?_, ?_, ?_⟩
  · rw [h.orders, List.map_append, List.map_map]
    refine List.nodup_append.mpr ⟨hs.orderIDs, h.orderIDs.imp Nat.ne_of_lt, fun i hi j hj he => ?_⟩
    obtain ⟨order, horder, rfl⟩ := List.mem_map.mp hi
    obtain ⟨r, hr, rfl⟩ := List.mem_map.mp hj
    have := hs.orderSeq order horder
    have := (h.orderSeq.2 r hr).1
    simp only [Function.comp_apply] at he
    omega
  · intro order horder
    rw [h.orders] at horder
    rcases List.mem_append.mp horder with horder | horder
    · exact le_trans (hs.orderSeq order horder) h.orderSeq.1
    · obtain ⟨r, hr, rfl⟩ := List.mem_map.mp horder
      exact (h.orderSeq.2 r hr).2
  · intro id hid
    rw [h.journals] at hid
    rcases List.mem_append.mp hid with hid | hid
    · exact le_trans (hs.holds id hid) h.orderSeq.1
    · obtain ⟨r, hr, he⟩ := List.mem_map.mp hid
      rw [← JournalKey.orderHold.inj (JournalKey.text_injective he)]
      exact (h.orderSeq.2 r hr).2

/-! ## The transaction of one request -/

theorem not_unclaimed :
    ¬ Unclaimed keys req ↔ ∃ record ∈ keys, req.groupKey = some record.pair := by
  simp [Unclaimed]

/-- The tables after a request has its key. -/
def claimOne (s : Intake) (req : HoldRequest) : Intake :=
  { s with
    keys := s.keys ++ (req.withRecordID (s.keySeq + 1)).record.toList
    keySeq := s.keySeq + req.newRecord.toList.length }

theorem holdPassing_singleton (h0 : req.order.id = 0) : holdPassing s [req] = do
    let store ← holdOrderAssets { s.toStore with
      orderSeq := s.orderSeq + 1
      orders := s.orders ++ [{ req.order with id := s.orderSeq + 1 }] }
        { req.order with id := s.orderSeq + 1 }
    let s' ← setOutcomeOf { s with toStore := store } { req with
      order := { req.order with id := s.orderSeq + 1 } }
    return (s', [{ req with order := { req.order with id := s.orderSeq + 1 } }]) := by
  unfold holdPassing
  rw [insertOrders_eq fun r hr => by rw [List.mem_singleton.mp hr, h0]]
  simp only [numberOrders, bind, Except.bind, List.foldlM_cons, List.foldlM_nil,
    List.length_singleton, List.map_cons, List.map_nil]
  cases holdOrderAssets _ _ with
  | error e => rfl
  | ok store =>
    simp only [pure, Except.pure]
    cases setOutcomeOf _ _ <;> rfl

/-- Where the key is free, one request is held as a batch of one that passed. -/
theorem holdOne_of_unclaimed (hfree : Unclaimed s.keys req) (h0 : req.order.id = 0) :
    holdOne s req = (holdPassing (claimOne s req) [req.withRecordID (s.keySeq + 1)]).map fun p =>
      (p.1, (Verdict.held (req.stored (s.keySeq + 1) (s.orderSeq + 1))).result) := by
  rw [holdPassing_singleton (by exact h0)]
  cases hrec : req.newRecord with
  | none =>
    have hidem : req.idem = none := Option.map_eq_none_iff.mp hrec
    have hrecord : req.record = none := by rw [HoldRequest.record, hrec]; rfl
    have hclaim : claimOne s req = s := by
      simp [claimOne, hrec, withRecordID_of_none hidem, hrecord]
    have hresult : (Verdict.held (req.stored (s.keySeq + 1) (s.orderSeq + 1))).result =
        { order := some { req.order with id := s.orderSeq + 1 } } := by
      simp [Verdict.result, HoldRequest.stored, HoldRequest.recordID,
        HoldRequest.withRecordID, hidem]
    rw [hclaim, withRecordID_of_none hidem, hresult]
    simp only [holdOne, hrec, persistAndHold, setOutcomeOf, hidem, bind, Except.bind]
    cases holdOrderAssets _ _ <;> rfl
  | some record =>
    obtain ⟨idem, hidem, -⟩ := Option.map_eq_some_iff.mp hrec
    have hnew : record.pair ∉ s.keys.map OrderIdempotencyKey.pair := fun hmem => by
      obtain ⟨row, hrow, hpair⟩ := List.mem_map.mp hmem
      apply hfree row hrow
      rw [← newRecord_groupKey, hrec, hpair]
      rfl
    have hclaim : claimOne s req =
        { s with
          keySeq := s.keySeq + 1, keys := s.keys ++ [{ record with id := s.keySeq + 1 }] } := by
      simp [claimOne, hrec, record_withRecordID hrec]
    have hresult : (Verdict.held (req.stored (s.keySeq + 1) (s.orderSeq + 1))).result =
        { order := some { req.order with id := s.orderSeq + 1 }, recordID := s.keySeq + 1 } := by
      simp [Verdict.result, HoldRequest.stored, HoldRequest.recordID,
        HoldRequest.withRecordID, hidem]
    rw [hclaim, hresult]
    simp only [holdOne, hrec, holdKeyed, insertKey, hnew, if_false, Nat.succ_ne_zero, insertOrder,
      h0, if_true, bind,
      Except.bind, setOutcomeOf, HoldRequest.withRecordID, hidem, Option.map_some]
    cases holdOrderAssets _ _ with
    | error e => rfl
    | ok store =>
      simp only
      cases setOrderAndOutcome _ _ _ _ <;> rfl

/-- Where the key is taken, its row is the answer. -/
theorem holdOne_of_taken {record : OrderIdempotencyKey}
    (hn : (s.keys.map OrderIdempotencyKey.pair).Nodup)
    (hmem : record ∈ s.keys) (hkey : req.groupKey = some record.pair) :
    holdOne s req = .ok ({ s with keySeq := s.keySeq + 1 }, (Verdict.existing record).result) := by
  rw [← newRecord_groupKey] at hkey
  obtain ⟨new, hnew, hpair⟩ := Option.map_eq_some_iff.mp hkey
  have htaken : new.pair ∈ s.keys.map OrderIdempotencyKey.pair := hpair ▸ List.mem_map_of_mem hmem
  have hfound : findByUserKeys { s with keySeq := s.keySeq + 1 } [new.pair] = [record] := by
    rw [hpair]
    exact findByUserKeys_eq hn hmem
  simp only [holdOne, hnew, holdKeyed, insertKey, htaken, if_true, newRecord_id hnew, hfound]
  rfl

theorem Placed.nil (ht : Provisioned s.ledger) {n : Nat} (h : s.keySeq ≤ n) :
    Placed s { s with keySeq := n } [] where
  orders := by simp
  orderIDs := .nil
  orderSeq := ⟨le_refl _, by simp⟩
  keys := by simp
  recordIDs := .nil
  keySeq := ⟨h, by simp⟩
  fresh := by simp
  pairs := .nil
  ledger := ht
  journals := by simp

/-- The row of one request, as that of a batch of one. -/
theorem claimOne_rows (s : Intake) (req : HoldRequest) :
    claimOne s req = { s with
      keys := s.keys ++ [req.withRecordID (s.keySeq + 1)].filterMap HoldRequest.record
      keySeq := s.keySeq + req.newRecord.toList.length } ∧
    (([req.withRecordID (s.keySeq + 1)].filterMap HoldRequest.record).map
      OrderIdempotencyKey.id).Pairwise (· < ·) ∧
    ∀ row ∈ [req.withRecordID (s.keySeq + 1)].filterMap HoldRequest.record,
      s.keySeq < row.id ∧ row.id ≤ s.keySeq + req.newRecord.toList.length := by
  have hrows : [req.withRecordID (s.keySeq + 1)].filterMap HoldRequest.record =
      (req.withRecordID (s.keySeq + 1)).record.toList := by
    cases hrec : (req.withRecordID (s.keySeq + 1)).record <;> simp [hrec]
  rw [hrows, claimOne]
  refine ⟨rfl, ?_, fun row hmem => ?_⟩
  · cases (req.withRecordID (s.keySeq + 1)).record <;> simp
  · have hrow := Option.mem_toList.mp hmem
    have hkey := record_pair hrow
    rw [groupKey_withRecordID, ← newRecord_groupKey] at hkey
    obtain ⟨new, hnew, -⟩ := Option.map_eq_some_iff.mp hkey
    have he := (record_withRecordID hnew (s.keySeq + 1)).symm.trans hrow
    rw [← Option.some.inj he, hnew, Option.toList_some, List.length_singleton]
    exact ⟨Nat.lt_succ_self _, le_refl _⟩

theorem stored_free (hfree : Unclaimed keys req) (n m : Nat) :
    (∀ r ∈ [req.stored n m], Unclaimed keys r) ∧
    ([req.stored n m].filterMap HoldRequest.groupKey).Nodup := by
  constructor
  · intro r hr record hrec
    rw [List.mem_singleton.mp hr, groupKey_stored]
    exact hfree record hrec
  · cases hkey : (req.stored n m).groupKey <;> simp [hkey]

theorem placed_one (hs : IntakeOk s) (hfree : Unclaimed s.keys req) (h0 : req.order.id = 0)
    (h : holdPassing (claimOne s req) [req.withRecordID (s.keySeq + 1)] = .ok (s', held)) :
    Placed s s' [req.stored (s.keySeq + 1) (s.orderSeq + 1)] := by
  obtain ⟨hclaim, hsorted, hids⟩ := claimOne_rows s req
  obtain ⟨hfree, hpairs⟩ := stored_free hfree (s.keySeq + 1) (s.orderSeq + 1)
  rw [hclaim] at h
  exact (placed_of_passing hs hs.ledger rfl hsorted ⟨Nat.le_add_right _ _, hids⟩
    (fun r hr => by rw [List.mem_singleton.mp hr]; exact h0) hfree hpairs h).2

end GoExchange.Service
