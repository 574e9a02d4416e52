import GoExchange.HoldServe

/-!
# A batch holds what its requests hold one by one

`HoldBatch` and `fallbackPerRequest` from the same tables: the same outcome for
each request, and the same orders, balances and keys. Both hand out ids in their
own way, so an order or a key is named by its place in its table.
-/
namespace GoExchange.Service

open Ledger Rows Fallible

variable {s s₁ s₂ : Intake} {req req' : HoldRequest} {reqs held held₁ held₂ : List HoldRequest}
  {verdicts verdicts' : List Verdict}

/-! ## Tables and results up to ids -/

namespace Intake

variable (s : Intake)

def orderAt (id : Nat) : Nat := (s.orders.map OrderRow.id).idxOf id

def keyAt (id : Nat) : Nat := (s.keys.map OrderIdempotencyKey.id).idxOf id

def viewOrder (order : OrderRow) : OrderRow := { order with id := s.orderAt order.id }

def viewKey (record : OrderIdempotencyKey) : OrderIdempotencyKey :=
  { record with id := s.keyAt record.id, orderID := record.orderID.map s.orderAt }

end Intake

/-- The tables up to ids. An account that does not exist has the balance zero. -/
structure IntakeView where
  balances : AccountKey → Decimal
  orders : List OrderRow
  keys : List OrderIdempotencyKey

def Intake.view (s : Intake) : IntakeView :=
  ⟨balanceOf s.ledger, s.orders.map s.viewOrder, s.keys.map s.viewKey⟩

/-- A result up to ids: the order that was created, or why none was. A record that was there keeps
its id. -/
structure HoldOutcome where
  order : Option OrderRow
  err : Option DomainError
  role : HoldRole
  existing : Option OrderIdempotencyKey
  record : Option Nat
  deriving DecidableEq, Repr

def Intake.outcome (s : Intake) (result : HoldResult) : HoldOutcome :=
  ⟨if result.err.isSome then none else result.order.map s.viewOrder, result.err, result.role,
    result.existing, if result.recordID = 0 then none else some (s.keyAt result.recordID)⟩

theorem outcome_settled (s : Intake) (result : HoldResult) :
    s.outcome result.settled = s.outcome result := by
  cases herr : result.err <;> simp [Intake.outcome, HoldResult.settled, herr]

/-! ## The same requests with other ids -/

/-- One request as two runs stored it. -/
structure Alike (s₁ s₂ : Intake) (req req' : HoldRequest) : Prop where
  reset : req.reset = req'.reset
  order : s₁.orderAt req.order.id = s₂.orderAt req'.order.id
  record : req.record.map (fun r => s₁.keyAt r.id) = req'.record.map (fun r => s₂.keyAt r.id)

theorem newRecord_reset (req : HoldRequest) : req.reset.newRecord = req.newRecord := by
  cases hidem : req.idem <;>
    simp [HoldRequest.newRecord, HoldRequest.reset, HoldRequest.withRecordID, hidem]

theorem idxOf_append_cons {xs ys : List Nat} {n : Nat} (hn : (xs ++ n :: ys).Nodup) :
    (xs ++ n :: ys).idxOf n = xs.length := by
  have hout : n ∉ xs := fun hmem => (List.nodup_append.mp hn).2.2 n hmem n List.mem_cons_self rfl
  rw [List.idxOf_append_of_notMem hout, List.idxOf_cons_self, Nat.add_zero]

/-- Requests that were stored in the same order are at the same places. -/
theorem alike_of_reset {olds₁ olds₂ rows₁ rows₂ : List Nat}
    (hreset : held₁.map HoldRequest.reset = held₂.map HoldRequest.reset)
    (holds : olds₁.length = olds₂.length) (hrows : rows₁.length = rows₂.length)
    (horders₁ : s₁.orders.map OrderRow.id = olds₁ ++ held₁.map fun r => r.order.id)
    (horders₂ : s₂.orders.map OrderRow.id = olds₂ ++ held₂.map fun r => r.order.id)
    (hkeys₁ : s₁.keys.map OrderIdempotencyKey.id =
      rows₁ ++ (held₁.filterMap HoldRequest.record).map OrderIdempotencyKey.id)
    (hkeys₂ : s₂.keys.map OrderIdempotencyKey.id =
      rows₂ ++ (held₂.filterMap HoldRequest.record).map OrderIdempotencyKey.id)
    (hs₁ : IntakeOk s₁) (hs₂ : IntakeOk s₂) : List.Forall₂ (Alike s₁ s₂) held₁ held₂ := by
  induction held₁ generalizing held₂ olds₁ olds₂ rows₁ rows₂ with
  | nil =>
    cases held₂ with
    | nil => exact .nil
    | cons req held => cases hreset
  | cons req held ih =>
    cases held₂ with
    | nil => cases hreset
    | cons req' held' =>
      rw [List.map_cons, List.map_cons, List.cons.injEq] at hreset
      rw [List.map_cons] at horders₁ horders₂
      have horder : s₁.orderAt req.order.id = s₂.orderAt req'.order.id := by
        have hn₁ := hs₁.orderIDs
        have hn₂ := hs₂.orderIDs
        rw [horders₁] at hn₁
        rw [horders₂] at hn₂
        rw [Intake.orderAt, Intake.orderAt, horders₁, horders₂, idxOf_append_cons hn₁,
          idxOf_append_cons hn₂, holds]
      rw [List.append_cons] at horders₁ horders₂
      have hnew : req.newRecord = req'.newRecord := by
        rw [← newRecord_reset, hreset.1, newRecord_reset]
      have holds' : (olds₁ ++ [req.order.id]).length = (olds₂ ++ [req'.order.id]).length := by
        simp [holds]
      cases hrec : req.newRecord with
      | none =>
        have hnone : req.record = none := by rw [HoldRequest.record, hrec]; rfl
        have hnone' : req'.record = none := by rw [HoldRequest.record, ← hnew, hrec]; rfl
        rw [List.filterMap_cons_none hnone] at hkeys₁
        rw [List.filterMap_cons_none hnone'] at hkeys₂
        exact .cons ⟨hreset.1, horder, by rw [hnone, hnone']; rfl⟩
          (ih hreset.2 holds' hrows horders₁ horders₂ hkeys₁ hkeys₂)
      | some record =>
        have hsome : req.record = some { record with id := req.recordID } := by
          rw [HoldRequest.record, hrec]; rfl
        have hsome' : req'.record = some { record with id := req'.recordID } := by
          rw [HoldRequest.record, ← hnew, hrec]; rfl
        rw [List.filterMap_cons_some hsome, List.map_cons] at hkeys₁
        rw [List.filterMap_cons_some hsome', List.map_cons] at hkeys₂
        have hkey : s₁.keyAt req.recordID = s₂.keyAt req'.recordID := by
          have hn₁ := hs₁.ids
          have hn₂ := hs₂.ids
          rw [hkeys₁] at hn₁
          rw [hkeys₂] at hn₂
          rw [Intake.keyAt, Intake.keyAt, hkeys₁, hkeys₂, idxOf_append_cons hn₁,
            idxOf_append_cons hn₂, hrows]
        rw [List.append_cons] at hkeys₁ hkeys₂
        refine .cons ⟨hreset.1, horder, ?_⟩
          (ih hreset.2 holds' (by simp [hrows]) horders₁ horders₂ hkeys₁ hkeys₂)
        rw [hsome, hsome', Option.map_some, Option.map_some, hkey]

theorem Alike.viewOrder (h : Alike s₁ s₂ req req') :
    s₁.viewOrder req.order = s₂.viewOrder req'.order := by
  have hid : ∀ (s : Intake) (r : HoldRequest), s.viewOrder r.order =
      { r.reset.order with id := s.orderAt r.order.id } :=
    fun _ _ => rfl
  rw [hid, hid, h.reset, h.order]

theorem Alike.viewKey (h : Alike s₁ s₂ req req') :
    req.tied.map s₁.viewKey = req'.tied.map s₂.viewKey := by
  have hnew : req.newRecord = req'.newRecord := by rw [← newRecord_reset, h.reset, newRecord_reset]
  have hrecord := h.record
  cases hrec : req.newRecord with
  | none => simp [HoldRequest.tied, HoldRequest.record, hrec, ← hnew]
  | some record =>
    simp only [HoldRequest.record, hrec, ← hnew, Option.map_some, Option.some.injEq] at hrecord
    simp [HoldRequest.tied, HoldRequest.record, hrec, ← hnew, Intake.viewKey, hrecord, h.order]

theorem map_eq_of_forall₂ {α β : Type} {R : α → α → Prop} {xs ys : List α} {f g : α → β}
    (h : List.Forall₂ R xs ys) (hfg : ∀ x y, R x y → f x = g y) : xs.map f = ys.map g := by
  induction h with
  | nil => rfl
  | cons hxy _ ih => rw [List.map_cons, List.map_cons, hfg _ _ hxy, ih]

theorem filterMap_eq_of_forall₂ {α β : Type} {R : α → α → Prop} {xs ys : List α}
    {f g : α → Option β}
    (h : List.Forall₂ R xs ys) (hfg : ∀ x y, R x y → f x = g y) :
    xs.filterMap f = ys.filterMap g := by
  induction h with
  | nil => rfl
  | cons hxy _ ih => rw [List.filterMap_cons, List.filterMap_cons, hfg _ _ hxy, ih]

/-! ## What was there before -/

/-- The place of an id up to `n`, where greater ones are appended. -/
theorem idxOf_append_old {xs ys zs : List Nat} {n id : Nat} (hlen : ys.length = zs.length)
    (hys : ∀ y ∈ ys, n < y)
    (hzs : ∀ z ∈ zs, n < z) (hid : id ≤ n) : (xs ++ ys).idxOf id = (xs ++ zs).idxOf id := by
  by_cases hmem : id ∈ xs
  · rw [List.idxOf_append_of_mem hmem, List.idxOf_append_of_mem hmem]
  · have hy : id ∉ ys := fun h => absurd (hys id h) (not_lt.mpr hid)
    have hz : id ∉ zs := fun h => absurd (hzs id h) (not_lt.mpr hid)
    rw [List.idxOf_append_of_notMem hmem, List.idxOf_append_of_notMem hmem, List.idxOf_of_notMem hy,
      List.idxOf_of_notMem hz, hlen]

theorem Placed.order_ids (h : Placed s s₁ held) :
    s₁.orders.map OrderRow.id = s.orders.map OrderRow.id ++ held.map fun r => r.order.id := by
  rw [h.orders, List.map_append, List.map_map]
  rfl

theorem Placed.key_ids (h : Placed s s₁ held) : s₁.keys.map OrderIdempotencyKey.id =
    s.keys.map OrderIdempotencyKey.id ++
      (held.filterMap HoldRequest.record).map OrderIdempotencyKey.id := by
  rw [h.keys, List.map_append, (tied_record held).1]

/-- Two runs that stored the same requests leave the same tables. -/
theorem view_eq (hs : IntakeOk s)
    (hkeys : ∀ record ∈ s.keys, ∀ id, record.orderID = some id → id ≤ s.orderSeq)
    (h₁ : Placed s s₁ held₁) (h₂ : Placed s s₂ held₂)
    (halike : List.Forall₂ (Alike s₁ s₂) held₁ held₂)
    (hbalances : balanceOf s₁.ledger = balanceOf s₂.ledger) : s₁.view = s₂.view := by
  have horderAt : ∀ id ≤ s.orderSeq, s₁.orderAt id = s₂.orderAt id := fun id hid => by
    rw [Intake.orderAt, Intake.orderAt, h₁.order_ids, h₂.order_ids]
    refine idxOf_append_old (by simpa using halike.length_eq) ?_ ?_ hid
    · rw [List.forall_mem_map]
      exact fun r hr => (h₁.orderSeq.2 r hr).1
    · rw [List.forall_mem_map]
      exact fun r hr => (h₂.orderSeq.2 r hr).1
  have hrows : held₁.filterMap (fun r => r.record.map fun row => s₁.keyAt row.id) =
      held₂.filterMap fun r => r.record.map fun row => s₂.keyAt row.id :=
    filterMap_eq_of_forall₂ halike fun _ _ h => h.record
  have hcount : (held₁.filterMap HoldRequest.record).length =
      (held₂.filterMap HoldRequest.record).length := by
    rw [← List.map_filterMap, ← List.map_filterMap] at hrows
    simpa using congrArg List.length hrows
  have hkeyAt : ∀ id ≤ s.keySeq, s₁.keyAt id = s₂.keyAt id := fun id hid => by
    rw [Intake.keyAt, Intake.keyAt, h₁.key_ids, h₂.key_ids]
    refine idxOf_append_old (by simpa using hcount) ?_ ?_ hid
    · rw [List.forall_mem_map]
      exact fun r hr => (h₁.keySeq.2 r hr).1
    · rw [List.forall_mem_map]
      exact fun r hr => (h₂.keySeq.2 r hr).1
  have horders : s₁.orders.map s₁.viewOrder = s₂.orders.map s₂.viewOrder := by
    have hnew : held₁.map (s₁.viewOrder ∘ HoldRequest.order) =
        held₂.map (s₂.viewOrder ∘ HoldRequest.order) :=
      map_eq_of_forall₂ halike fun _ _ h => h.viewOrder
    rw [h₁.orders, h₂.orders, List.map_append, List.map_append, List.map_map, List.map_map, hnew]
    refine congrArg (· ++ _) (List.map_congr_left fun order horder => ?_)
    rw [Intake.viewOrder, Intake.viewOrder, horderAt order.id (hs.orderSeq order horder)]
  have hview : s₁.keys.map s₁.viewKey = s₂.keys.map s₂.viewKey := by
    rw [h₁.keys, h₂.keys, List.map_append, List.map_append, List.map_filterMap, List.map_filterMap,
      filterMap_eq_of_forall₂ halike fun _ _ h => h.viewKey]
    refine congrArg (· ++ _) (List.map_congr_left fun record hrec => ?_)
    have horder : record.orderID.map s₁.orderAt = record.orderID.map s₂.orderAt := by
      cases hid : record.orderID with
      | none => rfl
      | some id => rw [Option.map_some, Option.map_some, horderAt id (hkeys record hrec id hid)]
    rw [Intake.viewKey, Intake.viewKey, hkeyAt record.id (hs.seq record hrec), horder]
  rw [Intake.view, Intake.view, hbalances, horders, hview]

/-! ## The results -/

/-- Two results that callers cannot tell apart but by ids. -/
def SameResult (s₁ s₂ : Intake) (result result' : HoldResult) : Prop :=
  s₁.outcome result = s₂.outcome result'

theorem SameResult.followed {result result' : HoldResult} (h : SameResult s₁ s₂ result result') :
    SameResult s₁ s₂ result.followed result'.followed := by
  unfold SameResult Intake.outcome at *
  simp only [HoldOutcome.mk.injEq] at h ⊢
  exact ⟨h.1, h.2.1, rfl, h.2.2.2.1, rfl⟩

/-- A key of a request that was stored has an id. -/
theorem recordAt_eq (hpos : ∀ record, req.record = some record → record.id ≠ 0) (s : Intake) :
    (if req.recordID = 0 then none else some (s.keyAt req.recordID)) =
      req.record.map fun r => s.keyAt r.id := by
  cases hrec : req.record with
  | none =>
    have hzero : req.recordID = 0 := by
      by_contra hne
      obtain ⟨record, hsome⟩ := record_isSome_of_id hne
      rw [hrec] at hsome
      cases hsome
    rw [if_pos hzero]
    rfl
  | some record =>
    have hid := record_id hrec
    rw [if_neg (hid ▸ hpos record hrec), Option.map_some, hid]

theorem outcome_held (hpos : ∀ record, req.record = some record → record.id ≠ 0) (s : Intake) :
    s.outcome (Verdict.held req).result =
      ⟨some (s.viewOrder req.order), none, .owner, none, req.record.map fun r => s.keyAt r.id⟩ := by
  rw [← recordAt_eq hpos]
  rfl

theorem Placed.record_pos (h : Placed s s₁ held) :
    ∀ r ∈ held, ∀ record, r.record = some record → record.id ≠ 0 := by
  intro r hr record hrec
  have := (h.keySeq.2 record (List.mem_filterMap.mpr ⟨r, hr, hrec⟩)).1
  omega

/-- The same verdicts give the same results. -/
theorem sameResult_of_bare (hbare : verdicts.map Verdict.bare = verdicts'.map Verdict.bare)
    (halike : List.Forall₂ (Alike s₁ s₂) (verdicts.filterMap Verdict.held?)
      (verdicts'.filterMap Verdict.held?))
    (hpos₁ : ∀ r ∈ verdicts.filterMap Verdict.held?, ∀ record, r.record = some record →
      record.id ≠ 0)
    (hpos₂ : ∀ r ∈ verdicts'.filterMap Verdict.held?, ∀ record, r.record = some record →
      record.id ≠ 0) :
    List.Forall₂ (SameResult s₁ s₂) (verdicts.map Verdict.result)
    (verdicts'.map Verdict.result) := by
  induction verdicts generalizing verdicts' with
  | nil =>
    cases verdicts' with
    | nil => exact .nil
    | cons verdict' verdicts' => cases hbare
  | cons verdict verdicts ih =>
    cases verdicts' with
    | nil => cases hbare
    | cons verdict' verdicts' =>
      rw [List.map_cons, List.map_cons, List.cons.injEq] at hbare
      cases verdict with
      | existing record =>
        cases verdict' with
        | existing record' =>
          cases hbare.1
          exact .cons rfl (ih hbare.2 halike hpos₁ hpos₂)
        | refused e' => cases hbare.1
        | held req' => cases hbare.1
      | refused e =>
        cases verdict' with
        | existing record' => cases hbare.1
        | refused e' =>
          cases hbare.1
          exact .cons rfl (ih hbare.2 halike hpos₁ hpos₂)
        | held req' => cases hbare.1
      | held req =>
        cases verdict' with
        | existing record' => cases hbare.1
        | refused e' => cases hbare.1
        | held req' =>
          have hcons : ∀ (r : HoldRequest) (vs : List Verdict),
              (Verdict.held r :: vs).filterMap Verdict.held? = r :: vs.filterMap Verdict.held? :=
            fun _ _ => rfl
          rw [hcons, hcons, List.forall₂_cons] at halike
          rw [hcons, List.forall_mem_cons] at hpos₁ hpos₂
          refine .cons ?_ (ih hbare.2 halike.2 hpos₁.2 hpos₂.2)
          rw [SameResult, outcome_held hpos₁.1, outcome_held hpos₂.1, halike.1.viewOrder,
            halike.1.record]

/-- What the owners got alike their followers get alike. -/
theorem applyFollowerResults_same {groups : List Grouping}
    {done done' results results' : List HoldResult}
    (hdone : List.Forall₂ (SameResult s₁ s₂) done done')
    (hresults : List.Forall₂ (SameResult s₁ s₂) results results') :
    List.Forall₂ (SameResult s₁ s₂) (applyFollowerResults done groups results)
      (applyFollowerResults done' groups results') := by
  have hempty : SameResult s₁ s₂ {} {} := rfl
  have hgrow : ∀ {r r' : HoldResult} {done done' : List HoldResult},
      List.Forall₂ (SameResult s₁ s₂) done done' →
      SameResult s₁ s₂ r r' → List.Forall₂ (SameResult s₁ s₂) (done ++ [r]) (done' ++ [r']) :=
    fun hdone hr => List.rel_append hdone (.cons hr .nil)
  induction groups generalizing done done' results results' with
  | nil => cases hresults <;> exact hdone
  | cons group groups ih =>
    cases group with
    | owner =>
      cases hresults with
      | nil => exact ih (hgrow hdone hempty) .nil
      | cons hr hrest => exact ih (hgrow hdone hr) hrest
    | follower leader =>
      have hleader : SameResult s₁ s₂ (done.getD leader {}) (done'.getD leader {}) := by
        clear ih hresults
        induction hdone generalizing leader with
        | nil => exact hempty
        | cons hr _ ih =>
          cases leader with
          | zero => exact hr
          | succ n => exact ih n
      have hnext := ih (hgrow hdone hleader.followed) hresults
      cases hresults <;> exact hnext
    | conflict =>
      have hnext :=
        ih (hgrow hdone (show SameResult s₁ s₂ conflictResult conflictResult from rfl)) hresults
      cases hresults <;> exact hnext

/-! ## Both paths -/

/-- The tables as the exchange leaves them. -/
structure IntakeSound (s : Intake) : Prop extends Lockable s where
  keyOrders : ∀ record ∈ s.keys, ∀ id, record.orderID = some id → id ≤ s.orderSeq

theorem idsNeeded_sublist (gap : HoldRequest → Gap) {owners : List HoldRequest}
    (h : owners.Sublist reqs) :
    owners.length ≤ idsNeeded gap owners ∧ idsNeeded gap owners ≤ idsNeeded gap reqs := by
  constructor
  · induction owners with
    | nil => exact le_refl _
    | cons req owners ih =>
      have := ih (List.sublist_of_cons_sublist h)
      rw [idsNeeded, List.map_cons, List.sum_cons, List.length_cons]
      rw [idsNeeded] at this
      omega
  · exact (h.map _).sum_le_sum fun _ _ => Nat.zero_le _

/-- A batch of requests, whatever the tables: its transaction does not fail, and each request has
the outcome and the tables have the rows and balances that the requests one by one would have given.
-/
theorem holdBatch_like_fallback (hs : IntakeSound s) (hreqs : ∀ req ∈ reqs, Holdable req)
    (gaps : HoldRequest → Gap) (hseq : s.orderSeq + idsNeeded gaps reqs < 2 ^ 63) :
    ∃ s' results, holdBatch s reqs = .ok (s', results) ∧
    s'.view = (fallbackPerRequest s gaps reqs).1.view ∧
      results.map s'.outcome =
        (fallbackPerRequest s gaps reqs).2.map (fallbackPerRequest s gaps reqs).1.outcome := by
  obtain ⟨groups, hgroups⟩ : ∃ groups, groups = groupIdempotentRequests reqs := ⟨_, rfl⟩
  have hn : ((ownersOf groups reqs).filterMap HoldRequest.groupKey).Nodup :=
    hgroups ▸ (ownersOf_nodup [] 0 reqs).1
  have hsub := ownersOf_sublist groups reqs
  have howners : ∀ req ∈ ownersOf groups reqs, Holdable req :=
    fun req hreq => hreqs req (hsub.subset hreq)
  obtain ⟨hfew, hids⟩ := idsNeeded_sublist gaps hsub
  obtain ⟨s₁, verdicts₁, hbatch, hserves₁, hplaced₁⟩ :=
    holdOwners_serves hs.toLockable hn howners (by omega)
  obtain ⟨verdicts₂, hresults₂, hserves₂, hplaced₂⟩ :=
    holdEach_serves hs.toLockable hn howners gaps (by omega)
  have hfallback : fallbackPerRequest s gaps reqs = ((holdEach gaps s (ownersOf groups reqs)).1,
      applyFollowerResults [] groups (holdEach gaps s (ownersOf groups reqs)).2) := by
    rw [hgroups]; rfl
  rw [hfallback]
  generalize holdEach gaps s (ownersOf groups reqs) = each at *
  obtain ⟨hbare, hbalances⟩ := hserves₁.unique hs.pairs hserves₂
  have hreset : (verdicts₁.filterMap Verdict.held?).map HoldRequest.reset =
      (verdicts₂.filterMap Verdict.held?).map HoldRequest.reset := by
    have hheld : ∀ verdicts :
        List Verdict, (verdicts.filterMap Verdict.held?).map HoldRequest.reset =
        (verdicts.map Verdict.bare).filterMap Verdict.held? := fun verdicts => by
      rw [List.map_filterMap, List.filterMap_map]
      refine List.filterMap_congr fun verdict _ => ?_
      cases verdict <;> rfl
    rw [hheld, hheld, hbare]
  have halike := alike_of_reset hreset rfl rfl hplaced₁.order_ids hplaced₂.order_ids
    hplaced₁.key_ids hplaced₂.key_ids (hplaced₁.ok hs.toIntakeOk) (hplaced₂.ok hs.toIntakeOk)
  have hresults : List.Forall₂ (SameResult s₁ each.1) (verdicts₁.map Verdict.result) each.2 := by
    have hsame := sameResult_of_bare hbare halike hplaced₁.record_pos hplaced₂.record_pos
    rw [← hresults₂, List.forall₂_map_right_iff] at hsame
    exact hsame.imp fun result result' h => h.trans (outcome_settled _ _)
  refine ⟨s₁, applyFollowerResults [] groups (verdicts₁.map Verdict.result), ?_, ?_, ?_⟩
  · rw [holdBatch, ← hgroups]
    exact bind_eq_ok.mpr ⟨_, hbatch, rfl⟩
  · exact view_eq hs.toIntakeOk hs.keyOrders hplaced₁ hplaced₂ halike hbalances
  · exact map_eq_of_forall₂ (applyFollowerResults_same .nil hresults) fun _ _ h => h

/-- User 1 with 150 available. -/
def fundedTables : Tables :=
  (Lts.exec Ledger.step [.record ⟨.deposit, (JournalKey.depositSettle "a").text, .transfer, 1, none,
    [⟨.externalBank, none, "KRW", -150⟩, ⟨.userAvailable, some 1, "KRW", 150⟩]⟩] empty).getD empty

def fundedIntake : Intake := ⟨⟨fundedTables, [], [], [], 0, 0⟩, [], 0⟩

theorem fundedIntake_sound : IntakeSound fundedIntake := by
  have hreach : Lts.Reach Ledger.step Lts.free empty fundedTables := Lts.reach_of_exec
    [.record ⟨.deposit, (JournalKey.depositSettle "a").text, .transfer, 1, none,
      [⟨.externalBank, none, "KRW", -150⟩, ⟨.userAvailable, some 1, "KRW", 150⟩]⟩]
      (by decide +kernel)
  have hsound := reach_sound hreach
  have hjournals : fundedTables.journals.map JournalEntry.idempotencyKey =
      [(JournalKey.depositSettle "a").text] := by
    decide +kernel
  refine ⟨⟨⟨⟨.nil, .nil, by simp [fundedIntake]⟩, hsound.provisioned, .nil, by simp [fundedIntake],
    fun id hid => ?_⟩,
    fun k hk => hsound.balanceOf_nonneg (by rw [hk]; rfl)⟩, by simp [fundedIntake]⟩
  have htext : (JournalKey.orderHold id).text ∈
      fundedTables.journals.map JournalEntry.idempotencyKey := hid
  rw [hjournals, List.mem_singleton] at htext
  cases JournalKey.text_injective htext

/-- A request of user 1 to buy one at 100. -/
def buyUnder (key : String) (resultCh : Nat) : HoldRequest :=
  ⟨⟨0, 1, 1, 0, "BTC", .buy, .pending, 0, 0, .limit, 100⟩, some ⟨key, "one at 100", 1, 0⟩, resultCh⟩

theorem buyUnder_holdable (key : String) (resultCh : Nat) : Holdable (buyUnder key resultCh) :=
  ⟨⟨by simp [buyUnder], by simp [buyUnder], .inl rfl, rfl, ⟨rfl, rfl⟩,
    .inl ⟨rfl, by norm_num [buyUnder], by norm_num [buyUnder], rfl⟩⟩, rfl, by
    show "KRW".length ≤ 16; decide⟩

/-- Three requests for a balance that covers one of them: the second is refused and the third
follows the first. -/
theorem holdBatch_like_fallback_competing :
    ∃ s' results, holdBatch fundedIntake [buyUnder "k" 1, buyUnder "j" 2, buyUnder "k" 3] =
      .ok (s', results) ∧ s'.view = (fallbackPerRequest fundedIntake (fun _ => ⟨1, 1, 2, 1, 0⟩)
        [buyUnder "k" 1, buyUnder "j" 2, buyUnder "k" 3]).1.view ∧
      results.map (fun r => (r.err.isSome, r.role)) =
        [(false, .owner), (true, .owner), (false, .follower)] := by
  have hreqs : ∀ req ∈ [buyUnder "k" 1, buyUnder "j" 2, buyUnder "k" 3], Holdable req := by
    simp [buyUnder_holdable]
  obtain ⟨s', results, hbatch, hview, -⟩ :=
    holdBatch_like_fallback fundedIntake_sound hreqs (fun _ => ⟨1, 1, 2, 1, 0⟩) (by decide)
  refine ⟨s', results, hbatch, hview, ?_⟩
  have hresults : (holdBatch fundedIntake [buyUnder "k" 1, buyUnder "j" 2, buyUnder "k" 3]).map
      (fun p => p.2.map fun r => (r.err.isSome, r.role)) =
        .ok [(false, .owner), (true, .owner), (false, .follower)] := by decide +kernel
  rw [hbatch] at hresults
  exact Except.ok.inj hresults

end GoExchange.Service
