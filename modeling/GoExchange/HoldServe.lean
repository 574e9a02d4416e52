import GoExchange.HoldFold

/-!
# Both paths serve alike

What becomes of the owners of a batch is a function of the keys and the balances
they find: `Serves`. The transaction of the batch and the transactions one by
one both follow it, and differ in nothing but the ids they hand out.
-/
namespace GoExchange.Service

open Ledger Rows Fallible

variable {s s₁ s' : Intake} {req : HoldRequest} {reqs owners held held₁ : List HoldRequest}
  {verdict : Verdict} {verdicts : List Verdict} {keys : List OrderIdempotencyKey}
  {b b' b₁ : AccountKey → Decimal} {claims : List Claim}

/-- What becomes of the owners, with the keys and the balances that they find, and the balances
afterwards. -/
inductive Serves (keys : List OrderIdempotencyKey) :
    (AccountKey → Decimal) → List HoldRequest → List Verdict → (AccountKey → Decimal) → Prop where
  | nil (b : AccountKey → Decimal) : Serves keys b [] [] b
  | existing {b b' : AccountKey → Decimal} {req : HoldRequest} {owners : List HoldRequest}
      {verdicts : List Verdict}
      {record : OrderIdempotencyKey} : record ∈ keys → req.groupKey = some record.pair →
    Serves keys b owners verdicts b' →
    Serves keys b (req :: owners) (.existing record :: verdicts) b'
  | refused {b b' : AccountKey → Decimal} {req : HoldRequest} {owners : List HoldRequest}
      {verdicts : List Verdict} :
    Unclaimed keys req → b (availableKeyOf req.order) - holdAmountFor req.order < 0 →
    Serves keys b owners verdicts b' →
    Serves keys b (req :: owners) (.refused (insufficientBalanceError req.order.side) ::
      verdicts) b'
  | held {b b' : AccountKey → Decimal} {req : HoldRequest} {owners : List HoldRequest}
      {verdicts : List Verdict} (recordID orderID : Nat) : Unclaimed keys req →
    ¬ b (availableKeyOf req.order) - holdAmountFor req.order < 0 →
    Serves keys (afterHold b req.order) owners verdicts b' →
    Serves keys b (req :: owners) (.held (req.stored recordID orderID) :: verdicts) b'

/-- A verdict without the ids of its order and key. -/
def Verdict.bare : Verdict → Verdict
  | .held req => .held req.reset
  | verdict => verdict

theorem reset_stored (req : HoldRequest) (n m : Nat) : (req.stored n m).reset = req.reset := by
  cases hidem : req.idem <;>
    simp [HoldRequest.stored, HoldRequest.reset, HoldRequest.withRecordID, hidem]

/-- The ids apart, the verdicts and the balances are determined. -/
theorem Serves.unique {verdicts' : List Verdict} {b₂ : AccountKey → Decimal}
    (hn : (keys.map OrderIdempotencyKey.pair).Nodup) (h : Serves keys b owners verdicts b₁)
    (h' : Serves keys b owners verdicts' b₂) :
    verdicts.map Verdict.bare = verdicts'.map Verdict.bare ∧ b₁ = b₂ := by
  induction h generalizing verdicts' b₂ with
  | nil b =>
    cases h'
    exact ⟨rfl, rfl⟩
  | existing hmem hkey _ ih =>
    cases h' with
    | existing hmem' hkey' hrest =>
      have hpair := Option.some.inj (hkey.symm.trans hkey')
      rw [List.inj_on_of_nodup_map hn hmem hmem' hpair, List.map_cons, List.map_cons, (ih hrest).1]
      exact ⟨rfl, (ih hrest).2⟩
    | refused hfree _ _ => exact absurd hkey (hfree _ hmem)
    | held n m hfree _ _ => exact absurd hkey (hfree _ hmem)
  | refused hfree hneg _ ih =>
    cases h' with
    | existing hmem hkey _ => exact absurd hkey (hfree _ hmem)
    | refused _ _ hrest =>
      rw [List.map_cons, List.map_cons, (ih hrest).1]
      exact ⟨rfl, (ih hrest).2⟩
    | held n m _ hpos _ => exact absurd hneg hpos
  | held n m hfree hpos _ ih =>
    cases h' with
    | existing hmem hkey _ => exact absurd hkey (hfree _ hmem)
    | refused _ hneg _ => exact absurd hneg hpos
    | held n' m' _ _ hrest =>
      rw [List.map_cons, List.map_cons, (ih hrest).1, Verdict.bare, Verdict.bare, reset_stored,
        reset_stored]
      exact ⟨rfl, (ih hrest).2⟩

/-- Rows whose keys no owner has make no difference. -/
theorem Serves.of_keys {keys' : List OrderIdempotencyKey} (h : Serves keys' b owners verdicts b')
    (hsub : ∀ record ∈ keys, record ∈ keys')
    (hnew : ∀ record ∈ keys', record ∉ keys → ∀ req ∈ owners, req.groupKey ≠ some record.pair) :
    Serves keys b owners verdicts b' := by
  induction h with
  | nil b => exact .nil b
  | existing hmem hkey _ ih =>
    refine .existing ?_ hkey (ih fun record hrec hout r hr => hnew record hrec hout r
      (List.mem_cons_of_mem _ hr))
    by_contra hout
    exact hnew _ hmem hout _ List.mem_cons_self hkey
  | refused hfree hneg _ ih =>
    exact .refused (fun record hrec => hfree record (hsub record hrec)) hneg
      (ih fun record hrec hout r hr => hnew record hrec hout r (List.mem_cons_of_mem _ hr))
  | held n m hfree hpos _ ih =>
    exact .held n m (fun record hrec => hfree record (hsub record hrec)) hpos
      (ih fun record hrec hout r hr => hnew record hrec hout r (List.mem_cons_of_mem _ hr))

/-- One owner and then the others. -/
theorem Serves.cons (h : Serves keys b [req] [verdict] b₁)
    (hrest : Serves keys b₁ owners verdicts b') :
    Serves keys b (req :: owners) (verdict :: verdicts) b' := by
  cases h with
  | existing hmem hkey h =>
    cases h
    exact .existing hmem hkey hrest
  | refused hfree hneg h =>
    cases h
    exact .refused hfree hneg hrest
  | held n m hfree hpos h =>
    cases h
    exact .held n m hfree hpos hrest

/-- No locked balance falls. -/
theorem Serves.locked (h : Serves keys b owners verdicts b') (hreqs : ∀ req ∈ owners, Holdable req)
    {k : AccountKey} (htype : k.accountType = .userLocked) : b k ≤ b' k := by
  induction h with
  | nil b => exact le_refl _
  | existing _ _ _ ih =>
    rw [List.forall_mem_cons] at hreqs
    exact ih hreqs.2
  | refused _ _ _ ih =>
    rw [List.forall_mem_cons] at hreqs
    exact ih hreqs.2
  | held n m _ _ _ ih =>
    rw [List.forall_mem_cons] at hreqs
    exact le_trans (le_afterHold_locked hreqs.1.row htype) (ih hreqs.2)

/-! ## The transaction of a batch -/

theorem foldErrs_length (b : AccountKey → Decimal) (reqs : List HoldRequest) :
    (foldErrs b reqs).length = reqs.length := by
  fun_induction foldErrs b reqs with
  | case1 => rfl
  | case2 b req reqs hneg ih => rw [List.length_cons, List.length_cons, ih]
  | case3 b req reqs hpos ih => rw [List.length_cons, List.length_cons, ih]

theorem serves_verdictsOf (h : List.Forall₂ (Claimed keys) owners claims) (b : AccountKey → Decimal)
    (seq : Nat) :
    Serves keys b owners (verdictsOf seq claims (foldErrs b (activeOf claims)))
      (foldBalance b (activeOf claims)) := by
  induction h generalizing b seq with
  | nil => exact .nil b
  | @cons req claim owners claims hclaim _ ih =>
    cases hclaim with
    | existing hmem hkey =>
      have hrest := ih b seq
      rw [verdictsOf]
      exact .existing hmem hkey hrest
    | active n hfree =>
      rw [activeOf, foldErrs, foldBalance]
      by_cases hneg : b (availableKeyOf req.order) - holdAmountFor req.order < 0
      · rw [if_pos (by exact hneg), if_pos (by exact hneg), verdictsOf]
        exact .refused hfree hneg (ih b seq)
      · rw [if_neg (by exact hneg), if_neg (by exact hneg), verdictsOf]
        exact .held n (seq + 1) hfree hneg (ih (afterHold b req.order) (seq + 1))

/-- The orders that pass are stored where the ledger takes their holds. -/
theorem holdPassing_of_holds {store : Store}
    (hkeys : s.keys = keys ++ reqs.filterMap HoldRequest.record)
    (hn : ((keys ++ reqs.filterMap HoldRequest.record).map OrderIdempotencyKey.id).Nodup)
    (h0 : ∀ req ∈ reqs, req.order.id = 0)
    (hholds : (numberOrders s.orderSeq reqs).foldlM
      (fun store req => holdOrderAssets store req.order) { s.toStore with
      orderSeq := s.orderSeq + reqs.length
      orders := s.orders ++ (numberOrders s.orderSeq reqs).map HoldRequest.order } = .ok store) :
    holdPassing s reqs = .ok ({ s with
      toStore := store
      keys := keys ++ (numberOrders s.orderSeq reqs).filterMap HoldRequest.tied },
      numberOrders s.orderSeq reqs) := by
  rw [← record_numberOrders s.orderSeq reqs] at hkeys hn
  have hset : (numberOrders s.orderSeq reqs).foldlM setOutcomeOf { s with toStore := store } =
      .ok { s with
        toStore := store
        keys := keys ++ (numberOrders s.orderSeq reqs).filterMap HoldRequest.tied } :=
    setOutcomes_eq hn hkeys
  unfold holdPassing
  rw [insertOrders_eq h0]
  exact bind_eq_ok.mpr ⟨_, rfl, bind_eq_ok.mpr ⟨store, hholds, bind_eq_ok.mpr ⟨_, hset, rfl⟩⟩⟩

theorem Holdable.withRecordID (h : Holdable req) (n : Nat) : Holdable (req.withRecordID n) :=
  ⟨h.row, h.id, h.asset⟩

theorem activeOf_length (h : List.Forall₂ (Claimed keys) owners claims) :
    (activeOf claims).length ≤ owners.length := by
  induction h with
  | nil => exact le_refl _
  | cons hclaim _ ih =>
    cases hclaim with
    | existing _ _ => exact Nat.le_succ_of_le ih
    | active n _ => exact Nat.succ_le_succ ih

/-- The tables between transactions, with no locked balance below zero. -/
structure Lockable (s : Intake) : Prop extends IntakeOk s where
  locked : ∀ k : AccountKey, k.accountType = .userLocked → 0 ≤ balanceOf s.ledger k

/-- The transaction of a batch never fails: what its fold lets pass the ledger takes. -/
theorem holdOwners_serves (hs : Lockable s) (hn : (owners.filterMap HoldRequest.groupKey).Nodup)
    (hreqs : ∀ req ∈ owners, Holdable req) (hseq : s.orderSeq + owners.length < 2 ^ 63) :
    ∃ s' verdicts,
      holdOwners s owners = .ok (s', verdicts.map Verdict.result) ∧
      Serves s.keys (balanceOf s.ledger) owners verdicts (balanceOf s'.ledger) ∧
      Placed s s' (verdicts.filterMap Verdict.held?) := by
  obtain ⟨claims, hclaims⟩ : ∃ claims, claims = claimed s.keys s.keySeq owners := ⟨_, rfl⟩
  have hspec : List.Forall₂ (Claimed s.keys) owners claims :=
    hclaims ▸ claimed_spec s.keys s.keySeq owners
  have hactive : ∀ a ∈ activeOf claims, Holdable a := fun a ha => by
    rw [hclaims] at ha
    obtain ⟨r, hr, n, rfl, -⟩ := of_mem_active ha
    exact (hreqs r hr).withRecordID n
  have hcount := activeOf_length hspec
  -- the fold over what was locked is the fold over the balances
  obtain ⟨t, accounts, hensure, hcover⟩ := ensureAccounts_ok hs.ledger (holdSpecs_valid hactive)
  obtain ⟨balances, hlock⟩ := lockEnsured_ok hs.ledger hensure
  have hens := ensureAccounts_spec hs.ledger.accounts hs.ledger.rows hensure
  have hcheck := checkHolds_locked hs.ledger hensure hcover hlock
  have hlen := foldErrs_length (balanceOf s.ledger) (activeOf claims)
  have hbalance : balanceOf t = balanceOf s.ledger := funext (hens.balanceOf_eq hs.ledger)
  have hunheld : Unheld t s.orderSeq := by
    refine ⟨hens.provisioned, ?_, ?_⟩
    · rw [hens.ext.frame.1]
      exact hs.holds
    · rw [hbalance]
      exact hs.locked
  -- so the holds of those that passed are taken
  have hpass := passing_sublist (activeOf claims) (foldErrs (balanceOf s.ledger) (activeOf claims))
  obtain ⟨hsorted, hids⟩ := active_ids s.keys s.keySeq owners
  rw [← hclaims] at hsorted hids
  have hrows := hpass.filterMap HoldRequest.record
  have hkeyIDs := nodup_ids_append hs.ids hs.seq ((hsorted.sublist (hrows.map _)).imp Nat.ne_of_lt)
    fun record hrec => (hids record (hrows.subset hrec)).1
  obtain ⟨t', hholds, hfinal⟩ := holds_passing { s.toStore with
      ledger := t
      orderSeq := s.orderSeq +
        (passing (activeOf claims) (foldErrs (balanceOf t) (activeOf claims))).length
      orders := s.orders ++ (numberOrders s.orderSeq (passing (activeOf claims)
        (foldErrs (balanceOf t) (activeOf claims)))).map HoldRequest.order } hunheld
        hactive (by omega)
  simp only [hbalance] at hholds hfinal
  have hpassing := holdPassing_of_holds (s := { s with
      ledger := t
      keys := s.keys ++
        (passing (activeOf claims) (foldErrs (balanceOf s.ledger) (activeOf claims))).filterMap
        HoldRequest.record
      keySeq := s.keySeq + (owners.filterMap HoldRequest.newRecord).length }) rfl hkeyIDs
    (fun req hreq => (hactive req (hpass.subset hreq)).id) hholds
  obtain ⟨hresults, -, hplaced⟩ :=
    placed_owners hs.toIntakeOk hn (fun req hreq => (hreqs req hreq).id) hclaims hlen
    hens.provisioned hens.ext.frame.1 hpassing
  refine ⟨_, _, ?_, ?_, hplaced⟩
  · unfold holdOwners
    rw [claimIdempotencyKeys_eq hs.pairs hn, ← hclaims, ← hresults]
    refine bind_eq_ok.mpr ⟨_, rfl,
      bind_eq_ok.mpr ⟨(t, accounts), hensure, bind_eq_ok.mpr ⟨balances, hlock, ?_⟩⟩⟩
    simp only [hcheck]
    exact bind_eq_ok.mpr ⟨_, deleteByIDs_claimed hs.toIntakeOk hclaims hlen,
      bind_eq_ok.mpr ⟨_, hpassing, rfl⟩⟩
  · have hserves := serves_verdictsOf hspec (balanceOf s.ledger) s.orderSeq
    rw [← hfinal] at hserves
    exact hserves

/-! ## One by one -/

theorem Placed.rollback (hs : IntakeOk s) (gap : Gap) : Placed s (s.rollback gap) [] where
  orders := by simp [Intake.rollback]
  orderIDs := .nil
  orderSeq := ⟨Nat.le_add_right _ _, by simp⟩
  keys := by simp [Intake.rollback]
  recordIDs := .nil
  keySeq := ⟨Nat.le_add_right _ _, by simp⟩
  fresh := by simp
  pairs := .nil
  ledger := by
    refine ⟨⟨hs.ledger.accounts.ids, hs.ledger.accounts.keys, fun a ha => ?_,
      hs.ledger.accounts.flags⟩, ⟨hs.ledger.rows.ids, hs.ledger.rows.accounts⟩⟩
    exact le_trans (hs.ledger.accounts.bounded a ha) (Nat.le_add_right _ _)
  journals := by simp [Intake.rollback]

theorem pairwise_lt_append {xs ys : List Nat} {n : Nat} (hx : xs.Pairwise (· < ·))
    (hy : ys.Pairwise (· < ·))
    (hle : ∀ x ∈ xs, x ≤ n) (hlt : ∀ y ∈ ys, n < y) : (xs ++ ys).Pairwise (· < ·) :=
  List.pairwise_append.mpr ⟨hx, hy, fun x hxs y hys => lt_of_le_of_lt (hle x hxs) (hlt y hys)⟩

/-- Two transactions one after the other. -/
theorem Placed.trans (h : Placed s s₁ held) (h' : Placed s₁ s' held₁) :
    Placed s s' (held ++ held₁) where
  orders := by rw [h'.orders, h.orders, List.map_append, List.append_assoc]
  orderIDs := by
    rw [List.map_append]
    refine pairwise_lt_append (n := s₁.orderSeq) h.orderIDs h'.orderIDs ?_ ?_
    · rw [List.forall_mem_map]
      exact fun r hr => (h.orderSeq.2 r hr).2
    · rw [List.forall_mem_map]
      exact fun r hr => (h'.orderSeq.2 r hr).1
  orderSeq := by
    have hfirst := h.orderSeq.1
    have hsecond := h'.orderSeq.1
    refine ⟨by omega, fun r hr => ?_⟩
    rcases List.mem_append.mp hr with hr | hr
    · have := h.orderSeq.2 r hr
      omega
    · have := h'.orderSeq.2 r hr
      omega
  keys := by rw [h'.keys, h.keys, List.filterMap_append, List.append_assoc]
  recordIDs := by
    rw [List.filterMap_append, List.map_append]
    refine pairwise_lt_append (n := s₁.keySeq) h.recordIDs h'.recordIDs ?_ ?_
    · rw [List.forall_mem_map]
      exact fun record hrec => (h.keySeq.2 record hrec).2
    · rw [List.forall_mem_map]
      exact fun record hrec => (h'.keySeq.2 record hrec).1
  keySeq := by
    have hfirst := h.keySeq.1
    have hsecond := h'.keySeq.1
    refine ⟨by omega, fun record hrec => ?_⟩
    rw [List.filterMap_append] at hrec
    rcases List.mem_append.mp hrec with hrec | hrec
    · have := h.keySeq.2 record hrec
      omega
    · have := h'.keySeq.2 record hrec
      omega
  fresh r hr := by
    rcases List.mem_append.mp hr with hr | hr
    · exact h.fresh r hr
    · intro record hrec
      apply h'.fresh r hr record
      rw [h.keys]
      exact List.mem_append_left _ hrec
  pairs := by
    rw [List.filterMap_append]
    refine List.nodup_append.mpr ⟨h.pairs, h'.pairs, fun pair hpair pair' hpair' he => ?_⟩
    obtain ⟨r, hr, hkey⟩ := List.mem_filterMap.mp hpair'
    -- the row of the first is in the table that the second finds
    rw [← (tied_record held).2] at hpair
    obtain ⟨record, hrec, hp⟩ := List.mem_map.mp hpair
    apply h'.fresh r hr record
    · rw [h.keys]
      exact List.mem_append_right _ hrec
    · rw [hkey, hp, he]
  ledger := h'.ledger
  journals := by rw [h'.journals, h.journals, List.map_append, List.append_assoc]

/-- What a caller reads of a result: the order counts only where there is no error. -/
def HoldResult.settled (result : HoldResult) : HoldResult :=
  if result.err.isSome then { result with order := none } else result

theorem settled_result (verdict : Verdict) : verdict.result.settled = verdict.result := by
  cases verdict <;> rfl

theorem settled_failedResult (s : Intake) (req : HoldRequest) (e : DomainError) :
    (failedResult s req e).settled = (Verdict.refused e).result := rfl

theorem Lockable.unheld (hs : Lockable s) : Unheld s.ledger s.orderSeq :=
  ⟨hs.ledger, hs.holds, hs.locked⟩

/-- One request is served as a batch of one would be. -/
theorem persistAndHoldOne_serves (hs : Lockable s) (hreq : Holdable req)
    (hseq : s.orderSeq + 1 < 2 ^ 63) (gap : Gap) :
    ∃ s' result verdict, persistAndHoldOne s gap req = (s', result) ∧
    result.settled = verdict.result ∧
      Serves s.keys (balanceOf s.ledger) [req] [verdict] (balanceOf s'.ledger) ∧
      Placed s s' verdict.held?.toList ∧ s'.orderSeq ≤ s.orderSeq + 1 + gap.orderIDs := by
  by_cases hfree : Unclaimed s.keys req
  · have hone := holdOne_of_unclaimed hfree hreq.id
    have hcases := Unheld.hold { (claimOne s req).toStore with
      orderSeq := s.orderSeq + 1
      orders := s.orders ++ [{ req.order with id := s.orderSeq + 1 }] } hs.unheld hreq (by omega)
    rcases hcases with ⟨hpos, t, hok, -, hbalance⟩ | ⟨hneg, herr⟩
    · obtain ⟨hclaim, hsorted, hids⟩ := claimOne_rows s req
      have hkeyIDs := nodup_ids_append hs.ids hs.seq (hsorted.imp Nat.ne_of_lt) fun record hrec =>
        (hids record hrec).1
      have hrows : (claimOne s req).keys =
          s.keys ++ [req.withRecordID (s.keySeq + 1)].filterMap HoldRequest.record := by
        rw [hclaim]
      have hpassing := holdPassing_of_holds hrows hkeyIDs
        (fun r hr => by rw [List.mem_singleton.mp hr]; exact hreq.id) (bind_eq_ok.mpr ⟨_, hok, rfl⟩)
      have hfinal : balanceOf t = afterHold (balanceOf s.ledger) req.order := hbalance
      have hplaced := placed_one hs.toIntakeOk hfree hreq.id hpassing
      rw [hpassing] at hone
      refine ⟨_, _, .held (req.stored (s.keySeq + 1) (s.orderSeq + 1)), ?_, settled_result _, ?_,
        hplaced, ?_⟩
      · rw [persistAndHoldOne, hone]
        rfl
      · refine .held _ _ hfree hpos ?_
        rw [← hfinal]
        exact .nil _
      · exact Nat.le_add_right _ _
    · rw [holdPassing_singleton (by exact hreq.id)] at hone
      have hfail : holdOne s req = .error (insufficientBalanceError req.order.side) := by
        rw [hone]
        exact map_bind_error _ _ herr
      refine ⟨s.rollback gap, _, .refused (insufficientBalanceError req.order.side), ?_,
        settled_failedResult s req _, ?_, .rollback hs.toIntakeOk gap, ?_⟩
      · rw [persistAndHoldOne, hfail]
      · exact .refused hfree hneg (.nil _)
      · show s.orderSeq + gap.orderIDs ≤ _
        omega
  · obtain ⟨record, hmem, hkey⟩ := not_unclaimed.mp hfree
    refine ⟨{ s with keySeq := s.keySeq + 1 }, _, .existing record, ?_, settled_result _,
      .existing hmem hkey (.nil _), .nil hs.ledger (Nat.le_succ _), ?_⟩
    · rw [persistAndHoldOne, holdOne_of_taken hs.pairs hmem hkey]
    · show s.orderSeq ≤ _
      omega

/-- The order ids that requests held one by one can take. -/
def idsNeeded (gap : HoldRequest → Gap) (reqs : List HoldRequest) : Nat :=
  (reqs.map fun req => 1 + (gap req).orderIDs).sum

/-- The requests one by one are served as a batch of them would be. -/
theorem holdEach_serves (hs : Lockable s) (hn : (owners.filterMap HoldRequest.groupKey).Nodup)
    (hreqs : ∀ req ∈ owners, Holdable req) (gap : HoldRequest → Gap)
    (hseq : s.orderSeq + idsNeeded gap owners < 2 ^ 63) : ∃ verdicts,
      (holdEach gap s owners).2.map HoldResult.settled = verdicts.map Verdict.result ∧
      Serves s.keys (balanceOf s.ledger) owners verdicts
        (balanceOf (holdEach gap s owners).1.ledger) ∧
      Placed s (holdEach gap s owners).1 (verdicts.filterMap Verdict.held?) := by
  induction owners generalizing s with
  | nil => exact ⟨[], rfl, .nil _, .nil hs.ledger (le_refl _)⟩
  | cons req owners ih =>
    rw [List.forall_mem_cons] at hreqs
    rw [idsNeeded, List.map_cons, List.sum_cons] at hseq
    obtain ⟨s₁, result, verdict, hone, hresult, hserves, hplaced, hbound⟩ :=
      persistAndHoldOne_serves hs hreqs.1 (by omega) (gap req)
    have hs₁ : Lockable s₁ := ⟨hplaced.ok hs.toIntakeOk, fun k hk => le_trans (hs.locked k hk)
      (hserves.locked (by simpa using hreqs.1) hk)⟩
    have hrestKeys : (owners.filterMap HoldRequest.groupKey).Nodup :=
      hn.sublist ((List.sublist_cons_self req owners).filterMap _)
    obtain ⟨verdicts, hresults, hrest, hplaced'⟩ := ih hs₁ hrestKeys hreqs.2 (by
      have hrest : s₁.orderSeq + (owners.map fun req => 1 + (gap req).orderIDs).sum <
          2 ^ 63 := by omega
      exact hrest)
    have hstep : holdEach gap s (req :: owners) =
        ((holdEach gap s₁ owners).1, result :: (holdEach gap s₁ owners).2) := by
      rw [holdEach, hone]
    rw [hstep]
    refine ⟨verdict :: verdicts, ?_, hserves.cons (hrest.of_keys ?_ ?_), ?_⟩
    · rw [List.map_cons, List.map_cons, hresult, hresults]
    · intro record hrec
      rw [hplaced.keys]
      exact List.mem_append_left _ hrec
    · -- the only new row is that of the owner just served
      intro record hrec hout r hr hkey
      rw [hplaced.keys] at hrec
      rcases List.mem_append.mp hrec with hrec | hrec
      · exact hout hrec
      · cases hserves with
        | existing _ _ _ => cases hrec
        | refused _ _ _ => cases hrec
        | held n m hfree _ _ =>
          have hpair : record.pair ∈ [req.stored n m].filterMap HoldRequest.groupKey := by
            rw [← (tied_record _).2]
            exact List.mem_map_of_mem hrec
          have hown : req.groupKey = some record.pair := by
            rw [List.mem_filterMap] at hpair
            obtain ⟨r', hr', hp⟩ := hpair
            rw [List.mem_singleton.mp hr', groupKey_stored] at hp
            exact hp
          rw [List.filterMap_cons_some hown, List.nodup_cons] at hn
          exact hn.1 (List.mem_filterMap.mpr ⟨r, hr, hkey⟩)
    · have hcons : (verdict :: verdicts).filterMap Verdict.held? =
          verdict.held?.toList ++ verdicts.filterMap Verdict.held? := by
        cases verdict <;> rfl
      rw [hcons]
      exact hplaced.trans hplaced'

end GoExchange.Service
