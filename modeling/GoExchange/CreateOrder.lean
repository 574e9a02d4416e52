import GoExchange.HoldVerdicts
import GoExchange.MarketRules

/-!
# Replays

`CreateOrder` of `order_service.go` and `order_fingerprint.go`: a request whose
key is already stored is compared with the stored request, before it is
rejected and after it was held. What the request is compared with is the stored
request only where no other request of its batch comes between.
-/
namespace GoExchange.Service

open Rows Fallible

/-! ## Fingerprints -/

structure OrderFingerprintInput where
  userID : Nat
  coinSymbol : String
  side : OrderSide
  orderType : OrderType
  price : Decimal
  amount : Decimal
  quoteAmount : Decimal
  deriving DecidableEq, Repr

def fingerprintInput (order : OrderRow) : OrderFingerprintInput :=
  ⟨order.userID, order.coinSymbol, order.side, order.orderType, order.price, order.amount,
    order.quoteAmount⟩

def currentOrderFingerprintVersion : Nat := 1

/-- `normalizeIdempotencyKey` on a text that is already trimmed. -/
def normalizeIdempotencyKey (raw : String) : Except DomainError String :=
  if raw = "" ∨ 128 < raw.length then
    .error ⟨.validation, "idempotency_key is required and must be 1..128 characters"⟩
  else .ok raw

section CreateOrder

-- `computeOrderFingerprintV1`, the hash of the fields
variable (fingerprintV1 : OrderFingerprintInput → String)

def computeOrderFingerprint (input : OrderFingerprintInput) (version : Nat) :
    Except DomainError String :=
  if version = 1 then .ok (fingerprintV1 input)
  else .error ⟨.other, s!"unsupported order fingerprint version {version}"⟩

/-! ## Stored answers -/

structure CreateOrderResult where
  orderID : Nat
  replay : Bool
  outcome : OrderIdempotencyOutcome
  deriving DecidableEq, Repr

def replayResult (record : OrderIdempotencyKey) (input : OrderFingerprintInput) :
    Except DomainError CreateOrderResult :=
  match computeOrderFingerprint fingerprintV1 input record.fingerprintVersion with
  | .error _ => .error ⟨.unavailable,
    s!"idempotency record uses fingerprint version {record.fingerprintVersion}, which this server cannot verify"⟩
  | .ok stored =>
    if record.fingerprint ≠ stored then
      .error ⟨.conflict, "idempotency key was used with a different request"⟩
    else .ok ⟨record.orderID.getD 0, true, record.outcome⟩

/-- The last look before a rejection: `replayExistingKey`, and the rejection if there is no such
key. -/
def rejectUnlessReplay (s : Intake) (pair : UserKeyPair) (input : OrderFingerprintInput)
    (rejection : DomainError) : Except DomainError CreateOrderResult :=
  match findByUserKeys s [pair] with
  | [] => .error rejection
  | record :: _ => replayResult fingerprintV1 record input

def followerResult (res : HoldResult) (input : OrderFingerprintInput) :
    Except DomainError CreateOrderResult :=
  match res.existing, res.order with
  | some record, _ => replayResult fingerprintV1 record input
  | none, some order => .ok ⟨order.id, true, .pending⟩
  | none, none => .error ⟨.unavailable, "idempotency record is unavailable, please retry"⟩

/-! ## The request -/

def holdRequestOf (order : OrderRow) (key fingerprint : String) (resultCh : Nat) : HoldRequest :=
  ⟨order, some ⟨key, fingerprint, currentOrderFingerprintVersion, 0⟩, resultCh⟩

/-- `CreateOrder` up to the hold: an answer, or the request that is held. `engine` is the engine's
`IsIntakeAdmissible`, if there is an engine. -/
def admitOrder (rules : MarketRulesRegistry) (engine : Option (String → Bool)) (s : Intake)
    (rawKey : String)
    (input : CreateOrderInput) (resultCh : Nat) :
    Except DomainError (CreateOrderResult ⊕ HoldRequest) := do
  let key ← normalizeIdempotencyKey rawKey
  let order ← parseOrderRequest input
  let fingerprint ← computeOrderFingerprint fingerprintV1 (fingerprintInput order)
    currentOrderFingerprintVersion
  let reject := fun rejection =>
    (rejectUnlessReplay fingerprintV1 s ⟨order.userID, key⟩ (fingerprintInput order) rejection).map
      Sum.inl
  match validateMarketPolicy rules order with
  | .error e => reject e
  | .ok () =>
    match engine with
    | none => reject ⟨.unavailable, "matching engine is not configured"⟩
    | some isIntakeAdmissible =>
      if ¬ isIntakeAdmissible order.coinSymbol then reject saturated
      else return .inr (holdRequestOf order key fingerprint resultCh)

/-- How a request is held: alone, or in a batch after `before` and ahead of `after`, where the
database fails no transaction. -/
inductive Route where
  | single (gap : Gap)
  | batch (before after : List HoldRequest) (gap : Gap) (gaps : HoldRequest → Gap)

def holdWithIdempotency (s : Intake) (route : Route) (req : HoldRequest) : HoldResult :=
  match route with
  | .single gap => (persistAndHoldOne s gap req).2
  | .batch before after gap gaps =>
    (processBatch s none gap gaps (before ++ req :: after)).2.getD before.length {}

/-- `CreateOrder` up to the engine: `none` is an owner, whose order is submitted next. -/
def createOrder (rules : MarketRulesRegistry) (engine : Option (String → Bool)) (s : Intake)
    (rawKey : String)
    (input : CreateOrderInput) (resultCh : Nat) (route : Route) :
    Except DomainError (Option CreateOrderResult) := do
  match ← admitOrder fingerprintV1 rules engine s rawKey input resultCh with
  | .inl answer => return some answer
  | .inr req =>
    let res := holdWithIdempotency s route req
    match res.err, res.role with
    | some e, _ => .error e
    | none, .follower => (followerResult fingerprintV1 res (fingerprintInput req.order)).map some
    | none, .owner => return none

end CreateOrder

/-! ## What is answered for a key that is stored -/

variable {s s' : Intake} {row : OrderIdempotencyKey} {req : HoldRequest}
  {reqs owners : List HoldRequest} {gap : Gap} {gaps : HoldRequest → Gap}
  {results : List HoldResult}

/-- A request whose key is stored gets its row. -/
def FindsRow (s : Intake) (req : HoldRequest) (res : HoldResult) : Prop :=
  ∀ row ∈ s.keys, req.groupKey = some row.pair → res = (Verdict.existing row).result

/-- A key, once stored, stays as it is. -/
theorem holdOne_keys (hs : WellKeyed s) (h0 : req.order.id = 0) {res : HoldResult}
    (h : holdOne s req = .ok (s', res)) : WellKeyed s' ∧ s.keys ⊆ s'.keys := by
  by_cases hfree : Unclaimed s.keys req
  · rw [holdOne_of_unclaimed hfree h0] at h
    obtain ⟨hclaim, hsorted, hids⟩ := claimOne_rows s req
    rw [hclaim] at h
    cases hp : holdPassing { s with
        keys := s.keys ++ [req.withRecordID (s.keySeq + 1)].filterMap HoldRequest.record
        keySeq := s.keySeq + req.newRecord.toList.length } [req.withRecordID (s.keySeq + 1)] with
    | error e =>
      rw [hp] at h
      cases h
    | ok p =>
      rw [hp] at h
      cases h
      have hn := nodup_ids_append hs.ids hs.seq (hsorted.imp Nat.ne_of_lt) fun row hrow =>
        (hids row hrow).1
      obtain ⟨hheld, store, -, hs'⟩ := holdPassing_keys rfl hn (fun r hr => by
        rw [List.mem_singleton.mp hr]
        exact h0) hp
      obtain ⟨hfree, hpairs⟩ := stored_free hfree (s.keySeq + 1) (s.orderSeq + 1)
      have hkeys : p.1.keys =
          s.keys ++ [req.stored (s.keySeq + 1) (s.orderSeq + 1)].filterMap HoldRequest.tied := by
        rw [hs', hheld]
        rfl
      have hseq : p.1.keySeq = s.keySeq + req.newRecord.toList.length := by rw [hs']
      refine ⟨wellKeyed_tied hs hkeys hsorted ⟨by omega, fun row hrow => ?_⟩ hfree hpairs, ?_⟩
      · rw [hseq]
        exact hids row hrow
      · rw [hkeys]
        exact List.subset_append_left _ _
  · obtain ⟨record, hmem, hkey⟩ := not_unclaimed.mp hfree
    rw [holdOne_of_taken hs.pairs hmem hkey] at h
    cases h
    exact ⟨⟨hs.pairs, hs.ids, fun record hrec => Nat.le_succ_of_le (hs.seq record hrec)⟩,
      List.Subset.refl _⟩

theorem persistAndHoldOne_keys (hs : WellKeyed s) (h0 : req.order.id = 0) (gap : Gap) :
    WellKeyed (persistAndHoldOne s gap req).1 ∧ s.keys ⊆ (persistAndHoldOne s gap req).1.keys := by
  unfold persistAndHoldOne
  cases hone : holdOne s req with
  | ok p => exact holdOne_keys hs h0 hone
  | error e =>
    exact ⟨⟨hs.pairs, hs.ids, fun record hrec => le_trans (hs.seq record hrec)
      (Nat.le_add_right _ _)⟩, List.Subset.refl _⟩

theorem persistAndHoldOne_finds (hs : WellKeyed s) (gap : Gap) (hrow : row ∈ s.keys)
    (hkey : req.groupKey = some row.pair) :
    (persistAndHoldOne s gap req).2 = (Verdict.existing row).result := by
  rw [persistAndHoldOne, holdOne_of_taken hs.pairs hrow hkey]

theorem holdEach_finds {s₀ : Intake} (hs : WellKeyed s) (hsub : s₀.keys ⊆ s.keys)
    (h0 : ∀ req ∈ reqs, req.order.id = 0) :
    List.Forall₂ (FindsRow s₀) reqs (holdEach gaps s reqs).2 := by
  induction reqs generalizing s with
  | nil => exact .nil
  | cons req reqs ih =>
    rw [List.forall_mem_cons] at h0
    obtain ⟨hs', hkeep⟩ := persistAndHoldOne_keys hs h0.1 (gaps req)
    refine .cons (fun row hrow hkey => ?_) (ih hs' (fun row hrow => hkeep (hsub hrow)) h0.2)
    exact persistAndHoldOne_finds hs (gaps req) (hsub hrow) hkey

/-- Whatever the fold decides, an owner whose key is stored gets its row. -/
theorem ownerResults_finds {claims : List Claim} {held : List HoldRequest}
    {errs : List (Option DomainError)}
    (hn : (s.keys.map OrderIdempotencyKey.pair).Nodup)
    (h : List.Forall₂ (Claimed s.keys) owners claims) :
    List.Forall₂ (FindsRow s) owners (ownerResults claims errs held) := by
  induction h generalizing errs held with
  | nil => exact .nil
  | @cons req claim owners claims hclaim _ ih =>
    cases hclaim with
    | @existing record hmem hkey =>
      refine .cons (fun row hrow hkey' => ?_) ih
      have hpair : record.pair = row.pair := Option.some.inj (hkey.symm.trans hkey')
      rw [List.inj_on_of_nodup_map hn hmem hrow hpair]
      rfl
    | active n hfree =>
      have hfinds : ∀ res, FindsRow s req res :=
        fun res row hrow hkey => absurd hkey (hfree row hrow)
      obtain ⟨res, errs', held', hres⟩ : ∃ res errs' held',
          ownerResults (.active (req.withRecordID n) :: claims) errs held =
            res :: ownerResults claims errs' held' := by
        obtain _ | ⟨_ | e, errs⟩ := errs
        · exact ⟨_, _, _, rfl⟩
        · obtain _ | ⟨r, held⟩ := held <;> exact ⟨_, _, _, rfl⟩
        · exact ⟨_, _, _, rfl⟩
      rw [hres]
      exact .cons (hfinds res) ih

theorem holdOwners_finds
    (hs : (s.keys.map OrderIdempotencyKey.pair).Nodup)
    (hn : (owners.filterMap HoldRequest.groupKey).Nodup)
    (h : holdOwners s owners = .ok (s', results)) : List.Forall₂ (FindsRow s) owners results := by
  unfold holdOwners at h
  obtain ⟨claims, hclaim, h⟩ := bind_eq_ok.mp h
  rw [claimIdempotencyKeys_eq hs hn] at hclaim
  cases hclaim
  obtain ⟨_, -, h⟩ := bind_eq_ok.mp h
  obtain ⟨_, -, h⟩ := bind_eq_ok.mp h
  obtain ⟨_, -, h⟩ := bind_eq_ok.mp h
  obtain ⟨_, -, h⟩ := bind_eq_ok.mp h
  cases h
  exact ownerResults_finds hs (claimed_spec _ _ _)

/-! ## The answer of a batch -/

/-- The first request with the user and key of `req` among those before it asks for something else.
-/
def Overtaken (before : List HoldRequest) (req : HoldRequest) : Prop :=
  ∃ leader, leaderOf before req = some leader ∧ leader.fingerprint ≠ req.fingerprint

theorem groupKey_of_leader {before : List HoldRequest} {leader : HoldRequest}
    (h : leaderOf before req = some leader) : leader.groupKey = req.groupKey := by
  obtain ⟨key, hkey, hfind⟩ := Option.bind_eq_some_iff.mp h
  rw [hkey]
  simpa using List.find?_some hfind

/-- A request whose key is stored gets its row, or a conflict if it is overtaken. -/
theorem Answered.of_row {before : List HoldRequest} {res : HoldResult}
    (h : Answered (FindsRow s) before req res)
    (hrow : row ∈ s.keys) (hkey : req.groupKey = some row.pair) :
    (¬ Overtaken before req ∧ res = (Verdict.existing row).result) ∨
    (Overtaken before req ∧ res = conflictResult) := by
  cases h with
  | own hnone hfinds =>
    refine .inl ⟨fun ⟨leader, hleader, _⟩ => ?_, hfinds row hrow hkey⟩
    rw [hnone] at hleader
    cases hleader
  | follower hleader hsame hfinds =>
    refine .inl ⟨fun ⟨leader, hleader', hne⟩ => ?_, ?_⟩
    · rw [hleader] at hleader'
      cases hleader'
      exact hne hsame
    · rw [hfinds row hrow ((groupKey_of_leader hleader).trans hkey)]
      rfl
  | conflict hleader hne => exact .inr ⟨⟨_, hleader, hne⟩, rfl⟩

theorem groupKey_reset (req : HoldRequest) : req.reset.groupKey = req.groupKey :=
  groupKey_withRecordID req 0

theorem fingerprint_reset (req : HoldRequest) : req.reset.fingerprint = req.fingerprint := by
  simp [HoldRequest.fingerprint, HoldRequest.reset, HoldRequest.withRecordID, Option.map_map,
    Function.comp_def]

theorem leaderOf_reset (before : List HoldRequest) (req : HoldRequest) :
    leaderOf (before.map HoldRequest.reset) req.reset =
      (leaderOf before req).map HoldRequest.reset := by
  unfold leaderOf
  rw [groupKey_reset]
  cases req.groupKey with
  | none => rfl
  | some key => simp [List.find?_map, groupKey_reset]

theorem overtaken_reset {before : List HoldRequest} :
    Overtaken (before.map HoldRequest.reset) req.reset ↔ Overtaken before req := by
  unfold Overtaken
  rw [leaderOf_reset, fingerprint_reset]
  constructor
  · rintro ⟨leader, hleader, hne⟩
    obtain ⟨l, hl, rfl⟩ := Option.map_eq_some_iff.mp hleader
    exact ⟨l, hl, fingerprint_reset l ▸ hne⟩
  · rintro ⟨leader, hleader, hne⟩
    exact ⟨leader.reset, by rw [hleader]; rfl, fingerprint_reset leader ▸ hne⟩

def Route.before : Route → List HoldRequest
  | .single _ => []
  | .batch before _ _ _ => before

theorem holdBatch_answers (hs : (s.keys.map OrderIdempotencyKey.pair).Nodup)
    (h : holdBatch s reqs = .ok (s', results)) : Answers (FindsRow s) [] reqs results := by
  unfold holdBatch at h
  obtain ⟨⟨s₁, owners⟩, howners, h⟩ := bind_eq_ok.mp h
  cases h
  exact answers_of_owners (holdOwners_finds hs (ownersOf_nodup [] 0 reqs).1 howners)

theorem fallback_answers (hs : WellKeyed s) (h0 : ∀ req ∈ reqs, req.order.id = 0) :
    Answers (FindsRow s) [] reqs (fallbackPerRequest s gaps reqs).2 :=
  answers_of_owners (holdEach_finds hs (List.Subset.refl _) fun req hreq =>
    h0 req ((ownersOf_sublist _ _).subset hreq))

theorem getD_of_getElem? {α : Type} {xs : List α} {n : Nat} {x d : α} (h : xs[n]? = some x) :
    xs.getD n d = x := by
  rw [List.getD_eq_getElem?_getD, h]
  rfl

theorem holdWithIdempotency_of_row (hs : WellKeyed s) (hrow : row ∈ s.keys)
    (hkey : req.groupKey = some row.pair) (route : Route) :
    (¬ Overtaken route.before req ∧
      holdWithIdempotency s route req = (Verdict.existing row).result) ∨
    (Overtaken route.before req ∧ holdWithIdempotency s route req = conflictResult) := by
  cases route with
  | single gap =>
    refine .inl ⟨fun ⟨leader, hleader, _⟩ => ?_, persistAndHoldOne_finds hs gap hrow hkey⟩
    obtain ⟨key, -, hfind⟩ := Option.bind_eq_some_iff.mp hleader
    cases hfind
  | batch before after gap gaps =>
    simp only [holdWithIdempotency, processBatch, call, Route.before]
    cases hbatch : holdBatch s (before ++ req :: after) with
    | ok p =>
      obtain ⟨res, hres, hanswered⟩ := (holdBatch_answers hs.pairs hbatch).at
      rw [List.nil_append] at hanswered
      have hget : p.2.getD before.length {} = res := getD_of_getElem? hres
      simp only [hget]
      exact hanswered.of_row hrow hkey
    | error e =>
      have hroll : WellKeyed (s.rollback gap) :=
        ⟨hs.pairs, hs.ids, fun record hrec => le_trans (hs.seq record hrec) (Nat.le_add_right _ _)⟩
      have hzero : ∀ r ∈ (before ++ req :: after).map HoldRequest.reset, r.order.id = 0 :=
        fun r hr => by
        obtain ⟨r', -, rfl⟩ := List.mem_map.mp hr
        rfl
      have hall : Answers (FindsRow (s.rollback gap)) []
          ((before ++ req :: after).map HoldRequest.reset)
          (fallbackPerRequest (s.rollback gap) gaps
            ((before ++ req :: after).map HoldRequest.reset)).2 :=
        fallback_answers hroll hzero
      simp only [Option.elim_none, reduceCtorEq, if_false]
      rw [List.map_append, List.map_cons] at hall ⊢
      obtain ⟨res, hres, hanswered⟩ := hall.at
      rw [List.nil_append] at hanswered
      rw [List.length_map] at hres
      rw [getD_of_getElem? hres, ← overtaken_reset]
      exact hanswered.of_row hrow ((groupKey_reset req).trans hkey)

/-! ## Replays -/

section Replays

variable (fingerprintV1 : OrderFingerprintInput → String)

/-- The answer a request should get for a key that is stored: the stored order if it is the same
request, and a conflict if it is another. -/
def Replays (row : OrderIdempotencyKey) (fingerprint : String)
    (reply : Except DomainError (Option CreateOrderResult)) : Prop :=
  if fingerprint = row.fingerprint then reply = .ok (some ⟨row.orderID.getD 0, true, row.outcome⟩)
  else ∃ e, reply = .error e ∧ e.kind = .conflict

/-- The request is not rejected before it is held. -/
def Admits (rules : MarketRulesRegistry) (engine : Option (String → Bool)) (order : OrderRow) :
    Prop :=
  validateMarketPolicy rules order = .ok () ∧ engine.any (· order.coinSymbol) = true

theorem replayResult_replays (hversion : row.fingerprintVersion = currentOrderFingerprintVersion)
    (input : OrderFingerprintInput) :
    Replays row (fingerprintV1 input) ((replayResult fingerprintV1 row input).map some) := by
  unfold Replays replayResult computeOrderFingerprint
  rw [hversion]
  by_cases he : fingerprintV1 input = row.fingerprint
  · simp [he, currentOrderFingerprintVersion, Except.map]
  · have hne : row.fingerprint ≠ fingerprintV1 input := Ne.symm he
    simp [he, hne, currentOrderFingerprintVersion, Except.map]

theorem rejectUnlessReplay_eq (hs : (s.keys.map OrderIdempotencyKey.pair).Nodup)
    (hrow : row ∈ s.keys) (input : OrderFingerprintInput) (rejection : DomainError) :
    rejectUnlessReplay fingerprintV1 s row.pair input rejection =
      replayResult fingerprintV1 row input := by
  rw [rejectUnlessReplay, findByUserKeys_eq hs hrow]

variable {rawKey key : String} {input : CreateOrderInput} {order : OrderRow}

/-- A request for a stored key that is not admitted is answered from the table. -/
theorem admitOrder_eq (rules : MarketRulesRegistry) (engine : Option (String → Bool))
    (hs : (s.keys.map OrderIdempotencyKey.pair).Nodup)
    (hkey : normalizeIdempotencyKey rawKey = .ok key)
    (horder : parseOrderRequest input = .ok order) (hrow : row ∈ s.keys)
    (hpair : row.pair = ⟨order.userID, key⟩) (resultCh : Nat) :
    (Admits rules engine order ∧ admitOrder fingerprintV1 rules engine s rawKey input resultCh =
      .ok (.inr (holdRequestOf order key (fingerprintV1 (fingerprintInput order)) resultCh))) ∨
    (¬ Admits rules engine order ∧ admitOrder fingerprintV1 rules engine s rawKey input resultCh =
      (replayResult fingerprintV1 row (fingerprintInput order)).map Sum.inl) := by
  have hreject : ∀ rejection, rejectUnlessReplay fingerprintV1 s ⟨order.userID, key⟩
      (fingerprintInput order) rejection =
      replayResult fingerprintV1 row (fingerprintInput order) := fun rejection => by
    rw [← hpair]
    exact rejectUnlessReplay_eq fingerprintV1 hs hrow _ rejection
  have hprint : computeOrderFingerprint fingerprintV1 (fingerprintInput order)
      currentOrderFingerprintVersion = .ok (fingerprintV1 (fingerprintInput order)) := rfl
  simp only [admitOrder, hkey, horder, hprint, hreject, bind, Except.bind]
  cases hpolicy : validateMarketPolicy rules order with
  | error e => exact .inr ⟨fun h => (by rw [Admits, hpolicy] at h; cases h.1), rfl⟩
  | ok _ =>
    cases engine with
    | none => exact .inr ⟨fun h => (by cases h.2), rfl⟩
    | some admissible =>
      by_cases ha : admissible order.coinSymbol = true
      · exact .inl ⟨⟨hpolicy, ha⟩, by simp [ha, pure, Except.pure]⟩
      · exact .inr ⟨fun h => ha h.2, by simp [ha]⟩

/-- A request for a key that is stored is answered by comparing it with the stored request, unless
it was held in a batch after another request for the same key: then it is compared with that one,
and refused although it equals the stored one. -/
theorem createOrder_replays_iff (rules : MarketRulesRegistry) (engine : Option (String → Bool))
    (hs : WellKeyed s)
    (hkey : normalizeIdempotencyKey rawKey = .ok key) (horder : parseOrderRequest input = .ok order)
    (hrow : row ∈ s.keys) (hpair : row.pair = ⟨order.userID, key⟩)
    (hversion : row.fingerprintVersion = currentOrderFingerprintVersion) (resultCh : Nat)
    (route : Route) : Replays row (fingerprintV1 (fingerprintInput order))
      (createOrder fingerprintV1 rules engine s rawKey input resultCh route) ↔
    ¬ (Admits rules engine order ∧ fingerprintV1 (fingerprintInput order) = row.fingerprint ∧
      Overtaken route.before
        (holdRequestOf order key (fingerprintV1 (fingerprintInput order)) resultCh)) := by
  have hreplay := replayResult_replays fingerprintV1 hversion (fingerprintInput order)
  unfold createOrder
  rcases admitOrder_eq fingerprintV1 rules engine hs.pairs hkey horder hrow hpair resultCh with
    ⟨hadmits, hadm⟩ | ⟨hadmits, hadm⟩
  · obtain ⟨req, hreq⟩ : ∃ req, req =
        holdRequestOf order key (fingerprintV1 (fingerprintInput order)) resultCh := ⟨_, rfl⟩
    have hgroup : req.groupKey = some row.pair := by rw [hreq, hpair]; rfl
    have horder' : req.order = order := by rw [hreq]; rfl
    rw [hadm, ← hreq]
    rcases holdWithIdempotency_of_row hs hrow hgroup route with ⟨hover, hres⟩ | ⟨hover, hres⟩
    · simp only [bind, Except.bind, hres, Verdict.result, followerResult, horder']
      exact ⟨fun _ h => hover h.2.2, fun _ => hreplay⟩
    · by_cases he : fingerprintV1 (fingerprintInput order) = row.fingerprint
      · simp [bind, Except.bind, hres, conflictResult, Replays, hadmits, hover, he]
      · simp [bind, Except.bind, hres, conflictResult, Replays, he]
  · rw [hadm]
    refine ⟨fun _ h => hadmits h.1, fun _ => ?_⟩
    cases hr : replayResult fingerprintV1 row (fingerprintInput order) with
    | error e => rwa [hr] at hreplay
    | ok answer => rwa [hr] at hreplay

end Replays

/-- Order 7 of user 1 under the key "k"; the symbol stands for the fingerprint. -/
def storedKey : OrderIdempotencyKey :=
  ⟨1, 1, "k", "BTC", currentOrderFingerprintVersion, some 7, .accepted⟩

def storedTables : Intake := ⟨⟨Ledger.empty, [], [], [], 7, 0⟩, [storedKey], 1⟩

theorem storedTables_wellKeyed : WellKeyed storedTables where
  pairs := by decide
  ids := by decide
  seq record hrec := by
    rw [List.mem_singleton.mp hrec]
    exact le_refl 1

def askFor (coinSymbol : String) : CreateOrderInput :=
  ⟨1, coinSymbol, .buy, .limit, some 10000, some 1, none⟩

/-- The request for another symbol under the same key, as it waits in the batch. -/
def askedFirst : HoldRequest :=
  holdRequestOf ⟨0, 1, 1, 0, "ETH", .buy, .pending, 0, 0, .limit, 10000⟩ "k" "ETH" 1

theorem createOrder_replays_alone :
    Replays storedKey "BTC" (createOrder OrderFingerprintInput.coinSymbol defaultMarketRulesRegistry
      (some fun _ => true) storedTables "k" (askFor "BTC") 2 (.single ⟨0, 0, 0, 0, 0⟩)) := by
  have horder : parseOrderRequest (askFor "BTC") =
      .ok ⟨0, 1, 1, 0, "BTC", .buy, .pending, 0, 0, .limit, 10000⟩ := by decide +kernel
  refine (createOrder_replays_iff OrderFingerprintInput.coinSymbol defaultMarketRulesRegistry
    (some fun _ => true)
    storedTables_wellKeyed (by decide) horder List.mem_cons_self rfl rfl 2
    (.single ⟨0, 0, 0, 0, 0⟩)).mpr ?_
  rintro ⟨-, -, leader, hleader, -⟩
  cases hleader

/-- After a request for another symbol in its batch the repeated request is refused. -/
theorem createOrder_refuses_replay :
    ¬ Replays storedKey "BTC"
      (createOrder OrderFingerprintInput.coinSymbol defaultMarketRulesRegistry
      (some fun _ => true) storedTables "k" (askFor "BTC") 2
      (.batch [askedFirst] [] ⟨0, 0, 0, 0, 0⟩ fun _ => ⟨0, 0, 0, 0, 0⟩)) := by
  have hsame : "BTC" = storedKey.fingerprint := rfl
  unfold Replays
  rw [if_pos hsame]
  decide +kernel

end GoExchange.Service
