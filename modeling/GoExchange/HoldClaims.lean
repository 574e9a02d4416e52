import GoExchange.HoldCoordinator

/-!
# Claiming keys

Which owners of a batch get their key and which find it taken: the claims of
`claimIdempotencyKeys` as a function of the table and the owners, what the table
keeps of them once the refused are deleted, and how the results of the owners
reach the requests that share their keys.
-/
namespace GoExchange.Service

open Rows

variable {s : Intake} {req : HoldRequest} {reqs owners : List HoldRequest}
  {records keys : List OrderIdempotencyKey} {seq : Nat} {taken : List UserKeyPair}

/-- What the unique indices and the sequence of the table of keys give. -/
structure WellKeyed (s : Intake) : Prop where
  pairs : (s.keys.map OrderIdempotencyKey.pair).Nodup
  ids : (s.keys.map OrderIdempotencyKey.id).Nodup
  seq : ∀ record ∈ s.keys, record.id ≤ s.keySeq

theorem nodup_ids_append
    (hn : (keys.map OrderIdempotencyKey.id).Nodup) (hseq : ∀ record ∈ keys, record.id ≤ seq)
    (hids : (records.map OrderIdempotencyKey.id).Nodup)
    (hnew : ∀ record ∈ records, seq < record.id) :
    ((keys ++ records).map OrderIdempotencyKey.id).Nodup := by
  rw [List.map_append]
  refine List.nodup_append.mpr ⟨hn, hids, fun i hi j hj he => ?_⟩
  obtain ⟨record, hrec, rfl⟩ := List.mem_map.mp hi
  obtain ⟨row, hrow, rfl⟩ := List.mem_map.mp hj
  have := hseq record hrec
  have := hnew row hrow
  omega

/-- New rows with the next ids and with pairs that are not taken keep the table in order. -/
theorem WellKeyed.grow {s' : Intake} (hs : WellKeyed s) (hkeys : s'.keys = s.keys ++ records)
    (hids : (records.map OrderIdempotencyKey.id).Pairwise (· < ·))
    (hseq : s.keySeq ≤ s'.keySeq ∧ ∀ record ∈ records, s.keySeq < record.id ∧ record.id ≤ s'.keySeq)
    (hpairs : (records.map OrderIdempotencyKey.pair).Nodup)
    (hfresh : ∀ record ∈ records, record.pair ∉ s.keys.map OrderIdempotencyKey.pair) :
    WellKeyed s' where
  pairs := by
    rw [hkeys, List.map_append]
    refine List.nodup_append.mpr ⟨hs.pairs, hpairs, fun pair hold pair' hnew he => ?_⟩
    obtain ⟨record, hrec, rfl⟩ := List.mem_map.mp hnew
    exact hfresh record hrec (he ▸ hold)
  ids := by
    rw [hkeys]
    exact nodup_ids_append hs.ids hs.seq (hids.imp Nat.ne_of_lt) fun record hrec =>
      (hseq.2 record hrec).1
  seq record hrec := by
    rw [hkeys] at hrec
    rcases List.mem_append.mp hrec with hrec | hrec
    · exact le_trans (hs.seq record hrec) hseq.1
    · exact (hseq.2 record hrec).2

/-- A pair finds its row. -/
theorem findByUserKeys_eq {record : OrderIdempotencyKey}
    (hn : (s.keys.map OrderIdempotencyKey.pair).Nodup)
    (hmem : record ∈ s.keys) : findByUserKeys s [record.pair] = [record] := by
  have hlen := length_filter hn (List.nodup_singleton record.pair) fun pair hp => by
    rw [List.mem_singleton.mp hp]
    exact List.mem_map_of_mem hmem
  obtain ⟨row, hrow⟩ := List.length_eq_one_iff.mp hlen
  have hin : record ∈ s.keys.filter fun row => row.pair ∈ [record.pair] :=
    List.mem_filter.mpr ⟨hmem, by simp⟩
  rw [hrow, List.mem_singleton] at hin
  rw [findByUserKeys, hrow, hin]

/-! ## The insert -/

/-- The records as `insertNew` gives them back, with the pairs that are taken. -/
def recordsFrom (taken : List UserKeyPair) (seq : Nat) :
    List OrderIdempotencyKey → List OrderIdempotencyKey
  | [] => []
  | record :: records =>
    (if record.pair ∈ taken then record else { record with id := seq + 1 }) ::
      recordsFrom taken (seq + 1) records

theorem recordsFrom_append {pair : UserKeyPair}
    (h : pair ∉ records.map OrderIdempotencyKey.pair) :
    recordsFrom (taken ++ [pair]) seq records = recordsFrom taken seq records := by
  induction records generalizing seq with
  | nil => rfl
  | cons record records ih =>
    rw [List.map_cons, List.mem_cons, not_or] at h
    have hne : record.pair ≠ pair := Ne.symm h.1
    simp only [recordsFrom, ih h.2, List.mem_append, List.mem_singleton, hne, or_false]

theorem insertNew_eq (hn : (records.map OrderIdempotencyKey.pair).Nodup)
    (h0 : ∀ record ∈ records, record.id = 0) :
    insertNew s records = ({ s with
      keys := s.keys ++
        (recordsFrom (s.keys.map OrderIdempotencyKey.pair) s.keySeq records).filter (·.id ≠ 0)
      keySeq := s.keySeq + records.length },
      recordsFrom (s.keys.map OrderIdempotencyKey.pair) s.keySeq records) := by
  induction records generalizing s with
  | nil => simp [insertNew, recordsFrom]
  | cons record records ih =>
    rw [List.map_cons, List.nodup_cons] at hn
    rw [List.forall_mem_cons] at h0
    have hlen : s.keySeq + 1 + records.length = s.keySeq + (record :: records).length := by
      rw [List.length_cons]
      omega
    unfold insertNew insertKey
    by_cases htaken : record.pair ∈ s.keys.map OrderIdempotencyKey.pair
    · simp only [htaken, if_true, ih hn.2 h0.2, hlen, recordsFrom]
      simp [h0.1]
    · have hpairs : (s.keys ++ [{ record with id := s.keySeq + 1 }]).map OrderIdempotencyKey.pair =
          s.keys.map OrderIdempotencyKey.pair ++ [record.pair] := by
        rw [List.map_append]
        rfl
      simp only [htaken, if_false, ih hn.2 h0.2, hlen, recordsFrom, hpairs, recordsFrom_append hn.1]
      simp

/-! ## The claims -/

/-- The row of a request that has its key. -/
def HoldRequest.record (req : HoldRequest) : Option OrderIdempotencyKey :=
  req.newRecord.map ({ · with id := req.recordID })

/-- What becomes of the owners' keys: each takes the next value of the sequence. -/
def claimed (keys : List OrderIdempotencyKey) (seq : Nat) : List HoldRequest → List Claim
  | [] => []
  | req :: reqs =>
    match req.newRecord with
    | none => .active req :: claimed keys seq reqs
    | some record =>
      (keys.find? (·.pair = record.pair)).elim (.active (req.withRecordID (seq + 1))) .existing ::
        claimed keys (seq + 1) reqs

theorem record_withRecordID {record : OrderIdempotencyKey}
    (h : req.newRecord = some record) (n : Nat) :
    (req.withRecordID n).record = some { record with id := n } := by
  unfold HoldRequest.newRecord at h
  obtain ⟨idem, hidem, rfl⟩ := Option.map_eq_some_iff.mp h
  simp [HoldRequest.record, HoldRequest.newRecord, HoldRequest.withRecordID,
    HoldRequest.recordID, hidem]

theorem newRecord_groupKey : req.newRecord.map OrderIdempotencyKey.pair = req.groupKey := by
  cases hidem : req.idem <;> simp [HoldRequest.newRecord, HoldRequest.groupKey,
    OrderIdempotencyKey.pair, hidem]

theorem map_pair_newRecord (reqs : List HoldRequest) :
    (reqs.filterMap HoldRequest.newRecord).map OrderIdempotencyKey.pair =
      reqs.filterMap HoldRequest.groupKey := by
  rw [List.map_filterMap]
  simp only [newRecord_groupKey]

theorem newRecord_id {record : OrderIdempotencyKey} (h : req.newRecord = some record) :
    record.id = 0 := by
  obtain ⟨idem, -, rfl⟩ := Option.map_eq_some_iff.mp h
  rfl

/-- The rows that were inserted are those of the active owners. -/
theorem filter_recordsFrom (keys : List OrderIdempotencyKey) (seq : Nat)
    (owners : List HoldRequest) :
    (recordsFrom (keys.map OrderIdempotencyKey.pair) seq
      (owners.filterMap HoldRequest.newRecord)).filter (·.id ≠ 0) =
      (activeOf (claimed keys seq owners)).filterMap HoldRequest.record := by
  induction owners generalizing seq with
  | nil => rfl
  | cons req owners ih =>
    cases hrec : req.newRecord with
    | none =>
      have hnone : req.record = none := by rw [HoldRequest.record, hrec]; rfl
      simp only [List.filterMap_cons, hrec, claimed, activeOf, hnone, ih]
    | some record =>
      simp only [List.filterMap_cons, hrec, recordsFrom, claimed]
      cases hf : keys.find? (·.pair = record.pair) with
      | some row =>
        obtain ⟨hrow, hpair⟩ := of_find? hf
        have htaken : record.pair ∈ keys.map OrderIdempotencyKey.pair :=
          hpair ▸ List.mem_map_of_mem hrow
        simpa [htaken, newRecord_id hrec, activeOf] using ih (seq + 1)
      | none => simpa [find?_eq_none.mp hf, activeOf, record_withRecordID hrec] using ih (seq + 1)

/-- A key is claimed by its row in the table, which the lookup finds again. -/
theorem claimsOf_eq {found : List OrderIdempotencyKey} (owners : List HoldRequest)
    (h : ∀ pair ∈ owners.filterMap HoldRequest.groupKey, pair ∈ keys.map OrderIdempotencyKey.pair →
      found.find? (·.pair = pair) = keys.find? (·.pair = pair)) :
    claimsOf found owners
      (recordsFrom (keys.map OrderIdempotencyKey.pair) seq
        (owners.filterMap HoldRequest.newRecord)) =
      claimed keys seq owners := by
  induction owners generalizing seq with
  | nil => rfl
  | cons req owners ih =>
    cases hidem : req.idem with
    | none =>
      have hrec : req.newRecord = none := by rw [HoldRequest.newRecord, hidem]; rfl
      have hkey : req.groupKey = none := by rw [HoldRequest.groupKey, hidem]; rfl
      rw [List.filterMap_cons_none hkey] at h
      simp only [List.filterMap_cons, hrec, claimsOf, hidem, claimed, ih h]
    | some idem =>
      obtain ⟨record, hrec⟩ : ∃ record, req.newRecord = some record :=
        ⟨_, by rw [HoldRequest.newRecord, hidem]; rfl⟩
      have hkey : req.groupKey = some record.pair := by rw [← newRecord_groupKey, hrec]; rfl
      rw [List.filterMap_cons_some hkey, List.forall_mem_cons] at h
      simp only [List.filterMap_cons, hrec, recordsFrom, claimsOf, hidem, claimed, ih h.2]
      cases hf : keys.find? (·.pair = record.pair) with
      | some row =>
        obtain ⟨hrow, hpair⟩ := of_find? hf
        have htaken : record.pair ∈ keys.map OrderIdempotencyKey.pair :=
          hpair ▸ List.mem_map_of_mem hrow
        simp [htaken, newRecord_id hrec, h.1 htaken, hf]
      | none => simp [find?_eq_none.mp hf]

/-- The records that were not inserted are those whose pair is taken. -/
theorem filter_recordsFrom_taken (h0 : ∀ record ∈ records, record.id = 0) :
    (recordsFrom taken seq records).filter (·.id = 0) = records.filter (·.pair ∈ taken) := by
  induction records generalizing seq with
  | nil => rfl
  | cons record records ih =>
    rw [List.forall_mem_cons] at h0
    by_cases htaken : record.pair ∈ taken
    · simp [recordsFrom, htaken, h0.1, ih h0.2]
    · simp [recordsFrom, htaken, ih h0.2]

/-- The request's key is not in the table. -/
def Unclaimed (keys : List OrderIdempotencyKey) (req : HoldRequest) : Prop :=
  ∀ record ∈ keys, req.groupKey ≠ some record.pair

theorem withRecordID_of_none (h : req.idem = none) (n : Nat) : req.withRecordID n = req := by
  cases req
  cases h
  rfl

/-- The claim of one owner. -/
inductive Claimed (keys : List OrderIdempotencyKey) (req : HoldRequest) : Claim → Prop where
  | existing {record : OrderIdempotencyKey} :
    record ∈ keys → req.groupKey = some record.pair → Claimed keys req (.existing record)
  | active (n : Nat) : Unclaimed keys req → Claimed keys req (.active (req.withRecordID n))

theorem claimed_spec (keys : List OrderIdempotencyKey) (seq : Nat) (owners : List HoldRequest) :
    List.Forall₂ (Claimed keys) owners (claimed keys seq owners) := by
  induction owners generalizing seq with
  | nil => exact .nil
  | cons req owners ih =>
    cases hrec : req.newRecord with
    | none =>
      have hkey : req.groupKey = none := by rw [← newRecord_groupKey, hrec]; rfl
      have hidem : req.idem = none := Option.map_eq_none_iff.mp hkey
      have hfree : Unclaimed keys req := fun record _ he => by rw [hkey] at he; cases he
      simp only [claimed, hrec]
      refine .cons ?_ (ih seq)
      have hactive := Claimed.active 0 hfree
      rwa [withRecordID_of_none hidem] at hactive
    | some record =>
      have hkey : req.groupKey = some record.pair := by rw [← newRecord_groupKey, hrec]; rfl
      simp only [claimed, hrec]
      refine .cons ?_ (ih (seq + 1))
      cases hf : keys.find? (·.pair = record.pair) with
      | some row =>
        obtain ⟨hrow, hpair⟩ := of_find? hf
        exact .existing hrow (hkey.trans (congrArg some hpair.symm))
      | none =>
        refine .active _ fun row hrow he => ?_
        have hpair : record.pair = row.pair := Option.some.inj (hkey.symm.trans he)
        exact find?_eq_none.mp hf (hpair ▸ List.mem_map_of_mem hrow)

theorem mem_activeOf {claims : List Claim} {a : HoldRequest} :
    a ∈ activeOf claims ↔ .active a ∈ claims := by
  fun_induction activeOf claims with
  | case1 req claims ih => simp [ih]
  | case2 claim claims hne ih =>
    cases claim with
    | active req => exact absurd rfl (hne req)
    | existing record => simp [ih]
    | lost => simp [ih]
  | case3 => simp

/-- An active owner is one whose key was free. -/
theorem of_mem_active {a : HoldRequest}
    (h : a ∈ activeOf (claimed keys seq owners)) :
    ∃ req ∈ owners, ∃ n, a = req.withRecordID n ∧ Unclaimed keys req := by
  obtain ⟨req, hreq, hclaim⟩ :=
    Fallible.forall₂_exists_left (claimed_spec keys seq owners) (mem_activeOf.mp h)
  cases hclaim with
  | active n hfree => exact ⟨req, hreq, n, rfl, hfree⟩

theorem groupKey_withRecordID (req : HoldRequest) (n : Nat) :
    (req.withRecordID n).groupKey = req.groupKey := by
  simp [HoldRequest.groupKey, HoldRequest.withRecordID, Option.map_map, Function.comp_def]

theorem record_pair {record : OrderIdempotencyKey} (h : req.record = some record) :
    req.groupKey = some record.pair := by
  obtain ⟨new, hnew, rfl⟩ := Option.map_eq_some_iff.mp h
  rw [← newRecord_groupKey, hnew]
  rfl

/-- The rows of the active owners have new pairs. -/
theorem pair_of_active {record : OrderIdempotencyKey}
    (h : record ∈ (activeOf (claimed keys seq owners)).filterMap HoldRequest.record) :
    record.pair ∉ keys.map OrderIdempotencyKey.pair := by
  obtain ⟨a, ha, hrec⟩ := List.mem_filterMap.mp h
  obtain ⟨req, -, n, rfl, hfree⟩ := of_mem_active ha
  intro hmem
  obtain ⟨row, hrow, hpair⟩ := List.mem_map.mp hmem
  apply hfree row hrow
  rw [← groupKey_withRecordID req n, record_pair hrec, hpair]

/-- `claimIdempotencyKeys` never misses a key: where keys do not repeat it succeeds with the claims.
-/
theorem claimIdempotencyKeys_eq (hs : (s.keys.map OrderIdempotencyKey.pair).Nodup)
    (hn : (owners.filterMap HoldRequest.groupKey).Nodup) :
    claimIdempotencyKeys s owners = .ok ({ s with
      keys := s.keys ++ (activeOf (claimed s.keys s.keySeq owners)).filterMap HoldRequest.record
      keySeq := s.keySeq + (owners.filterMap HoldRequest.newRecord).length },
      claimed s.keys s.keySeq owners) := by
  have h0 : ∀ record ∈ owners.filterMap HoldRequest.newRecord, record.id = 0 :=
    fun record hrec => by
    obtain ⟨req, -, hrec⟩ := List.mem_filterMap.mp hrec
    exact newRecord_id hrec
  rw [← map_pair_newRecord] at hn
  -- the lookup is for the pairs that are taken
  have hmem : ∀ pair, pair ∈ ((owners.filterMap HoldRequest.newRecord).filter
      (·.pair ∈ s.keys.map OrderIdempotencyKey.pair)).map OrderIdempotencyKey.pair ↔
      pair ∈ owners.filterMap HoldRequest.groupKey ∧ pair ∈ s.keys.map OrderIdempotencyKey.pair :=
    fun pair => by
    rw [← map_pair_newRecord]
    simp only [List.mem_map, List.mem_filter, decide_eq_true_eq]
    constructor
    · rintro ⟨record, ⟨hrec, htaken⟩, rfl⟩
      exact ⟨⟨record, hrec, rfl⟩, htaken⟩
    · rintro ⟨⟨record, hrec, rfl⟩, htaken⟩
      exact ⟨record, ⟨hrec, htaken⟩, rfl⟩
  unfold claimIdempotencyKeys
  simp only [insertNew_eq hn h0, filter_recordsFrom_taken h0, filter_recordsFrom]
  generalize hlookup : ((owners.filterMap HoldRequest.newRecord).filter
    (·.pair ∈ s.keys.map OrderIdempotencyKey.pair)).map OrderIdempotencyKey.pair = lookup at hmem ⊢
  have hnodup : lookup.Nodup := hlookup ▸ hn.sublist (List.filter_sublist.map _)
  have hfound : findByUserKeys { s with
      keys := s.keys ++ (activeOf (claimed s.keys s.keySeq owners)).filterMap HoldRequest.record
      keySeq := s.keySeq + (owners.filterMap HoldRequest.newRecord).length } lookup =
      s.keys.filter fun record => record.pair ∈ lookup := by
    unfold findByUserKeys
    rw [List.filter_append, List.append_right_eq_self, List.filter_eq_nil_iff]
    intro record hrec
    rw [decide_eq_true_eq, hmem]
    exact fun h => pair_of_active hrec h.2
  have hlen := length_filter hs hnodup fun pair hpair => ((hmem pair).mp hpair).2
  rw [hfound, if_neg (by simpa using hlen), claimsOf_eq owners fun pair hpair htaken => ?_]
  rw [List.find?_filter]
  refine congrArg (fun p => s.keys.find? p) (funext fun record => ?_)
  by_cases he : record.pair = pair
  · simp [he, (hmem pair).mpr ⟨hpair, htaken⟩]
  · simp [he]

/-- The new rows are numbered upwards from the sequence. -/
theorem active_ids (keys : List OrderIdempotencyKey) (seq : Nat) (owners : List HoldRequest) :
    (((activeOf (claimed keys seq owners)).filterMap HoldRequest.record).map
      OrderIdempotencyKey.id).Pairwise (· < ·) ∧
    ∀ record ∈ (activeOf (claimed keys seq owners)).filterMap HoldRequest.record,
      seq < record.id ∧ record.id ≤ seq + (owners.filterMap HoldRequest.newRecord).length := by
  induction owners generalizing seq with
  | nil => simp [claimed, activeOf]
  | cons req owners ih =>
    cases hrec : req.newRecord with
    | none =>
      have hnone : req.record = none := by rw [HoldRequest.record, hrec]; rfl
      simpa only [claimed, hrec, activeOf, List.filterMap_cons, hnone] using ih seq
    | some record =>
      obtain ⟨hsorted, hids⟩ := ih (seq + 1)
      have hlen : ((req :: owners).filterMap HoldRequest.newRecord).length =
          (owners.filterMap HoldRequest.newRecord).length + 1 := by
        rw [List.filterMap_cons_some hrec, List.length_cons]
      have hrest : ∀ record ∈ (activeOf (claimed keys (seq + 1) owners)).filterMap
          HoldRequest.record,
          seq + 1 < record.id ∧
          record.id ≤ seq + ((owners.filterMap HoldRequest.newRecord).length + 1) := by
        intro row hrow
        have := hids row hrow
        omega
      rw [hlen]
      simp only [claimed, hrec]
      cases hf : keys.find? (·.pair = record.pair) with
      | some row =>
        refine ⟨hsorted, fun row hrow => ?_⟩
        have := hrest row hrow
        omega
      | none =>
        simp only [Option.elim_none, activeOf, List.filterMap_cons, record_withRecordID hrec,
          List.map_cons, List.pairwise_cons, List.forall_mem_map, List.forall_mem_cons]
        refine ⟨⟨fun row hrow => (hrest row hrow).1, hsorted⟩, by omega, fun row hrow => ?_⟩
        have := hrest row hrow
        omega

/-! ## The rows that stay -/

variable {errs : List (Option DomainError)}

theorem passing_sublist (reqs : List HoldRequest) (errs : List (Option DomainError)) :
    (passing reqs errs).Sublist reqs := by
  fun_induction passing reqs errs with
  | case1 req reqs errs ih => exact ih.cons_cons req
  | case2 req reqs e errs ih => exact ih.cons req
  | case3 => exact List.nil_sublist _

/-- The record id of a request with a key. -/
theorem record_id {record : OrderIdempotencyKey} (h : req.record = some record) :
    record.id = req.recordID := by
  obtain ⟨new, -, rfl⟩ := Option.map_eq_some_iff.mp h
  rfl

theorem record_isSome_of_id (h : req.recordID ≠ 0) : ∃ record, req.record = some record := by
  cases hidem : req.idem with
  | none => simp [HoldRequest.recordID, hidem] at h
  | some idem => exact ⟨_, by rw [HoldRequest.record, HoldRequest.newRecord, hidem]; rfl⟩

/-- A failed id is that of a row. -/
theorem of_mem_failed {id : Nat} (h : id ∈ failedRecordIDs reqs errs) :
    id ≠ 0 ∧ id ∈ (reqs.filterMap HoldRequest.record).map OrderIdempotencyKey.id := by
  have hmem : id ≠ 0 ∧ ∃ req ∈ reqs, req.recordID = id := by
    fun_induction failedRecordIDs reqs errs with
    | case1 req reqs e errs hne ih =>
      rcases List.mem_cons.mp h with rfl | h
      · exact ⟨hne, req, List.mem_cons_self, rfl⟩
      · obtain ⟨hid, r, hr, he⟩ := ih h
        exact ⟨hid, r, List.mem_cons_of_mem _ hr, he⟩
    | case2 req reqs e errs hzero ih =>
      obtain ⟨hid, r, hr, he⟩ := ih h
      exact ⟨hid, r, List.mem_cons_of_mem _ hr, he⟩
    | case3 req reqs errs ih =>
      obtain ⟨hid, r, hr, he⟩ := ih h
      exact ⟨hid, r, List.mem_cons_of_mem _ hr, he⟩
    | case4 => cases h
  obtain ⟨hid, req, hreq, rfl⟩ := hmem
  obtain ⟨record, hrec⟩ := record_isSome_of_id hid
  exact ⟨hid, List.mem_map.mpr ⟨record, List.mem_filterMap.mpr ⟨req, hreq, hrec⟩, record_id hrec⟩⟩

/-- Of the new rows those of the requests that passed stay. -/
theorem filter_failed (hlen : errs.length = reqs.length)
    (hids : ((reqs.filterMap HoldRequest.record).map OrderIdempotencyKey.id).Nodup)
    (hpos : ∀ record ∈ reqs.filterMap HoldRequest.record, record.id ≠ 0) :
    (reqs.filterMap HoldRequest.record).filter (fun r => r.id ∉ failedRecordIDs reqs errs) =
      (passing reqs errs).filterMap HoldRequest.record := by
  induction reqs generalizing errs with
  | nil => rfl
  | cons req reqs ih =>
    obtain _ | ⟨err, errs⟩ := errs
    · cases hlen
    have hlen' : errs.length = reqs.length := Nat.succ.inj hlen
    have hpass : failedRecordIDs (req :: reqs) (none :: errs) = failedRecordIDs reqs errs := rfl
    cases hrec : req.record with
    | none =>
      have hzero : req.recordID = 0 := by
        by_contra hne
        obtain ⟨record, hsome⟩ := record_isSome_of_id hne
        rw [hrec] at hsome
        cases hsome
      rw [List.filterMap_cons_none hrec] at hids hpos ⊢
      cases err with
      | none =>
        rw [hpass, passing, List.filterMap_cons_none hrec]
        exact ih hlen' hids hpos
      | some e =>
        have hfail : failedRecordIDs (req :: reqs) (some e :: errs) =
            failedRecordIDs reqs errs := by
          simp [failedRecordIDs, hzero]
        rw [hfail, passing]
        exact ih hlen' hids hpos
    | some record =>
      rw [List.filterMap_cons_some hrec] at hids hpos ⊢
      rw [List.map_cons, List.nodup_cons] at hids
      rw [List.forall_mem_cons] at hpos
      have hid := record_id hrec
      have hrest := ih hlen' hids.2 hpos.2
      cases err with
      | none =>
        have hkeep : record.id ∉ failedRecordIDs reqs errs := fun h => hids.1 (of_mem_failed h).2
        rw [hpass, passing, List.filterMap_cons_some hrec,
          List.filter_cons_of_pos (by simpa using hkeep), hrest]
      | some e =>
        have hfail : failedRecordIDs (req :: reqs) (some e :: errs) =
            record.id :: failedRecordIDs reqs errs := by
          simp [failedRecordIDs, ← hid, hpos.1]
        rw [hfail, List.filter_cons_of_neg (by simp), passing, ← hrest]
        apply List.filter_congr
        intro row hrow
        have hne : row.id ≠ record.id := fun he => hids.1 (he ▸ List.mem_map_of_mem hrow)
        simp [hne]

/-- Deleting the keys of the requests that failed. -/
theorem deleteByIDs_failed (hlen : errs.length = reqs.length)
    (hn : (keys.map OrderIdempotencyKey.id).Nodup) (hseq : ∀ record ∈ keys, record.id ≤ seq)
    (hids : ((reqs.filterMap HoldRequest.record).map OrderIdempotencyKey.id).Nodup)
    (hnew : ∀ record ∈ reqs.filterMap HoldRequest.record, seq < record.id)
    (hkeys : s.keys = keys ++ reqs.filterMap HoldRequest.record) :
    deleteByIDs s (failedRecordIDs reqs errs) =
      .ok { s with keys := keys ++ (passing reqs errs).filterMap HoldRequest.record } := by
  have hfailed : ∀ id ∈ failedRecordIDs reqs errs, seq < id := fun id hid => by
    obtain ⟨record, hrec, rfl⟩ := List.mem_map.mp (of_mem_failed hid).2
    exact hnew record hrec
  have hold : keys.filter (fun r => r.id ∉ failedRecordIDs reqs errs) = keys :=
    List.filter_eq_self.mpr fun record hrec => by
      have := hseq record hrec
      rw [decide_eq_true_eq]
      intro h
      have := hfailed _ h
      omega
  have hpos : ∀ record ∈ reqs.filterMap HoldRequest.record, record.id ≠ 0 := fun record hrec => by
    have := hnew record hrec
    omega
  have hkept : s.keys.filter (fun r => r.id ∉ failedRecordIDs reqs errs) =
      keys ++ (passing reqs errs).filterMap HoldRequest.record := by
    rw [hkeys, List.filter_append, hold, filter_failed hlen hids hpos]
  have hnodup : (s.keys.map OrderIdempotencyKey.id).Nodup :=
    hkeys ▸ nodup_ids_append hn hseq hids hnew
  have hcount := length_filter hnodup (List.nodup_dedup (failedRecordIDs reqs errs))
    fun id hid => by
    rw [hkeys, List.map_append]
    exact List.mem_append_right _ (of_mem_failed (List.mem_dedup.mp hid)).2
  simp only [List.mem_dedup] at hcount
  unfold deleteByIDs
  by_cases hnil : failedRecordIDs reqs errs = []
  · rw [if_pos hnil, ← hkept]
    simp [hnil]
  · rw [if_neg hnil, if_neg fun h => by have := hfailed 0 h; omega,
      if_neg (by simpa using hcount), hkept]

end GoExchange.Service
