import GoExchange.LedgerSound

/-!
# What is seen of the ledger

The callers of `Record` know accounts by their keys, never by their ids.
Whether `Record` succeeds is a matter of the journals there are and of the
balance under each key, and so is what it leaves to be seen.
-/
namespace GoExchange.Ledger

open Tally Fallible

variable {t t' : Tables} {specs : List AccountSpec} {a : Account} {s : AccountSpec}

/-! ## Provisioning always succeeds -/

/-- What the schema asks of an account. -/
def AccountSpec.Valid (s : AccountSpec) : Prop :=
  s.accountType ≠ .unknown ∧ isSystemAccountType s.accountType = s.ownerUserID.isNone ∧
    s.asset.length ≤ 16

/-- An insert fails on nothing but the spec, and its key is there afterwards. -/
theorem insertAccount_ok (h : s.Valid) :
    ∃ u, insertAccount t s = .ok u ∧
      ∀ k, k ∈ u.accounts.map Account.key ↔ k ∈ t.accounts.map Account.key ∨ k = s.key := by
  obtain ⟨htype, howner, hasset⟩ := h
  unfold insertAccount
  rw [if_neg htype, if_neg (not_not.mpr howner), if_neg (not_lt.mpr hasset)]
  by_cases hkey : s.key ∈ t.accounts.map Account.key
  · refine ⟨_, if_pos hkey, fun k => ?_⟩
    exact ⟨.inl, fun hk => hk.elim id fun he => he ▸ hkey⟩
  · refine ⟨_, if_neg hkey, fun k => ?_⟩
    simp [Account.key, AccountSpec.key]

theorem valid_of_insertAccount (h : insertAccount t s = .ok t') : s.Valid := by
  unfold insertAccount at h
  obtain ⟨htype, h⟩ := guard_eq_ok.mp h
  obtain ⟨howner, h⟩ := guard_eq_ok.mp h
  obtain ⟨hasset, -⟩ := guard_eq_ok.mp h
  exact ⟨htype, not_not.mp howner, not_lt.mp hasset⟩

theorem insertAccounts_ok (h : ∀ s ∈ specs, s.Valid) :
    ∃ u, specs.foldlM insertAccount t = .ok u ∧
      ∀ k, k ∈ u.accounts.map Account.key ↔ k ∈ t.accounts.map Account.key ∨
      k ∈ specs.map AccountSpec.key := by
  induction specs generalizing t with
  | nil => exact ⟨t, rfl, by simp⟩
  | cons s specs ih =>
    obtain ⟨v, hv, hkeys⟩ := insertAccount_ok (t := t) (h s List.mem_cons_self)
    obtain ⟨u, hu, hkeys'⟩ := ih (t := v) fun x hx => h x (List.mem_cons_of_mem _ hx)
    refine ⟨u, by rw [List.foldlM_cons, hv]; exact hu, fun k => ?_⟩
    rw [hkeys', hkeys, List.map_cons, List.mem_cons]
    tauto

theorem valid_of_insertAccounts (h : specs.foldlM insertAccount t = .ok t') :
    ∀ s ∈ specs, s.Valid := by
  induction specs generalizing t with
  | nil => simp
  | cons s specs ih =>
    rw [List.foldlM_cons] at h
    obtain ⟨u, hu, h⟩ := bind_eq_ok.mp h
    intro x hx
    rcases List.mem_cons.mp hx with rfl | hx
    · exact valid_of_insertAccount hu
    · exact ih h x hx

theorem ensureAccounts_ok (h : Provisioned t) (hv : ∀ s ∈ specs, s.Valid) :
    ∃ u rows, ensureAccounts t specs = .ok (u, rows) ∧
    ∀ s ∈ specs, s.key ∈ rows.map Account.key := by
  obtain ⟨hnodup, hsub, hcover⟩ := unique_spec specs
  have hperm := List.perm_insertionSort AccountSpec.before (unique specs)
  have hkeys := hperm.map AccountSpec.key
  have hsorted : ∀ s ∈ (unique specs).insertionSort AccountSpec.before, s.Valid :=
    fun s hs => hv s (hsub s (hperm.mem_iff.mp hs))
  obtain ⟨u, hu, hmem⟩ := insertAccounts_ok (t := t) hsorted
  have hlen : (findBySpecs u ((unique specs).insertionSort AccountSpec.before)).length =
      ((unique specs).insertionSort AccountSpec.before).length := by
    have := Rows.length_filter (insertAccounts_accounts h.accounts hu).1.keys
      (hkeys.nodup_iff.mpr hnodup) fun k hk => (hmem k).mpr (.inr hk)
    rwa [List.length_map] at this
  refine ⟨_, _, bind_eq_ok.mpr ⟨u, hu, guard_eq_ok.mpr ⟨not_not.mpr hlen, rfl⟩⟩, fun s hs => ?_⟩
  have hs' := hkeys.mem_iff.mpr (hcover s hs)
  obtain ⟨a, ha, hak⟩ := List.mem_map.mp ((hmem _).mpr (.inr hs'))
  exact hak ▸ List.mem_map_of_mem (List.mem_filter.mpr ⟨ha, decide_eq_true (hak ▸ hs')⟩)

/-- The key decides everything about a spec but whether its owner may be missing. -/
theorem valid_of_ensureAccounts {rows : List Account} (h : ensureAccounts t specs = .ok (t', rows))
    (hs : s ∈ specs) (howner : isSystemAccountType s.accountType = s.ownerUserID.isNone) :
    s.Valid := by
  obtain ⟨u, hu, -⟩ := bind_eq_ok.mp h
  obtain ⟨x, hx, hkey⟩ := List.mem_map.mp ((unique_spec specs).2.2 s hs)
  obtain ⟨htype, -, hasset⟩ := valid_of_insertAccounts hu x ((List.mem_insertionSort _).mpr hx)
  simp only [AccountSpec.key, newAccountKey, AccountKey.mk.injEq] at hkey
  exact ⟨hkey.1 ▸ htype, howner, hkey.2.2 ▸ hasset⟩

/-- The accounts come back without repeats. -/
theorem ensureAccounts_nodup {accounts : List Account} (h : AccountsOk t)
    (he : ensureAccounts t specs = .ok (t', accounts)) : (accounts.map Account.id).Nodup := by
  obtain ⟨v, hv, he⟩ := bind_eq_ok.mp he
  obtain ⟨-, he⟩ := guard_eq_ok.mp he
  cases he
  exact (insertAccounts_accounts h hv).1.ids.sublist (List.filter_sublist.map _)

theorem lockBalances_ok (h : RowsOk t) {ids : List Nat} (hn : ids.Nodup)
    (hids : ∀ id ∈ ids, id ∈ t.accounts.map Account.id) : ∃ bs, lockBalances t ids = .ok bs := by
  have hlen := Rows.length_filter h.ids hn fun id hid => (h.accounts id).mpr (hids id hid)
  exact ⟨_, guard_eq_ok.mpr ⟨not_not.mpr ((List.length_insertionSort _ _).trans hlen), rfl⟩⟩

theorem mem_lockBalances {ids : List Nat} {bs : List AccountBalance}
    (h : lockBalances t ids = .ok bs)
    {b : AccountBalance} : b ∈ bs ↔ b ∈ t.balances ∧ b.accountID ∈ ids := by
  obtain ⟨-, h⟩ := guard_eq_ok.mp h
  cases h
  rw [List.mem_insertionSort, List.mem_filter, decide_eq_true_eq]

/-! ## Balances by key -/

/-- No account is below zero whose type does not allow it. -/
theorem Sound.balanceOf_nonneg (h : Sound t) {k : AccountKey}
    (hneg : allowsNegativeBalance k.accountType = false) : 0 ≤ balanceOf t k := by
  by_cases hk : k ∈ t.accounts.map Account.key
  · obtain ⟨a, ha, rfl⟩ := List.mem_map.mp hk
    rw [balanceOf_of_mem h ha]
    exact h.nonneg a ha hneg
  · rw [balanceOf_of_absent hk]

variable {rows : List Account}

/-- The accounts that were ensured can be locked. -/
theorem lockEnsured_ok (h : Provisioned t) (he : ensureAccounts t specs = .ok (t', rows)) :
    ∃ bs, lockBalances t' ((rows.map Account.id).insertionSort (· ≤ ·)) = .ok bs := by
  have hens := ensureAccounts_spec h.accounts h.rows he
  have hperm := List.perm_insertionSort (· ≤ ·) (rows.map Account.id)
  refine lockBalances_ok hens.rowsOk (hperm.nodup_iff.mpr (ensureAccounts_nodup h.accounts he))
    fun id hid => ?_
  obtain ⟨a, ha, rfl⟩ := List.mem_map.mp (hperm.mem_iff.mp hid)
  exact List.mem_map_of_mem (hens.returned a ha).1

theorem Ensured.find_returned (h : Ensured t t' specs rows) (ha : a ∈ rows) :
    rows.find? (·.id = a.id) = some a := by
  cases hf : rows.find? (·.id = a.id) with
  | none => exact absurd (decide_eq_true rfl) (List.find?_eq_none.mp hf a ha)
  | some c =>
    obtain ⟨hc, hid⟩ := Rows.of_find? hf
    rw [List.inj_on_of_nodup_map h.accounts.ids (h.returned c hc).1 (h.returned a ha).1 hid]

section PostRun

variable {t₁ : Tables} {journalID : Nat} {inputs : List PostingInput} {ps : List Posting}

/-- What the check of `Record` asks of the balances: the accounts that may not go below zero do not.
-/
def Covered (balance : AccountKey → Decimal) (inputs : List PostingInput) : Prop :=
  ∀ i ∈ inputs, allowsNegativeBalance i.accountType = false →
    0 ≤ balance i.key + sumAt PostingInput.key PostingInput.amount inputs i.key

theorem PostRun.covered (r : PostRun t t₁ t' journalID inputs rows ps) (ht : Provisioned t) :
    Covered (balanceOf t) inputs := by
  intro i hi hneg
  obtain ⟨a, ha, hak, hid⟩ := r.account_of_key hi
  obtain ⟨b, hb, hba⟩ := r.ensured.rowsOk.row ha
  rw [← r.ensured.balanceOf_eq ht, ← hak, r.ensured.provisioned.balanceOf_row ha hb hba,
    ← r.sumAt_key ha, ← hba]
  by_contra hlt
  obtain ⟨c, hc, hflag⟩ := (Option.any_eq_true _ _).mp (r.checked b hb (hba ▸ hid) (not_le.mp hlt))
  obtain ⟨hcmem, hcid⟩ := Rows.of_find? hc
  have hca : c = a := List.inj_on_of_nodup_map r.ensured.accounts.ids (r.ensured.returned c hcmem).1
    ha (hcid.trans hba)
  have htype : a.accountType = i.accountType := congrArg AccountKey.accountType hak
  rw [hca, r.ensured.accounts.flags a ha, htype, hneg] at hflag
  cases hflag

theorem createPostings_ok (hne : ps ≠ []) (h : ∀ p ∈ numbered t.postingSeq ps, p.amount ≠ 0 ∧
    p.journalID ∈ t.journals.map JournalEntry.id ∧ p.accountID ∈ t.accounts.map Account.id) :
    createPostings t ps = .ok ({ t with
      postings := t.postings ++ numbered t.postingSeq ps
      postingSeq := t.postingSeq + (numbered t.postingSeq ps).length },
      numbered t.postingSeq ps) := by
  have hany : ∀ {bad : Posting → Bool}, (∀ p ∈ numbered t.postingSeq ps, bad p = false) →
      ¬ (numbered t.postingSeq ps).any bad = true := fun hbad hany => by
    obtain ⟨p, hp, hb⟩ := List.any_eq_true.mp hany
    rw [hbad p hp] at hb
    cases hb
  unfold createPostings
  rw [if_neg hne, if_neg (hany fun p hp => decide_eq_false (h p hp).1),
    if_neg (hany fun p hp => decide_eq_false (not_not.mpr (h p hp).2.1)),
    if_neg (hany fun p hp => decide_eq_false (not_not.mpr (h p hp).2.2))]

theorem applyBalanceDeltas_ok (h : RowsOk t) {ids : List Nat} (hn : ids.Nodup)
    (hids : ∀ id ∈ ids, id ∈ t.accounts.map Account.id) (delta : Nat → Decimal) (last : Nat → Nat) :
    ∃ u, applyBalanceDeltas t (ids.map fun id => ⟨id, delta id, last id⟩) = .ok u := by
  have hlen := Rows.length_filter h.ids hn fun id hid => (h.accounts id).mpr (hids id hid)
  refine ⟨_, guard_eq_ok.mpr ⟨not_not.mpr ?_, rfl⟩⟩
  simp only [List.map_map, Function.comp_def, List.map_id_fun', id, List.length_map]
  exact hlen

/-- Lines of a journal that is there, whose accounts can be had. -/
structure Postable (t : Tables) (journalID : Nat) (inputs : List PostingInput) : Prop where
  provisioned : Provisioned t
  journal : journalID ∈ t.journals.map JournalEntry.id
  nonempty : inputs ≠ []
  amounts : ∀ i ∈ inputs, i.amount ≠ 0
  specs : ∀ i ∈ inputs, i.spec.Valid

/-- Only the check of the balances decides. -/
theorem post_eq_check (h : Postable t journalID inputs) :
    ∃ (bs : List AccountBalance) (rows : List Account) (delta : Nat → Decimal) (u : Tables),
      (post t journalID inputs = do
        bs.forM (checkNegative rows delta)
        return u) ∧
      (Covered (balanceOf t) inputs → bs.forM (checkNegative rows delta) = .ok ()) := by
  have ht := h.provisioned
  obtain ⟨u, rows, hu, hcover⟩ := ensureAccounts_ok ht (List.forall_mem_map.mpr h.specs)
  have hens := ensureAccounts_spec ht.accounts ht.rows hu
  -- every input finds its account
  obtain ⟨ps, hps⟩ : ∃ ps, inputs.mapM (postingRow journalID rows) = .ok ps :=
    mapM_ok fun i hi => by
    obtain ⟨a, ha, hak⟩ := List.mem_map.mp (hcover _ (List.mem_map_of_mem hi))
    unfold postingRow
    cases hf : rows.find? (·.key = i.key) with
    | some c => exact ⟨_, rfl⟩
    | none =>
      have hne : a.key ≠ i.key := by simpa using List.find?_eq_none.mp hf a ha
      exact absurd hak hne
  have hrows : List.Forall₂ (RowOf journalID rows) inputs ps :=
    (mapM_eq_ok.mp hps).imp fun i p => postingRow_rowOf
  have haccount : ∀ p ∈ ps, ∃ i ∈ inputs, p.journalID = journalID ∧ p.amount = i.amount ∧
      ∃ a ∈ rows, a ∈ u.accounts ∧ a.key = i.key ∧ p.accountID = a.id := fun p hp => by
    obtain ⟨i, hi, hpj, -, hpa, a, ha, hak, hpid⟩ := forall₂_exists_left hrows hp
    exact ⟨i, hi, hpj, hpa, a, ha, (hens.returned a ha).1, hak, hpid⟩
  let ids := ((ps.map Posting.accountID).dedup).insertionSort (· ≤ ·)
  have hmem : ∀ id, id ∈ ids ↔ id ∈ ps.map Posting.accountID :=
    fun id => (List.mem_insertionSort _).trans List.mem_dedup
  have hnodup : ids.Nodup := (List.perm_insertionSort _ _).nodup_iff.mpr (List.nodup_dedup _)
  have hids : ∀ id ∈ ids, id ∈ u.accounts.map Account.id := fun id hid => by
    obtain ⟨p, hp, rfl⟩ := List.mem_map.mp ((hmem id).mp hid)
    obtain ⟨-, -, -, -, a, -, ha, -, hpa⟩ := haccount p hp
    exact hpa ▸ List.mem_map_of_mem ha
  obtain ⟨bs, hbs⟩ := lockBalances_ok hens.rowsOk hnodup hids
  have hcheck : Covered (balanceOf t) inputs →
      bs.forM (checkNegative rows (tally Posting.accountID Posting.amount ps)) = .ok () :=
    fun hc => by
    refine forM_eq_ok.mpr fun b hb => guard_eq_ok.mpr ⟨fun ⟨hlt, hflag⟩ => ?_, rfl⟩
    obtain ⟨hb, hid⟩ := (mem_lockBalances hbs).mp hb
    obtain ⟨p, hp, hpb⟩ := List.mem_map.mp ((hmem _).mp hid)
    obtain ⟨i, hi, -, -, a, har, ha, hak, hpa⟩ := haccount p hp
    have hba : b.accountID = a.id := hpb.symm.trans hpa
    rw [hba, hens.find_returned har, Option.any_some, hens.accounts.flags a ha] at hflag
    have htype : a.accountType = i.accountType := congrArg AccountKey.accountType hak
    have hcov := hc i hi (htype ▸ hflag)
    rw [tally_apply, hba, sumAt_rowsOf hens hrows ha, ← hens.provisioned.balanceOf_row ha hb hba,
      hens.balanceOf_eq ht, hak] at hlt
    exact absurd hcov (not_le.mpr hlt)
  have hps_ne : ps ≠ [] := by
    rintro rfl
    exact h.nonempty (List.forall₂_nil_right_iff.mp hrows)
  have hcreate := createPostings_ok (t := u) hps_ne fun q hq => by
    obtain ⟨i, hi, hqj, -, hqa, a, ha, -, hqid⟩ := forall₂_exists_left (rowOf_numbered _ hrows) hq
    exact ⟨hqa ▸ h.amounts i hi, hqj ▸ hens.ext.frame.1.symm ▸ h.journal,
      hqid ▸ List.mem_map_of_mem (hens.returned a ha).1⟩
  obtain ⟨v, hv⟩ := applyBalanceDeltas_ok (t := { u with
      postings := u.postings ++ numbered u.postingSeq ps
      postingSeq := u.postingSeq + (numbered u.postingSeq ps).length })
    ⟨hens.rowsOk.ids, hens.rowsOk.accounts⟩ hnodup hids (tally Posting.accountID Posting.amount ps)
    (lastPostingByAccount (numbered u.postingSeq ps))
  refine ⟨bs, rows, tally Posting.accountID Posting.amount ps, v, ?_, hcheck⟩
  simp only [post, hu, hps, bind, Except.bind]
  rw [hbs]
  cases hf : bs.forM (checkNegative rows (tally Posting.accountID Posting.amount ps)) with
  | error e => simp only [hf]
  | ok _ =>
    simp only [hf, hcreate]
    exact hv

/-- Posting fails on nothing but the specs, a line of zero and a balance below zero. -/
theorem post_ok (h : Postable t journalID inputs) (hc : Covered (balanceOf t) inputs) :
    ∃ u, post t journalID inputs = .ok u := by
  obtain ⟨bs, rows, delta, u, hpost, hcheck⟩ := post_eq_check h
  exact ⟨u, by rw [hpost, hcheck hc]; rfl⟩

/-- A balance that would fall below zero is a conflict. -/
theorem post_refused (h : Postable t journalID inputs) (hc : ¬ Covered (balanceOf t) inputs) :
    ∃ e, post t journalID inputs = .error e ∧ e.kind = .conflict := by
  obtain ⟨bs, rows, delta, u, hpost, -⟩ := post_eq_check h
  cases hcheck : bs.forM (checkNegative rows delta) with
  | ok _ =>
    rw [hcheck] at hpost
    obtain ⟨t₁, rows', ps, r⟩ := post_run h.provisioned.accounts h.provisioned.rows hpost
    exact absurd (r.covered h.provisioned) hc
  | error e =>
    obtain ⟨b, -, he⟩ := forM_eq_error hcheck
    refine ⟨e, by rw [hpost, hcheck]; rfl, ?_⟩
    simp only [checkNegative] at he
    split at he
    · cases he
      rfl
    · cases he

end PostRun

/-! ## Recording -/

variable {input : JournalInput} {entry : JournalEntry} {created : Bool}

/-- What a new journal adds to what is seen. -/
structure Wrote (t t' : Tables) (input : JournalInput) : Prop where
  provisioned : Provisioned t'
  journals : t'.journals = t.journals ++ [journalRow t.journalSeq input]
  seq : t'.journalSeq = t.journalSeq + 1
  balance : ∀ k, balanceOf t' k =
    balanceOf t k + sumAt PostingInput.key PostingInput.amount input.postings k

theorem Provisioned.opened (h : Provisioned t) (input : JournalInput) :
    Provisioned (opened t input) :=
  ⟨{ h.accounts with }, { h.rows with }⟩

theorem record_of_fresh (hrec : Recordable input) (hrev : input.reversesJournalID = none)
    (hkey : input.idempotencyKey ∉ t.journals.map JournalEntry.idempotencyKey) :
    record t input = do
      let u ← post (opened t input) (t.journalSeq + 1) input.postings
      return (u, journalRow t.journalSeq input, true) := by
  have hinsert := insertOrGet_eq hrec t
  rw [Rows.find?_eq_none.mpr hkey] at hinsert
  simp only [hrev, Option.isSome_none, Bool.false_eq_true, false_and, if_false, Option.any_none]
    at hinsert
  unfold record
  rw [hrec.valid]
  simp only [bind, Except.bind, hrev, hinsert]
  rfl

theorem valid_of_post {u : Tables} {journalID : Nat} {inputs : List PostingInput}
    (h : post t journalID inputs = .ok u)
    (howner : ∀ i ∈ inputs, isSystemAccountType i.accountType = i.ownerUserID.isNone) :
    ∀ i ∈ inputs, i.spec.Valid := by
  obtain ⟨⟨v, rows⟩, hv, -⟩ := bind_eq_ok.mp h
  intro i hi
  exact valid_of_ensureAccounts hv (List.mem_map_of_mem hi) (howner i hi)

/-- Recording a new event: when it succeeds, and what it writes. -/
theorem record_new (ht : Provisioned t)
    (hkey : input.idempotencyKey ∉ t.journals.map JournalEntry.idempotencyKey)
    (h : record t input = .ok (t', entry, created)) :
    (entry, created) = (journalRow t.journalSeq input, true) ∧ Wrote t t' input ∧
      (∀ i ∈ input.postings, i.spec.Valid) ∧ Covered (balanceOf t) input.postings := by
  have hrec := recordable_of_record h
  cases recording_of_record h with
  | again found _ => exact absurd (Rows.mem_of_find? found) hkey
  | fresh _ posted =>
    have hopen := ht.opened input
    obtain ⟨t₁, rows, ps, r⟩ := post_run hopen.accounts hopen.rows posted
    refine ⟨rfl, ⟨r.provisioned, r.journals_eq, r.seq_eq, r.balanceOf_add hopen⟩, ?_,
      r.covered hopen⟩
    exact valid_of_post posted fun i hi => ((validateJournalInput_iff.mp hrec.valid).2.1 i hi).2.2

theorem postable_opened (ht : Provisioned t) (hrec : Recordable input)
    (hv : ∀ i ∈ input.postings, i.spec.Valid) :
    Postable (opened t input) (t.journalSeq + 1) input.postings := by
  obtain ⟨⟨-, -, -, hlen, -⟩, hlines, -⟩ := validateJournalInput_iff.mp hrec.valid
  exact ⟨ht.opened input, by simp [opened, journalRow], fun he => by simp [he] at hlen,
    fun i hi => (hlines i hi).2.1, hv⟩

theorem record_new_ok (ht : Provisioned t) (hrec : Recordable input)
    (hrev : input.reversesJournalID = none)
    (hkey : input.idempotencyKey ∉ t.journals.map JournalEntry.idempotencyKey)
    (hv : ∀ i ∈ input.postings, i.spec.Valid) (hc : Covered (balanceOf t) input.postings) :
    ∃ u, record t input = .ok (u, journalRow t.journalSeq input, true) := by
  obtain ⟨u, hu⟩ := post_ok (postable_opened ht hrec hv) hc
  exact ⟨u, by rw [record_of_fresh hrec hrev hkey, hu]; rfl⟩

theorem record_refused (ht : Provisioned t) (hrec : Recordable input)
    (hrev : input.reversesJournalID = none)
    (hkey : input.idempotencyKey ∉ t.journals.map JournalEntry.idempotencyKey)
    (hv : ∀ i ∈ input.postings, i.spec.Valid) (hc : ¬ Covered (balanceOf t) input.postings) :
    ∃ e, record t input = .error e ∧ e.kind = .conflict := by
  obtain ⟨e, he, hkind⟩ := post_refused (postable_opened ht hrec hv) hc
  exact ⟨e, by rw [record_of_fresh hrec hrev hkey, he]; rfl, hkind⟩

end GoExchange.Ledger
