import GoExchange.LedgerView
import Mathlib.Data.Prod.Lex
import Mathlib.Data.String.Basic

/-!
# Tables that tell the same

Two states of the ledger may differ in the ids of accounts and in accounts
that hold nothing yet. `Record` succeeds on both or on neither, and they still
tell the same afterwards.
-/
namespace GoExchange.Ledger

open Tally Fallible

variable {t t' u : Tables} {specs : List AccountSpec} {rows : List Account}

/-- The tables under the constraints of the schema. -/
structure Stored (t : Tables) : Prop extends Provisioned t where
  types : ∀ a ∈ t.accounts, a.accountType ≠ .unknown
  postings : ∀ p ∈ t.postings, p.accountID ∈ t.accounts.map Account.id ∧ p.asset.length ≤ 16

/-! ## What a posting says -/

/-- An amount at an account. -/
structure Entry where
  account : AccountKey
  amount : Decimal
  deriving DecidableEq, Repr

def Entry.tuple (x : Entry) : PostingTuple := ⟨x.account, x.amount.string⟩

theorem Entry.tuple_injective : Function.Injective Entry.tuple := by
  intro x y h
  obtain ⟨haccount, hamount⟩ := PostingTuple.mk.inj h
  cases x
  cases y
  cases haccount
  cases Decimal.string_injective hamount
  rfl

/-- A stored posting by what it says. -/
def entryOf (t : Tables) (p : Posting) : Entry :=
  ⟨(t.accounts.find? (·.id = p.accountID)).elim ⟨.unknown, 0, p.asset⟩ fun a =>
    newAccountKey a.accountType a.ownerUserID p.asset, p.amount⟩

/-- What a journal's postings say. -/
def told (t : Tables) (journalID : Nat) : List Entry :=
  (findPostingsByJournalID t journalID).map (entryOf t)

def PostingInput.entry (i : PostingInput) : Entry := ⟨i.key, i.amount⟩

theorem Provisioned.find_account (h : Provisioned t) {a : Account} (ha : a ∈ t.accounts) :
    t.accounts.find? (·.id = a.id) = some a :=
  Rows.find?_eq_some h.accounts.ids ha

theorem Stored.account (h : Stored t) {p : Posting} (hp : p ∈ t.postings) :
    ∃ a ∈ t.accounts, a.id = p.accountID ∧ t.accounts.find? (·.id = p.accountID) = some a := by
  obtain ⟨a, ha, hid⟩ := List.mem_map.mp (h.postings p hp).1
  exact ⟨a, ha, hid, hid ▸ h.find_account ha⟩

theorem Stored.entryOf_eq (h : Stored t) {p : Posting} (hp : p ∈ t.postings) :
    ∃ a ∈ t.accounts, accountOf t p = .ok a ∧
      entryOf t p = ⟨newAccountKey a.accountType a.ownerUserID p.asset, p.amount⟩ := by
  obtain ⟨a, ha, -, hfind⟩ := h.account hp
  exact ⟨a, ha, by simp [accountOf, hfind], by simp [entryOf, hfind]⟩

/-! ## The comparison -/

theorem AccountType.name_injective : Function.Injective AccountType.name := by
  intro x y h
  cases x <;> cases y <;> first | rfl | exact absurd h (by decide)

/-- The fields in the order in which they are compared. -/
def PostingTuple.rank (x : PostingTuple) : String ×ₗ Nat ×ₗ String ×ₗ String :=
  toLex (x.accountType.name, toLex (x.ownerUserID, toLex (x.asset, x.amount)))

theorem PostingTuple.rank_injective : Function.Injective PostingTuple.rank := by
  intro x y h
  obtain ⟨⟨type, owner, asset⟩, amount⟩ := x
  obtain ⟨⟨type', owner', asset'⟩, amount'⟩ := y
  simp only [rank, toLex_inj, Prod.mk.injEq] at h
  obtain ⟨htype, rfl, rfl, rfl⟩ := h
  cases AccountType.name_injective htype
  rfl

theorem PostingTuple.less_iff (x y : PostingTuple) : x.less y = true ↔ x.rank < y.rank := by
  simp only [less, rank, Prod.Lex.toLex_lt_toLex]
  by_cases htype : x.accountType = y.accountType
  · by_cases howner : x.ownerUserID = y.ownerUserID
    · by_cases hasset : x.asset = y.asset <;> simp [htype, howner, hasset]
    · simp [htype, howner]
  · have hname : x.accountType.name ≠ y.accountType.name :=
      fun h => htype (AccountType.name_injective h)
    simp [htype, hname]

/-- The order of the tuples is linear, so their multiset decides how they are sorted. -/
theorem sortPostingTuples_eq_iff {xs ys : List PostingTuple} :
    sortPostingTuples xs = sortPostingTuples ys ↔ xs.Perm ys := by
  have hle : ∀ x y : PostingTuple, y.less x = false ↔ x.rank ≤ y.rank := fun x y => by
    rw [← Bool.not_eq_true, PostingTuple.less_iff, not_lt]
  let r : PostingTuple → PostingTuple → Prop := fun x y => y.less x = false
  have htotal : Std.Total r := ⟨fun x y => by simpa only [r, hle] using le_total x.rank y.rank⟩
  have htrans : IsTrans PostingTuple r := ⟨fun x y z => by simpa only [r, hle] using le_trans⟩
  have hanti : Std.Antisymm r := ⟨fun x y => by
    simpa only [r, hle] using fun h h' => PostingTuple.rank_injective (le_antisymm h h')⟩
  have hperm := List.perm_insertionSort r
  constructor
  · intro h
    have hsorted : xs.insertionSort r = ys.insertionSort r := h
    exact (hperm xs).symm.trans (hsorted ▸ hperm ys)
  · intro h
    exact (((hperm xs).trans h).trans (hperm ys).symm).eq_of_pairwise'
      (List.pairwise_insertionSort r xs) (List.pairwise_insertionSort r ys)

/-- Lists of one length that agree at every place. -/
theorem zip_agree_iff {α : Type} [DecidableEq α] {xs ys : List α} (hlen : xs.length = ys.length) :
    ((xs.zip ys).any fun p => p.1 ≠ p.2) = false ↔ xs = ys := by
  rw [← List.forall₂_eq_eq_eq, List.forall₂_iff_zip]
  simp [hlen]

/-- A journal is compared by what it says: the same amounts at the same accounts, in any order. -/
theorem assertSameJournal_iff (h : Stored t) {existing : JournalEntry} {input : JournalInput} :
    assertSameJournal t existing input = .ok () ↔
      (existing.eventType = input.eventType ∧ existing.referenceType = input.referenceType ∧
        existing.referenceID = input.referenceID ∧
        existing.reversesJournalID = input.reversesJournalID) ∧
      (told t existing.id).Perm (input.postings.map PostingInput.entry) := by
  have hmap : (findPostingsByJournalID t existing.id).mapM (fun p => do
      let a ← accountOf t p
      return (⟨newAccountKey a.accountType a.ownerUserID p.asset,
        p.amount.string⟩ : PostingTuple)) =
      .ok ((told t existing.id).map Entry.tuple) := by
    rw [told, List.map_map]
    refine mapM_eq_ok.mpr (List.forall₂_map_right_iff.mpr (List.forall₂_same.mpr fun p hp => ?_))
    obtain ⟨a, -, ha, hentry⟩ := h.entryOf_eq (List.mem_of_mem_filter hp)
    exact bind_eq_ok.mpr ⟨a, ha, by rw [Function.comp_apply, hentry]; rfl⟩
  have hlen : (told t existing.id).length = (findPostingsByJournalID t existing.id).length :=
    List.length_map ..
  have hincoming : (input.postings.map fun p => (⟨p.key, p.amount.string⟩ : PostingTuple)) =
      (input.postings.map PostingInput.entry).map Entry.tuple := by
    rw [List.map_map]
    rfl
  -- the loop over the sorted tuples compares them as multisets
  have hloop : (told t existing.id).length = input.postings.length →
      (((sortPostingTuples ((told t existing.id).map Entry.tuple)).zip
        (sortPostingTuples ((input.postings.map PostingInput.entry).map Entry.tuple))).any
        (fun p => p.1 ≠ p.2) = false ↔
      (told t existing.id).Perm (input.postings.map PostingInput.entry)) := by
    intro hsame
    rw [zip_agree_iff (by simp [sortPostingTuples, hsame]), sortPostingTuples_eq_iff,
      List.map_perm_map_iff Entry.tuple_injective]
  unfold assertSameJournal
  simp only [guard_eq_ok, hmap, hincoming, not_or, not_not]
  refine and_congr_right fun _ => ?_
  rw [← hlen]
  constructor
  · rintro ⟨hsame, hagree⟩
    refine (hloop hsame).mp ?_
    exact Bool.eq_false_iff.mpr (guard_eq_ok.mp hagree).1
  · intro hperm
    have hsame : (told t existing.id).length = input.postings.length := by
      rw [hperm.length_eq, List.length_map]
    exact ⟨hsame, guard_eq_ok.mpr ⟨Bool.eq_false_iff.mp ((hloop hsame).mpr hperm), rfl⟩⟩

/-! ## What provisioning and posting tell -/

/-- The accounts of stored postings are still found. -/
theorem Stored.told_mono (h : Stored t) (h' : Provisioned t')
    (hkeep : ∀ a ∈ t.accounts, a ∈ t'.accounts) {p : Posting}
    (hp : p ∈ t.postings) : entryOf t' p = entryOf t p := by
  obtain ⟨a, ha, hid, hfind⟩ := h.account hp
  have hfind' := h'.find_account (hkeep a ha)
  rw [hid] at hfind'
  simp [entryOf, hfind, hfind']

theorem Ensured.stored (he : Ensured t t' specs rows) (h : Stored t) (hv : ∀ s ∈ specs, s.Valid) :
    Stored t' := by
  refine ⟨he.provisioned, fun a ha => ?_, fun p hp => ?_⟩
  · rcases he.ext.new a ha with hold | ⟨hk, -⟩
    · exact h.types a hold
    · obtain ⟨s, hs, hkey⟩ := List.mem_map.mp hk
      have htype : s.accountType = a.accountType := congrArg AccountKey.accountType hkey
      exact htype ▸ (hv s hs).1
  · rw [he.ext.frame.2.1] at hp
    obtain ⟨hid, hasset⟩ := h.postings p hp
    obtain ⟨a, ha, hap⟩ := List.mem_map.mp hid
    exact ⟨hap ▸ List.mem_map_of_mem (he.ext.keep a ha), hasset⟩

theorem Ensured.told_eq (he : Ensured t t' specs rows) (h : Stored t) (j : Nat) :
    told t' j = told t j := by
  unfold told findPostingsByJournalID
  rw [he.ext.frame.2.1]
  exact List.map_congr_left fun p hp =>
    h.told_mono he.provisioned he.ext.keep (List.mem_of_mem_filter hp)

section PostRun

variable {t₁ : Tables} {journalID : Nat} {inputs : List PostingInput} {ps : List Posting}

theorem PostRun.stored (r : PostRun t t₁ t' journalID inputs rows ps) (h : Stored t)
    (hv : ∀ i ∈ inputs, i.spec.Valid) : Stored t' := by
  have h₁ := r.ensured.stored h (List.forall_mem_map.mpr hv)
  refine ⟨r.provisioned, r.accounts_eq ▸ h₁.types, fun p hp => ?_⟩
  rw [r.accounts_eq]
  rw [r.postings_eq] at hp
  rcases List.mem_append.mp hp with hp | hp
  · exact h₁.postings p (r.ensured.ext.frame.2.1 ▸ hp)
  · obtain ⟨i, hi, -, hasset, -, a, ha, -, hpa⟩ := r.rowOf_mem hp
    exact ⟨hpa ▸ List.mem_map_of_mem (r.ensured.returned a ha).1, hasset ▸ (hv i hi).2.2⟩

/-- The new journal says what its inputs say. -/
theorem PostRun.told_eq (r : PostRun t t₁ t' journalID inputs rows ps) (h : Stored t) (j : Nat) :
    told t' j = told t j ++ if j = journalID then inputs.map PostingInput.entry else [] := by
  have hkeep : ∀ a ∈ t.accounts, a ∈ t'.accounts :=
    fun a ha => r.accounts_eq ▸ r.ensured.ext.keep a ha
  unfold told findPostingsByJournalID
  rw [r.postings_eq, List.filter_append, List.map_append]
  congr 1
  · exact List.map_congr_left fun p hp =>
      h.told_mono r.provisioned hkeep (List.mem_of_mem_filter hp)
  · have hrows := rowOf_numbered t.postingSeq r.rowsOf
    by_cases hj : j = journalID
    · have hall : (numbered t.postingSeq ps).filter (·.journalID = j) = numbered t.postingSeq ps :=
        List.filter_eq_self.mpr fun p hp => by
          obtain ⟨i, -, hpj, -⟩ := forall₂_exists_left hrows hp
          exact decide_eq_true (hpj.trans hj.symm)
      rw [hall, if_pos hj]
      refine List.forall₂_eq_eq_eq ▸ List.forall₂_map_left_iff.mpr (List.forall₂_map_right_iff.mpr
        (hrows.flip.imp fun p i hip => ?_))
      obtain ⟨-, hasset, hamount, a, ha, hak, hpa⟩ := hip
      have hfind := r.provisioned.find_account (r.accounts_eq.symm ▸ (r.ensured.returned a ha).1)
      rw [← hpa] at hfind
      have hkey : newAccountKey a.accountType a.ownerUserID i.asset = i.key := by
        have hak' := hak
        simp only [Account.key, PostingInput.key, newAccountKey, AccountKey.mk.injEq] at hak'
        simp only [PostingInput.key, newAccountKey, hak'.1, hak'.2.1]
      simp [entryOf, hfind, hasset, hamount, hkey, PostingInput.entry]
    · have hnone : (numbered t.postingSeq ps).filter (·.journalID = j) = [] :=
        List.filter_eq_nil_iff.mpr fun p hp he => by
          obtain ⟨i, -, hpj, -⟩ := forall₂_exists_left hrows hp
          exact hj ((of_decide_eq_true he).symm.trans hpj)
      rw [hnone, if_neg hj]
      rfl

end PostRun

/-! ## Twins -/

/-- Two states of the tables that tell the same. -/
structure Twin (t u : Tables) : Prop where
  left : Stored t
  right : Stored u
  journals : t.journals = u.journals
  seq : t.journalSeq = u.journalSeq
  told : ∀ j, told t j = told u j
  balance : ∀ k, balanceOf t k = balanceOf u k

theorem Twin.refl (h : Stored t) : Twin t t := ⟨h, h, rfl, rfl, fun _ => rfl, fun _ => rfl⟩

theorem Twin.symm (h : Twin t u) : Twin u t :=
  ⟨h.right, h.left, h.journals.symm, h.seq.symm, fun j => (h.told j).symm,
    fun k => (h.balance k).symm⟩

/-- Provisioning is not told. -/
theorem ensureAccounts_twin (h : Stored t) (he : ensureAccounts t specs = .ok (u, rows))
    (hv : ∀ s ∈ specs, s.Valid) : Twin t u := by
  have hens := ensureAccounts_spec h.accounts h.rows he
  exact ⟨h, hens.stored h hv, hens.ext.frame.1.symm, hens.ext.frame.2.2.1.symm,
    fun j => (hens.told_eq h j).symm, fun k => (hens.balanceOf_eq h.toProvisioned k).symm⟩

theorem Stored.seq (h : Stored t) (n : Nat) : Stored { t with journalSeq := n } :=
  ⟨⟨{ h.accounts with }, { h.rows with }⟩, h.types, h.postings⟩

/-- Rolled back transactions use up ids. -/
theorem Stored.sequences (h : Stored t) (a j p : Nat) :
    Stored { t with
      accountSeq := t.accountSeq + a, journalSeq := t.journalSeq + j,
      postingSeq := t.postingSeq + p } := by
  refine ⟨⟨{ h.accounts with bounded := fun x hx => ?_ }, { h.rows with }⟩, h.types, h.postings⟩
  exact (h.accounts.bounded x hx).trans (Nat.le_add_right _ _)

theorem Stored.opened (h : Stored t) (input : JournalInput) : Stored (opened t input) :=
  ⟨h.toProvisioned.opened input, h.types, h.postings⟩

theorem Twin.opened (h : Twin t u) (input : JournalInput) :
    Twin (opened t input) (opened u input) :=
  ⟨h.left.opened input, h.right.opened input, by simp only [Ledger.opened, h.journals, h.seq],
    by simp only [Ledger.opened, h.seq], h.told, h.balance⟩

/-- Posting keeps twins. -/
theorem Twin.posted {t₁ u₁ u' : Tables} {rows rows' : List Account} {journalID : Nat}
    {inputs : List PostingInput}
    {ps qs : List Posting} (h : Twin t u) (r : PostRun t t₁ t' journalID inputs rows ps)
    (r' : PostRun u u₁ u' journalID inputs rows' qs) (hv : ∀ i ∈ inputs, i.spec.Valid) :
    Twin t' u' where
  left := r.stored h.left hv
  right := r'.stored h.right hv
  journals := by rw [r.journals_eq, r'.journals_eq, h.journals]
  seq := by rw [r.seq_eq, r'.seq_eq, h.seq]
  told j := by rw [r.told_eq h.left, r'.told_eq h.right, h.told]
  balance k := by
    rw [r.balanceOf_add h.left.toProvisioned, r'.balanceOf_add h.right.toProvisioned, h.balance]

variable {input : JournalInput} {entry : JournalEntry} {created : Bool}

/-- Every line of a journal that is recorded, now or before, is of a valid account. -/
theorem Stored.valid_of_record (h : Stored t) (hr : record t input = .ok (t', entry, created)) :
    ∀ i ∈ input.postings, i.spec.Valid := by
  have howner := fun i hi =>
    ((validateJournalInput_iff.mp (recordable_of_record hr).valid).2.1 i hi).2.2
  cases recording_of_record hr with
  | again found same =>
    obtain ⟨-, hperm⟩ := (assertSameJournal_iff (h.seq _)).mp same
    intro i hi
    -- the stored posting that says the same
    obtain ⟨p, hp, htuple⟩ := List.mem_map.mp (hperm.mem_iff.mpr (List.mem_map_of_mem hi))
    have hpt : p ∈ t.postings := List.mem_of_mem_filter hp
    obtain ⟨a, ha, -, htuple'⟩ := (h.seq (t.journalSeq + 1)).entryOf_eq hpt
    rw [htuple'] at htuple
    simp only [PostingInput.entry, PostingInput.key, newAccountKey, Entry.mk.injEq,
      AccountKey.mk.injEq] at htuple
    obtain ⟨⟨htype, -, hasset⟩, -⟩ := htuple
    have htype' : i.accountType ≠ .unknown := htype ▸ h.types a ha
    have hasset' : i.asset.length ≤ 16 := hasset ▸ (h.postings p hpt).2
    exact ⟨htype', howner i hi, hasset'⟩
  | fresh _ posted => exact valid_of_post posted howner

theorem Stored.record (h : Stored t) (hr : record t input = .ok (t', entry, created)) :
    Stored t' := by
  have hvalid := h.valid_of_record hr
  cases recording_of_record hr with
  | again => exact h.seq _
  | fresh _ posted =>
    have hopen := h.opened input
    obtain ⟨_, _, _, r⟩ := post_run hopen.accounts hopen.rows posted
    exact r.stored hopen hvalid

theorem Twin.record_left (h : Twin t u) (hrev : input.reversesJournalID = none)
    (hr : record t input = .ok (t', entry, created)) :
    ∃ u', record u input = .ok (u', entry, created) ∧ Twin t' u' := by
  have hrec := recordable_of_record hr
  have hv := h.left.valid_of_record hr
  cases recording_of_record hr with
  | again found same =>
    obtain ⟨hfields, hperm⟩ := (assertSameJournal_iff (h.left.seq _)).mp same
    have hsame' :
        assertSameJournal { u with journalSeq := u.journalSeq + 1 } entry input = .ok () :=
      (assertSameJournal_iff (h.right.seq _)).mpr ⟨hfields, (h.told entry.id) ▸ hperm⟩
    refine ⟨_, record_taken hrec (h.journals ▸ found) hsame', ?_⟩
    exact ⟨h.left.seq _, h.right.seq _, h.journals, by simp only [h.seq], h.told, h.balance⟩
  | fresh key posted =>
    obtain ⟨-, -, -, hcov⟩ := record_new h.left.toProvisioned key hr
    have key' : input.idempotencyKey ∉ u.journals.map JournalEntry.idempotencyKey :=
      h.journals ▸ key
    have hcov' : Covered (balanceOf u) input.postings :=
      fun i hi hneg => h.balance i.key ▸ hcov i hi hneg
    obtain ⟨u', hu'⟩ := record_new_ok h.right.toProvisioned hrec hrev key' hv hcov'
    refine ⟨u', h.seq ▸ hu', ?_⟩
    cases recording_of_record hu' with
    | fresh _ posted' =>
      have hopen := h.opened input
      obtain ⟨_, _, _, r⟩ := post_run hopen.left.accounts hopen.left.rows posted
      obtain ⟨_, _, _, r'⟩ := post_run hopen.right.accounts hopen.right.rows posted'
      exact hopen.posted r (h.seq ▸ r') hv

/-- `Record` succeeds on both of two twins or on neither, and leaves twins. -/
theorem Twin.record (h : Twin t u) (hrev : input.reversesJournalID = none) :
    Agrees (fun x y => Twin x.1 y.1 ∧ x.2 = y.2) (record t input) (record u input) := by
  constructor
  · rintro ⟨t', entry, created⟩ hr
    obtain ⟨u', hu', htwin⟩ := h.record_left hrev hr
    exact ⟨_, hu', htwin, rfl⟩
  · rintro ⟨u', entry, created⟩ hr
    obtain ⟨t', ht', htwin⟩ := h.symm.record_left hrev hr
    exact ⟨_, ht', htwin.symm, rfl⟩

end GoExchange.Ledger
