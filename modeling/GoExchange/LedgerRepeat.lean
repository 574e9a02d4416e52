import GoExchange.LedgerTwin
import Mathlib.Tactic.Linarith
import Mathlib.Tactic.Ring

/-!
# Repeated and reversed journals

A key names one journal for ever: `Record` under a key that is taken compares
the input with the stored postings, read back through their accounts, and
`Reverse` is such a `Record` with every amount negated. What is stored is never
written again, so both answer the same at any later time.
-/
namespace GoExchange.Ledger

open Tally Fallible

variable {t t' u : Tables} {input : JournalInput} {entry j : JournalEntry} {created : Bool}
  {journalID : Nat}

/-! ## Postings read back -/

/-- A stored posting, with what its account says. -/
def lineOf (t : Tables) (p : Posting) : PostingInput :=
  match t.accounts.find? (·.id = p.accountID) with
  | some a => ⟨a.accountType, a.ownerUserID, p.asset, p.amount⟩
  | none => ⟨.unknown, none, p.asset, p.amount⟩

/-- The postings of a journal, read back. -/
def lines (t : Tables) (journalID : Nat) : List PostingInput :=
  (findPostingsByJournalID t journalID).map (lineOf t)

/-- The input that a stored journal answers to. -/
def inputOf (t : Tables) (j : JournalEntry) : JournalInput :=
  ⟨j.eventType, j.idempotencyKey, j.referenceType, j.referenceID, j.reversesJournalID, lines t j.id⟩

theorem entry_lineOf (t : Tables) (p : Posting) : (lineOf t p).entry = entryOf t p := by
  unfold lineOf entryOf
  cases t.accounts.find? (·.id = p.accountID) <;> rfl

theorem map_entry_lines (t : Tables) (journalID : Nat) :
    (lines t journalID).map PostingInput.entry = told t journalID := by
  unfold lines told
  rw [List.map_map]
  exact List.map_congr_left fun p _ => entry_lineOf t p

/-- Only user accounts have an owner. -/
def PostingInput.Owned (i : PostingInput) : Prop :=
  isSystemAccountType i.accountType = i.ownerUserID.isNone

/-- What an entry says, as a line with the right owner. -/
def Entry.line (x : Entry) : PostingInput :=
  ⟨x.account.accountType, if isSystemAccountType x.account.accountType then none
    else some x.account.ownerUserID, x.account.asset, x.amount⟩

/-- The missing owner counts as 0, but which accounts miss it is known. -/
theorem PostingInput.Owned.line_entry {i : PostingInput} (h : i.Owned) : i.entry.line = i := by
  obtain ⟨type, owner, asset, amount⟩ := i
  cases owner <;> simp_all [Owned, entry, key, newAccountKey, Entry.line]

theorem lines_of_entries {is : List PostingInput} (h : ∀ i ∈ is, i.Owned) :
    (is.map PostingInput.entry).map Entry.line = is := by
  rw [List.map_map]
  exact (List.map_congr_left fun i hi => (h i hi).line_entry).trans (List.map_id _)

/-- Lines with the right owners are told apart by what they say. -/
theorem perm_of_entries {is js : List PostingInput} (hi : ∀ i ∈ is, i.Owned)
    (hj : ∀ j ∈ js, j.Owned) :
    (is.map PostingInput.entry).Perm (js.map PostingInput.entry) ↔ is.Perm js := by
  constructor
  · intro h
    have := h.map Entry.line
    rwa [lines_of_entries hi, lines_of_entries hj] at this
  · intro h
    exact h.map _

/-! ## The archive -/

/-- The owners that the schema asks for. -/
def OwnersOk (t : Tables) : Prop :=
  ∀ a ∈ t.accounts, isSystemAccountType a.accountType = a.ownerUserID.isNone

theorem insertAccount_owners {s : AccountSpec} (h : OwnersOk t) (hs : insertAccount t s = .ok t') :
    OwnersOk t' := by
  simp only [insertAccount, guard_eq_ok] at hs
  obtain ⟨-, howner, -, hs⟩ := hs
  split at hs <;> cases hs
  · exact h
  · exact Rows.forall_mem_concat h (not_not.mp howner)

theorem ensureAccounts_owners {specs : List AccountSpec} {rows : List Account} (hr : RowsOk t)
    (hok : AccountsOk t)
    (h : OwnersOk t) (he : ensureAccounts t specs = .ok (t', rows)) : OwnersOk t' := by
  obtain ⟨v, hv, he⟩ := bind_eq_ok.mp he
  obtain ⟨-, he⟩ := guard_eq_ok.mp he
  cases he
  have howners : OwnersOk v :=
    foldlM_invariant OwnersOk (fun w s x _ hi hx => insertAccount_owners hi hx) h hv
  have hz := ensureBalanceRows_zeroed (t := v)
    (by rw [(insertAccounts_accounts hok hv).2.2]; exact hr.ids)
    (((findBySpecs v ((unique specs).insertionSort AccountSpec.before)).map
      Account.id).insertionSort (· ≤ ·))
  intro a ha
  rw [hz.frame] at ha
  exact howners a ha

theorem PostRun.owners {t₁ : Tables} {inputs : List PostingInput} {rows : List Account}
    {ps : List Posting}
    (r : PostRun t t₁ t' journalID inputs rows ps) (hr : RowsOk t) (hok : AccountsOk t)
    (h : OwnersOk t) : OwnersOk t' := by
  unfold OwnersOk
  rw [r.accounts_eq]
  exact ensureAccounts_owners hr hok h r.call

theorem Stored.owned (h : Stored t) (howners : OwnersOk t) (journalID : Nat) :
    ∀ i ∈ lines t journalID, i.Owned := by
  intro i hi
  obtain ⟨p, hp, rfl⟩ := List.mem_map.mp hi
  obtain ⟨a, ha, -, hfind⟩ := h.account (List.mem_of_mem_filter hp)
  unfold PostingInput.Owned lineOf
  simp only [hfind]
  exact howners a ha

theorem Stored.lines_eq (h : Stored t) (howners : OwnersOk t) (journalID : Nat) :
    lines t journalID = (told t journalID).map Entry.line := by
  rw [← map_entry_lines, lines_of_entries (h.owned howners journalID)]

/-- What is kept of every journal: it can be told again, line by line. -/
structure Archive (t : Tables) : Prop where
  sound : Sound t
  stored : Stored t
  owners : OwnersOk t
  recordable : ∀ j ∈ t.journals, Recordable (inputOf t j)

theorem Recordable.owned (h : Recordable input) : ∀ i ∈ input.postings, i.Owned :=
  fun i hi => ((validateJournalInput_iff.mp h.valid).2.1 i hi).2.2

/-- Stored journals are still there, with the same lines. -/
def Later (t t' : Tables) : Prop := ∀ j ∈ t.journals, j ∈ t'.journals ∧ lines t' j.id = lines t j.id

theorem Later.refl (t : Tables) : Later t t := fun _ hj => ⟨hj, rfl⟩

theorem Later.trans (h : Later t t') (h' : Later t' u) : Later t u := by
  intro j hj
  obtain ⟨hmem, hlines⟩ := h j hj
  obtain ⟨hmem', hlines'⟩ := h' j hmem
  exact ⟨hmem', hlines'.trans hlines⟩

/-- A journal that did not exist has no postings. -/
theorem Sound.told_eq_nil (h : Sound t) (hid : journalID ∉ t.journals.map JournalEntry.id) :
    told t journalID = [] := by
  unfold told findPostingsByJournalID
  have hnone : t.postings.filter (·.journalID = journalID) = [] :=
    List.filter_eq_nil_iff.mpr fun p hp he => hid (of_decide_eq_true he ▸ (h.postings p hp).2.1)
  rw [hnone]
  rfl

theorem Archive.seq (h : Archive t) (a j p : Nat) : Archive { t with
    accountSeq := t.accountSeq + a, journalSeq := t.journalSeq + j, postingSeq :=
  t.postingSeq + p } :=
  ⟨h.sound.lost a j p, ⟨(h.sound.lost a j p).provisioned, h.stored.types, h.stored.postings⟩,
    h.owners, h.recordable⟩

/-- The input is the event of the journal: same type, reference and reversed journal, and the same
lines in some order. -/
def Says (t : Tables) (j : JournalEntry) (input : JournalInput) : Prop :=
  input.eventType = j.eventType ∧ input.referenceType = j.referenceType ∧
    input.referenceID = j.referenceID ∧
    input.reversesJournalID = j.reversesJournalID ∧ input.postings.Perm (lines t j.id)

theorem Says.later (h : Says t entry input) (hl : Later t t') (hj : entry ∈ t.journals) :
    Says t' entry input := by
  obtain ⟨h₁, h₂, h₃, h₄, hperm⟩ := h
  exact ⟨h₁, h₂, h₃, h₄, (hl entry hj).2 ▸ hperm⟩

theorem Archive.says_iff (h : Archive t) {existing : JournalEntry}
    (howned : ∀ i ∈ input.postings, i.Owned) :
    assertSameJournal t existing input = .ok () ↔ Says t existing input := by
  rw [assertSameJournal_iff h.stored, ← map_entry_lines,
    perm_of_entries (h.stored.owned h.owners _) howned]
  unfold Says
  constructor
  · rintro ⟨⟨h₁, h₂, h₃, h₄⟩, hperm⟩
    exact ⟨h₁.symm, h₂.symm, h₃.symm, h₄.symm, hperm.symm⟩
  · rintro ⟨h₁, h₂, h₃, h₄, hperm⟩
    exact ⟨⟨h₁.symm, h₂.symm, h₃.symm, h₄.symm⟩, hperm.symm⟩

/-- An input that says the same as a recordable one is recordable. -/
theorem Recordable.of_said {a b : JournalInput} (h : Recordable a)
    (hkey : b.idempotencyKey = a.idempotencyKey)
    (he : b.eventType = a.eventType) (hr : b.referenceType = a.referenceType)
    (hrev : b.reversesJournalID = a.reversesJournalID) (hp : b.postings.Perm a.postings) :
    Recordable b := by
  obtain ⟨_, _, _, _, _, _⟩ := b
  subst hkey he hr hrev
  obtain ⟨⟨h₁, h₂, h₃, h₄, h₅⟩, hlines, hsum⟩ := validateJournalInput_iff.mp h.valid
  refine ⟨validateJournalInput_iff.mpr ⟨⟨h₁, h₂, h₃, hp.length_eq ▸ h₄, h₅⟩, fun i hi => ?_,
    fun asset => ?_⟩, h.eventType, h.referenceType, h.key⟩
  · exact hlines i (hp.mem_iff.mp hi)
  · exact (sumAt_perm hp).trans (hsum asset)

/-- Told again what a journal says, `Record` answers with it. -/
theorem Archive.record_said (h : Archive t) (hj : j ∈ t.journals)
    (hkey : j.idempotencyKey = input.idempotencyKey)
    (hsaid : Says t j input) :
    Ledger.record t input = .ok ({ t with journalSeq := t.journalSeq + 1 }, j, false) := by
  obtain ⟨h₁, h₂, -, h₄, hperm⟩ := id hsaid
  have hrec : Recordable input := (h.recordable j hj).of_said hkey.symm h₁ h₂ h₄ hperm
  have hfound : t.journals.find? (·.idempotencyKey = input.idempotencyKey) = some j :=
    hkey ▸ Rows.find?_eq_some h.sound.keys hj
  exact record_taken hrec hfound (((h.seq 0 1 0).says_iff hrec.owned).mpr hsaid)

/-- Recording keeps the archive, and its entry says what was recorded. -/
theorem Archive.record (h : Archive t) (hr : record t input = .ok (t', entry, created)) :
    Archive t' ∧ Later t t' ∧ entry ∈ t'.journals ∧ entry.idempotencyKey = input.idempotencyKey ∧
      Says t' entry input := by
  have hrec := recordable_of_record hr
  have hsound := (record_spec h.sound hr).sound
  cases recording_of_record hr with
  | again found same =>
    have hseq := h.seq 0 1 0
    obtain ⟨hmem, hkey⟩ := Rows.of_find? found
    exact ⟨hseq, fun j hj => ⟨hj, rfl⟩, hmem, hkey, (hseq.says_iff hrec.owned).mp same⟩
  | fresh key hpost =>
    have hopen := h.sound.opened key
    have hvalid := valid_of_post hpost hrec.owned
    obtain ⟨t₁, rows, ps, r⟩ := post_run hopen.accounts hopen.rows hpost
    have hst := r.stored (h.stored.opened input) hvalid
    have howners : OwnersOk t' := r.owners hopen.rows hopen.accounts h.owners
    have htold := r.told_eq (h.stored.opened input)
    have hmem : journalRow t.journalSeq input ∈ t'.journals := by
      rw [r.journals_eq]
      exact List.mem_append_right _ (List.mem_singleton_self _)
    have hfresh : t.journalSeq + 1 ∉ t.journals.map JournalEntry.id := fun hid => by
      obtain ⟨j, hj, he⟩ := List.mem_map.mp hid
      have := h.sound.journals j hj
      omega
    -- an old journal's lines are read as before, the new one's are those of the input
    have hold : ∀ j ∈ t.journals, lines t' j.id = lines t j.id := fun j hj => by
      have hne : j.id ≠ t.journalSeq + 1 := fun he => hfresh (he ▸ List.mem_map_of_mem hj)
      rw [hst.lines_eq howners, htold, if_neg hne, List.append_nil, h.stored.lines_eq h.owners]
      rfl
    have hnew : lines t' (t.journalSeq + 1) = input.postings := by
      have hnil : told (opened t input) (t.journalSeq + 1) = [] := h.sound.told_eq_nil hfresh
      rw [hst.lines_eq howners, htold, if_pos rfl, hnil, List.nil_append,
        lines_of_entries hrec.owned]
    refine ⟨⟨hsound, hst, howners, fun j hj => ?_⟩, fun j hj => ⟨?_, hold j hj⟩, hmem, rfl, rfl,
      rfl, rfl, rfl, ?_⟩
    · rw [r.journals_eq] at hj
      rcases List.mem_append.mp hj with hj | hj
      · have := h.recordable j hj
        unfold inputOf at this ⊢
        rwa [hold j hj]
      · rw [List.mem_singleton.mp hj]
        exact hrec.of_said rfl rfl rfl rfl (hnew ▸ .refl _)
    · rw [r.journals_eq]
      exact List.mem_append_left _ hj
    · exact hnew ▸ .refl _

/-! ## Reversals -/

def PostingInput.neg (i : PostingInput) : PostingInput := { i with amount := -i.amount }

/-- What `Reverse` records for a journal. -/
def reversalOf (t : Tables) (j : JournalEntry) : JournalInput :=
  ⟨.reversal, s!"reversal:{j.id}", j.referenceType, j.referenceID, some j.id,
    (lines t j.id).map PostingInput.neg⟩

theorem reverse_eq_ok (h : Archive t) (hj : j ∈ t.journals) :
    reverse t j.id = .ok (t', entry) ↔
    ∃ created, record t (reversalOf t j) = .ok (t', entry, created) := by
  have hfind : t.journals.find? (·.id = j.id) = some j := Rows.find?_eq_some h.sound.journalIDs hj
  have hne : findPostingsByJournalID t j.id ≠ [] := fun he => by
    obtain ⟨⟨-, -, -, hlen, -⟩, -⟩ := validateJournalInput_iff.mp (h.recordable j hj).valid
    simp [inputOf, lines, he] at hlen
  have hmap : (findPostingsByJournalID t j.id).mapM (fun p => do
      let a ← accountOf t p
      return (⟨a.accountType, a.ownerUserID, p.asset, -p.amount⟩ : PostingInput)) =
      .ok ((lines t j.id).map PostingInput.neg) := by
    unfold lines
    rw [List.map_map]
    refine mapM_eq_ok.mpr (List.forall₂_map_right_iff.mpr (List.forall₂_same.mpr fun p hp => ?_))
    obtain ⟨a, ha, -, hacc⟩ := h.stored.account (List.mem_of_mem_filter hp)
    exact bind_eq_ok.mpr
      ⟨a, by simp [accountOf, hacc], by simp [lineOf, hacc, PostingInput.neg]; rfl⟩
  unfold reverse
  simp only [hfind, if_neg hne, hmap]
  constructor
  · intro hr
    obtain ⟨is, his, hr⟩ := bind_eq_ok.mp hr
    cases his
    obtain ⟨⟨v, e, c⟩, hv, hr⟩ := bind_eq_ok.mp hr
    cases hr
    exact ⟨c, hv⟩
  · rintro ⟨c, hv⟩
    exact bind_eq_ok.mpr ⟨_, rfl, bind_eq_ok.mpr ⟨_, hv, rfl⟩⟩

/-- A journal that says what the reversal would say is the reversal. -/
theorem reverse_taken (h : Archive t) (hj : j ∈ t.journals) (he : entry ∈ t.journals)
    (hkey : entry.idempotencyKey = (reversalOf t j).idempotencyKey)
    (hsaid : Says t entry (reversalOf t j)) :
    reverse t j.id = .ok ({ t with journalSeq := t.journalSeq + 1 }, entry) := by
  exact (reverse_eq_ok h hj).mpr ⟨false, h.record_said he hkey hsaid⟩

theorem Later.reversalOf_eq (h : Later t t') (hj : j ∈ t.journals) :
    reversalOf t' j = reversalOf t j := by
  unfold reversalOf
  rw [(h j hj).2]

theorem Archive.reverse (h : Archive t) (hj : j ∈ t.journals)
    (hr : reverse t j.id = .ok (t', entry)) :
    Archive t' ∧ Later t t' ∧ entry ∈ t'.journals ∧
    entry.idempotencyKey = (reversalOf t j).idempotencyKey ∧
      Says t' entry (reversalOf t j) := by
  obtain ⟨created, hrec⟩ := (reverse_eq_ok h hj).mp hr
  exact h.record hrec

/-! ## Every run -/

theorem Archive.step {call : Call} (h : Archive t) (hs : step call t = some t') :
    Archive t' ∧ Later t t' := by
  cases call with
  | record input =>
    simp only [Ledger.step] at hs
    split at hs
    · rename_i r hr
      cases hs
      obtain ⟨harchive, hlater, -⟩ := h.record hr
      exact ⟨harchive, hlater⟩
    · cases hs
      exact ⟨h, .refl t⟩
  | reverse journalID =>
    simp only [Ledger.step] at hs
    split at hs
    · rename_i hr
      cases hs
      obtain ⟨j, hj, hid⟩ : ∃ j ∈ t.journals, j.id = journalID := by
        unfold Ledger.reverse at hr
        cases hf : t.journals.find? (·.id = journalID) with
        | none => simp [hf] at hr
        | some j => exact ⟨j, Rows.of_find? hf⟩
      obtain ⟨harchive, hlater, -⟩ := h.reverse hj (hid ▸ hr)
      exact ⟨harchive, hlater⟩
    · cases hs
      exact ⟨h, .refl t⟩
  | lost a j p =>
    cases hs
    exact ⟨h.seq a j p, fun j hj => ⟨hj, rfl⟩⟩

theorem empty_archive : Archive empty where
  sound := empty_sound
  stored := ⟨empty_sound.provisioned, by simp [empty], by simp [empty]⟩
  owners := by simp [OwnersOk, empty]
  recordable := by simp [empty]

theorem reach_archive (h : Lts.Reach step Lts.free empty t) : Archive t :=
  h.invariant _ empty_archive fun _ _ _ _ hi _ hs => (hi.step hs).1

theorem Archive.later (h : Archive t) (hr : Lts.Reach Ledger.step Lts.free t t') :
    Archive t' ∧ Later t t' :=
  hr.invariant (fun u => Archive u ∧ Later t u) ⟨h, .refl t⟩ fun _ _ _ _ hi _ hs => by
    obtain ⟨harchive, hlater⟩ := hi.1.step hs
    exact ⟨harchive, hi.2.trans hlater⟩

/-- Under a key that has a journal, `Record` succeeds if and only if it is told the same event; it
then answers with the journal, and whether it succeeds or not nothing is written. -/
theorem record_again (h : Lts.Reach step Lts.free empty t) {j : JournalEntry} (hj : j ∈ t.journals)
    (hkey : j.idempotencyKey = input.idempotencyKey) :
    ((∃ r, record t input = .ok r) ↔ Says t j input) ∧
    (∀ t' entry created, record t input = .ok (t', entry, created) → entry = j ∧ created = false) ∧
    ∀ t', step (.record input) t = some t' → t'.accounts = t.accounts ∧ t'.balances = t.balances ∧
      t'.journals = t.journals ∧ t'.postings = t.postings := by
  have ha := reach_archive h
  have hfound : t.journals.find? (·.idempotencyKey = input.idempotencyKey) = some j :=
    hkey ▸ Rows.find?_eq_some ha.sound.keys hj
  -- a call that succeeds found this journal, and it compares equal
  have hagain : ∀ t' entry created, record t input = .ok (t', entry, created) →
      t' = { t with journalSeq := t.journalSeq + 1 } ∧ entry = j ∧ created = false ∧
      Says t j input := by
    intro t' entry created hr
    have hrec := recordable_of_record hr
    cases recording_of_record hr with
    | again found same =>
      cases found.symm.trans hfound
      exact ⟨rfl, rfl, rfl, ((ha.seq 0 1 0).says_iff hrec.owned).mp same⟩
    | fresh key _ => exact absurd (hkey ▸ List.mem_map_of_mem hj) key
  refine ⟨⟨?_, ?_⟩, ?_, ?_⟩
  · rintro ⟨⟨t', entry, created⟩, hr⟩
    exact (hagain t' entry created hr).2.2.2
  · exact fun hsaid => ⟨_, ha.record_said hj hkey hsaid⟩
  · intro t' entry created hr
    obtain ⟨-, hentry, hcreated, -⟩ := hagain t' entry created hr
    exact ⟨hentry, hcreated⟩
  · intro t' hs
    simp only [step] at hs
    split at hs
    · rename_i r hr
      cases hs
      obtain ⟨rfl, -⟩ := hagain _ _ _ hr
      exact ⟨rfl, rfl, rfl, rfl⟩
    · cases hs
      exact ⟨rfl, rfl, rfl, rfl⟩

/-- The hold of `depositHoldReverse`, told again with its lines the other way round, after it was
reversed. -/
def holdAgain : JournalInput :=
  ⟨.orderHold, "order-hold:1", .order, 1, none,
    [⟨.userLocked, some 1, "KRW", 30⟩, ⟨.userAvailable, some 1, "KRW", -30⟩]⟩

theorem record_again_hold :
    ∃ t, Lts.exec step depositHoldReverse empty = some t ∧ ∃ r, record t holdAgain = .ok r := by
  have hrun : (Lts.exec step depositHoldReverse empty).any (fun t => t.journals.any fun j =>
      j.idempotencyKey = holdAgain.idempotencyKey ∧ holdAgain.eventType = j.eventType ∧
        holdAgain.referenceType = j.referenceType ∧ holdAgain.referenceID = j.referenceID ∧
        holdAgain.reversesJournalID = j.reversesJournalID ∧
        holdAgain.postings.isPerm (lines t j.id)) := by
    decide +kernel
  obtain ⟨t, ht, hany⟩ := (Option.any_eq_true _ _).mp hrun
  obtain ⟨j, hj, hsame⟩ := List.any_eq_true.mp hany
  obtain ⟨hkey, h₁, h₂, h₃, h₄, hperm⟩ := of_decide_eq_true hsame
  exact ⟨t, ht, (record_again (Lts.reach_of_exec _ ht) hj hkey).1.mpr
    ⟨h₁, h₂, h₃, h₄, List.isPerm_iff.mp hperm⟩⟩

/-! ## A journal and its reversal -/

/-- The tables as if these journals had not been recorded. -/
def without (t : Tables) (ids : List Nat) : Tables :=
  { t with
    journals := t.journals.filter (·.id ∉ ids), postings := t.postings.filter (·.journalID ∉ ids) }

/-- What a journal posted to an account. -/
def postedBy (t : Tables) (journalID accountID : Nat) : Decimal :=
  sumAt Posting.accountID Posting.amount (findPostingsByJournalID t journalID) accountID

theorem posted_without (t : Tables) (i j accountID : Nat) :
    posted t accountID = posted (without t [i, j]) accountID + postedBy t i accountID +
      if j = i then 0 else postedBy t j accountID := by
  let rest := t.postings.filter fun p => !decide (p.journalID = i)
  have hi : postedBy t i accountID + sumAt Posting.accountID Posting.amount rest accountID =
      posted t accountID :=
    sumAt_filter_add fun p : Posting => decide (p.journalID = i)
  have hj : sumAt Posting.accountID Posting.amount
      (rest.filter fun p => decide (p.journalID = j)) accountID +
      sumAt Posting.accountID Posting.amount
      (rest.filter fun p => !decide (p.journalID = j)) accountID =
      sumAt Posting.accountID Posting.amount rest accountID :=
    sumAt_filter_add fun p : Posting => decide (p.journalID = j)
  have hothers : rest.filter (fun p => !decide (p.journalID = j)) =
      (without t [i, j]).postings := by
    rw [List.filter_filter]
    apply List.filter_congr
    intro p _
    simp [Bool.and_comm]
  have hsecond : sumAt Posting.accountID Posting.amount
      (rest.filter fun p => decide (p.journalID = j)) accountID =
      if j = i then 0 else postedBy t j accountID := by
    rw [List.filter_filter]
    split <;> rename_i hij
    · have hnone : t.postings.filter
          (fun p => decide (p.journalID = j) && !decide (p.journalID = i)) = [] := by
        simp [hij]
      rw [hnone, sumAt_nil]
    · unfold postedBy findPostingsByJournalID
      congr 1
      apply List.filter_congr
      intro p _
      by_cases hp : p.journalID = j <;> simp [hp, hij]
  rw [hothers] at hj
  rw [← hi, ← hj, hsecond]
  unfold posted
  ring

/-- What a journal posted to an account is what its lines say under the account's key. -/
theorem Archive.postedBy_eq (h : Archive t) {a : Account} (ha : a ∈ t.accounts) (journalID : Nat) :
    postedBy t journalID a.id =
      sumAt PostingInput.key PostingInput.amount (lines t journalID) a.key := by
  refine sumAt_congr (List.forall₂_map_right_iff.mpr (List.forall₂_same.mpr fun p hp => ?_))
  obtain ⟨-, -, c, hc, hcp, hasset⟩ := h.sound.postings p (List.mem_of_mem_filter hp)
  have hfind := h.stored.find_account hc
  rw [hcp] at hfind
  have hkey : (lineOf t p).key = c.key := by
    simp only [lineOf, hfind, PostingInput.key, Account.key, hasset]
  refine ⟨⟨fun hid => ?_, fun hk => ?_⟩, by simp only [lineOf, hfind]⟩
  · rw [hkey, List.inj_on_of_nodup_map h.sound.accounts.ids hc ha (hcp.trans hid)]
  · rw [← hcp, List.inj_on_of_nodup_map h.sound.accounts.keys hc ha (hkey.symm.trans hk)]

theorem sumAt_neg (is : List PostingInput) (k : AccountKey) :
    sumAt PostingInput.key PostingInput.amount (is.map PostingInput.neg) k =
      -sumAt PostingInput.key PostingInput.amount is k := by
  induction is with
  | nil => simp
  | cons i is ih =>
    have hkey : i.neg.key = i.key := rfl
    have hamount : i.neg.amount = -i.amount := rfl
    rw [List.map_cons, sumAt_cons, sumAt_cons, ih, hkey, hamount, neg_add]
    split <;> simp

/-- A journal and the reversal that negates it cancel on every account. -/
theorem Archive.posted_of_reversed (h : Archive t) (hsaid : Says t entry (reversalOf t j))
    {a : Account} (ha : a ∈ t.accounts) :
    posted t a.id = posted (without t [j.id, entry.id]) a.id := by
  have hneg : postedBy t entry.id a.id = -postedBy t j.id a.id := by
    rw [h.postedBy_eq ha, h.postedBy_eq ha, ← sumAt_perm hsaid.2.2.2.2]
    exact sumAt_neg _ _
  rw [posted_without t j.id entry.id a.id]
  split
  · -- the journal is its own reversal, so it posts nothing in sum
    rename_i hself
    rw [hself] at hneg
    linarith
  · rw [hneg]
    ring

/-- After a successful `Reverse`, at any later time, every balance is the sum of the postings of the
other journals, and a further `Reverse` answers with the same reversal and writes nothing; a failing
one writes nothing either. -/
theorem reverse_restores (h : Lts.Reach step Lts.free empty t) {j : JournalEntry}
    (hj : j ∈ t.journals) :
    (∀ t₁ e, reverse t j.id = .ok (t₁, e) → ∀ t₂, Lts.Reach step Lts.free t₁ t₂ →
      (∀ a ∈ t₂.accounts, balanceOf t₂ a.key = posted (without t₂ [j.id, e.id]) a.id) ∧
      reverse t₂ j.id = .ok ({ t₂ with journalSeq := t₂.journalSeq + 1 }, e)) ∧
    ∀ err, reverse t j.id = .error err → step (.reverse j.id) t = some t := by
  constructor
  · intro t₁ e hr t₂ hrun
    obtain ⟨h₁, hlater, he, hkey, hsaid⟩ := (reach_archive h).reverse hj hr
    obtain ⟨h₂, hlater'⟩ := h₁.later hrun
    have hj₂ : j ∈ t₂.journals := (hlater' j (hlater j hj).1).1
    have hrev : reversalOf t₂ j = reversalOf t j := (hlater.trans hlater').reversalOf_eq hj
    have hsaid₂ : Says t₂ e (reversalOf t₂ j) := hrev ▸ hsaid.later hlater' he
    refine ⟨fun a ha => ?_, reverse_taken h₂ hj₂ (hlater' e he).1 (hrev ▸ hkey) hsaid₂⟩
    rw [balanceOf_of_mem h₂.sound ha, h₂.posted_of_reversed hsaid₂ ha]
  · intro err hr
    simp only [step, hr]

/-- A deposit that comes between the two reversals of the hold. -/
def laterDeposit : JournalInput :=
  ⟨.deposit, "later", .transfer, 2, none,
    [⟨.externalBank, none, "KRW", -50⟩, ⟨.userAvailable, some 7, "KRW", 50⟩]⟩

theorem reverse_restores_hold :
    ∃ t t₁ e t₂, Lts.exec step (depositHoldReverse.take 2) empty = some t ∧
    reverse t 2 = .ok (t₁, e) ∧
      step (.record laterDeposit) t₁ = some t₂ ∧ t₂.journals.length = 4 ∧
      (∀ a ∈ t₂.accounts, balanceOf t₂ a.key = posted (without t₂ [2, e.id]) a.id) ∧
      reverse t₂ 2 = .ok ({ t₂ with journalSeq := t₂.journalSeq + 1 }, e) := by
  have hrun : ((Lts.exec step (depositHoldReverse.take 2) empty).bind fun t =>
      (t.journals.find? (·.id = 2)).bind fun _ => (reverse t 2).toOption.bind fun r =>
        (step (.record laterDeposit) r.1).map fun t₂ => t₂.journals.length) = some 4 := by
    decide +kernel
  obtain ⟨t, ht, hrun⟩ := Option.bind_eq_some_iff.mp hrun
  obtain ⟨j, hj, hrun⟩ := Option.bind_eq_some_iff.mp hrun
  obtain ⟨⟨t₁, e⟩, hr, hrun⟩ := Option.bind_eq_some_iff.mp hrun
  obtain ⟨t₂, hstep, hlen⟩ := Option.map_eq_some_iff.mp hrun
  have hr : reverse t 2 = .ok (t₁, e) := by
    cases hres : reverse t 2 with
    | error => rw [hres] at hr; cases hr
    | ok r => rw [hres] at hr; cases hr; rfl
  have hid : j.id = 2 := by simpa using List.find?_some hj
  have hlater : Lts.Reach step Lts.free t₁ t₂ := Lts.Reach.refl.next trivial hstep
  obtain ⟨hbalances, hagain⟩ :=
    (reverse_restores (Lts.reach_of_exec _ ht) (List.mem_of_find?_eq_some hj)).1 t₁ e
      (hid ▸ hr) t₂ hlater
  exact ⟨t, t₁, e, t₂, ht, hr, hstep, hlen, hid ▸ hbalances, hid ▸ hagain⟩

end GoExchange.Ledger
