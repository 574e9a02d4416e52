import GoExchange.Ledger
import GoExchange.Fallible
import GoExchange.Lts
import GoExchange.Rows
import Mathlib.Algebra.Order.Ring.Rat
import Mathlib.Order.Bounds.Basic

/-!
# The ledger's books balance

What the tables satisfy after any calls of the service: journals that balance,
and a balance cache that agrees with the postings.
-/
namespace GoExchange.Ledger

open Tally Fallible

variable {t t' : Tables} {specs : List AccountSpec} {s : AccountSpec}

/-! ## Provisioning accounts -/

structure AccountsOk (t : Tables) : Prop where
  ids : (t.accounts.map Account.id).Nodup
  keys : (t.accounts.map Account.key).Nodup
  bounded : ∀ a ∈ t.accounts, a.id ≤ t.accountSeq
  flags : ∀ a ∈ t.accounts, a.allowsNegative = allowsNegativeBalance a.accountType

/-- The tables with more accounts, each of them named by the specs and numbered after the old ones.
-/
structure Extends (t t' : Tables) (specs : List AccountSpec) : Prop where
  frame : t'.journals = t.journals ∧ t'.postings = t.postings ∧ t'.journalSeq = t.journalSeq ∧
    t'.postingSeq = t.postingSeq
  seq : t.accountSeq ≤ t'.accountSeq
  keep : ∀ a ∈ t.accounts, a ∈ t'.accounts
  new : ∀ a ∈ t'.accounts, a ∈ t.accounts ∨
    (a.key ∈ specs.map AccountSpec.key ∧ t.accountSeq < a.id)

theorem insertAccount_accounts (h : AccountsOk t) (hs : insertAccount t s = .ok t') :
    AccountsOk t' ∧ Extends t t' [s] ∧ t'.balances = t.balances := by
  simp only [insertAccount, guard_eq_ok] at hs
  obtain ⟨-, -, -, hs⟩ := hs
  split at hs
  · cases hs
    refine ⟨⟨h.ids, h.keys, fun a ha => (h.bounded a ha).trans (Nat.le_succ _), h.flags⟩,
      ⟨⟨rfl, rfl, rfl, rfl⟩, Nat.le_succ _, fun a ha => ha, fun a ha => .inl ha⟩, rfl⟩
  · rename_i hkey
    cases hs
    refine ⟨⟨?_, ?_, ?_, ?_⟩,
      ⟨⟨rfl, rfl, rfl, rfl⟩, Nat.le_succ _, fun a ha => List.mem_append_left _ ha, ?_⟩, rfl⟩
    · exact Rows.nodup_concat_succ h.ids h.bounded rfl
    · exact Rows.nodup_concat h.keys hkey
    · exact Rows.forall_mem_concat (fun a ha => (h.bounded a ha).trans (Nat.le_succ _))
        (Nat.le_refl _)
    · exact Rows.forall_mem_concat h.flags rfl
    · refine Rows.forall_mem_concat (fun a ha => .inl ha) ?_
      exact .inr ⟨by simp [Account.key, AccountSpec.key], Nat.lt_succ_self _⟩

theorem Extends.refl (t : Tables) (specs : List AccountSpec) : Extends t t specs :=
  ⟨⟨rfl, rfl, rfl, rfl⟩, Nat.le_refl _, fun _ ha => ha, fun _ ha => .inl ha⟩

theorem Extends.trans {u : Tables} (h : Extends t t' specs) (h' : Extends t' u [s])
    (hs : s ∈ specs) : Extends t u specs where
  frame := ⟨h'.frame.1.trans h.frame.1, h'.frame.2.1.trans h.frame.2.1,
    h'.frame.2.2.1.trans h.frame.2.2.1, h'.frame.2.2.2.trans h.frame.2.2.2⟩
  seq := h.seq.trans h'.seq
  keep a ha := h'.keep a (h.keep a ha)
  new a ha := by
    rcases h'.new a ha with ha | ⟨hk, hseq⟩
    · exact h.new a ha
    · have hseq' := h.seq
      rw [List.map_singleton, List.mem_singleton] at hk
      exact .inr ⟨hk ▸ List.mem_map_of_mem hs, by omega⟩

/-- One balance row for each account. -/
structure RowsOk (t : Tables) : Prop where
  ids : (t.balances.map AccountBalance.accountID).Nodup
  accounts : ∀ id, id ∈ t.balances.map AccountBalance.accountID ↔ id ∈ t.accounts.map Account.id

theorem RowsOk.row (h : RowsOk t) {a : Account} (ha : a ∈ t.accounts) :
    ∃ b ∈ t.balances, b.accountID = a.id :=
  List.mem_map.mp ((h.accounts _).mpr (List.mem_map_of_mem ha))

/-- The rows that `ensureBalanceRows` leaves: the old ones and zeros for the ids that had none. -/
structure Zeroed (t t' : Tables) (ids : List Nat) : Prop where
  frame : t' = { t with balances := t'.balances }
  nodup : (t'.balances.map AccountBalance.accountID).Nodup
  keep : ∀ b ∈ t.balances, b ∈ t'.balances
  new : ∀ b ∈ t'.balances, b ∈ t.balances ∨
    (b = ⟨b.accountID, 0, 0⟩ ∧ b.accountID ∈ ids ∧
      b.accountID ∉ t.balances.map AccountBalance.accountID)
  cover : ∀ id ∈ ids, id ∈ t'.balances.map AccountBalance.accountID

theorem ensureBalanceRows_zeroed (h : (t.balances.map AccountBalance.accountID).Nodup)
    (ids : List Nat) : Zeroed t (ensureBalanceRows t ids) ids := by
  unfold ensureBalanceRows
  induction ids using List.reverseRecOn with
  | nil => exact ⟨rfl, h, fun b hb => hb, fun b hb => .inl hb, by simp⟩
  | append_singleton ids id ih =>
    rw [List.foldl_append, List.foldl_cons, List.foldl_nil]
    generalize ids.foldl ensureBalanceRow t = u at ih
    have hmem : ∀ i ∈ ids, i ∈ ids ++ [id] := fun i hi => List.mem_append_left _ hi
    unfold ensureBalanceRow
    split <;> rename_i hid
    · refine ⟨ih.frame, ih.nodup, ih.keep, fun b hb => ?_, Rows.forall_mem_concat ih.cover hid⟩
      exact (ih.new b hb).imp_right fun ⟨h₀, h₁, h₂⟩ => ⟨h₀, hmem _ h₁, h₂⟩
    · have hold : id ∉ t.balances.map AccountBalance.accountID := fun hmem => by
        obtain ⟨b, hb, rfl⟩ := List.mem_map.mp hmem
        exact hid (List.mem_map_of_mem (ih.keep b hb))
      refine ⟨by rw [ih.frame], ?_, fun b hb => List.mem_append_left _ (ih.keep b hb),
        Rows.forall_mem_concat (fun b hb => ?_) (.inr ⟨rfl, by simp, hold⟩), fun i hi => ?_⟩
      · exact Rows.nodup_concat ih.nodup hid
      · exact (ih.new b hb).imp_right fun ⟨h₀, h₁, h₂⟩ => ⟨h₀, hmem _ h₁, h₂⟩
      · rw [List.map_append, List.mem_append]
        rcases List.mem_append.mp hi with hi | hi
        · exact .inl (ih.cover i hi)
        · exact .inr (by simpa using hi)

/-- `unique` keeps each key once. -/
theorem unique_spec (specs : List AccountSpec) :
    ((unique specs).map AccountSpec.key).Nodup ∧ (∀ s ∈ unique specs, s ∈ specs) ∧
      ∀ s ∈ specs, s.key ∈ (unique specs).map AccountSpec.key := by
  unfold unique
  induction specs using List.reverseRecOn with
  | nil => simp
  | append_singleton specs s ih =>
    rw [List.foldl_append, List.foldl_cons, List.foldl_nil]
    obtain ⟨hnodup, hsub, hcover⟩ := ih
    have hsub' : ∀ x ∈ _, x ∈ specs ++ [s] := fun x hx => List.mem_append_left _ (hsub x hx)
    split <;> rename_i hkey
    · exact ⟨hnodup, hsub', Rows.forall_mem_concat hcover hkey⟩
    · refine ⟨Rows.nodup_concat hnodup hkey, Rows.forall_mem_concat hsub' (by simp), ?_⟩
      rw [List.map_append]
      exact Rows.forall_mem_concat (fun x hx => List.mem_append_left _ (hcover x hx)) (by simp)

/-- The inserts keep the table of accounts and leave the balances alone. -/
theorem insertAccounts_accounts (h : AccountsOk t) (hu : specs.foldlM insertAccount t = .ok t') :
    AccountsOk t' ∧ Extends t t' specs ∧ t'.balances = t.balances := by
  refine foldlM_invariant (fun v => AccountsOk v ∧ Extends t v specs ∧ v.balances = t.balances)
    (fun v s w hs hi hv => ?_) ⟨h, .refl t specs, rfl⟩ hu
  obtain ⟨hw, hex, hb⟩ := insertAccount_accounts hi.1 hv
  exact ⟨hw, hi.2.1.trans hex hs, hb.trans hi.2.2⟩

/-- What `EnsureAccounts` leaves, and the rows it returns. -/
structure Ensured (t t' : Tables) (specs : List AccountSpec) (rows : List Account) : Prop where
  accounts : AccountsOk t'
  rowsOk : RowsOk t'
  ext : Extends t t' specs
  returned : ∀ a ∈ rows, a ∈ t'.accounts ∧ a.key ∈ specs.map AccountSpec.key
  returns : ∀ a ∈ t'.accounts, a ∈ t.accounts ∨ a ∈ rows
  keep : ∀ b ∈ t.balances, b ∈ t'.balances
  new : ∀ b ∈ t'.balances, b ∈ t.balances ∨
    (b = ⟨b.accountID, 0, 0⟩ ∧ b.accountID ∉ t.balances.map AccountBalance.accountID)

theorem ensureAccounts_spec {rows : List Account} (h : AccountsOk t) (hr : RowsOk t)
    (he : ensureAccounts t specs = .ok (t', rows)) : Ensured t t' specs rows := by
  unfold ensureAccounts at he
  obtain ⟨u, hu, he⟩ := bind_eq_ok.mp he
  obtain ⟨-, he⟩ := guard_eq_ok.mp he
  cases he
  have hsub : ∀ s ∈ (unique specs).insertionSort AccountSpec.before,
      s.key ∈ specs.map AccountSpec.key :=
    fun s hs => List.mem_map_of_mem ((unique_spec specs).2.1 s ((List.mem_insertionSort _).mp hs))
  generalize (unique specs).insertionSort AccountSpec.before = us at hu hsub
  obtain ⟨hok, hext, hbal⟩ := insertAccounts_accounts h hu
  have hz := ensureBalanceRows_zeroed (t := u) (by rw [hbal]; exact hr.ids)
    (((findBySpecs u us).map Account.id).insertionSort (· ≤ ·))
  generalize
    ensureBalanceRows u (((findBySpecs u us).map Account.id).insertionSort (· ≤ ·)) = v at hz
  have hacc : v.accounts = u.accounts := by rw [hz.frame]
  have hkeys : ∀ k ∈ us.map AccountSpec.key, k ∈ specs.map AccountSpec.key := fun k hk => by
    obtain ⟨s, hs, rfl⟩ := List.mem_map.mp hk
    exact hsub s hs
  have hrow : ∀ a ∈ u.accounts, a ∈ t.accounts ∨ a ∈ findBySpecs u us := fun a ha =>
    (hext.new a ha).imp_right fun hk => List.mem_filter.mpr ⟨ha, by simpa using hk.1⟩
  refine ⟨?_, ⟨hz.nodup, fun id => ⟨fun hid => ?_, fun hid => ?_⟩⟩, ?_, fun a ha => ?_, ?_, ?_, ?_⟩
  · rw [hz.frame]
    exact { hok with }
  · rw [hacc]
    obtain ⟨b, hb, rfl⟩ := List.mem_map.mp hid
    rcases hz.new b hb with hb | ⟨-, hb, -⟩
    · rw [hbal] at hb
      obtain ⟨a, ha, hid⟩ := List.mem_map.mp ((hr.accounts _).mp (List.mem_map_of_mem hb))
      exact hid ▸ List.mem_map_of_mem (hext.keep a ha)
    · obtain ⟨a, ha, hid⟩ := List.mem_map.mp ((List.mem_insertionSort _).mp hb)
      exact hid ▸ List.mem_map_of_mem (List.mem_of_mem_filter ha)
  · rw [hacc] at hid
    obtain ⟨a, ha, rfl⟩ := List.mem_map.mp hid
    rcases hrow a ha with ha | ha
    · obtain ⟨b, hb, hid⟩ := hr.row ha
      exact hid ▸ List.mem_map_of_mem (hz.keep b (hbal ▸ hb))
    · exact hz.cover _ ((List.mem_insertionSort _).mpr (List.mem_map_of_mem ha))
  · rw [hz.frame]
    exact ⟨hext.frame, hext.seq, hext.keep, fun a ha => (hext.new a ha).imp_right fun hk =>
      ⟨hkeys _ hk.1, hk.2⟩⟩
  · rw [hacc]
    obtain ⟨ha, hk⟩ := List.mem_filter.mp ha
    exact ⟨ha, hkeys _ (by simpa using hk)⟩
  · rw [hacc]
    exact hrow
  · exact fun b hb => hz.keep b (hbal ▸ hb)
  · exact fun b hb => (hz.new b hb).imp (fun hb => hbal ▸ hb) fun hb => ⟨hb.1, hbal ▸ hb.2.2⟩

/-! ## Posting -/

/-- The sum of an account's postings. -/
def posted (t : Tables) (accountID : Nat) : Decimal :=
  sumAt Posting.accountID Posting.amount t.postings accountID

structure Sound (t : Tables) : Prop where
  accounts : AccountsOk t
  rows : RowsOk t
  journalIDs : (t.journals.map JournalEntry.id).Nodup
  journals : ∀ j ∈ t.journals, j.id ≤ t.journalSeq
  keys : (t.journals.map JournalEntry.idempotencyKey).Nodup
  postings : ∀ p ∈ t.postings, p.id ≤ t.postingSeq ∧ p.journalID ∈ t.journals.map JournalEntry.id ∧
    ∃ a ∈ t.accounts, a.id = p.accountID ∧ a.asset = p.asset
  balanced : ∀ k, sumAt (fun p => (p.journalID, p.asset)) Posting.amount t.postings k = 0
  cached : ∀ b ∈ t.balances, b.balance = posted t b.accountID
  last : ∀ b ∈ t.balances, (∃ p ∈ t.postings, p.accountID = b.accountID ∧ p.id = b.lastPostingID) ∧
    ∀ p ∈ t.postings, p.accountID = b.accountID → p.id ≤ b.lastPostingID
  nonneg : ∀ a ∈ t.accounts, allowsNegativeBalance a.accountType = false → 0 ≤ posted t a.id

theorem empty_sound : Sound empty where
  accounts := ⟨.nil, .nil, by simp [empty], by simp [empty]⟩
  rows := ⟨.nil, by simp [empty]⟩
  journalIDs := .nil
  journals := by simp [empty]
  keys := .nil
  postings := by simp [empty]
  balanced := by simp [empty]
  cached := by simp [empty]
  last := by simp [empty]
  nonneg := by simp [empty]

/-- The row of an input: its account has the input's key. -/
def RowOf (journalID : Nat) (rows : List Account) (i : PostingInput) (p : Posting) : Prop :=
  p.journalID = journalID ∧ p.asset = i.asset ∧ p.amount = i.amount ∧
    ∃ a ∈ rows, a.key = i.key ∧ p.accountID = a.id

variable {journalID : Nat} {rows : List Account} {inputs : List PostingInput} {ps : List Posting}
  {p : Posting}

theorem postingRow_rowOf {i : PostingInput} (h : postingRow journalID rows i = .ok p) :
    RowOf journalID rows i p := by
  unfold postingRow at h
  split at h
  · rename_i a ha
    cases h
    exact ⟨rfl, rfl, rfl, a, List.mem_of_find?_eq_some ha, by simpa using List.find?_some ha, rfl⟩
  · cases h

/-- Numbering changes the ids only. -/
theorem rowOf_numbered (seq : Nat) (h : List.Forall₂ (RowOf journalID rows) inputs ps) :
    List.Forall₂ (RowOf journalID rows) inputs (numbered seq ps) := by
  induction h generalizing seq with
  | nil => exact .nil
  | cons hp _ ih => exact .cons hp (ih _)

theorem mem_numbered {seq : Nat} (h : p ∈ numbered seq ps) :
    seq < p.id ∧ p.id ≤ seq + (numbered seq ps).length := by
  induction ps generalizing seq with
  | nil => cases h
  | cons q ps ih =>
    simp only [numbered, List.mem_cons, List.length_cons] at h ⊢
    rcases h with rfl | h
    · simp
    · have := ih h
      omega

theorem map_numbered {β : Type} (f : Posting → β) (seq : Nat)
    (hf : ∀ p n, f { p with id := n } = f p) : (numbered seq ps).map f = ps.map f := by
  induction ps generalizing seq with
  | nil => rfl
  | cons p ps ih => rw [numbered, List.map_cons, List.map_cons, hf, ih]

theorem sumAt_numbered {κ : Type} [DecidableEq κ] (tag : Posting → κ) (seq : Nat) (k : κ)
    (htag : ∀ p n, tag { p with id := n } = tag p) :
    sumAt tag Posting.amount (numbered seq ps) k = sumAt tag Posting.amount ps k := by
  induction ps generalizing seq with
  | nil => rfl
  | cons p ps ih => rw [numbered, sumAt_cons, sumAt_cons, htag, ih]

/-- The loop finds the greatest id of each account. -/
theorem lastPostingByAccount_spec (ps : List Posting) (id : Nat) :
    (∀ p ∈ ps, p.accountID = id → p.id ≤ lastPostingByAccount ps id) ∧
      (lastPostingByAccount ps id = 0 ∨ ∃ p ∈ ps, p.accountID = id ∧
        p.id = lastPostingByAccount ps id) := by
  unfold lastPostingByAccount
  induction ps using List.reverseRecOn with
  | nil => simp
  | append_singleton ps q ih =>
    rw [List.foldl_append, List.foldl_cons, List.foldl_nil]
    generalize ps.foldl (fun m p => if m p.accountID < p.id then
      Function.update m p.accountID p.id else m) (fun _ => 0) = m at ih
    obtain ⟨hmax, hex⟩ := ih
    have hex' : m id = 0 ∨ ∃ p ∈ ps ++ [q], p.accountID = id ∧ p.id = m id :=
      hex.imp_right fun ⟨p, hp, h⟩ => ⟨p, List.mem_append_left _ hp, h⟩
    by_cases hlt : m q.accountID < q.id
    · rw [if_pos hlt]
      by_cases hid : id = q.accountID
      · subst hid
        rw [Function.update_self]
        refine ⟨Rows.forall_mem_concat (fun p hp he => ?_) fun _ => le_refl _,
          .inr ⟨q, by simp, rfl, rfl⟩⟩
        exact (hmax p hp he).trans hlt.le
      · rw [Function.update_of_ne hid]
        exact ⟨Rows.forall_mem_concat hmax fun he => absurd he.symm hid, hex'⟩
    · rw [if_neg hlt]
      exact ⟨Rows.forall_mem_concat hmax fun he => he ▸ not_lt.mp hlt, hex'⟩

theorem apply_deltas (ids : List Nat) (delta : Nat → Decimal) (last : Nat → Nat)
    (b : AccountBalance) : b.apply (ids.map fun id => ⟨id, delta id, last id⟩) =
      if b.accountID ∈ ids then
        ⟨b.accountID, b.balance + delta b.accountID, max b.lastPostingID (last b.accountID)⟩
      else b := by
  unfold AccountBalance.apply
  induction ids with
  | nil => simp
  | cons id ids ih =>
    rw [List.map_cons, List.find?_cons]
    by_cases h : id = b.accountID
    · simp [h]
    · simp only [h, decide_false, List.mem_cons, Ne.symm h, false_or]
      exact ih

/-- The steps of a successful `post`: the accounts, the posting rows, and the balances updated under
the check. -/
structure PostRun (t t₁ t' : Tables) (journalID : Nat) (inputs : List PostingInput)
    (rows : List Account) (ps : List Posting) : Prop where
  call : ensureAccounts t (inputs.map PostingInput.spec) = .ok (t₁, rows)
  ensured : Ensured t t₁ (inputs.map PostingInput.spec) rows
  rowsOf : List.Forall₂ (RowOf journalID rows) inputs ps
  result : t' = { t₁ with
    postings := t.postings ++ numbered t.postingSeq ps
    postingSeq := t.postingSeq + (numbered t.postingSeq ps).length
    balances := t₁.balances.map fun b =>
      if b.accountID ∈ ps.map Posting.accountID then
        ⟨b.accountID, b.balance + sumAt Posting.accountID Posting.amount ps b.accountID,
          max b.lastPostingID (lastPostingByAccount (numbered t.postingSeq ps) b.accountID)⟩
      else b }
  checked : ∀ b ∈ t₁.balances, b.accountID ∈ ps.map Posting.accountID →
    b.balance + sumAt Posting.accountID Posting.amount ps b.accountID < 0 →
    (rows.find? (·.id = b.accountID)).any Account.allowsNegative = true

theorem post_run (ha : AccountsOk t) (hr : RowsOk t) (h : post t journalID inputs = .ok t') :
    ∃ t₁ rows ps, PostRun t t₁ t' journalID inputs rows ps := by
  unfold post at h
  obtain ⟨⟨t₁, rows⟩, he, h⟩ := bind_eq_ok.mp h
  obtain ⟨ps, hps, h⟩ := bind_eq_ok.mp h
  obtain ⟨bs, hbs, h⟩ := bind_eq_ok.mp h
  obtain ⟨_, hneg, h⟩ := bind_eq_ok.mp h
  obtain ⟨⟨t₂, qs⟩, hqs, h⟩ := bind_eq_ok.mp h
  have hens := ensureAccounts_spec ha hr he
  have hmem : ∀ id, id ∈ ((ps.map Posting.accountID).dedup).insertionSort (· ≤ ·) ↔
      id ∈ ps.map Posting.accountID :=
    fun id => (List.mem_insertionSort _).trans List.mem_dedup
  -- the rows are numbered after the postings there are
  simp only [createPostings, guard_eq_ok] at hqs
  obtain ⟨-, -, -, -, hqs⟩ := hqs
  cases hqs
  unfold applyBalanceDeltas at h
  obtain ⟨-, h⟩ := guard_eq_ok.mp h
  cases h
  unfold lockBalances at hbs
  obtain ⟨-, hbs⟩ := guard_eq_ok.mp hbs
  cases hbs
  refine ⟨t₁, rows, ps, he, hens, (mapM_eq_ok.mp hps).imp fun i p => postingRow_rowOf, ?_,
    fun b hb hid hlt => ?_⟩
  · simp only [apply_deltas, hmem, tally_apply, hens.ext.frame.2.1, hens.ext.frame.2.2.2]
  · have hcheck := forM_eq_ok.mp hneg b
      ((List.mem_insertionSort _).mpr (List.mem_filter.mpr ⟨hb, by simpa [hmem] using hid⟩))
    unfold checkNegative at hcheck
    obtain ⟨hn, -⟩ := guard_eq_ok.mp hcheck
    rw [tally_apply] at hn
    cases hany : (rows.find? (·.id = b.accountID)).any Account.allowsNegative with
    | true => rfl
    | false => exact absurd ⟨hlt, hany⟩ hn

section PostRun

variable {t₁ : Tables} {b : AccountBalance} {a : Account}

/-- An account that is not there has no postings. -/
theorem Sound.posted_of_absent (h : Sound t) {id : Nat} (hid : id ∉ t.accounts.map Account.id) :
    posted t id = 0 := by
  apply sumAt_eq_zero
  intro hmem
  obtain ⟨p, hp, rfl⟩ := List.mem_map.mp hmem
  obtain ⟨-, -, a, ha, hap, -⟩ := h.postings p hp
  exact hid (hap ▸ List.mem_map_of_mem ha)

/-- Under the account's id are the inputs under its key. -/
theorem sumAt_rowsOf {specs : List AccountSpec} (h : Ensured t t₁ specs rows)
    (hr : List.Forall₂ (RowOf journalID rows) inputs ps) (ha : a ∈ t₁.accounts) :
    sumAt Posting.accountID Posting.amount ps a.id =
      sumAt PostingInput.key PostingInput.amount inputs a.key := by
  refine (sumAt_congr (hr.imp fun i p hip => ?_)).symm
  obtain ⟨-, -, hamount, b, hb, hbk, hpb⟩ := hip
  have hb' := (h.returned b hb).1
  refine ⟨⟨fun hk => ?_, fun hk => ?_⟩, hamount.symm⟩
  · rw [hpb, List.inj_on_of_nodup_map h.accounts.keys hb' ha (hbk.trans hk)]
  · rw [← hbk, List.inj_on_of_nodup_map h.accounts.ids hb' ha (hpb.symm.trans hk)]

variable (r : PostRun t t₁ t' journalID inputs rows ps)

include r

theorem PostRun.accounts_eq : t'.accounts = t₁.accounts := by
  rw [r.result]

theorem PostRun.journals_eq : t'.journals = t.journals := by
  rw [r.result]
  exact r.ensured.ext.frame.1

theorem PostRun.seq_eq : t'.journalSeq = t.journalSeq := by
  rw [r.result]
  exact r.ensured.ext.frame.2.2.1

theorem PostRun.postings_eq :
    t'.postings = t.postings ++ numbered t.postingSeq ps := by
  rw [r.result]

theorem PostRun.posted_eq (id : Nat) :
    posted t' id = posted t id + sumAt Posting.accountID Posting.amount ps id := by
  rw [posted, r.postings_eq, sumAt_append, sumAt_numbered _ _ _ fun _ _ => rfl]
  rfl

/-- Every posting of the run has its account among the rows and its input among the inputs. -/
theorem PostRun.rowOf_mem {p : Posting}
    (hp : p ∈ numbered t.postingSeq ps) : ∃ i ∈ inputs, RowOf journalID rows i p :=
  forall₂_exists_left (rowOf_numbered _ r.rowsOf) hp

/-- The account of an input is one of those that get a posting. -/
theorem PostRun.mem_of_key (ha : a ∈ t₁.accounts)
    (hk : a.key ∈ inputs.map PostingInput.key) : a.id ∈ ps.map Posting.accountID := by
  obtain ⟨i, hi, hik⟩ := List.mem_map.mp hk
  obtain ⟨p, hp, -, -, -, b, hb, hbk, hpb⟩ := forall₂_exists_right r.rowsOf hi
  have hab : a = b := List.inj_on_of_nodup_map r.ensured.accounts.keys ha
    (r.ensured.returned b hb).1 (hik.symm.trans hbk.symm)
  rw [hab, ← hpb]
  exact List.mem_map_of_mem hp

theorem PostRun.sumAt_key (ha : a ∈ t₁.accounts) :
    sumAt Posting.accountID Posting.amount ps a.id =
      sumAt PostingInput.key PostingInput.amount inputs a.key :=
  sumAt_rowsOf r.ensured r.rowsOf ha

/-- Provisioning adds rows of accounts that have no posting yet. -/
theorem PostRun.cached_before (h : Sound t)
    (hb : b ∈ t₁.balances) : b.balance = posted t b.accountID := by
  rcases r.ensured.new b hb with hb | ⟨hzero, hid⟩
  · exact h.cached b hb
  · rw [h.posted_of_absent fun hmem => hid ((h.rows.accounts _).mpr hmem), hzero]

/-- A balance row without a posting in this run was there before. -/
theorem PostRun.old_row (h : Sound t)
    (hb : b ∈ t₁.balances) (hid : b.accountID ∉ ps.map Posting.accountID) : b ∈ t.balances := by
  rcases r.ensured.new b hb with hb | ⟨-, hnew⟩
  · exact hb
  obtain ⟨a, ha, hab⟩ := List.mem_map.mp ((r.ensured.rowsOk.accounts _).mp (List.mem_map_of_mem hb))
  rcases r.ensured.ext.new a ha with hold | ⟨hk, -⟩
  · exact absurd ((h.rows.accounts _).mpr (hab ▸ List.mem_map_of_mem hold)) hnew
  · rw [List.map_map] at hk
    exact absurd (hab ▸ r.mem_of_key ha hk) hid

theorem PostRun.last_before (h : Sound t)
    (hb : b ∈ t₁.balances) :
    b.lastPostingID ≤ t.postingSeq ∧ ∀ p ∈ t.postings, p.accountID = b.accountID →
    p.id ≤ t.postingSeq := by
  refine ⟨?_, fun p hp _ => (h.postings p hp).1⟩
  rcases r.ensured.new b hb with hb | ⟨hzero, -⟩
  · obtain ⟨⟨p, hp, -, hid⟩, -⟩ := h.last b hb
    exact hid ▸ (h.postings p hp).1
  · rw [hzero]
    exact Nat.zero_le _

theorem PostRun.last_after (h : Sound t)
    (hb : b ∈ t'.balances) :
    (∃ p ∈ t'.postings, p.accountID = b.accountID ∧ p.id = b.lastPostingID) ∧
      ∀ p ∈ t'.postings, p.accountID = b.accountID → p.id ≤ b.lastPostingID := by
  rw [r.postings_eq]
  rw [r.result] at hb
  obtain ⟨c, hc, rfl⟩ := List.mem_map.mp hb
  obtain ⟨hle, hold⟩ := r.last_before h hc
  have hids : (numbered t.postingSeq ps).map Posting.accountID = _ :=
    map_numbered _ _ fun _ _ => rfl
  by_cases hid : c.accountID ∈ ps.map Posting.accountID
  · -- a new posting's id is greater than every old one
    rw [if_pos hid]
    obtain ⟨hmax, hex⟩ := lastPostingByAccount_spec (numbered t.postingSeq ps) c.accountID
    obtain ⟨p, hp, hpc⟩ := List.mem_map.mp (hids.symm ▸ hid)
    have hnew := (mem_numbered hp).1
    have hpmax := hmax p hp hpc
    obtain ⟨q, hq, hqc, hqid⟩ := hex.resolve_left (by omega)
    have hlast : max c.lastPostingID (lastPostingByAccount (numbered t.postingSeq ps) c.accountID) =
        q.id := by
      have := (mem_numbered hq).1
      omega
    simp only [hlast]
    refine ⟨⟨q, List.mem_append_right _ hq, hqc, rfl⟩, fun x hx hxc => ?_⟩
    rcases List.mem_append.mp hx with hx | hx
    · have := hold x hx hxc
      have := (mem_numbered hq).1
      omega
    · exact hqid ▸ hmax x hx hxc
  · rw [if_neg hid]
    obtain ⟨⟨p, hp, hpc, hpid⟩, hmax⟩ := h.last c (r.old_row h hc hid)
    refine ⟨⟨p, List.mem_append_left _ hp, hpc, hpid⟩, fun x hx hxc => ?_⟩
    rcases List.mem_append.mp hx with hx | hx
    · exact hmax x hx hxc
    · exact absurd (hxc ▸ hids ▸ List.mem_map_of_mem hx) hid

theorem PostRun.balanced_after (h : Sound t)
    (hin : ∀ asset, sumAt PostingInput.asset PostingInput.amount inputs asset = 0)
    (k : Nat × String) :
    sumAt (fun p => (p.journalID, p.asset)) Posting.amount t'.postings k = 0 := by
  rw [r.postings_eq, sumAt_append, h.balanced, zero_add, sumAt_numbered _ _ _ fun _ _ => rfl]
  by_cases hj : k.1 = journalID
  · rw [← hin k.2]
    refine (sumAt_congr (r.rowsOf.imp fun i p hip => ?_)).symm
    obtain ⟨hpj, hasset, hamount, -⟩ := hip
    exact ⟨by simp [Prod.ext_iff, hpj, hasset, hj], hamount.symm⟩
  · apply sumAt_eq_zero
    intro hmem
    obtain ⟨p, hp, he⟩ := List.mem_map.mp hmem
    obtain ⟨i, -, hpj, -⟩ := forall₂_exists_left r.rowsOf hp
    exact hj (by rw [← he, hpj])

theorem PostRun.nonneg_after (h : Sound t)
    (ha : a ∈ t₁.accounts) (hneg : allowsNegativeBalance a.accountType = false) :
    0 ≤ posted t' a.id := by
  rw [r.posted_eq]
  by_cases hid : a.id ∈ ps.map Posting.accountID
  · obtain ⟨b, hb, hab⟩ := r.ensured.rowsOk.row ha
    rw [← hab] at hid ⊢
    rw [← r.cached_before h hb]
    by_contra hlt
    obtain ⟨c, hc, hflag⟩ := (Option.any_eq_true _ _).mp (r.checked b hb hid (not_le.mp hlt))
    have hca : c = a := by
      refine List.inj_on_of_nodup_map r.ensured.accounts.ids
        (r.ensured.returned c (List.mem_of_find?_eq_some hc)).1 ha ?_
      exact (by simpa using List.find?_some hc : c.id = b.accountID).trans hab
    rw [hca, r.ensured.accounts.flags a ha, hneg] at hflag
    cases hflag
  · rw [sumAt_eq_zero hid, add_zero]
    by_cases hold : a.id ∈ t.accounts.map Account.id
    · obtain ⟨c, hc, hca⟩ := List.mem_map.mp hold
      have := List.inj_on_of_nodup_map r.ensured.accounts.ids (r.ensured.ext.keep c hc) ha hca
      exact this ▸ h.nonneg c hc (this ▸ hneg)
    · rw [h.posted_of_absent hold]

/-- The accounts are those that were ensured, and each has its row. -/
theorem PostRun.tables_after : AccountsOk t' ∧ RowsOk t' := by
  have hacc := r.ensured.accounts
  have hids : t'.balances.map AccountBalance.accountID =
      t₁.balances.map AccountBalance.accountID := by
    rw [r.result, List.map_map]
    apply List.map_congr_left
    intro b _
    by_cases hid : b.accountID ∈ ps.map Posting.accountID <;>
      simp only [Function.comp_apply, hid, if_true, if_false]
  refine ⟨?_, hids ▸ r.ensured.rowsOk.ids, ?_⟩
  · rw [r.result]
    exact { hacc with }
  · rw [hids, r.accounts_eq]
    exact r.ensured.rowsOk.accounts

theorem PostRun.sound (h : Sound t)
    (hj : journalID ∈ t.journals.map JournalEntry.id)
    (hin : ∀ asset, sumAt PostingInput.asset PostingInput.amount inputs asset = 0) : Sound t' := by
  have hjournals := r.journals_eq
  refine ⟨r.tables_after.1, r.tables_after.2, hjournals ▸ h.journalIDs,
    hjournals ▸ r.seq_eq ▸ h.journals,
    hjournals ▸ h.keys, ?_, r.balanced_after h hin, ?_, fun b hb => r.last_after h hb, ?_⟩
  · intro p hp
    rw [r.postings_eq] at hp
    rw [hjournals, r.accounts_eq]
    have hps : t'.postingSeq = t.postingSeq + (numbered t.postingSeq ps).length := by rw [r.result]
    rw [hps]
    rcases List.mem_append.mp hp with hp | hp
    · obtain ⟨hid, hpj, a, ha, hap⟩ := h.postings p hp
      exact ⟨by omega, hpj, a, r.ensured.ext.keep a ha, hap⟩
    · obtain ⟨i, -, hpj, hasset, -, a, ha, hak, hpa⟩ := r.rowOf_mem hp
      refine ⟨(mem_numbered hp).2, hpj ▸ hj, a, (r.ensured.returned a ha).1, hpa.symm, ?_⟩
      rw [hasset]
      exact congrArg AccountKey.asset hak
  · intro b hb
    rw [r.result] at hb
    obtain ⟨c, hc, rfl⟩ := List.mem_map.mp hb
    have hcached := r.cached_before h hc
    by_cases hid : c.accountID ∈ ps.map Posting.accountID
    · simp only [if_pos hid, r.posted_eq, hcached]
    · rw [if_neg hid, r.posted_eq, hcached, sumAt_eq_zero hid, add_zero]
  · intro a ha
    exact r.nonneg_after h (r.accounts_eq ▸ ha)

end PostRun

/-! ## Balances by key -/

variable {a : Account} {b : AccountBalance}

/-- Accounts as `EnsureAccounts` keeps them, each with its balance row. -/
structure Provisioned (t : Tables) : Prop where
  accounts : AccountsOk t
  rows : RowsOk t

theorem Sound.provisioned (h : Sound t) : Provisioned t := ⟨h.accounts, h.rows⟩

theorem Provisioned.balanceOf_row (h : Provisioned t) (ha : a ∈ t.accounts)
    (hb : b ∈ t.balances) (hid : b.accountID = a.id) : balanceOf t a.key = b.balance := by
  have hfind := Rows.find?_eq_some h.accounts.keys ha
  have hrow := Rows.find?_eq_some h.rows.ids hb
  rw [hid] at hrow
  simp [balanceOf, hfind, hrow]

theorem balanceOf_of_mem (h : Sound t) (ha : a ∈ t.accounts) :
    balanceOf t a.key = posted t a.id := by
  obtain ⟨b, hb, hid⟩ := h.rows.row ha
  rw [h.provisioned.balanceOf_row ha hb hid, h.cached b hb, hid]

theorem balanceOf_of_absent {k : AccountKey} (hk : k ∉ t.accounts.map Account.key) :
    balanceOf t k = 0 := by
  unfold balanceOf
  rw [Rows.find?_eq_none.mpr hk]

theorem Ensured.provisioned (h : Ensured t t' specs rows) : Provisioned t' := ⟨h.accounts, h.rowsOk⟩

/-- A new account's key was not there. -/
theorem Ensured.absent (h : Ensured t t' specs rows) (ht : Provisioned t) (ha : a ∈ t'.accounts)
    (hnew : t.accountSeq < a.id) : a.key ∉ t.accounts.map Account.key := by
  intro hmem
  obtain ⟨c, hc, hck⟩ := List.mem_map.mp hmem
  have hca := List.inj_on_of_nodup_map h.accounts.keys (h.ext.keep c hc) ha hck
  have := ht.accounts.bounded c hc
  rw [hca] at this
  omega

/-- Provisioning is not seen in the balances. -/
theorem Ensured.balanceOf_eq (h : Ensured t t' specs rows) (ht : Provisioned t) (k : AccountKey) :
    balanceOf t' k = balanceOf t k := by
  by_cases hk : k ∈ t'.accounts.map Account.key
  · obtain ⟨a, ha, rfl⟩ := List.mem_map.mp hk
    obtain ⟨b, hb, hid⟩ := h.rowsOk.row ha
    rw [h.provisioned.balanceOf_row ha hb hid]
    rcases h.ext.new a ha with hold | ⟨-, hnew⟩
    · obtain ⟨c, hc, hca⟩ := ht.rows.row hold
      rw [ht.balanceOf_row hold hc hca, List.inj_on_of_nodup_map h.rowsOk.ids hb (h.keep c hc)
        (hid.trans hca.symm)]
    · rw [balanceOf_of_absent (h.absent ht ha hnew)]
      rcases h.new b hb with hb | ⟨hzero, -⟩
      · obtain ⟨c, hc, hca⟩ := List.mem_map.mp ((ht.rows.accounts _).mp (List.mem_map_of_mem hb))
        have := ht.accounts.bounded c hc
        omega
      · rw [hzero]
  · have hold : k ∉ t.accounts.map Account.key := fun hmem => by
      obtain ⟨c, hc, rfl⟩ := List.mem_map.mp hmem
      exact hk (List.mem_map_of_mem (h.ext.keep c hc))
    rw [balanceOf_of_absent hk, balanceOf_of_absent hold]

section PostRun

variable {t₁ : Tables} (r : PostRun t t₁ t' journalID inputs rows ps)

include r

theorem PostRun.provisioned : Provisioned t' :=
  ⟨r.tables_after.1, r.tables_after.2⟩

/-- The key of an input has an account after provisioning. -/
theorem PostRun.account_of_key {i : PostingInput} (hi : i ∈ inputs) :
    ∃ a ∈ t₁.accounts, a.key = i.key ∧ a.id ∈ ps.map Posting.accountID := by
  obtain ⟨p, hp, -, -, -, a, ha, hak, hpa⟩ := forall₂_exists_right r.rowsOf hi
  exact ⟨a, (r.ensured.returned a ha).1, hak, hpa ▸ List.mem_map_of_mem hp⟩

/-- Posting adds to the balance under each key what the inputs say for it. -/
theorem PostRun.balanceOf_add (ht : Provisioned t) (k : AccountKey) :
    balanceOf t' k = balanceOf t k + sumAt PostingInput.key PostingInput.amount inputs k := by
  rw [← r.ensured.balanceOf_eq ht]
  by_cases hk : k ∈ t₁.accounts.map Account.key
  · obtain ⟨a, ha, rfl⟩ := List.mem_map.mp hk
    obtain ⟨b, hb, hid⟩ := r.ensured.rowsOk.row ha
    have hb' : (if b.accountID ∈ ps.map Posting.accountID then
        ⟨b.accountID, b.balance + sumAt Posting.accountID Posting.amount ps b.accountID,
          max b.lastPostingID (lastPostingByAccount (numbered t.postingSeq ps) b.accountID)⟩
          else b) ∈ t'.balances := by
      rw [r.result]
      exact List.mem_map_of_mem hb
    rw [r.ensured.provisioned.balanceOf_row ha hb hid, ← r.sumAt_key ha, ← hid]
    by_cases hmem : b.accountID ∈ ps.map Posting.accountID
    · rw [if_pos hmem] at hb'
      rw [r.provisioned.balanceOf_row (r.accounts_eq ▸ ha) hb' hid]
    · rw [if_neg hmem] at hb'
      rw [r.provisioned.balanceOf_row (r.accounts_eq ▸ ha) hb' hid, sumAt_eq_zero hmem, add_zero]
  · have hnone : k ∉ inputs.map PostingInput.key := fun hmem => by
      obtain ⟨i, hi, rfl⟩ := List.mem_map.mp hmem
      obtain ⟨a, ha, hak, -⟩ := r.account_of_key hi
      exact hk (hak ▸ List.mem_map_of_mem ha)
    rw [balanceOf_of_absent hk, balanceOf_of_absent (r.accounts_eq ▸ hk),
      sumAt_eq_zero hnone, add_zero]

end PostRun

/-! ## Recording -/

variable {input : JournalInput} {entry : JournalEntry} {created : Bool}

theorem validateJournalInput_iff : validateJournalInput input = .ok () ↔
    (input.idempotencyKey ≠ "" ∧ input.eventType ≠ .missing ∧ input.referenceType ≠ .missing ∧
      2 ≤ input.postings.length ∧
      (input.eventType = .reversal) = (input.reversesJournalID.isSome = true)) ∧
    (∀ p ∈ input.postings, p.asset ≠ "" ∧ p.amount ≠ 0 ∧
      isSystemAccountType p.accountType = p.ownerUserID.isNone) ∧
    ∀ asset, sumAt PostingInput.asset PostingInput.amount input.postings asset = 0 := by
  have hline : ∀ p : PostingInput, validatePosting p = .ok () ↔
      p.asset ≠ "" ∧ p.amount ≠ 0 ∧ isSystemAccountType p.accountType = p.ownerUserID.isNone :=
    fun p => by
    unfold validatePosting
    simp only [guard_eq_ok, ne_eq, not_not, and_true]
  have hsum : (input.postings.map PostingInput.asset).find?
        (tally PostingInput.asset PostingInput.amount input.postings · ≠ 0) = none ↔
      ∀ asset, sumAt PostingInput.asset PostingInput.amount input.postings asset = 0 := by
    rw [List.find?_eq_none]
    constructor
    · intro h asset
      by_cases hmem : asset ∈ input.postings.map PostingInput.asset
      · simpa [tally_apply] using h asset hmem
      · exact sumAt_eq_zero hmem
    · intro h asset _
      simp [tally_apply, h]
  unfold validateJournalInput
  simp only [guard_eq_ok, bind_eq_ok, ne_eq, not_not, not_lt, and_assoc]
  refine and_congr_right fun _ => and_congr_right fun _ =>
    and_congr_right fun _ => and_congr_right fun _ =>
    and_congr_right fun _ => ?_
  rw [← hsum]
  constructor
  · rintro ⟨_, hlines, h⟩
    refine ⟨fun p hp => (hline p).mp (forM_eq_ok.mp hlines p hp), ?_⟩
    split at h
    · cases h
    · assumption
  · rintro ⟨hlines, h⟩
    refine ⟨(), forM_eq_ok.mpr fun p hp => (hline p).mpr (hlines p hp), ?_⟩
    split
    · rename_i hsome
      rw [h] at hsome
      cases hsome
    · rfl

/-- What `Record` asks of an input, whatever the tables are. -/
structure Recordable (input : JournalInput) : Prop where
  valid : validateJournalInput input = .ok ()
  eventType : input.eventType ≠ .unknown
  referenceType : input.referenceType ≠ .unknown
  key : input.idempotencyKey.length ≤ 160

/-- The row of an input that is new. -/
def journalRow (seq : Nat) (input : JournalInput) : JournalEntry :=
  ⟨seq + 1, input.eventType, input.idempotencyKey, input.referenceType, input.referenceID,
    input.reversesJournalID⟩

theorem recordable_of_record (h : record t input = .ok (t', entry, created)) :
    Recordable input := by
  obtain ⟨_, hvalid, h⟩ := bind_eq_ok.mp h
  obtain ⟨_, hu, -⟩ := bind_eq_ok.mp h
  obtain ⟨hevent, hu⟩ := guard_eq_ok.mp hu
  obtain ⟨href, hu⟩ := guard_eq_ok.mp hu
  obtain ⟨-, hu⟩ := guard_eq_ok.mp hu
  obtain ⟨hkey, -⟩ := guard_eq_ok.mp hu
  exact ⟨hvalid, fun he => hevent (.inr he), fun he => href (.inr he), not_lt.mp hkey⟩

/-- The tables with the row of a new journal, before it is posted. -/
def opened (t : Tables) (input : JournalInput) : Tables :=
  { t with
    journalSeq := t.journalSeq + 1, journals := t.journals ++ [journalRow t.journalSeq input] }

/-- A successful `Record` finds the same journal under its key, or posts a new one. -/
inductive Recording (t : Tables) (input : JournalInput) : Tables → JournalEntry → Bool → Prop
  | again {existing : JournalEntry}
      (found : t.journals.find? (·.idempotencyKey = input.idempotencyKey) = some existing)
      (same : assertSameJournal { t with journalSeq := t.journalSeq + 1 } existing input = .ok ()) :
      Recording t input { t with journalSeq := t.journalSeq + 1 } existing false
  | fresh {u : Tables} (key : input.idempotencyKey ∉ t.journals.map JournalEntry.idempotencyKey)
      (posted : post (opened t input) (t.journalSeq + 1) input.postings = .ok u) :
      Recording t input u (journalRow t.journalSeq input) true

theorem insertOrGet_eq (h : Recordable input) (t : Tables) :
    insertOrGet t ⟨0, input.eventType, input.idempotencyKey, input.referenceType, input.referenceID,
      input.reversesJournalID⟩ =
    match t.journals.find? (·.idempotencyKey = input.idempotencyKey) with
    | some existing => .ok ({ t with journalSeq := t.journalSeq + 1 }, existing, false)
    | none =>
      if input.reversesJournalID.isSome ∧
          input.reversesJournalID ∈ t.journals.map JournalEntry.reversesJournalID then
        .error (refused "idx_journal_entries_reverses")
      else if input.reversesJournalID.any (· ∉ (opened t input).journals.map JournalEntry.id) then
        .error (refused "journal_entries_reverses_fk")
      else .ok (opened t input, journalRow t.journalSeq input, true) := by
  obtain ⟨⟨-, hevent, href, -, hpair⟩, -⟩ := validateJournalInput_iff.mp h.valid
  unfold insertOrGet
  rw [if_neg (by simp [h.eventType, hevent]), if_neg (by simp [h.referenceType, href]),
    if_neg (not_not.mpr hpair), if_neg (not_lt.mpr h.key)]
  rfl

theorem recording_of_record (h : record t input = .ok (t', entry, created)) :
    Recording t input t' entry created := by
  have hrec := recordable_of_record h
  obtain ⟨_, -, h⟩ := bind_eq_ok.mp h
  obtain ⟨⟨v, row, new⟩, hv, h⟩ := bind_eq_ok.mp h
  rw [insertOrGet_eq hrec] at hv
  cases hf : t.journals.find? (·.idempotencyKey = input.idempotencyKey) with
  | some existing =>
    rw [hf] at hv
    cases hv
    obtain ⟨_, hsame, h⟩ := bind_eq_ok.mp h
    cases h
    exact .again hf hsame
  | none =>
    rw [hf] at hv
    obtain ⟨-, hv⟩ := guard_eq_ok.mp hv
    obtain ⟨-, hv⟩ := guard_eq_ok.mp hv
    cases hv
    obtain ⟨w, hw, h⟩ := bind_eq_ok.mp h
    cases h
    exact .fresh (Rows.find?_eq_none.mp hf) hw

/-- Under a key that is taken, only the comparison decides. -/
theorem record_taken (hrec : Recordable input) {existing : JournalEntry}
    (hf : t.journals.find? (·.idempotencyKey = input.idempotencyKey) = some existing)
    (hsame : assertSameJournal { t with journalSeq := t.journalSeq + 1 } existing input = .ok ()) :
    record t input = .ok ({ t with journalSeq := t.journalSeq + 1 }, existing, false) := by
  unfold record
  refine bind_eq_ok.mpr ⟨(), hrec.valid, bind_eq_ok.mpr
    ⟨({ t with journalSeq := t.journalSeq + 1 }, existing, false), ?_,
      bind_eq_ok.mpr ⟨(), hsame, rfl⟩⟩⟩
  rw [insertOrGet_eq hrec, hf]

/-- What `Record` does: an event already recorded changes nothing but a sequence; a new one gets its
journal and moves each balance by its postings. -/
structure Recorded (t t' : Tables) (input : JournalInput) (created : Bool) : Prop where
  sound : Sound t'
  created_iff : created = true ↔ input.idempotencyKey ∉ t.journals.map JournalEntry.idempotencyKey
  keys : t'.journals.map JournalEntry.idempotencyKey =
    t.journals.map JournalEntry.idempotencyKey ++ if created then [input.idempotencyKey] else []
  balance : ∀ k, balanceOf t' k =
    balanceOf t k +
      if created then sumAt PostingInput.key PostingInput.amount input.postings k else 0

theorem Sound.opened (h : Sound t)
    (hkey : input.idempotencyKey ∉ t.journals.map JournalEntry.idempotencyKey) :
    Sound (opened t input) := by
  refine { h with
    accounts := { h.accounts with }, rows := { h.rows with },
    journalIDs := ?_, journals := ?_, keys := ?_, postings := fun p hp => ?_ }
  · exact Rows.nodup_concat_succ h.journalIDs h.journals rfl
  · exact Rows.forall_mem_concat (fun j hj => (h.journals j hj).trans (Nat.le_succ _))
      (Nat.le_refl _)
  · exact Rows.nodup_concat h.keys hkey
  · exact (h.postings p hp).imp_right
      (.imp_left fun hj => List.map_append ▸ List.mem_append_left _ hj)

/-- Sequence values may be lost. -/
theorem Sound.lost (h : Sound t) (a j p : Nat) :
    Sound { t with
      accountSeq := t.accountSeq + a, journalSeq := t.journalSeq + j,
      postingSeq := t.postingSeq + p } :=
  { h with
    accounts := { h.accounts with
      bounded := fun x hx => (h.accounts.bounded x hx).trans (Nat.le_add_right _ _) }
    rows := { h.rows with }
    journals := fun x hx => (h.journals x hx).trans (Nat.le_add_right _ _)
    postings := fun x hx => (h.postings x hx).imp_left fun hp => hp.trans (Nat.le_add_right _ _) }

theorem record_spec (h : Sound t) (hr : record t input = .ok (t', entry, created)) :
    Recorded t t' input created := by
  have hvalid := (recordable_of_record hr).valid
  cases recording_of_record hr with
  | again found same =>
    have hkey := Rows.mem_of_find? found
    exact ⟨h.lost 0 1 0, by simp [hkey], by simp, fun k => by simp [balanceOf]⟩
  | fresh key posted =>
    have hopen := h.opened key
    obtain ⟨t₁, rows, ps, r⟩ := post_run hopen.accounts hopen.rows posted
    have hsound := r.sound hopen (by simp [opened, journalRow])
      (validateJournalInput_iff.mp hvalid).2.2
    refine ⟨hsound, by simp [key], ?_, fun k => ?_⟩
    · rw [r.journals_eq]
      simp [opened, journalRow]
    · exact r.balanceOf_add hopen.provisioned k

theorem reverse_spec (h : Sound t) (hr : reverse t journalID = .ok (t', entry)) : Sound t' := by
  unfold reverse at hr
  split at hr
  · cases hr
  obtain ⟨-, hr⟩ := guard_eq_ok.mp hr
  obtain ⟨postings, -, hr⟩ := bind_eq_ok.mp hr
  obtain ⟨⟨u, e, c⟩, hu, hr⟩ := bind_eq_ok.mp hr
  cases hr
  exact (record_spec h hu).sound

/-! ## Every run -/

theorem step_sound {call : Call} (h : Sound t) (hs : step call t = some t') : Sound t' := by
  cases call with
  | record input =>
    simp only [step] at hs
    split at hs
    · rename_i u r hr
      obtain ⟨e, c⟩ := r
      cases hs
      exact (record_spec h hr).sound
    · cases hs
      exact h
  | reverse journalID =>
    simp only [step] at hs
    split at hs
    · rename_i hr
      cases hs
      exact reverse_spec h hr
    · cases hs
      exact h
  | lost a j p =>
    cases hs
    exact h.lost a j p

theorem reach_sound (h : Lts.Reach step Lts.free empty t) : Sound t :=
  h.invariant _ empty_sound fun _ _ _ _ hi _ hs => step_sound hi hs

/-- A posting counts towards its account's asset. -/
theorem Sound.posted_eq_asset (h : Sound t) {a : Account} (ha : a ∈ t.accounts) :
    posted t a.id = sumAt Posting.accountID Posting.amount
      (t.postings.filter (·.asset = a.asset)) a.id := by
  unfold posted sumAt
  rw [List.filter_filter]
  congr 2
  apply List.filter_congr
  intro p hp
  obtain ⟨-, -, c, hc, hcp, hasset⟩ := h.postings p hp
  by_cases hid : p.accountID = a.id
  · have := List.inj_on_of_nodup_map h.accounts.ids hc ha (hcp.trans hid)
    simp [hid, ← hasset, this]
  · simp [hid]

/-- The balances of one asset add up to its postings. -/
theorem Sound.sum_balances (h : Sound t) (asset : String) :
    ((t.balances.filter fun b => t.accounts.any fun a => a.id = b.accountID ∧ a.asset = asset).map
      AccountBalance.balance).sum =
        ((t.postings.filter (·.asset = asset)).map Posting.amount).sum := by
  have hsub := (List.filter_sublist (p := fun b : AccountBalance =>
    t.accounts.any fun a => a.id = b.accountID ∧ a.asset = asset) (l := t.balances)).map
      AccountBalance.accountID
  rw [← sum_sumAt Posting.accountID (h.rows.ids.sublist hsub)]
  · congr 1
    apply List.map_congr_left
    intro b hmem
    obtain ⟨hb, hacc⟩ := List.mem_filter.mp hmem
    obtain ⟨a, ha, hab⟩ := List.any_eq_true.mp hacc
    obtain ⟨hid, rfl⟩ := of_decide_eq_true hab
    rw [h.cached b hb, ← hid, h.posted_eq_asset ha]
  · intro p hp
    obtain ⟨hp, hasset⟩ := List.mem_filter.mp hp
    obtain ⟨-, -, a, ha, hap, haa⟩ := h.postings p hp
    obtain ⟨b, hb, hba⟩ := h.rows.row ha
    rw [← hap, ← hba]
    refine List.mem_map_of_mem (List.mem_filter.mpr ⟨hb, List.any_eq_true.mpr ⟨a, ha, ?_⟩⟩)
    exact decide_eq_true ⟨hba.symm, haa.trans (of_decide_eq_true hasset)⟩

theorem Sound.sum_asset (h : Sound t) (asset : String) :
    ((t.postings.filter (·.asset = asset)).map Posting.amount).sum = 0 := by
  rw [← sum_sumAt Posting.journalID h.journalIDs fun p hp =>
    (h.postings p (List.mem_of_mem_filter hp)).2.1]
  apply List.sum_eq_zero
  intro x hx
  obtain ⟨j, -, rfl⟩ := List.mem_map.mp hx
  rw [← h.balanced (j.id, asset)]
  unfold sumAt
  rw [List.filter_filter]
  simp only [Prod.mk.injEq, Bool.decide_and]

/-- After any calls: every journal balances for each asset, the balances of each asset add up to
zero, each account has one balance row with the sum and the greatest id of its postings, which is
negative only where the type allows it, and no key has two journals. -/
theorem ledger_balances (h : Lts.Reach step Lts.free empty t) :
    (∀ j ∈ t.journals, ∀ asset,
      ((t.postings.filter fun p =>
        p.journalID = j.id ∧ p.asset = asset).map Posting.amount).sum = 0) ∧
    (∀ asset, ((t.balances.filter fun b => t.accounts.any fun a => a.id = b.accountID ∧
      a.asset = asset).map AccountBalance.balance).sum = 0) ∧
    (∀ a ∈ t.accounts, ∃ b, (∀ c, (c ∈ t.balances ∧ c.accountID = a.id) ↔ c = b) ∧
      b.balance = ((t.postings.filter fun p => p.accountID = a.id).map Posting.amount).sum ∧
      IsGreatest { n | ∃ p ∈ t.postings, p.accountID = a.id ∧ p.id = n } b.lastPostingID ∧
      (allowsNegativeBalance a.accountType = false → 0 ≤ b.balance)) ∧
    (t.journals.map JournalEntry.idempotencyKey).Nodup := by
  have hs := reach_sound h
  refine ⟨fun j _ asset => ?_, fun asset => (hs.sum_balances asset).trans (hs.sum_asset asset),
    fun a ha => ?_, hs.keys⟩
  · have := hs.balanced (j.id, asset)
    simpa only [sumAt, Prod.mk.injEq] using this
  · obtain ⟨b, hb, hba⟩ := hs.rows.row ha
    obtain ⟨⟨p, hp, hpa, hpid⟩, hmax⟩ := hs.last b hb
    refine ⟨b, fun c => ⟨fun hc => List.inj_on_of_nodup_map hs.rows.ids hc.1 hb
      (hc.2.trans hba.symm), fun hc => hc ▸ ⟨hb, hba⟩⟩,
      ?_, ⟨⟨p, hp, hpa.trans hba, hpid⟩, ?_⟩, fun hneg => ?_⟩
    · rw [hs.cached b hb, hba]
      rfl
    · rintro n ⟨q, hq, hqa, rfl⟩
      exact hmax q hq (hqa.trans hba.symm)
    · rw [hs.cached b hb, hba]
      exact hs.nonneg a ha hneg

/-- A deposit of 100, a hold of 30 and its reversal. -/
def depositHoldReverse : List Call :=
  [.record ⟨.deposit, "deposit-settle:1", .transfer, 1, none,
      [⟨.externalBank, none, "KRW", -100⟩, ⟨.userAvailable, some 1, "KRW", 100⟩]⟩,
    .record ⟨.orderHold, "order-hold:1", .order, 1, none,
      [⟨.userAvailable, some 1, "KRW", -30⟩, ⟨.userLocked, some 1, "KRW", 30⟩]⟩,
    .reverse 2]

theorem ledger_balances_depositHoldReverse :
    ∃ t, Lts.exec step depositHoldReverse empty = some t ∧ t.postings.length = 6 ∧
      ∀ asset, ((t.balances.filter fun b => t.accounts.any fun a => a.id = b.accountID ∧
        a.asset = asset).map AccountBalance.balance).sum = 0 := by
  have hrun : (Lts.exec step depositHoldReverse empty).map (fun t => t.postings.length) =
      some 6 := by
    decide +kernel
  obtain ⟨t, ht, hlen⟩ := Option.map_eq_some_iff.mp hrun
  exact ⟨t, ht, hlen, (ledger_balances (Lts.reach_of_exec _ ht)).2.1⟩

end GoExchange.Ledger
