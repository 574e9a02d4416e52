import GoExchange.Ledger
import GoExchange.Paging
import Mathlib.Algebra.Ring.Rat
import Mathlib.Data.Prod.Lex
import Mathlib.Data.String.Basic

/-!
# Checks of the ledger

`reconciliation_worker.go` with the queries of
`ledger_reconciliation_repository.go`: journals whose postings do not sum to
zero in some asset, and accounts whose cached balance is not the sum of their
postings. Both checks read pages. A page of the first is limited by journals
and holds a row for every asset that is off.
-/
namespace GoExchange.Service

open Ledger

/-! ## The queries -/

structure UnbalancedJournalRow where
  journalID : Nat
  asset : String
  sum : Decimal
  deriving DecidableEq, Repr

structure BalanceDriftRow where
  accountID : Nat
  cached : Decimal
  computed : Decimal
  deriving DecidableEq, Repr

def journalAsset (p : Posting) : Nat × String := (p.journalID, p.asset)

/-- `SUM(amount)` of a group. -/
def groupSum (postings : List Posting) (group : Nat × String) : Decimal :=
  ((postings.filter fun p => journalAsset p = group).map Posting.amount).sum

/-- `GROUP BY journal_id, asset HAVING SUM(amount) <> 0`. -/
def unbalancedGroups (postings : List Posting) : List (Nat × String) :=
  (postings.map journalAsset).dedup.filter fun group => groupSum postings group ≠ 0

/-- `ORDER BY journal_id, asset`. -/
def byJournalAsset (groups : List (Nat × String)) : List (Nat × String) :=
  groups.insertionSort fun g g' => toLex g ≤ toLex g'

def checkUnbalancedJournals (t : Tables) (afterJournalID limit : Nat) : List UnbalancedJournalRow :=
  let bad :=
    (unbalancedGroups (t.postings.filter fun p => afterJournalID < p.journalID)).map Prod.fst
  let page := (bad.dedup.insertionSort (· ≤ ·)).take limit
  let joined := t.postings.filter fun p => p.journalID ∈ page
  (byJournalAsset (unbalancedGroups joined)).map fun g => ⟨g.1, g.2, groupSum joined g⟩

/-- The cached balance of an account next to the sum of its postings; both count as 0 if there is
none. -/
def driftRow (t : Tables) (a : Account) : BalanceDriftRow where
  accountID := a.id
  cached := (t.balances.find? fun b => b.accountID = a.id).elim 0 AccountBalance.balance
  computed := ((t.postings.filter fun p => p.accountID = a.id).map Posting.amount).sum

def checkBalanceCacheDrift (t : Tables) (afterAccountID limit : Nat) : List BalanceDriftRow :=
  let rows := ((t.accounts.filter fun a => afterAccountID < a.id).map (driftRow t)).filter fun r =>
    r.cached ≠ r.computed
  (rows.insertionSort fun r r' => r.accountID ≤ r'.accountID).take limit

/-! ## The checks -/

structure ReconciliationViolation where
  checkName : String
  subjectKey : String
  detail : List UInt8
  deriving DecidableEq, Repr

def maxReconciliationDetailLength : Nat := 2048

def truncateReconciliationDetail (s : String) : List UInt8 :=
  (bytes s).take maxReconciliationDetailLength

/-- The number of runs of rows with one journal, where `last` is the journal of the row before. -/
def journalCount : Option Nat → List UnbalancedJournalRow → Nat
  | _, [] => 0
  | last, row :: rows =>
    (if last = some row.journalID then 0 else 1) + journalCount (some row.journalID) rows

section

-- `Decimal.String`
variable (string : Decimal → String)

def unbalancedJournalViolation (row : UnbalancedJournalRow) : ReconciliationViolation where
  checkName := "unbalanced_journal"
  subjectKey := s!"journal:{row.journalID}"
  detail := truncateReconciliationDetail
    s!"journal_id={row.journalID} asset={row.asset} sum={string row.sum}"

def balanceDriftViolation (row : BalanceDriftRow) : ReconciliationViolation where
  checkName := "balance_cache_drift"
  subjectKey := s!"account:{row.accountID}"
  detail := truncateReconciliationDetail
    s!"account_id={row.accountID} cached={string row.cached} computed={string row.computed}"

/-- What the check hands to `persist`; a query that fails ends it with nothing. -/
def runUnbalancedJournalCheck (check : Nat → Nat → Except String (List UnbalancedJournalRow))
    (pageSize fuel : Nat) : Option (Except String (List ReconciliationViolation)) :=
  (Paging.scan (journalCount none) UnbalancedJournalRow.journalID pageSize
    (fun after => check after pageSize) fuel 0
    []).map fun rows => rows.map (List.map (unbalancedJournalViolation string))

def runBalanceCacheDriftCheck (check : Nat → Nat → Except String (List BalanceDriftRow))
    (pageSize fuel : Nat) : Option (Except String (List ReconciliationViolation)) :=
  (Paging.scan List.length BalanceDriftRow.accountID pageSize (fun after => check after pageSize)
    fuel 0 []).map fun rows => rows.map (List.map (balanceDriftViolation string))

end

variable {t : Tables} {j : Nat} {a : String} {ps : List Posting} {g : Nat × String}
  {groups : List (Nat × String)}

/-! ## The groups of a page -/

theorem mem_unbalancedGroups : g ∈ unbalancedGroups ps ↔ groupSum ps g ≠ 0 := by
  unfold unbalancedGroups
  rw [List.mem_filter, List.mem_dedup, decide_eq_true_eq]
  constructor
  · exact fun h => h.2
  · intro h
    refine ⟨?_, h⟩
    -- a group without postings sums to zero
    by_contra hnone
    apply h
    have hempty : ps.filter (fun p => journalAsset p = g) = [] := by
      rw [List.filter_eq_nil_iff]
      intro p hp he
      exact hnone (List.mem_map.mpr ⟨p, hp, by simpa using he⟩)
    simp [groupSum, hempty]

/-- A filter that keeps a journal keeps its sums. -/
theorem groupSum_filter (keep : Nat → Bool) (hj : keep j = true) :
    groupSum (ps.filter fun p => keep p.journalID) (j, a) = groupSum ps (j, a) := by
  unfold groupSum
  rw [List.filter_filter]
  congr 2
  apply List.filter_congr
  intro p _
  by_cases hp : journalAsset p = (j, a)
  · have hjournal : p.journalID = j := congrArg Prod.fst hp
    simp [hp, hjournal, hj]
  · simp [hp]

theorem groupSum_filter_out (keep : Nat → Bool) (hj : keep j = false) :
    groupSum (ps.filter fun p => keep p.journalID) (j, a) = 0 := by
  have hempty :
      (ps.filter fun p => keep p.journalID).filter (fun p => journalAsset p = (j, a)) = [] := by
    rw [List.filter_eq_nil_iff]
    intro p hp he
    have hjournal : p.journalID = j :=
      congrArg Prod.fst (by simpa using he : journalAsset p = (j, a))
    rw [List.mem_filter, hjournal, hj] at hp
    exact absurd hp.2 (by simp)
  simp [groupSum, hempty]

theorem unbalancedGroups_nodup : (unbalancedGroups ps).Nodup := (List.nodup_dedup _).filter _

@[simp] theorem mem_byJournalAsset :
    g ∈ byJournalAsset groups ↔ g ∈ groups := List.mem_insertionSort _

theorem byJournalAsset_sorted (hn : groups.Nodup) :
    (byJournalAsset groups).Pairwise fun g g' => toLex g < toLex g' := by
  have htotal : Std.Total fun g g' : Nat × String => toLex g ≤ toLex g' :=
    ⟨fun g g' => le_total (toLex g) (toLex g')⟩
  have htrans : IsTrans (Nat × String) fun g g' => toLex g ≤ toLex g' :=
    ⟨fun _ _ _ h h' => h.trans h'⟩
  have hsorted := List.pairwise_insertionSort (fun g g' : Nat × String => toLex g ≤ toLex g') groups
  have hnodup : (byJournalAsset groups).Nodup := (List.perm_insertionSort _ groups).nodup_iff.mpr hn
  exact (hsorted.and hnodup).imp fun h => lt_of_le_of_ne h.1 fun he => h.2 (toLex.injective he)

/-! ## A page of journals -/

/-- The journals that are off in some asset. -/
def unbalancedJournals (t : Tables) : List Nat := ((unbalancedGroups t.postings).map Prod.fst).dedup

/-- The assets in which a journal is off. -/
def unbalancedAssets (t : Tables) (j : Nat) : List (Nat × String) :=
  byJournalAsset ((unbalancedGroups t.postings).filter fun g => g.1 = j)

def unbalancedRow (t : Tables) (g : Nat × String) : UnbalancedJournalRow :=
  ⟨g.1, g.2, groupSum t.postings g⟩

theorem mem_unbalancedJournals :
    j ∈ unbalancedJournals t ↔ ∃ a, groupSum t.postings (j, a) ≠ 0 := by
  simp [unbalancedJournals, mem_unbalancedGroups]

theorem unbalancedJournals_nodup (t : Tables) : ((unbalancedJournals t).map id).Nodup := by
  rw [List.map_id]
  exact List.nodup_dedup _

theorem mem_unbalancedAssets :
    g ∈ unbalancedAssets t j ↔ groupSum t.postings g ≠ 0 ∧ g.1 = j := by
  simp [unbalancedAssets, mem_unbalancedGroups]

/-- The journals of a page: the first ones that are off behind the cursor. -/
theorem page_eq (t : Tables) (cursor : Nat) :
    (((unbalancedGroups (t.postings.filter fun p => decide (cursor < p.journalID))).map
      Prod.fst).dedup).insertionSort (· ≤ ·) = Paging.after id (unbalancedJournals t) cursor := by
  symm
  apply Paging.eq_after
  · exact unbalancedJournals_nodup t
  · have hsorted := List.pairwise_insertionSort (· ≤ ·)
      ((unbalancedGroups (t.postings.filter fun p => decide (cursor < p.journalID))).map
        Prod.fst).dedup
    have hnodup := (List.perm_insertionSort (· ≤ ·)
      ((unbalancedGroups (t.postings.filter fun p => decide (cursor < p.journalID))).map
        Prod.fst).dedup).nodup_iff.mpr (List.nodup_dedup _)
    exact (hsorted.and hnodup).imp fun h => lt_of_le_of_ne h.1 h.2
  · intro j
    rw [List.mem_insertionSort, List.mem_dedup, mem_unbalancedJournals]
    simp only [List.mem_map, mem_unbalancedGroups, Prod.exists, exists_and_right,
      exists_eq_right, id]
    by_cases hj : cursor < j
    · simp only [hj, and_true]
      apply exists_congr
      intro a
      rw [groupSum_filter (fun j => decide (cursor < j)) (decide_eq_true hj)]
    · have hzero : ∀ a,
          groupSum (t.postings.filter fun p => decide (cursor < p.journalID)) (j, a) = 0 :=
        fun a => groupSum_filter_out (fun j => decide (cursor < j)) (decide_eq_false hj)
      simp [hj, hzero]

/-- The rows of some journals, sorted, are the rows of one journal after the other. -/
theorem byJournalAsset_joined {page : List Nat} (hpage : page.Pairwise (· < ·)) :
    byJournalAsset (unbalancedGroups (t.postings.filter fun p => decide (p.journalID ∈ page))) =
      page.flatMap (unbalancedAssets t) := by
  have hirrefl : Std.Irrefl fun g g' : Nat × String => toLex g < toLex g' := ⟨fun _ => lt_irrefl _⟩
  have hantisymm : Std.Antisymm fun g g' : Nat × String => toLex g < toLex g' :=
    ⟨fun _ _ h h' => absurd h' h.asymm⟩
  have hflat : (page.flatMap (unbalancedAssets t)).Pairwise fun g g' => toLex g < toLex g' := by
    rw [List.pairwise_flatMap]
    constructor
    · intro j _
      exact byJournalAsset_sorted (unbalancedGroups_nodup.filter _)
    · apply hpage.imp
      intro j j' hlt g hg g' hg'
      rw [Prod.Lex.toLex_lt_toLex, (mem_unbalancedAssets.mp hg).2, (mem_unbalancedAssets.mp hg').2]
      exact .inl hlt
  apply (byJournalAsset_sorted unbalancedGroups_nodup).eq_of_mem_iff hflat
  intro (j, a)
  rw [mem_byJournalAsset, mem_unbalancedGroups]
  simp only [List.mem_flatMap, mem_unbalancedAssets]
  by_cases hj : j ∈ page
  · rw [groupSum_filter (fun j => decide (j ∈ page)) (decide_eq_true hj)]
    simp [hj]
  · rw [groupSum_filter_out (fun j => decide (j ∈ page)) (decide_eq_false hj)]
    simp [hj]

theorem checkUnbalancedJournals_eq (t : Tables) (cursor limit : Nat) :
    checkUnbalancedJournals t cursor limit =
      ((Paging.after id (unbalancedJournals t) cursor).take limit).flatMap
        fun j => (unbalancedAssets t j).map (unbalancedRow t) := by
  have hsorted : ((Paging.after id (unbalancedJournals t) cursor).take limit).Pairwise (· < ·) :=
    (Paging.after_sorted (unbalancedJournals_nodup t)).sublist (List.take_sublist _ _)
  rw [← List.map_flatMap]
  unfold checkUnbalancedJournals
  simp only [page_eq]
  rw [byJournalAsset_joined hsorted]
  apply List.map_congr_left
  intro (j, a) hg
  obtain ⟨j', hpage, hg⟩ := List.mem_flatMap.mp hg
  have hj : j = j' := (mem_unbalancedAssets.mp hg).2
  rw [groupSum_filter
    (fun j => decide (j ∈ (Paging.after id (unbalancedJournals t) cursor).take limit))
    (decide_eq_true (hj ▸ hpage))]
  rfl

/-! ## The checks read every page -/

/-- Rows of one journal in front count as one more journal. -/
theorem journalCount_append {rows rest : List UnbalancedJournalRow} {last : Option Nat}
    (hne : rows ≠ []) (hrows : ∀ row ∈ rows, row.journalID = j) (hlast : last ≠ some j) :
    journalCount last (rows ++ rest) = 1 + journalCount (some j) rest := by
  have hsame : ∀ rows : List UnbalancedJournalRow, (∀ row ∈ rows, row.journalID = j) →
      journalCount (some j) (rows ++ rest) = journalCount (some j) rest := by
    intro rows hrows
    induction rows with
    | nil => rfl
    | cons row rows ih =>
      rw [List.cons_append, journalCount, hrows row (by simp), if_pos rfl, Nat.zero_add]
      exact ih fun row hrow => hrows row (by simp [hrow])
  cases rows with
  | nil => exact absurd rfl hne
  | cons row rows =>
    rw [List.cons_append, journalCount, hrows row (by simp), if_neg hlast,
      hsame rows fun row hrow => hrows row (by simp [hrow])]

/-- Over a page, `journalCount` is the number of journals. -/
theorem journalCount_page {rowsOf : Nat → List UnbalancedJournalRow} {ks : List Nat}
    (hks : ks.Pairwise (· < ·))
    (hne : ∀ k ∈ ks, rowsOf k ≠ []) (hrows : ∀ k ∈ ks, ∀ row ∈ rowsOf k, row.journalID = k)
    (last : Option Nat)
    (hlast : ∀ k ∈ ks, last ≠ some k) : journalCount last (ks.flatMap rowsOf) = ks.length := by
  induction ks generalizing last with
  | nil => rfl
  | cons k ks ih =>
    rw [List.pairwise_cons] at hks
    rw [List.flatMap_cons, journalCount_append (hne k (by simp)) (hrows k (by simp))
      (hlast k (by simp)),
      ih hks.2 (fun k hk => hne k (by simp [hk])) (fun k hk => hrows k (by simp [hk])),
      List.length_cons, Nat.add_comm]
    intro k' hk' he
    exact (hks.1 k' hk').ne (Option.some.inj he)

section

variable (string : Decimal → String) {limit fuel : Nat}

/-- The pairs of journal and asset whose postings do not sum to zero, in the order of the report. -/
def unbalancedPairs (t : Tables) : List (Nat × String) :=
  (Paging.after id (unbalancedJournals t) 0).flatMap (unbalancedAssets t)

theorem unbalancedPairs_nodup (t : Tables) : (unbalancedPairs t).Nodup := by
  have hsorted : (Paging.after id (unbalancedJournals t) 0).Pairwise (· < ·) :=
    Paging.after_sorted (unbalancedJournals_nodup t)
  rw [unbalancedPairs, ← byJournalAsset_joined hsorted]
  exact (List.perm_insertionSort _ _).nodup_iff.mpr unbalancedGroups_nodup

theorem mem_unbalancedPairs (hid : ∀ p ∈ t.postings, 0 < p.journalID) :
    (j, a) ∈ unbalancedPairs t ↔ groupSum t.postings (j, a) ≠ 0 := by
  simp only [unbalancedPairs, List.mem_flatMap, Paging.mem_after, mem_unbalancedJournals,
    mem_unbalancedAssets, id]
  constructor
  · intro ⟨_, _, h⟩
    exact h.1
  · intro h
    refine ⟨j, ⟨⟨a, h⟩, ?_⟩, h, rfl⟩
    -- some posting is in the group
    by_contra hzero
    apply h
    have hnone : groupSum (t.postings.filter fun p => decide (0 < p.journalID)) (j, a) = 0 :=
      groupSum_filter_out (fun j => decide (0 < j)) (decide_eq_false hzero)
    rwa [List.filter_eq_self.mpr (by simpa using hid)] at hnone

theorem runUnbalancedJournalCheck_eq (hlimit : 1 ≤ limit)
    (hfuel : (unbalancedJournals t).length < fuel) :
    runUnbalancedJournalCheck string
      (fun after limit => .ok (checkUnbalancedJournals t after limit)) limit fuel =
      some (.ok ((unbalancedPairs t).map fun g => unbalancedJournalViolation string
        (unbalancedRow t g))) := by
  have hne : ∀ k ∈ unbalancedJournals t, (unbalancedAssets t k).map (unbalancedRow t) ≠ [] := by
    intro k hk hnil
    obtain ⟨a, ha⟩ := mem_unbalancedJournals.mp hk
    have hmem : (k, a) ∈ unbalancedAssets t k := mem_unbalancedAssets.mpr ⟨ha, rfl⟩
    rw [List.map_eq_nil_iff.mp hnil] at hmem
    exact absurd hmem (by simp)
  have hrows : ∀ k ∈ unbalancedJournals t, ∀ row ∈ (unbalancedAssets t k).map (unbalancedRow t),
      row.journalID = k := by
    intro k _ row hrow
    obtain ⟨g, hg, rfl⟩ := List.mem_map.mp hrow
    exact (mem_unbalancedAssets.mp hg).2
  have hfetch : ∀ cursor, (.ok (checkUnbalancedJournals t cursor limit) : Except String _) =
      .ok (((Paging.after id (unbalancedJournals t) cursor).take limit).flatMap
        fun j => (unbalancedAssets t j).map (unbalancedRow t)) :=
    fun cursor => congrArg Except.ok (checkUnbalancedJournals_eq t cursor limit)
  have hscan := Paging.scan_groups (unbalancedJournals_nodup t) hne hrows
    (fun ks hks hmem => journalCount_page hks (fun k hk => hne k (hmem k hk))
      (fun k hk => hrows k (hmem k hk)) none
      (by simp)) hlimit hfetch fuel 0 [] (Paging.length_after_le.trans_lt hfuel)
  unfold runUnbalancedJournalCheck
  rw [hscan, List.nil_append, ← List.map_flatMap]
  simp only [Option.map_some, Except.map, List.map_map]
  rfl

/-- The accounts whose cached balance is not the sum of their postings. -/
def driftedAccounts (t : Tables) : List Account :=
  t.accounts.filter fun acc => (driftRow t acc).cached ≠ (driftRow t acc).computed

theorem checkBalanceCacheDrift_eq (t : Tables) (cursor limit : Nat) :
    checkBalanceCacheDrift t cursor limit =
      ((Paging.after Account.id (driftedAccounts t) cursor).take limit).map (driftRow t) := by
  have hrows : ((t.accounts.filter fun acc => decide (cursor < acc.id)).map (driftRow t)).filter
      (fun r => r.cached ≠ r.computed) =
      ((driftedAccounts t).filter fun acc => decide (cursor < acc.id)).map (driftRow t) := by
    rw [List.filter_map, driftedAccounts, List.filter_filter, List.filter_filter]
    congr 1
    apply List.filter_congr
    intro acc _
    rw [Function.comp_apply, Bool.and_comm]
  unfold checkBalanceCacheDrift
  simp only [hrows]
  rw [Paging.after, List.map_take, List.map_insertionSort _ fun r r' => r.accountID ≤ r'.accountID]
  intro acc _ acc' _
  rfl

theorem runBalanceCacheDriftCheck_eq (hn : (t.accounts.map Account.id).Nodup) (hlimit : 1 ≤ limit)
    (hfuel : (driftedAccounts t).length < fuel) :
    runBalanceCacheDriftCheck string (fun after limit => .ok (checkBalanceCacheDrift t after limit))
      limit fuel = some (.ok ((Paging.after Account.id (driftedAccounts t) 0).map
        fun acc => balanceDriftViolation string (driftRow t acc))) := by
  have hflat : ∀ accs : List Account, accs.flatMap (fun acc => [driftRow t acc]) =
      accs.map (driftRow t) :=
    fun accs => List.map_eq_flatMap.symm
  have hfetch : ∀ cursor, (.ok (checkBalanceCacheDrift t cursor limit) : Except String _) =
      .ok (((Paging.after Account.id (driftedAccounts t) cursor).take limit).flatMap fun acc =>
        [driftRow t acc]) := by
    intro cursor
    rw [checkBalanceCacheDrift_eq, hflat]
  have hids : ((driftedAccounts t).map Account.id).Nodup :=
    hn.sublist (List.filter_sublist.map Account.id)
  have hlast : ∀ acc ∈ driftedAccounts t, ∀ row ∈ [driftRow t acc], row.accountID = acc.id := by
    intro acc _ row hrow
    rw [List.mem_singleton.mp hrow, driftRow]
  have hcount : ∀ accs : List Account, (accs.flatMap fun acc => [driftRow t acc]).length =
      accs.length := by
    intro accs
    rw [hflat, List.length_map]
  have hscan := Paging.scan_groups hids (fun acc _ => List.cons_ne_nil (driftRow t acc) []) hlast
    (fun accs _ _ => hcount accs) hlimit hfetch fuel 0 [] (Paging.length_after_le.trans_lt hfuel)
  unfold runBalanceCacheDriftCheck
  rw [hscan, List.nil_append, hflat]
  simp only [Option.map_some, Except.map, List.map_map]
  rfl

/-- Over any postings and accounts and with pages of any size, both checks end after finitely many
pages. The one reports each pair of journal and asset whose postings do not sum to zero, the other
each account whose cached balance is not the sum of its postings, each exactly once and nothing
else. -/
theorem checks_report_exactly (hjournal : ∀ p ∈ t.postings, 0 < p.journalID)
    (haccount : ∀ acc ∈ t.accounts, 0 < acc.id)
    (hn : (t.accounts.map Account.id).Nodup) (hlimit : 1 ≤ limit) :
    (∃ pairs : List (Nat × String), pairs.Nodup ∧
      (∀ j a, (j, a) ∈ pairs ↔ groupSum t.postings (j, a) ≠ 0) ∧ ∃ pages, ∀ fuel ≥ pages,
        runUnbalancedJournalCheck string
          (fun after limit => .ok (checkUnbalancedJournals t after limit)) limit fuel =
          some (.ok (pairs.map fun g => unbalancedJournalViolation string
            ⟨g.1, g.2, groupSum t.postings g⟩))) ∧
    ∃ drifted : List Account, drifted.Nodup ∧
      (∀ acc, acc ∈ drifted ↔ acc ∈ t.accounts ∧
        (driftRow t acc).cached ≠ (driftRow t acc).computed) ∧
      ∃ pages, ∀ fuel ≥ pages,
        runBalanceCacheDriftCheck string
          (fun after limit => .ok (checkBalanceCacheDrift t after limit)) limit fuel =
          some (.ok (drifted.map fun acc => balanceDriftViolation string (driftRow t acc))) := by
  constructor
  · refine ⟨unbalancedPairs t, unbalancedPairs_nodup t, fun j a => mem_unbalancedPairs hjournal,
      (unbalancedJournals t).length + 1, ?_⟩
    intro fuel hfuel
    exact runUnbalancedJournalCheck_eq string hlimit hfuel
  · have hids : ((driftedAccounts t).map Account.id).Nodup :=
      hn.sublist (List.filter_sublist.map Account.id)
    refine ⟨Paging.after Account.id (driftedAccounts t) 0, ?_, ?_,
      (driftedAccounts t).length + 1, ?_⟩
    · exact (Paging.after_sorted hids).imp fun h he => absurd (congrArg Account.id he) h.ne
    · intro acc
      rw [Paging.mem_after, driftedAccounts, List.mem_filter, decide_eq_true_eq]
      constructor
      · exact fun h => h.1
      · exact fun h => ⟨h, haccount acc h.1⟩
    · intro fuel hfuel
      exact runBalanceCacheDriftCheck_eq string hn hlimit hfuel

/-- Journal 1 is off in two assets and journal 3 in one; journal 2 balances. -/
def offBooks : Tables where
  accounts := [⟨1, .userAvailable, some 1, "KRW", false⟩, ⟨2, .userAvailable, some 1, "BTC", false⟩]
  balances := [⟨1, 10, 4⟩]
  journals := []
  postings := [⟨1, 1, 1, "KRW", 5⟩, ⟨2, 1, 2, "BTC", -1⟩, ⟨3, 2, 1, "KRW", 2⟩, ⟨4, 2, 1, "KRW", -2⟩,
    ⟨5, 3, 1, "KRW", 5⟩]
  accountSeq := 2
  journalSeq := 3
  postingSeq := 5

theorem checks_report_offBooks :
    (∃ pairs : List (Nat × String), pairs.Nodup ∧
      (∀ j a, (j, a) ∈ pairs ↔ groupSum offBooks.postings (j, a) ≠ 0) ∧ ∃ pages, ∀ fuel ≥ pages,
        runUnbalancedJournalCheck toString
          (fun after limit => .ok (checkUnbalancedJournals offBooks after limit)) 1 fuel =
          some (.ok (pairs.map fun g => unbalancedJournalViolation toString
            ⟨g.1, g.2, groupSum offBooks.postings g⟩))) ∧
    ∃ drifted : List Account, drifted.Nodup ∧
      (∀ acc, acc ∈ drifted ↔ acc ∈ offBooks.accounts ∧
        (driftRow offBooks acc).cached ≠ (driftRow offBooks acc).computed) ∧
      ∃ pages, ∀ fuel ≥ pages,
        runBalanceCacheDriftCheck toString
          (fun after limit => .ok (checkBalanceCacheDrift offBooks after limit)) 1 fuel =
          some (.ok (drifted.map fun acc => balanceDriftViolation toString
            (driftRow offBooks acc))) :=
  checks_report_exactly toString (by decide) (by decide) (by decide) (by decide)

end

end GoExchange.Service
