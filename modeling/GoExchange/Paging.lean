import Mathlib.Data.List.Sort
import Mathlib.Data.List.Dedup

/-!
# Pages behind a cursor

Rows with distinct keys are read page by page in the order of their keys, each
page starting behind the last key of the page before. What lies behind a cursor
is one sorted list: a page takes a front off it, and the last key of the page
is the cursor behind which the rest lies.
-/
namespace Paging

variable {α : Type} {key : α → Nat} {rows rows' l xs ys : List α} {r : α} {cursor limit : Nat}

/-- The rows behind the cursor, in the order of their keys. -/
def after (key : α → Nat) (rows : List α) (cursor : Nat) : List α :=
  (rows.filter fun r => decide (cursor < key r)).insertionSort fun r r' => key r ≤ key r'

theorem mem_after : r ∈ after key rows cursor ↔ r ∈ rows ∧ cursor < key r := by
  simp [after, List.mem_insertionSort]

theorem length_after_le : (after key rows cursor).length ≤ rows.length := by
  unfold after
  rw [(List.perm_insertionSort _ _).length_eq]
  exact List.length_filter_le _ _

/-- In the order of the keys, no two of which are equal. -/
theorem after_sorted (hn : (rows.map key).Nodup) :
    (after key rows cursor).Pairwise fun r r' => key r < key r' := by
  have htotal : Std.Total fun r r' : α => key r ≤ key r' :=
    ⟨fun a b => Nat.le_total (key a) (key b)⟩
  have htrans : IsTrans α fun r r' => key r ≤ key r' := ⟨fun _ _ _ h h' => h.trans h'⟩
  have hsorted := List.pairwise_insertionSort (fun r r' => key r ≤ key r')
    (rows.filter fun r => decide (cursor < key r))
  have hnodup : ((after key rows cursor).map key).Nodup := by
    rw [after, ((List.perm_insertionSort _ _).map key).nodup_iff]
    exact hn.sublist (List.filter_sublist.map key)
  rw [List.Nodup, List.pairwise_map] at hnodup
  exact (hsorted.and hnodup).imp fun h => lt_of_le_of_ne h.1 h.2

/-- A sorted list with the rows behind the cursor is the list of them. -/
theorem eq_after (hn : (rows.map key).Nodup) (hl : l.Pairwise fun r r' => key r < key r')
    (hmem : ∀ r, r ∈ l ↔ r ∈ rows ∧ cursor < key r) : after key rows cursor = l := by
  have hirrefl : Std.Irrefl fun r r' : α => key r < key r' := ⟨fun _ => lt_irrefl _⟩
  have hantisymm : Std.Antisymm fun r r' : α => key r < key r' :=
    ⟨fun _ _ h h' => absurd h' h.asymm⟩
  apply (after_sorted hn).eq_of_mem_iff hl
  intro r
  rw [mem_after, hmem]

/-- Behind a row lie the rows that follow it. -/
theorem after_of_append (hn : (rows.map key).Nodup) (h : after key rows cursor = xs ++ r :: ys) :
    after key rows (key r) = ys := by
  have hsorted : (after key rows cursor).Pairwise fun r r' => key r < key r' := after_sorted hn
  rw [h, List.pairwise_append, List.pairwise_cons] at hsorted
  obtain ⟨-, ⟨hlater, hys⟩, hcross⟩ := hsorted
  apply eq_after hn hys
  intro x
  constructor
  · intro hx
    have hmem : x ∈ after key rows cursor := by simp [h, hx]
    exact ⟨(mem_after.mp hmem).1, hlater x hx⟩
  · intro ⟨hx, hlt⟩
    have hr : r ∈ after key rows cursor := by simp [h]
    have hmem : x ∈ after key rows cursor := mem_after.mpr ⟨hx, (mem_after.mp hr).2.trans hlt⟩
    rw [h, List.mem_append, List.mem_cons] at hmem
    rcases hmem with hmem | rfl | hmem
    · exact absurd (hcross x hmem r (by simp)) hlt.asymm
    · exact absurd hlt (lt_irrefl _)
    · exact hmem

/-- Behind the last row of a page lies the rest. -/
theorem after_page (hn : (rows.map key).Nodup)
    (h : (after key rows cursor).take limit = xs ++ [r]) :
    after key rows (key r) = (after key rows cursor).drop limit := by
  have hsplit : after key rows cursor = xs ++ r :: (after key rows cursor).drop limit := by
    calc after key rows cursor = (after key rows cursor).take limit ++
      (after key rows cursor).drop limit :=
          (List.take_append_drop _ _).symm
      _ = xs ++ r :: (after key rows cursor).drop limit := by
        rw [h, List.append_assoc, List.singleton_append]
  exact after_of_append hn hsplit

/-- Rows that agree behind the cursor. -/
theorem after_congr (hn : (rows.map key).Nodup) (hn' : (rows'.map key).Nodup)
    (h : ∀ r, cursor < key r → (r ∈ rows ↔ r ∈ rows')) :
    after key rows cursor = after key rows' cursor := by
  apply eq_after hn (after_sorted hn')
  intro r
  rw [mem_after]
  constructor
  · intro ⟨hr, hlt⟩
    exact ⟨(h r hlt).mpr hr, hlt⟩
  · intro ⟨hr, hlt⟩
    exact ⟨(h r hlt).mp hr, hlt⟩

/-! ## Reading until a page is short -/

/-- Pages from the cursor on until one is empty or has fewer than `limit` by `count`; `last` is the
key of a row. Nothing if `fuel` pages are not enough. -/
def scan {ρ ε : Type} (count : List ρ → Nat) (last : ρ → Nat) (limit : Nat)
    (fetch : Nat → Except ε (List ρ)) : Nat → Nat → List ρ → Option (Except ε (List ρ))
  | 0, _, _ => none
  | fuel + 1, cursor, found =>
    match fetch cursor with
    | .error e => some (.error e)
    | .ok rows =>
      match rows.getLast? with
      | none => some (.ok found)
      | some row =>
        if count rows < limit then some (.ok (found ++ rows))
        else scan count last limit fetch fuel (last row) (found ++ rows)

/-- Each item stands for some rows, and a page holds the rows of at most `limit` items. Then all
rows are found, each once, if a page is as long as the number of its items. -/
theorem scan_groups {ρ ε : Type} {count : List ρ → Nat} {last : ρ → Nat}
    {fetch : Nat → Except ε (List ρ)}
    {rowsOf : α → List ρ} (hn : (rows.map key).Nodup) (hne : ∀ k ∈ rows, rowsOf k ≠ [])
    (hlast : ∀ k ∈ rows, ∀ row ∈ rowsOf k, last row = key k)
    (hcount : ∀ ks : List α, ks.Pairwise (fun k k' => key k < key k') → (∀ k ∈ ks, k ∈ rows) →
      count (ks.flatMap rowsOf) = ks.length)
    (hlimit : 1 ≤ limit)
    (hfetch : ∀ cursor, fetch cursor = .ok (((after key rows cursor).take limit).flatMap rowsOf))
    (fuel cursor : Nat) (found : List ρ) (hfuel : (after key rows cursor).length < fuel) :
    scan count last limit fetch fuel cursor found =
      some (.ok (found ++ (after key rows cursor).flatMap rowsOf)) := by
  induction fuel generalizing cursor found with
  | zero => omega
  | succ fuel ih =>
    rw [scan, hfetch]
    rcases List.eq_nil_or_concat ((after key rows cursor).take limit) with hpage | ⟨ks, k, hpage⟩
    · -- nothing lies behind the cursor
      have hnil : after key rows cursor = [] := by
        rcases List.take_eq_nil_iff.mp hpage with hzero | hnil
        · omega
        · exact hnil
      simp [hnil]
    · rw [List.concat_eq_append] at hpage
      have hmem : ∀ x ∈ (after key rows cursor).take limit, x ∈ rows :=
        fun x hx => (mem_after.mp (List.mem_of_mem_take hx)).1
      have hk : k ∈ rows := hmem k (by simp [hpage])
      -- the last row of the page is one of the last item
      obtain ⟨row, hrow⟩ :=
        Option.ne_none_iff_exists'.mp (mt List.getLast?_eq_none_iff.mp (hne k hk))
      have hend : (((after key rows cursor).take limit).flatMap rowsOf).getLast? = some row := by
        rw [hpage, List.flatMap_append, List.getLast?_append]
        simp [hrow]
      have hkey : last row = key k := hlast k hk row (List.mem_of_getLast? hrow)
      have hlen := hcount _ ((after_sorted hn).sublist (List.take_sublist _ _)) hmem
      simp only [hend, hlen, hkey]
      split
      · -- the page is short, so it holds all that is left
        rename_i hshort
        rw [List.length_take] at hshort
        rw [List.take_of_length_le (by omega)]
      · rename_i hfull
        rw [List.length_take] at hfull
        have hrest : after key rows (key k) = (after key rows cursor).drop limit :=
          after_page hn hpage
        rw [ih (key k) _ (by rw [hrest, List.length_drop]; omega), hrest, List.append_assoc,
          ← List.flatMap_append, List.take_append_drop]

end Paging
