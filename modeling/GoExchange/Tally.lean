import Mathlib.Algebra.Order.BigOperators.Group.List
import Mathlib.Data.List.Nodup

/-!
# Tallies

A tally adds up the values of a list under their tags. A program keeps it in a
map that a loop updates; `tally_apply` turns the loop into a sum over the
entries with one tag.
-/
namespace Tally

variable {α β κ M : Type} [DecidableEq κ]

/-- The sum of `f` over the entries tagged `k`. -/
def sumAt [AddMonoid M] (tag : β → κ) (f : β → M) (ys : List β) (k : κ) : M :=
  ((ys.filter fun y => tag y = k).map f).sum

/-- The loop `m[tag y] += f y`, from an empty map. -/
def tally [AddMonoid M] (tag : β → κ) (f : β → M) (ys : List β) : κ → M :=
  ys.foldl (fun m y => Function.update m (tag y) (m (tag y) + f y)) fun _ => 0

section Sums

variable [AddCommMonoid M] {tag : β → κ} {f : β → M} {ys zs : List β} {k : κ}

@[simp] theorem sumAt_nil : sumAt tag f [] k = 0 := rfl

theorem sumAt_cons (y : β) :
    sumAt tag f (y :: ys) k = (if tag y = k then f y else 0) + sumAt tag f ys k := by
  by_cases h : tag y = k <;> simp [sumAt, h]

theorem sumAt_append : sumAt tag f (ys ++ zs) k = sumAt tag f ys k + sumAt tag f zs k := by
  simp [sumAt]

theorem sumAt_perm (h : ys.Perm zs) : sumAt tag f ys k = sumAt tag f zs k :=
  ((h.filter _).map _).sum_eq

/-- The entries that pass a test, and those that do not. -/
theorem sumAt_filter_add (p : β → Bool) :
    sumAt tag f (ys.filter p) k + sumAt tag f (ys.filter fun y => !p y) k = sumAt tag f ys k := by
  rw [← sumAt_append]
  exact sumAt_perm (List.filter_append_perm p ys)

theorem sumAt_eq_zero (h : k ∉ ys.map tag) : sumAt tag f ys k = 0 := by
  have : ys.filter (fun y => tag y = k) = [] := by
    rw [List.filter_eq_nil_iff]
    intro y hy he
    exact h (of_decide_eq_true he ▸ List.mem_map_of_mem hy)
  simp [sumAt, this]

/-- Only the values under the tag count. -/
theorem sumAt_congr {γ κ' : Type} [DecidableEq κ'] {tag' : γ → κ'} {f' : γ → M}
    {zs : List γ} {k' : κ'}
    (h : List.Forall₂ (fun y z => (tag y = k ↔ tag' z = k') ∧ f y = f' z) ys zs) :
    sumAt tag f ys k = sumAt tag' f' zs k' := by
  induction h with
  | nil => rfl
  | cons hyz _ ih => simp only [sumAt_cons, hyz.1, hyz.2, ih]

theorem sumAt_nonneg [PartialOrder M] [IsOrderedAddMonoid M] (h : ∀ y ∈ ys, tag y = k → 0 ≤ f y) :
    0 ≤ sumAt tag f ys k := by
  apply List.sum_nonneg
  intro x hx
  obtain ⟨y, hy, rfl⟩ := List.mem_map.mp hx
  obtain ⟨hmem, htag⟩ := List.mem_filter.mp hy
  exact h y hmem (of_decide_eq_true htag)

/-- One entry is at most the sum if none is negative. -/
theorem le_sumAt [PartialOrder M] [IsOrderedAddMonoid M] (h : ∀ y ∈ ys, tag y = k → 0 ≤ f y) {z : β}
    (hz : z ∈ ys) (ht : tag z = k) : f z ≤ sumAt tag f ys k := by
  refine List.single_le_sum (fun x hx => ?_) _
    (List.mem_map_of_mem (List.mem_filter.mpr ⟨hz, decide_eq_true ht⟩))
  obtain ⟨y, hy, rfl⟩ := List.mem_map.mp hx
  obtain ⟨hmem, htag⟩ := List.mem_filter.mp hy
  exact h y hmem (of_decide_eq_true htag)

theorem tally_apply : tally tag f ys k = sumAt tag f ys k := by
  suffices ∀ m : κ → M, ys.foldl (fun m y => Function.update m (tag y) (m (tag y) + f y)) m k =
      m k + sumAt tag f ys k by
    simpa [tally] using this fun _ => 0
  induction ys with
  | nil => simp
  | cons y ys ih =>
    intro m
    rw [List.foldl_cons, ih, sumAt_cons, ← add_assoc]
    by_cases h : tag y = k
    · simp [h]
    · simp [h, Function.update_of_ne (Ne.symm h)]

/-- A value that one row of a table without repeated keys has, added up over the table. -/
theorem sum_map_ite {key : α → κ} {xs : List α} (hkeys : (xs.map key).Nodup)
    (hk : k ∈ xs.map key) (v : M) : (xs.map fun x => if k = key x then v else 0).sum = v := by
  induction xs with
  | nil => cases hk
  | cons x xs ih =>
    rw [List.map_cons, List.nodup_cons] at hkeys
    rw [List.map_cons, List.sum_cons]
    by_cases h : k = key x
    · have hrest : ∀ y ∈ xs, k ≠ key y := fun y hy he => hkeys.1 (h ▸ he ▸ List.mem_map_of_mem hy)
      have hzero : (xs.map fun x => if k = key x then v else 0) = xs.map fun _ => 0 :=
        List.map_congr_left fun y hy => if_neg (hrest y hy)
      rw [if_pos h, hzero]
      simp
    · rw [if_neg h, zero_add, ih hkeys.2]
      exact (List.mem_cons.mp hk).resolve_left h

/-- Adding up group by group, over a table that has each tag once, is adding up. -/
theorem sum_sumAt {key : α → κ} {xs : List α} (tag : β → κ) (hkeys : (xs.map key).Nodup)
    (hcover : ∀ y ∈ ys, tag y ∈ xs.map key) :
    (xs.map fun x => sumAt tag f ys (key x)).sum = (ys.map f).sum := by
  induction ys with
  | nil => simp
  | cons y ys ih =>
    have hrest := ih fun z hz => hcover z (List.mem_cons_of_mem _ hz)
    have hhead := sum_map_ite hkeys (hcover y List.mem_cons_self) (f y)
    simp only [sumAt_cons, List.sum_map_add, List.map_cons, List.sum_cons, hrest, hhead]

end Sums

end Tally
