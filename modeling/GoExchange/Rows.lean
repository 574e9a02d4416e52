import GoExchange.Tally
import Mathlib.Data.List.Perm.Subperm
import Mathlib.Tactic.Abel

/-!
# Tables of rows

A table is a list of rows in which each key occurs once; an update rewrites
the row of one key in place.
-/
namespace Rows

open Tally

variable {α κ : Type} {key : α → κ} {xs : List α} {x y : α} {g : α → α} {k : κ}

/-! ## Inserting a row -/

theorem forall_mem_concat {P : α → Prop} (h : ∀ y ∈ xs, P y) (hx : P x) : ∀ y ∈ xs ++ [x], P y :=
  List.forall_mem_append.mpr ⟨h, List.forall_mem_singleton.mpr hx⟩

theorem nodup_concat (hn : (xs.map key).Nodup) (hx : key x ∉ xs.map key) :
    ((xs ++ [x]).map key).Nodup := by
  rw [List.map_append]
  exact hn.append (List.nodup_singleton _) (by simpa using hx)

/-- The next id of a sequence is new. -/
theorem nodup_concat_succ {id : α → Nat} {n : Nat} (hn : (xs.map id).Nodup)
    (hle : ∀ y ∈ xs, id y ≤ n) (hx : id x = n + 1) : ((xs ++ [x]).map id).Nodup := by
  refine nodup_concat hn fun hmem => ?_
  obtain ⟨y, hy, he⟩ := List.mem_map.mp hmem
  have := hle y hy
  omega

/-- The new keys are distinct and not in use. -/
def Fresh (used new : List κ) : Prop := new.Nodup ∧ ∀ k ∈ new, k ∉ used

theorem fresh_cons {used new : List κ} :
    Fresh used (k :: new) ↔ k ∉ used ∧ Fresh (used ++ [k]) new := by
  simp only [Fresh, List.nodup_cons, List.forall_mem_cons, List.mem_append,
    List.mem_singleton, not_or]
  grind

variable [DecidableEq κ] {ks : List κ}

/-- `UPDATE … WHERE key = k`. -/
def modify (key : α → κ) (k : κ) (g : α → α) (xs : List α) : List α :=
  xs.map fun y => if key y = k then g y else y

theorem map_modify {β : Type} (f : α → β) (h : ∀ y ∈ xs, key y = k → f (g y) = f y) :
    (modify key k g xs).map f = xs.map f := by
  unfold modify
  rw [List.map_map]
  apply List.map_congr_left
  intro y hy
  by_cases hk : key y = k
  · simp [hk, h y hy hk]
  · simp [hk]

theorem mem_modify : y ∈ modify key k g xs ↔ (∃ x ∈ xs, key x = k ∧ y = g x) ∨
    (y ∈ xs ∧ key y ≠ k) := by
  simp only [modify, List.mem_map]
  constructor
  · rintro ⟨x, hx, rfl⟩
    by_cases hk : key x = k
    · exact .inl ⟨x, hx, hk, by simp [hk]⟩
    · exact .inr (by simpa [hk] using hx)
  · rintro (⟨x, hx, hk, rfl⟩ | ⟨hy, hk⟩)
    · exact ⟨x, hx, by simp [hk]⟩
    · exact ⟨y, hy, by simp [hk]⟩

/-- Of a keyed table one row is rewritten and the others stay. -/
theorem mem_modify_row (hn : (xs.map key).Nodup) (hx : x ∈ xs) (hy : y ∈ modify key (key x) g xs) :
    y = g x ∨ (y ∈ xs ∧ key y ≠ key x) := by
  rcases mem_modify.mp hy with ⟨z, hz, he, rfl⟩ | hy
  · rw [List.inj_on_of_nodup_map hn hz hx he]
    exact .inl rfl
  · exact .inr hy

theorem modify_of_notMem (h : k ∉ xs.map key) : modify key k g xs = xs := by
  unfold modify
  conv_rhs => rw [← List.map_id xs]
  apply List.map_congr_left
  intro y hy
  rw [if_neg fun he : key y = k => h (he ▸ List.mem_map_of_mem hy)]
  rfl

/-- Only the row of the key is rewritten. -/
theorem modify_append_cons {ys : List α} (hn : ((xs ++ x :: ys).map key).Nodup) :
    modify key (key x) g (xs ++ x :: ys) = xs ++ g x :: ys := by
  rw [List.map_append, List.map_cons, List.nodup_append, List.nodup_cons] at hn
  obtain ⟨-, ⟨hys, -⟩, hxs⟩ := hn
  have hleft : key x ∉ xs.map key := fun h => hxs _ h _ List.mem_cons_self rfl
  have happend : modify key (key x) g (xs ++ x :: ys) =
      modify key (key x) g xs ++ g x :: modify key (key x) g ys := by
    simp [modify]
  rw [happend, modify_of_notMem hleft, modify_of_notMem hys]

theorem find?_eq_some (hn : (xs.map key).Nodup) (hx : x ∈ xs) :
    xs.find? (key · = key x) = some x := by
  cases hf : xs.find? (key · = key x) with
  | none =>
    have := List.find?_eq_none.mp hf x hx
    simp at this
  | some y =>
    have hk : key y = key x := by simpa using List.find?_some hf
    rw [List.inj_on_of_nodup_map hn (List.mem_of_find?_eq_some hf) hx hk]

theorem find?_eq_none : xs.find? (key · = k) = none ↔ k ∉ xs.map key := by
  rw [List.find?_eq_none, List.mem_map]
  constructor
  · rintro h ⟨x, hx, rfl⟩
    exact h x hx (decide_eq_true rfl)
  · intro h x hx he
    exact h ⟨x, hx, of_decide_eq_true he⟩

/-- A row found by its key. -/
theorem of_find? (h : xs.find? (key · = k) = some x) : x ∈ xs ∧ key x = k :=
  ⟨List.mem_of_find?_eq_some h, by simpa using List.find?_some h⟩

theorem mem_of_find? (h : xs.find? (key · = k) = some x) : k ∈ xs.map key :=
  List.mem_map.mpr ⟨x, of_find? h⟩

/-- Rows found by keys that are all there are as many as the keys. -/
theorem length_filter
    (hn : (xs.map key).Nodup) (hks : ks.Nodup) (h : ∀ k ∈ ks, k ∈ xs.map key) :
    (xs.filter fun x => key x ∈ ks).length = ks.length := by
  have hperm : ((xs.filter fun x => key x ∈ ks).map key).Perm ks := by
    refine (List.perm_ext_iff_of_nodup
      (hn.sublist (List.filter_sublist.map key)) hks).mpr fun k => ?_
    constructor
    · intro hk
      obtain ⟨x, hx, rfl⟩ := List.mem_map.mp hk
      exact of_decide_eq_true (List.mem_filter.mp hx).2
    · intro hk
      obtain ⟨x, hx, rfl⟩ := List.mem_map.mp (h k hk)
      exact List.mem_map_of_mem (List.mem_filter.mpr ⟨hx, decide_eq_true hk⟩)
  have := hperm.length_eq
  rwa [List.length_map] at this

/-- If as many rows as keys are found, every key has its row. -/
theorem mem_of_length_filter (hn : (xs.map key).Nodup)
    (h : (xs.filter fun x => key x ∈ ks).length = ks.length) : ∀ k ∈ ks, k ∈ xs.map key := by
  have hsub : ((xs.filter fun x => key x ∈ ks).map key) ⊆ ks := fun k hk => by
    obtain ⟨x, hx, rfl⟩ := List.mem_map.mp hk
    exact of_decide_eq_true (List.mem_filter.mp hx).2
  have hperm :=
    (List.subperm_of_subset (hn.sublist (List.filter_sublist.map key)) hsub).perm_of_length_le
    (by rw [List.length_map, h])
  intro k hk
  obtain ⟨x, hx, rfl⟩ := List.mem_map.mp (hperm.mem_iff.mpr hk)
  exact List.mem_map_of_mem (List.mem_of_mem_filter hx)

/-- One row set apart from the others. -/
theorem perm_cons_filter (hn : (xs.map key).Nodup) (hx : x ∈ xs) :
    xs.Perm (x :: xs.filter fun y => key y ≠ key x) := by
  induction xs with
  | nil => cases hx
  | cons z xs ih =>
    rw [List.map_cons, List.nodup_cons] at hn
    rcases List.mem_cons.mp hx with rfl | hx
    · have hrest : xs.filter (fun y => key y ≠ key x) = xs :=
        List.filter_eq_self.mpr fun y hy => by
          simpa using fun he : key y = key x => hn.1 (he ▸ List.mem_map_of_mem hy)
      rw [List.filter_cons_of_neg (by simp), hrest]
    · have hz : key z ≠ key x := fun he => hn.1 (he ▸ List.mem_map_of_mem hx)
      rw [List.filter_cons_of_pos (by simpa using hz)]
      exact ((ih hn.2 hx).cons z).trans (.swap _ _ _)

/-- Taking out the only entry of an association list under a key. -/
theorem perm_cons_lookup {l : List (κ × α)} {a : α} (hn : (l.map Prod.fst).Nodup)
    (hk : l.lookup k = some a) : l.Perm ((k, a) :: l.filter (fun p => p.1 != k)) := by
  have hm : (k, a) ∈ l := by
    obtain ⟨l₁, l₂, rfl, -⟩ := List.lookup_eq_some_iff.mp hk
    simp
  have hf : l.filter (fun p => p.1 != k) = l.filter (fun p => p.1 ≠ k) :=
    List.filter_congr fun p _ => by by_cases h : p.1 = k <;> simp [h]
  rw [hf]
  exact perm_cons_filter hn hm

/-- One row rewritten or deleted. -/
theorem filterMap_perm (hn : (xs.map key).Nodup) (hx : x ∈ xs) (f : α → Option α) :
    (xs.filterMap fun y => if key y = key x then f y else some y).Perm
      ((f x).toList ++ xs.filter fun y => key y ≠ key x) := by
  refine ((perm_cons_filter hn hx).filterMap _).trans ?_
  have hrest : (xs.filter fun y => key y ≠ key x).filterMap (fun y => if key y = key x then f y
      else some y) = xs.filter fun y => key y ≠ key x := by
    rw [List.filterMap_congr fun y hy => if_neg (by simpa using (List.mem_filter.mp hy).2),
      List.filterMap_some]
  rw [List.filterMap_cons, if_pos rfl, hrest]
  cases f x <;> rfl

/-- Rewriting a row moves the sum under its tag by what the row's value changes. -/
theorem sumAt_modify {τ M : Type} [DecidableEq τ] [AddCommGroup M] {tag : α → τ}
    {f f' : α → M} {t : τ} (hn : (xs.map key).Nodup) (hx : x ∈ xs) (htag : tag (g x) = tag x)
    (hf : ∀ y ∈ xs, key y ≠ key x → f' y = f y) :
    sumAt tag f' (modify key (key x) g xs) t =
      sumAt tag f xs t + if tag x = t then f' (g x) - f x else 0 := by
  induction xs with
  | nil => cases hx
  | cons z xs ih =>
    rw [List.map_cons, List.nodup_cons] at hn
    have hcons : modify key (key x) g (z :: xs) = (if key z = key x then g z else z) ::
        modify key (key x) g xs := rfl
    rw [hcons, sumAt_cons, sumAt_cons]
    rcases List.mem_cons.mp hx with rfl | hx
    · -- the other rows stay
      have hrest : ∀ y ∈ xs, key y ≠ key x := fun y hy he => hn.1 (he ▸ List.mem_map_of_mem hy)
      have hsame : sumAt tag f' (modify key (key x) g xs) t = sumAt tag f xs t := by
        rw [modify_of_notMem hn.1]
        refine sumAt_congr (List.forall₂_same.mpr fun y hy => ⟨Iff.rfl, ?_⟩)
        exact hf y (List.mem_cons_of_mem _ hy) (hrest y hy)
      rw [hsame, if_pos rfl, htag]
      by_cases ht : tag x = t
      · simp only [ht, if_true]
        abel
      · simp [ht]
    · have hz : key z ≠ key x := fun he => hn.1 (he ▸ List.mem_map_of_mem hx)
      rw [if_neg hz, hf z List.mem_cons_self hz,
        ih hn.2 hx fun y hy => hf y (List.mem_cons_of_mem _ hy), add_assoc]

/-! ## Rows by a list of keys -/

theorem map_key_lookup (h : ∀ k ∈ ks, k ∈ xs.map key) :
    (ks.filterMap fun k => xs.find? (key · = k)).map key = ks := by
  induction ks with
  | nil => rfl
  | cons a ks ih =>
    obtain ⟨ha, hks⟩ := List.forall_mem_cons.mp h
    cases hf : xs.find? (key · = a) with
    | none => exact absurd ha (find?_eq_none.mp hf)
    | some c => simp only [List.filterMap_cons, hf, List.map_cons, (of_find? hf).2, ih hks]

theorem find?_lookup (h : ∀ k ∈ ks, k ∈ xs.map key) (hk : k ∈ ks) :
    (ks.filterMap fun k => xs.find? (key · = k)).find? (key · = k) = xs.find? (key · = k) := by
  induction ks with
  | nil => cases hk
  | cons a ks ih =>
    obtain ⟨ha, hks⟩ := List.forall_mem_cons.mp h
    cases hf : xs.find? (key · = a) with
    | none => exact absurd ha (find?_eq_none.mp hf)
    | some c =>
      simp only [List.filterMap_cons, hf]
      by_cases hak : a = k
      · subst hak
        simp [(of_find? hf).2, hf]
      · simp only [List.find?_cons, (of_find? hf).2, hak, decide_false]
        exact ih hks ((List.mem_cons.mp hk).resolve_left (Ne.symm hak))

/-! ## Copies of some rows -/

section Overlay

variable {copies : List α}

theorem find?_map_of_key {h : α → α} (hkey : ∀ y, key (h y) = key y) (xs : List α) (k : κ) :
    (xs.map h).find? (key · = k) = (xs.find? (key · = k)).map h := by
  simp only [List.find?_map, Function.comp_def, hkey]

theorem find?_modify (hg : ∀ y, key (g y) = key y) (xs : List α) (k k' : κ) :
    (modify key k g xs).find? (key · = k') = (xs.find? (key · = k')).map fun y => if key y = k then
      g y else y := by
  refine find?_map_of_key (fun y => ?_) xs k'
  split
  · exact hg y
  · rfl

/-- The table with the copies in the place of their rows. -/
def overlay (key : α → κ) (copies xs : List α) : List α :=
  xs.map fun y => (copies.find? (key · = key y)).getD y

theorem key_overlay (copies : List α) (y : α) :
    key ((copies.find? (key · = key y)).getD y) = key y := by
  cases hf : copies.find? (key · = key y) with
  | none => rfl
  | some c => exact (of_find? hf).2

/-- A row that has a copy is found as its copy. -/
theorem find?_overlay (hk : k ∈ copies.map key) (hxs : k ∈ xs.map key) :
    (overlay key copies xs).find? (key · = k) = copies.find? (key · = k) := by
  unfold overlay
  rw [find?_map_of_key (key_overlay copies)]
  cases hf : xs.find? (key · = k) with
  | none => exact absurd hxs (find?_eq_none.mp hf)
  | some y =>
    obtain ⟨-, rfl⟩ := of_find? hf
    cases hc : copies.find? (key · = key y) with
    | none => exact absurd hk (find?_eq_none.mp hc)
    | some c => simp [hc]

/-- Updating the copy is updating the table. -/
theorem modify_overlay (hk : k ∈ copies.map key) (hg : ∀ y, key (g y) = key y) :
    modify key k g (overlay key copies xs) = overlay key (modify key k g copies) xs := by
  unfold overlay
  conv_lhs => unfold modify
  rw [List.map_map]
  apply List.map_congr_left
  intro y _
  simp only [Function.comp_apply, key_overlay, find?_modify hg]
  cases hf : copies.find? (key · = key y) with
  | none =>
    have hne : key y ≠ k := fun he => find?_eq_none.mp hf (he ▸ hk)
    simp [hne]
  | some c => simp [(of_find? hf).2]

/-- Copies that were not changed. -/
theorem overlay_eq_self (hn : (xs.map key).Nodup) (hc : ∀ c ∈ copies, c ∈ xs) :
    overlay key copies xs = xs := by
  unfold overlay
  refine (List.map_congr_left fun y hy => ?_).trans (List.map_id xs)
  cases hf : copies.find? (key · = key y) with
  | none => rfl
  | some c =>
    obtain ⟨hmem, hkey⟩ := of_find? hf
    exact List.inj_on_of_nodup_map hn (hc c hmem) hy hkey

end Overlay

/-! ## Insert or update -/

section Upsert

variable {again : α → α} {row : α}

/-- Insert a row, or update the one that has its key. -/
def upsert (key : α → κ) (again : α → α) (row : α) (xs : List α) : List α :=
  if key row ∈ xs.map key then modify key (key row) again xs else xs ++ [row]

theorem of_mem_upsert (h : y ∈ upsert key again row xs) :
    (y ∈ xs ∧ key y ≠ key row) ∨ y = row ∨ ∃ x ∈ xs, key x = key row ∧ y = again x := by
  unfold upsert at h
  split at h
  · exact (mem_modify.mp h).elim (fun hx => .inr (.inr hx)) .inl
  · rename_i hnew
    rcases List.mem_append.mp h with hy | hy
    · exact .inl ⟨hy, fun he => hnew (he ▸ List.mem_map_of_mem hy)⟩
    · exact .inr (.inl (List.mem_singleton.mp hy))

end Upsert

end Rows
