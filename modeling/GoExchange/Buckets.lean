import Mathlib.Data.List.Basic
import Mathlib.Data.List.Find
import Mathlib.Data.List.Pairwise

/-!
# Keyed queues in key order

A sorted list of buckets, each a first-in first-out queue under one key. Read
bucket by bucket it is one list in priority order, `flatten`; the operations
are described there, and a well-formed list of buckets is determined by it.
-/
namespace Buckets

variable {κ α : Type}

structure Bucket (κ α : Type) where
  key : κ
  items : List α
  deriving DecidableEq, Repr

/-- All items, best key first and oldest first under each key. -/
def flatten (bs : List (Bucket κ α)) : List α := bs.flatMap Bucket.items

@[simp] theorem flatten_nil : flatten ([] : List (Bucket κ α)) = [] := rfl

@[simp] theorem flatten_cons (b : Bucket κ α) (bs : List (Bucket κ α)) :
    flatten (b :: bs) = b.items ++ flatten bs := rfl

/-- Append an item to the queue of its key; a new key gets a queue at its place. -/
def push [DecidableEq κ] (before : κ → κ → Bool) (k : κ) (a : α) :
    List (Bucket κ α) → List (Bucket κ α)
  | [] => [⟨k, [a]⟩]
  | b :: bs =>
    if b.key = k then ⟨b.key, b.items ++ [a]⟩ :: bs
    else if before k b.key then ⟨k, [a]⟩ :: b :: bs
    else b :: push before k a bs

/-- Change the queue under a key; a queue that becomes empty is taken out. -/
def update [DecidableEq κ] (k : κ) (f : List α → List α) : List (Bucket κ α) → List (Bucket κ α)
  | [] => []
  | b :: bs =>
    if b.key = k then if (f b.items).isEmpty then bs else ⟨b.key, f b.items⟩ :: bs
    else b :: update k f bs

/-- The queue under a key. -/
def find [DecidableEq κ] (k : κ) : List (Bucket κ α) → Option (Bucket κ α)
  | [] => none
  | b :: bs => if b.key = k then some b else find k bs

/-- The first item that satisfies `p`, with its queue, in the leading buckets whose key is
accepted. -/
def best (accept : κ → Bool) (p : α → Bool) : List (Bucket κ α) → Option (Bucket κ α × α)
  | [] => none
  | b :: bs =>
    if accept b.key then
      match b.items.find? p with
      | some a => some (b, a)
      | none => best accept p bs
    else none

/-- Change the first item that satisfies `p`, or take it out. -/
def modifyFirst (p : α → Bool) (f : α → Option α) : List α → List α
  | [] => []
  | a :: l => if p a then (f a).toList ++ l else a :: modifyFirst p f l

/-- Insert behind every item whose key is not worse. -/
def insertBehind (before : κ → κ → Bool) (key : α → κ) (a : α) : List α → List α
  | [] => [a]
  | b :: l => if before (key a) (key b) then a :: b :: l else b :: insertBehind before key a l

section ModifyFirst

variable {p q : α → Bool} {f : α → Option α} {l m : List α} {a : α}

theorem modifyFirst_append_of_find? (h : l.find? p = some a) :
    modifyFirst p f (l ++ m) = modifyFirst p f l ++ m := by
  induction l with
  | nil => simp at h
  | cons b l ih =>
    by_cases hb : p b = true
    · simp [modifyFirst, hb]
    · rw [List.find?_cons_of_neg hb] at h
      simp [modifyFirst, hb, ih h]

theorem modifyFirst_append_of_none (h : l.find? p = none) :
    modifyFirst p f (l ++ m) = l ++ modifyFirst p f m := by
  induction l with
  | nil => rfl
  | cons b l ih =>
    rw [List.find?_cons] at h
    by_cases hb : p b = true
    · simp [hb] at h
    · simp only [hb] at h
      simp [modifyFirst, hb, ih h]

theorem modifyFirst_congr (h : ∀ a ∈ l, p a = q a) : modifyFirst p f l = modifyFirst q f l := by
  induction l with
  | nil => rfl
  | cons b l ih =>
    rw [List.forall_mem_cons] at h
    simp [modifyFirst, h.1, ih h.2]

/-- Splitting at the item that is changed. -/
theorem modifyFirst_of_find? (h : l.find? p = some a) :
    ∃ l₁ l₂, l = l₁ ++ a :: l₂ ∧ (∀ b ∈ l₁, p b = false) ∧
      modifyFirst p f l = l₁ ++ (f a).toList ++ l₂ := by
  obtain ⟨ha, l₁, l₂, rfl, hl⟩ := List.find?_eq_some_iff_append.mp h
  have hnone : l₁.find? p = none := List.find?_eq_none.mpr fun b hb => by simpa using hl b hb
  refine ⟨l₁, l₂, rfl, fun b hb => by simpa using hl b hb, ?_⟩
  rw [modifyFirst_append_of_none hnone]
  simp [modifyFirst, ha]

theorem modifyFirst_of_none (h : l.find? p = none) : modifyFirst p f l = l := by
  simpa [modifyFirst] using modifyFirst_append_of_none (f := f) (m := []) h

/-- What stays in the list, or is put back changed. -/
theorem mem_modifyFirst (h : a ∈ modifyFirst p f l) :
    a ∈ l ∨ ∃ b ∈ l, p b = true ∧ f b = some a := by
  cases hf : l.find? p with
  | none => rw [modifyFirst_of_none hf] at h; exact .inl h
  | some c =>
    obtain ⟨l₁, l₂, rfl, -, hm⟩ := modifyFirst_of_find? (f := f) hf
    rw [hm] at h
    simp only [List.append_assoc, List.mem_append, Option.mem_toList] at h
    rcases h with h | h | h
    · exact .inl (by simp [h])
    · exact .inr ⟨c, by simp, List.find?_some hf, h⟩
    · exact .inl (by simp [h])

/-- Leaving out other items changes neither which item is found nor what becomes of it. -/
theorem filter_modifyFirst {r : α → Bool} (h : l.find? p = some a) (ha : r a = true)
    (hf : ∀ b, f a = some b → r b = true) :
    (l.filter r).find? p = some a ∧
    modifyFirst p f (l.filter r) = (modifyFirst p f l).filter r := by
  obtain ⟨l₁, l₂, rfl, hl, hm⟩ := modifyFirst_of_find? (f := f) h
  have hpa : p a = true := List.find?_some h
  have hnone : (l₁.filter r).find? p = none :=
    List.find?_eq_none.mpr fun b hb => by simp [hl b (List.mem_of_mem_filter hb)]
  have hfa : (f a).toList.filter r = (f a).toList := by
    cases hb : f a with
    | none => rfl
    | some b => simp [hf b hb]
  constructor
  · rw [List.filter_append, List.filter_cons_of_pos ha, List.find?_append, hnone]
    simp [hpa]
  · rw [hm, List.filter_append, List.filter_cons_of_pos ha, modifyFirst_append_of_none hnone]
    simp [modifyFirst, hpa, hfa]

/-- With distinct keys the item found is the only one of its key. -/
theorem modifyFirst_eq_filterMap {κ : Type} [DecidableEq κ] {key : α → κ} (hn : (l.map key).Nodup)
    (h : l.find? p = some a) :
    modifyFirst p f l = l.filterMap fun b => if key b = key a then f b else some b := by
  obtain ⟨l₁, l₂, rfl, -, hm⟩ := modifyFirst_of_find? (f := f) h
  rw [List.map_append, List.map_cons, List.nodup_append, List.nodup_cons] at hn
  obtain ⟨-, ⟨hright, -⟩, hleft⟩ := hn
  have hkeep : ∀ m : List α, (∀ b ∈ m, key b ≠ key a) →
      m.filterMap (fun b => if key b = key a then f b else some b) = m := fun m hne => by
    rw [List.filterMap_congr fun b hb => if_neg (hne b hb), List.filterMap_some]
  rw [hm, List.filterMap_append, List.filterMap_cons, if_pos rfl,
    hkeep l₁ fun b hb => hleft _ (List.mem_map_of_mem hb) _ List.mem_cons_self,
    hkeep l₂ fun b hb he => hright (he ▸ List.mem_map_of_mem hb), List.append_assoc]
  cases f a <;> rfl

/-- What the change keeps of an item is kept in order. -/
theorem map_modifyFirst_sublist {β : Type} {g : α → β} (hf : ∀ a b, f a = some b → g b = g a) :
    ((modifyFirst p f l).map g).Sublist (l.map g) := by
  induction l with
  | nil => exact .refl _
  | cons a l ih =>
    rw [modifyFirst]
    split
    · cases hb : f a with
      | none => simp
      | some b => simp [hf a b hb]
    · simpa using ih

end ModifyFirst

/-- Sorted buckets, none empty, every item under its own key. -/
structure Wf (before : κ → κ → Bool) (key : α → κ) (bs : List (Bucket κ α)) : Prop where
  sorted : bs.Pairwise (fun b c => before b.key c.key = true)
  nonempty : ∀ b ∈ bs, b.items ≠ []
  keyed : ∀ b ∈ bs, ∀ a ∈ b.items, key a = b.key

/-- `before` is a strict total order on the keys. -/
structure StrictOrder (before : κ → κ → Bool) : Prop where
  irrefl : ∀ k, before k k = false
  trans : ∀ k l m, before k l = true → before l m = true → before k m = true
  total : ∀ k l, k ≠ l → before k l = false → before l k = true

variable {before : κ → κ → Bool} {key : α → κ} {b : Bucket κ α} {bs cs : List (Bucket κ α)} {k : κ}
  {accept : κ → Bool} {a : α} {l : List α}

theorem wf_nil : Wf before key ([] : List (Bucket κ α)) := ⟨.nil, by simp, by simp⟩

theorem wf_cons : Wf before key (b :: bs) ↔
    (∀ c ∈ bs, before b.key c.key = true) ∧ b.items ≠ [] ∧ (∀ a ∈ b.items, key a = b.key) ∧
      Wf before key bs := by
  constructor
  · rintro ⟨hs, hn, hk⟩
    rw [List.pairwise_cons] at hs
    rw [List.forall_mem_cons] at hn hk
    exact ⟨hs.1, hn.1, hk.1, hs.2, hn.2, hk.2⟩
  · rintro ⟨hb, hne, hkey, hs, hn, hk⟩
    exact ⟨List.pairwise_cons.mpr ⟨hb, hs⟩, List.forall_mem_cons.mpr ⟨hne, hn⟩,
      List.forall_mem_cons.mpr ⟨hkey, hk⟩⟩

/-- Later buckets have other keys. -/
theorem StrictOrder.key_ne (ho : StrictOrder before) {c : Bucket κ α}
    (h : before b.key c.key = true) : c.key ≠ b.key := by
  intro he
  rw [he, ho.irrefl] at h
  cases h

theorem Wf.before_of_mem_flatten (h : ∀ c ∈ bs, before k c.key = true) (hw : Wf before key bs)
    (ha : a ∈ flatten bs) : before k (key a) = true := by
  obtain ⟨c, hc, ha⟩ := List.mem_flatMap.mp ha
  exact hw.keyed c hc a ha ▸ h c hc

/-- In priority order: the key order, with equal keys in queue order. -/
theorem Wf.flatten_sorted (ho : StrictOrder before) (hw : Wf before key bs) :
    (flatten bs).Pairwise (fun a c => before (key c) (key a) = false) := by
  induction bs with
  | nil => exact .nil
  | cons b bs ih =>
    obtain ⟨hb, -, hkey, hw⟩ := wf_cons.mp hw
    refine List.pairwise_append.mpr ⟨?_, ih hw, fun a ha c hc => ?_⟩
    · refine List.pairwise_of_forall_mem_list fun a ha c hc => ?_
      rw [hkey a ha, hkey c hc, ho.irrefl]
    · have hbc := Wf.before_of_mem_flatten hb hw hc
      by_contra hcb
      have hcb : before (key c) (key a) = true := by simpa using hcb
      have := ho.trans _ _ _ hbc (hkey a ha ▸ hcb)
      rw [ho.irrefl] at this
      cases this

/-! ## What the operations do to the flat list -/

/-- The scan finds the first acceptable item of the whole list. -/
theorem best_map_snd (hw : Wf before key bs)
    (hacc : ∀ k l, before k l = true → accept l = true → accept k = true) (p : α → Bool) :
    (best accept p bs).map Prod.snd = (flatten bs).find? (fun a => accept (key a) && p a) := by
  induction bs with
  | nil => rfl
  | cons b bs ih =>
    obtain ⟨hb, -, hkey, hw'⟩ := wf_cons.mp hw
    rw [flatten_cons, List.find?_append, best]
    by_cases ha : accept b.key = true
    · have hfind : b.items.find? (fun a => accept (key a) && p a) = b.items.find? p :=
        List.find?_congr fun a ham => by simp [hkey a ham, ha]
      rw [if_pos ha, hfind]
      cases hf : b.items.find? p with
      | some a => rfl
      | none => simpa using ih hw'
    · have hnone : ∀ a ∈ b.items ++ flatten bs, (accept (key a) && p a) = false := by
        intro a ham
        rcases List.mem_append.mp ham with ham | ham
        · simp [hkey a ham, ha]
        · have hlt := Wf.before_of_mem_flatten hb hw' ham
          have : accept (key a) ≠ true := fun h => ha (hacc _ _ hlt h)
          simp [this]
      rw [if_neg ha, ← List.find?_append]
      exact (List.find?_eq_none.mpr fun a ham => by simp [hnone a ham]).symm

theorem best_mem {p : α → Bool} (h : best accept p bs = some (b, a)) :
    b ∈ bs ∧ b.items.find? p = some a ∧ accept b.key = true := by
  induction bs with
  | nil => cases h
  | cons c bs ih =>
    rw [best] at h
    split at h
    · rename_i hacc
      split at h
      · rename_i a' hf
        cases h
        exact ⟨List.mem_cons_self, hf, hacc⟩
      · obtain ⟨hm, hf, hk⟩ := ih h
        exact ⟨List.mem_cons_of_mem _ hm, hf, hk⟩
    · cases h

/-- Changing the item the scan found changes the first acceptable item of the list. -/
theorem flatten_update_best [DecidableEq κ] (ho : StrictOrder before) (hw : Wf before key bs)
    {p : α → Bool} (h : best accept p bs = some (b, a)) (f : α → Option α) :
    flatten (update b.key (modifyFirst p f) bs) =
      modifyFirst (fun a => accept (key a) && p a) f (flatten bs) := by
  induction bs with
  | nil => cases h
  | cons c bs ih =>
    obtain ⟨hb, -, hkey, hw'⟩ := wf_cons.mp hw
    rw [best] at h
    split at h
    · rename_i hacc
      have hq : ∀ x ∈ c.items, (accept (key x) && p x) = p x :=
        fun x hx => by simp [hkey x hx, hacc]
      have hfind : c.items.find? (fun a => accept (key a) && p a) = c.items.find? p :=
        List.find?_congr hq
      split at h
      · rename_i a' hf
        cases h
        rw [flatten_cons, modifyFirst_append_of_find? (hfind.trans hf), modifyFirst_congr hq]
        simp only [update, if_true]
        split
        · rename_i he
          simp [List.isEmpty_iff.mp he]
        · rfl
      · rename_i hf
        have hne : c.key ≠ b.key := (ho.key_ne (hb b (best_mem h).1)).symm
        rw [flatten_cons, modifyFirst_append_of_none (hfind.trans hf), ← ih hw' h]
        simp [update, hne]
    · cases h

theorem insertBehind_append {m : List α} (h : ∀ x ∈ l, before (key a) (key x) = false) :
    insertBehind before key a (l ++ m) = l ++ insertBehind before key a m := by
  induction l with
  | nil => rfl
  | cons x l ih =>
    rw [List.forall_mem_cons] at h
    simp [insertBehind, h.1, ih h.2]

theorem insertBehind_head (h : ∀ x ∈ l, before (key a) (key x) = true) :
    insertBehind before key a l = a :: l := by
  cases l with
  | nil => rfl
  | cons x l => simp [insertBehind, h x List.mem_cons_self]

theorem insertBehind_perm (a : α) (l : List α) : (insertBehind before key a l).Perm (a :: l) := by
  induction l with
  | nil => exact .refl _
  | cons b l ih =>
    rw [insertBehind]
    split
    · exact .refl _
    · exact (ih.cons b).trans (.swap a b l)

/-- An item inserted into a sorted list stands behind all it is related from and before the worse
ones. -/
theorem insertBehind_pairwise (ho : StrictOrder before) {R : α → α → Prop}
    (hsorted : l.Pairwise fun x y => before (key y) (key x) = false) (hl : l.Pairwise R)
    (hleft : ∀ x ∈ l, R x a)
    (hright : ∀ x ∈ l, before (key a) (key x) = true → R a x) :
    (insertBehind before key a l).Pairwise R := by
  induction l with
  | nil => exact List.pairwise_singleton _ _
  | cons b l ih =>
    rw [List.pairwise_cons] at hsorted hl
    rw [insertBehind]
    split
    · rename_i hb
      refine List.pairwise_cons.mpr ⟨fun x hx => hright x hx ?_, List.pairwise_cons.mpr hl⟩
      rcases List.mem_cons.mp hx with rfl | hx
      · exact hb
      · -- what follows a worse item is worse
        by_cases he : key x = key b
        · rwa [he]
        · exact ho.trans _ _ _ hb (ho.total _ _ he (hsorted.1 x hx))
    · refine List.pairwise_cons.mpr ⟨fun x hx => ?_, ?_⟩
      · rcases List.mem_cons.mp ((insertBehind_perm a l).mem_iff.mp hx) with rfl | hx
        · exact hleft b List.mem_cons_self
        · exact hl.1 x hx
      · exact ih hsorted.2 hl.2 (fun x hx => hleft x (List.mem_cons_of_mem _ hx))
          fun x hx => hright x (List.mem_cons_of_mem _ hx)

section Update

variable [DecidableEq κ]

theorem mem_update {c : Bucket κ α} {f : List α → List α} (h : c ∈ update k f bs) :
    c ∈ bs ∨ ∃ d ∈ bs, c = ⟨d.key, f d.items⟩ ∧ f d.items ≠ [] := by
  induction bs with
  | nil => cases h
  | cons d bs ih =>
    rw [update] at h
    split at h
    · split at h
      · exact .inl (List.mem_cons_of_mem _ h)
      · rename_i hne
        rcases List.mem_cons.mp h with rfl | h
        · exact .inr ⟨d, List.mem_cons_self, rfl, by simpa using hne⟩
        · exact .inl (List.mem_cons_of_mem _ h)
    · rcases List.mem_cons.mp h with rfl | h
      · exact .inl List.mem_cons_self
      · exact (ih h).imp (List.mem_cons_of_mem _) fun ⟨e, he, hc⟩ =>
          ⟨e, List.mem_cons_of_mem _ he, hc⟩

theorem update_wf (hw : Wf before key bs) {f : List α → List α}
    (hf : ∀ b ∈ bs, ∀ a ∈ f b.items, key a = b.key) (k : κ) : Wf before key (update k f bs) := by
  induction bs with
  | nil => exact wf_nil
  | cons b bs ih =>
    obtain ⟨hb, hne, hkey, hw⟩ := wf_cons.mp hw
    rw [List.forall_mem_cons] at hf
    rw [update]
    split
    · split
      · exact hw
      · rename_i hfe
        exact wf_cons.mpr ⟨hb, by simpa using hfe, hf.1, hw⟩
    · refine wf_cons.mpr ⟨fun c hc => ?_, hne, hkey, ih hw hf.2⟩
      rcases mem_update hc with hc | ⟨d, hd, rfl, -⟩
      · exact hb c hc
      · exact hb d hd

/-- The queue under a key holds all items of that key. -/
theorem any_find (ho : StrictOrder before) (hw : Wf before key bs) (k : κ) (p : α → Bool) :
    (find k bs).any (fun b => b.items.any p) =
      (flatten bs).any (fun a => decide (key a = k) && p a) := by
  induction bs with
  | nil => rfl
  | cons b bs ih =>
    obtain ⟨hb, -, hkey, hw⟩ := wf_cons.mp hw
    rw [find, flatten_cons, List.any_append]
    split <;> rename_i hk
    · have hitems : b.items.any (fun a => decide (key a = k) && p a) = b.items.any p := by
        rw [Bool.eq_iff_iff, List.any_eq_true, List.any_eq_true]
        exact exists_congr fun a => and_congr_right fun ha => by simp [hkey a ha, hk]
      have hrest : (flatten bs).any (fun a => decide (key a = k) && p a) = false := by
        refine List.any_eq_false.mpr fun a ha => ?_
        have := Wf.before_of_mem_flatten hb hw ha
        have hne : key a ≠ k := fun he => by rw [he, hk, ho.irrefl] at this; cases this
        simp [hne]
      simp [hitems, hrest]
    · have hitems : b.items.any (fun a => decide (key a = k) && p a) = false :=
        List.any_eq_false.mpr fun a ha => by simp [hkey a ha, hk]
      rw [hitems, Bool.false_or, ih hw]

/-- Removing under a key takes out the first item of that key that satisfies `p`. -/
theorem flatten_update_modifyFirst (ho : StrictOrder before) (hw : Wf before key bs) (k : κ)
    (p : α → Bool) (f : α → Option α) :
    flatten (update k (modifyFirst p f) bs) =
      modifyFirst (fun a => decide (key a = k) && p a) f (flatten bs) := by
  induction bs with
  | nil => rfl
  | cons b bs ih =>
    obtain ⟨hb, -, hkey, hw⟩ := wf_cons.mp hw
    rw [flatten_cons, update]
    by_cases hk : b.key = k
    · have hq : ∀ a ∈ b.items, (decide (key a = k) && p a) = p a := fun a ha => by
        simp [hkey a ha, hk]
      have hrest : (flatten bs).find? (fun a => decide (key a = k) && p a) = none := by
        refine List.find?_eq_none.mpr fun a ha => ?_
        have hne : key a ≠ k := by
          obtain ⟨c, hc, hac⟩ := List.mem_flatMap.mp ha
          rw [hw.keyed c hc a hac, ← hk]
          exact ho.key_ne (hb c hc)
        simp [hne]
      have heq : modifyFirst (fun a => decide (key a = k) && p a) f (b.items ++ flatten bs) =
          modifyFirst p f b.items ++ flatten bs := by
        cases hf : b.items.find? p with
        | some a =>
          rw [modifyFirst_append_of_find? ((List.find?_congr hq).trans hf), modifyFirst_congr hq]
        | none =>
          rw [modifyFirst_append_of_none ((List.find?_congr hq).trans hf),
            modifyFirst_of_none hrest, modifyFirst_of_none hf]
      rw [if_pos hk, heq]
      split
      · rename_i he
        simp [List.isEmpty_iff.mp he]
      · rfl
    · have hnone : b.items.find? (fun a => decide (key a = k) && p a) = none :=
        List.find?_eq_none.mpr fun a ha => by simp [hkey a ha, hk]
      rw [if_neg hk, modifyFirst_append_of_none hnone, flatten_cons, ih hw]

/-- Pushing inserts behind every item whose key is not worse. -/
theorem flatten_push (ho : StrictOrder before) (hw : Wf before key bs) {a : α} (ha : key a = k) :
    flatten (push before k a bs) = insertBehind before key a (flatten bs) := by
  induction bs with
  | nil => rfl
  | cons b bs ih =>
    obtain ⟨hb, hne, hkey, hw'⟩ := wf_cons.mp hw
    rw [push, flatten_cons]
    split
    · rename_i hk
      have hsame : ∀ x ∈ b.items, before (key a) (key x) = false := fun x hx => by
        rw [ha, hkey x hx, hk, ho.irrefl]
      have hrest : ∀ x ∈ flatten bs, before (key a) (key x) = true := fun x hx => by
        rw [ha, ← hk]; exact Wf.before_of_mem_flatten hb hw' hx
      rw [insertBehind_append hsame, insertBehind_head hrest]
      simp
    · split <;> rename_i hlt
      · have hall : ∀ x ∈ b.items ++ flatten bs, before (key a) (key x) = true := fun x hx => by
          rw [ha]
          rcases List.mem_append.mp hx with hx | hx
          · rw [hkey x hx]; exact hlt
          · exact ho.trans _ _ _ hlt (Wf.before_of_mem_flatten hb hw' hx)
        rw [insertBehind_head hall]
        rfl
      · have hpast : ∀ x ∈ b.items, before (key a) (key x) = false := fun x hx => by
          rw [ha, hkey x hx]; simpa using hlt
        rw [insertBehind_append hpast, flatten_cons, ih hw']

theorem mem_push {c : Bucket κ α} {a : α} (h : c ∈ push before k a bs) :
    c = ⟨k, [a]⟩ ∨ c ∈ bs ∨ ∃ d ∈ bs, d.key = k ∧ c = ⟨d.key, d.items ++ [a]⟩ := by
  induction bs with
  | nil => exact .inl (by simpa [push] using h)
  | cons d bs ih =>
    rw [push] at h
    split at h
    · rename_i hk
      rcases List.mem_cons.mp h with rfl | h
      · exact .inr (.inr ⟨d, List.mem_cons_self, hk, rfl⟩)
      · exact .inr (.inl (List.mem_cons_of_mem _ h))
    · split at h
      · rcases List.mem_cons.mp h with rfl | h
        · exact .inl rfl
        · exact .inr (.inl h)
      · rcases List.mem_cons.mp h with rfl | h
        · exact .inr (.inl List.mem_cons_self)
        · rcases ih h with rfl | h | ⟨e, he, hk, rfl⟩
          · exact .inl rfl
          · exact .inr (.inl (List.mem_cons_of_mem _ h))
          · exact .inr (.inr ⟨e, List.mem_cons_of_mem _ he, hk, rfl⟩)

theorem push_wf (ho : StrictOrder before) (hw : Wf before key bs) {a : α} (ha : key a = k) :
    Wf before key (push before k a bs) := by
  induction bs with
  | nil => exact wf_cons.mpr ⟨by simp, by simp, by simp [ha], wf_nil⟩
  | cons b bs ih =>
    obtain ⟨hb, hne, hkey, hw'⟩ := wf_cons.mp hw
    rw [push]
    split <;> rename_i hk
    · exact wf_cons.mpr ⟨hb, by simp, List.forall_mem_append.mpr ⟨hkey, by simp [ha, hk]⟩, hw'⟩
    · split <;> rename_i hlt
      · refine wf_cons.mpr ⟨fun c hc => ?_, by simp, by simp [ha], hw⟩
        rcases List.mem_cons.mp hc with rfl | hc
        · exact hlt
        · exact ho.trans _ _ _ hlt (hb c hc)
      · have hbk : before b.key k = true := ho.total k b.key (Ne.symm hk) (by simpa using hlt)
        refine wf_cons.mpr ⟨fun c hc => ?_, hne, hkey, ih hw'⟩
        rcases mem_push hc with rfl | hc | ⟨d, hd, -, rfl⟩
        · exact hbk
        · exact hb c hc
        · exact hb d hd

end Update

theorem takeWhile_flatten [DecidableEq κ] (ho : StrictOrder before) (hw : Wf before key (b :: bs)) :
    (flatten (b :: bs)).takeWhile (fun a => decide (key a = b.key)) = b.items := by
  obtain ⟨hb, -, hkey, hw⟩ := wf_cons.mp hw
  have hrest : (flatten bs).takeWhile (fun a => decide (key a = b.key)) = [] := by
    cases hf : flatten bs with
    | nil => rfl
    | cons x l =>
      have hx : x ∈ flatten bs := hf ▸ List.mem_cons_self
      have hne : key x ≠ b.key := fun he => by
        have := Wf.before_of_mem_flatten hb hw hx
        rw [he, ho.irrefl] at this
        cases this
      simp [hne]
  rw [flatten_cons, List.takeWhile_append_of_pos (fun a ha => by simpa using hkey a ha), hrest,
    List.append_nil]

/-- The items under one key are those of its bucket. -/
theorem Wf.filter_flatten [DecidableEq κ] (ho : StrictOrder before) (hw : Wf before key bs)
    (hb : b ∈ bs) : (flatten bs).filter (fun a => decide (key a = b.key)) = b.items := by
  induction bs with
  | nil => cases hb
  | cons c bs ih =>
    obtain ⟨hc, -, hkey, hw'⟩ := wf_cons.mp hw
    rw [flatten_cons, List.filter_append]
    rcases List.mem_cons.mp hb with rfl | hb
    · have hself : b.items.filter (fun a => decide (key a = b.key)) = b.items :=
        List.filter_eq_self.mpr fun a ha => decide_eq_true (hkey a ha)
      have hrest : (flatten bs).filter (fun a => decide (key a = b.key)) = [] := by
        apply List.filter_eq_nil_iff.mpr
        intro a ha he
        have := Wf.before_of_mem_flatten hc hw' ha
        rw [of_decide_eq_true he, ho.irrefl] at this
        cases this
      rw [hself, hrest, List.append_nil]
    · have hfirst : c.items.filter (fun a => decide (key a = b.key)) = [] := by
        apply List.filter_eq_nil_iff.mpr
        intro a ha he
        exact ho.key_ne (hc b hb) ((of_decide_eq_true he).symm.trans (hkey a ha))
      rw [hfirst, List.nil_append, ih hw' hb]

/-- Well-formed buckets are determined by the flat list. -/
theorem flatten_injective [DecidableEq κ] (ho : StrictOrder before) (hb : Wf before key bs)
    (hc : Wf before key cs) (h : flatten bs = flatten cs) : bs = cs := by
  induction bs generalizing cs with
  | nil =>
    cases cs with
    | nil => rfl
    | cons c cs =>
      have := (wf_cons.mp hc).2.1
      simp only [flatten_nil, flatten_cons] at h
      exact absurd (List.append_eq_nil_iff.mp h.symm).1 this
  | cons b bs ih =>
    obtain ⟨-, hbne, hbkey, hbw⟩ := wf_cons.mp hb
    cases cs with
    | nil => exact absurd (List.append_eq_nil_iff.mp h).1 hbne
    | cons c cs =>
      obtain ⟨-, hcne, hckey, hcw⟩ := wf_cons.mp hc
      -- both lists start with the same item, so the first keys agree
      obtain ⟨x, l, hx⟩ := List.exists_cons_of_ne_nil hbne
      obtain ⟨y, m, hy⟩ := List.exists_cons_of_ne_nil hcne
      have hxy : x = y := by
        have := h
        rw [flatten_cons, flatten_cons, hx, hy] at this
        exact (List.cons.inj this).1
      have hk : b.key = c.key := by
        rw [← hbkey x (by simp [hx]), ← hckey y (by simp [hy]), hxy]
      have hi : b.items = c.items := by
        rw [← takeWhile_flatten ho hb, ← takeWhile_flatten ho hc, h, hk]
      have hrest : flatten bs = flatten cs := by
        rw [flatten_cons, flatten_cons, hi] at h
        exact List.append_cancel_left h
      obtain ⟨bk, bi⟩ := b
      obtain ⟨ck, ci⟩ := c
      obtain rfl : bk = ck := hk
      obtain rfl : bi = ci := hi
      rw [ih hbw hcw hrest]

end Buckets
