import Mathlib.Data.List.DropRight
import Mathlib.Data.List.Infix

/-!
# Words

Three facts about lists of letters. Blanks are taken off both ends, and what is
left is blank at neither end. Letters are written as words of a code that is
read from the front, and a cut through a text is a text again only between two
words. Fields are written as their length, in a prefix of fixed width, and then
themselves, and they are recovered from their concatenation.
-/
namespace Trimming

variable {α : Type*} {blank : α → Bool} {l m : List α}

def trim (blank : α → Bool) (l : List α) : List α := (l.dropWhile blank).rdropWhile blank

/-- Blank at neither end. -/
structure Trimmed (blank : α → Bool) (l : List α) : Prop where
  first : ∀ a ∈ l.head?, blank a = false
  last : ∀ a ∈ l.getLast?, blank a = false

theorem Trimmed.trim_eq (h : Trimmed blank l) : trim blank l = l := by
  have hfirst : l.dropWhile blank = l := by
    cases l with
    | nil => rfl
    | cons a l => rw [List.dropWhile_cons_of_neg (by simp [h.first a rfl])]
  unfold trim
  rw [hfirst, List.rdropWhile_eq_self_iff]
  intro hne
  rw [h.last _ (List.getLast?_eq_getLast_of_ne_nil hne)]
  exact Bool.false_ne_true

theorem trimmed_trim (l : List α) : Trimmed blank (trim blank l) where
  first a ha := by
    -- what is taken off at the end leaves the first element, unless it leaves nothing
    have hhead : a ∈ (l.dropWhile blank).head? := by
      obtain ⟨rest, hrest⟩ := List.head?_eq_some_iff.mp ha
      have hprefix : a :: rest <+: l.dropWhile blank := hrest ▸ List.rdropWhile_prefix blank _
      obtain ⟨tail, htail⟩ := hprefix
      rw [← htail]
      rfl
    have hnot := List.head?_dropWhile_not blank l
    rw [Option.mem_def.mp hhead] at hnot
    exact hnot
  last a ha := by
    have hne : trim blank l ≠ [] := by
      intro hnil
      rw [hnil] at ha
      cases ha
    have hlast := List.rdropWhile_last_not blank (l.dropWhile blank) hne
    rw [List.getLast?_eq_getLast_of_ne_nil hne] at ha
    rw [← Option.some.inj ha]
    exact Bool.eq_false_iff.mpr hlast

@[simp] theorem trim_trim (l : List α) : trim blank (trim blank l) = trim blank l :=
  (trimmed_trim l).trim_eq

theorem Trimmed.of_forall (h : ∀ a ∈ l, blank a = false) : Trimmed blank l where
  first a ha := h a (List.mem_of_mem_head? ha)
  last a ha := h a (List.mem_of_getLast? ha)

/-- A function that makes no blanks keeps a trimmed list trimmed. -/
theorem Trimmed.map {f : α → α} (h : Trimmed blank l)
    (hf : ∀ a, blank a = false → blank (f a) = false) : Trimmed blank (l.map f) where
  first a ha := by
    rw [List.head?_map] at ha
    obtain ⟨b, hb, rfl⟩ := Option.map_eq_some_iff.mp ha
    exact hf b (h.first b hb)
  last a ha := by
    rw [List.getLast?_map] at ha
    obtain ⟨b, hb, rfl⟩ := Option.map_eq_some_iff.mp ha
    exact hf b (h.last b hb)

theorem Trimmed.append (hl : Trimmed blank l) (hm : Trimmed blank m) (hl' : l ≠ []) (hm' : m ≠ []) :
    Trimmed blank (l ++ m) where
  first a ha := hl.first a (by rwa [List.head?_append_of_ne_nil l hl'] at ha)
  last a ha := hm.last a (by rwa [List.getLast?_append_of_ne_nil l hm'] at ha)

end Trimming

namespace PrefixCode

variable {α β : Type*} {code : α → List β} {xs ys : List α}

structure Readable (code : α → List β) : Prop where
  ne_nil : ∀ a, code a ≠ []
  first : ∀ a b r r', code a ++ r = code b ++ r' → a = b

/-- What a text starts with, letter by letter. -/
theorem Readable.prefix_of_encoded (h : Readable code) (hp : xs.flatMap code <+: ys.flatMap code) :
    xs <+: ys := by
  induction xs generalizing ys with
  | nil => exact List.nil_prefix
  | cons x xs ih =>
    obtain ⟨rest, hrest⟩ := hp
    rw [List.flatMap_cons, List.append_assoc] at hrest
    cases ys with
    | nil => exact absurd (List.append_eq_nil_iff.mp hrest).1 (h.ne_nil x)
    | cons y ys =>
      rw [List.flatMap_cons] at hrest
      cases h.first _ _ _ _ hrest
      rw [List.cons_prefix_cons]
      exact ⟨rfl, ih ⟨rest, List.append_cancel_left hrest⟩⟩

theorem Readable.take_encoded_iff (h : Readable code) (ys : List α) (n : Nat) :
    (∃ xs : List α, (ys.flatMap code).take n = xs.flatMap code) ↔
      (ys.flatMap code).length ≤ n ∨ ∃ k, ((ys.take k).flatMap code).length = n := by
  constructor
  · intro ⟨xs, hxs⟩
    by_cases hn : (ys.flatMap code).length ≤ n
    · exact .inl hn
    · right
      have hprefix : xs <+: ys := h.prefix_of_encoded (hxs ▸ List.take_prefix n _)
      use xs.length
      rw [← List.prefix_iff_eq_take.mp hprefix, ← hxs, List.length_take]
      omega
  · intro hcut
    rcases hcut with hn | ⟨k, hk⟩
    · exact ⟨ys, List.take_of_length_le hn⟩
    · use ys.take k
      have hsplit : ys.flatMap code = (ys.take k).flatMap code ++ (ys.drop k).flatMap code := by
        rw [← List.flatMap_append, List.take_append_drop]
      rw [hsplit, ← hk, List.take_left]

end PrefixCode

namespace Framing

variable {α : Type}

def frame (size : Nat → List α) (field : List α) : List α := size field.length ++ field

/-- Prefixes of one width that differ below `bound`. -/
structure Prefixes (size : Nat → List α) (width bound : Nat) : Prop where
  length : ∀ n, (size n).length = width
  inj : ∀ m n, m < bound → n < bound → size m = size n → m = n

variable {size : Nat → List α} {width bound : Nat} {x y r r' : List α} {xs ys : List (List α)}

/-- The first field splits off. -/
theorem Prefixes.frame_append (hp : Prefixes size width bound) (hx : x.length < bound)
    (hy : y.length < bound) (h : frame size x ++ r = frame size y ++ r') : x = y ∧ r = r' := by
  unfold frame at h
  rw [List.append_assoc, List.append_assoc] at h
  obtain ⟨hsize, hrest⟩ := List.append_inj h (by rw [hp.length, hp.length])
  exact List.append_inj hrest (hp.inj _ _ hx hy hsize)

theorem Prefixes.flatMap_frame (hp : Prefixes size width bound) (hlength : xs.length = ys.length)
    (hx : ∀ x ∈ xs, x.length < bound) (hy : ∀ y ∈ ys, y.length < bound)
    (h : xs.flatMap (frame size) = ys.flatMap (frame size)) : xs = ys := by
  induction xs generalizing ys with
  | nil => exact (List.eq_nil_of_length_eq_zero hlength.symm).symm
  | cons x xs ih =>
    cases ys with
    | nil => cases hlength
    | cons y ys =>
      obtain ⟨rfl, hrest⟩ := hp.frame_append (hx x (by simp)) (hy y (by simp)) h
      rw [ih (Nat.succ.inj hlength) (fun z hz => hx z (List.mem_cons_of_mem _ hz))
        (fun z hz => hy z (List.mem_cons_of_mem _ hz)) hrest]

end Framing
