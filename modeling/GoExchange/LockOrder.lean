import GoExchange.Lts
import Mathlib.Data.List.Perm.Basic
import Mathlib.Data.List.Sort

/-!
# Row locks and the order they are taken in

Transactions ask for rows one after another and keep what they got until they
end. If each asks for the rows of one kind, the first time it asks for any of
them, in ascending order, then no transactions wait for each other in a circle
over rows of that kind.
-/
namespace Locking

/-! ## First requests -/

section Firsts

variable {ν : Type} [LinearOrder ν] {ks seen : List ν}

/-- The requests for rows that are not yet among `seen`. -/
def firstsFrom (seen : List ν) : List ν → List ν
  | [] => []
  | k :: ks => if k ∈ seen then firstsFrom seen ks else k :: firstsFrom (k :: seen) ks

/-- Each row once, at its first request. -/
def firsts (ks : List ν) : List ν := firstsFrom [] ks

/-- The requests `ks` go on in ascending order from the rows in `seen`. -/
def Ascends : List ν → List ν → Prop
  | _, [] => True
  | seen, k :: ks => (k ∈ seen ∨ ∀ h ∈ seen, h < k) ∧ Ascends (k :: seen) ks

theorem ascends_congr {seen' : List ν} (h : ∀ k, k ∈ seen ↔ k ∈ seen') (ks : List ν) :
    Ascends seen ks ↔ Ascends seen' ks := by
  induction ks generalizing seen seen' with
  | nil => exact Iff.rfl
  | cons k ks ih =>
    have hcons : ∀ x, x ∈ k :: seen ↔ x ∈ k :: seen' := by simp [h]
    simp only [Ascends, h, ih hcons]

theorem ascends_of_firstsFrom (hlt : ∀ k ∈ firstsFrom seen ks, ∀ h ∈ seen, h < k)
    (hp : (firstsFrom seen ks).Pairwise (· < ·)) : Ascends seen ks := by
  induction ks generalizing seen with
  | nil => trivial
  | cons k ks ih =>
    by_cases hk : k ∈ seen
    · simp only [firstsFrom, if_pos hk] at hlt hp
      have hsame : ∀ x, x ∈ seen ↔ x ∈ k :: seen := by
        intro x
        rw [List.mem_cons]
        constructor
        · exact .inr
        · rintro (rfl | hx)
          · exact hk
          · exact hx
      exact ⟨.inl hk, (ascends_congr hsame ks).mp (ih hlt hp)⟩
    · simp only [firstsFrom, if_neg hk, List.pairwise_cons] at hlt hp
      refine ⟨.inr fun h hh => hlt k List.mem_cons_self h hh, ih (fun x hx h hh => ?_) hp.2⟩
      rcases List.mem_cons.mp hh with rfl | hh
      · exact hp.1 x hx
      · exact hlt x (List.mem_cons_of_mem _ hx) h hh

theorem ascends_of_firsts (h : (firsts ks).Pairwise (· < ·)) : Ascends [] ks :=
  ascends_of_firstsFrom (by simp) h

theorem firstsFrom_of_subset (h : ks ⊆ seen) : firstsFrom seen ks = [] := by
  induction ks with
  | nil => rfl
  | cons k ks ih =>
    rw [List.cons_subset] at h
    simp only [firstsFrom, if_pos h.1, ih h.2]

theorem firstsFrom_append {rest : List ν} (hn : ks.Nodup) (hd : ∀ k ∈ ks, k ∉ seen)
    (hr : ∀ k ∈ rest, k ∈ seen ∨ k ∈ ks) : firstsFrom seen (ks ++ rest) = ks := by
  induction ks generalizing seen with
  | nil => exact firstsFrom_of_subset fun k hk => (hr k hk).resolve_right (by simp)
  | cons k ks ih =>
    rw [List.nodup_cons] at hn
    have hk : k ∉ seen := hd k List.mem_cons_self
    simp only [List.cons_append, firstsFrom, if_neg hk]
    rw [ih hn.2]
    · intro x hx
      simp only [List.mem_cons, not_or]
      exact ⟨fun he => hn.1 (he ▸ hx), hd x (List.mem_cons_of_mem _ hx)⟩
    · intro x hx
      rcases hr x hx with hx | hx
      · exact .inl (List.mem_cons_of_mem _ hx)
      · rcases List.mem_cons.mp hx with rfl | hx
        · exact .inl List.mem_cons_self
        · exact .inr hx

/-- Rows asked for in ascending order, and then only rows among them. -/
theorem firsts_append {rest : List ν} (hp : ks.Pairwise (· < ·)) (hr : rest ⊆ ks) :
    firsts (ks ++ rest) = ks :=
  firstsFrom_append (hp.imp ne_of_lt) (by simp) fun _ hk => .inr (hr hk)

/-- The rows that a query finds, in the order of their distinct keys. -/
theorem pairwise_map_insertionSort {α : Type} (key : α → Nat) {xs : List α}
    (hn : (xs.map key).Nodup) :
    ((xs.insertionSort fun x y => key x ≤ key y).map key).Pairwise (· < ·) := by
  have htrans : IsTrans α fun x y => key x ≤ key y := ⟨fun _ _ _ => Nat.le_trans⟩
  have htotal : Std.Total fun x y : α => key x ≤ key y := ⟨fun x y => Nat.le_total (key x) (key y)⟩
  have hle := List.pairwise_insertionSort (fun x y => key x ≤ key y) xs
  have hne : ((xs.insertionSort fun x y => key x ≤ key y).map key).Nodup :=
    ((List.perm_insertionSort _ xs).map key).nodup_iff.mpr hn
  rw [List.pairwise_map]
  have hne' := List.pairwise_map.mp hne
  exact hle.imp₂ (fun _ _ => Nat.lt_of_le_of_ne) hne'

/-- The rows of the kind are first locked in ascending order, and none outside them later. -/
def InOrder {ρ : Type} (key : ρ → Option ν) (rows : List ρ) : Prop :=
  ∃ first later, rows.filterMap key = first ++ later ∧ first.Pairwise (· < ·) ∧ later ⊆ first

theorem InOrder.firsts {ρ : Type} {key : ρ → Option ν} {rows : List ρ} (h : InOrder key rows) :
    (firsts (rows.filterMap key)).Pairwise (· < ·) := by
  obtain ⟨first, later, he, hp, hsub⟩ := h
  rw [he, firsts_append hp hsub]
  exact hp

end Firsts

/-! ## Computations that lock rows -/

variable {ρ : Type}

/-- A fallible computation with the rows it asks for, in order; one that fails asks for no more. -/
structure Traced (ρ ε α : Type) where
  trace : List ρ
  result : Except ε α

namespace Traced

variable {ε α β : Type}

/-- A computation that locks nothing. -/
def lift (x : Except ε α) : Traced ρ ε α := ⟨[], x⟩

def bind (x : Traced ρ ε α) (f : α → Traced ρ ε β) : Traced ρ ε β :=
  match x.result with
  | .ok a => ⟨x.trace ++ (f a).trace, (f a).result⟩
  | .error e => ⟨x.trace, .error e⟩

instance : Monad (Traced ρ ε) where
  pure a := lift (.ok a)
  bind := bind

variable {x : Traced ρ ε α} {f : α → Traced ρ ε β}

@[simp] theorem result_pure (a : α) : (pure a : Traced ρ ε α).result = .ok a := rfl

@[simp] theorem result_lift (x : Except ε α) : (lift x : Traced ρ ε α).result = x := rfl

@[simp] theorem result_bind (x : Traced ρ ε α) (f : α → Traced ρ ε β) :
    (x >>= f).result = x.result >>= fun a => (f a).result := by
  change (bind x f).result = _
  unfold bind
  cases x.result <;> rfl

theorem trace_bind_ok {a : α} (h : x.result = .ok a) :
    (x >>= f).trace = x.trace ++ (f a).trace := by
  change (bind x f).trace = _
  unfold bind
  rw [h]

theorem trace_bind_error {e : ε} (h : x.result = .error e) : (x >>= f).trace = x.trace := by
  change (bind x f).trace = _
  unfold bind
  rw [h]

instance : LawfulMonad (Traced ρ ε) := LawfulMonad.mk' _
  (by
    intro α x
    obtain ⟨trace, result⟩ := x
    cases result with
    | error e => rfl
    | ok a =>
      change (⟨trace ++ [], .ok a⟩ : Traced ρ ε α) = _
      rw [List.append_nil])
  (by intros; rfl)
  (by
    intro α β γ x f g
    obtain ⟨trace, result⟩ := x
    cases result with
    | error e => rfl
    | ok a =>
      change bind ⟨trace ++ (f a).trace, (f a).result⟩ g =
        ⟨trace ++ (bind (f a) g).trace, (bind (f a) g).result⟩
      unfold bind
      cases (f a).result with
      | error e => rfl
      | ok b => simp only [List.append_assoc])

/-- Every row the computation asks for is one of `P`. -/
structure Confined (P : ρ → Prop) (x : Traced ρ ε α) : Prop where
  of_mem : ∀ r ∈ x.trace, P r

section Confined

variable {P Q : ρ → Prop}

theorem Confined.pure (a : α) : Confined P (pure a : Traced ρ ε α) := ⟨nofun⟩

theorem Confined.lift (x : Except ε α) : Confined P (lift x : Traced ρ ε α) := ⟨nofun⟩

theorem Confined.bind (hx : Confined P x) (hf : ∀ a, x.result = .ok a → Confined P (f a)) :
    Confined P (x >>= f) := by
  constructor
  cases hr : x.result with
  | error e =>
    rw [trace_bind_error hr]
    exact hx.of_mem
  | ok a =>
    rw [trace_bind_ok hr]
    intro r h
    rcases List.mem_append.mp h with h | h
    · exact hx.of_mem r h
    · exact (hf a hr).of_mem r h

theorem Confined.lift_bind {x : Except ε α} (hf : ∀ a, x = .ok a → Confined P (f a)) :
    Confined P (Traced.lift x >>= f) :=
  (Confined.lift x).bind hf

theorem Confined.guard {c : Prop} [Decidable c] {e : Except ε α} (h : Confined P x) :
    Confined P (if c then Traced.lift e else x) := by
  split
  · exact .lift e
  · exact h

theorem Confined.mono (h : Confined P x) (hle : ∀ r, P r → Q r) : Confined Q x :=
  ⟨fun r hr => hle r (h.of_mem r hr)⟩

/-- Each pass of the loop stays within `P`, from the states the invariant allows. -/
theorem Confined.foldlM {σ : Type} (I : σ → Prop) {f : σ → α → Traced ρ ε σ} {xs : List α}
    (hstep : ∀ s a, a ∈ xs → I s → Confined P (f s a) ∧ ∀ t, (f s a).result = .ok t → I t) {s : σ}
    (hs : I s) : Confined P (xs.foldlM f s) := by
  induction xs generalizing s with
  | nil => exact .pure s
  | cons a xs ih =>
    rw [List.foldlM_cons]
    have ha := hstep s a List.mem_cons_self hs
    exact ha.1.bind fun t ht => ih (fun s a hm => hstep s a (List.mem_cons_of_mem _ hm)) (ha.2 t ht)

end Confined

theorem result_foldlM {σ : Type} {f : σ → α → Traced ρ ε σ} {g : σ → α → Except ε σ}
    (h : ∀ s a, (f s a).result = g s a) (xs : List α) (s : σ) :
    (xs.foldlM f s).result = xs.foldlM g s := by
  induction xs generalizing s with
  | nil => rfl
  | cons a xs ih =>
    rw [List.foldlM_cons, List.foldlM_cons, result_bind, h]
    congr 1
    funext t
    exact ih t

section Ascending

variable {ν : Type} {key : ρ → Option ν}

/-- The computation asks for no row of the kind. -/
abbrev Silent (key : ρ → Option ν) (x : Traced ρ ε α) : Prop := Confined (fun r => key r = none) x

theorem Silent.filterMap_trace (h : Silent key x) : x.trace.filterMap key = [] :=
  List.filterMap_eq_nil_iff.mpr h.of_mem

theorem within_of_silent {ks : List ν} (h : Silent key x) :
    Confined (fun r => ∀ k, key r = some k → k ∈ ks) x :=
  h.mono fun _ hr _ hk => absurd (hr.symm.trans hk) nofun

variable [LinearOrder ν]

/-- The computation locks the rows of the kind in order. -/
def Ascending (key : ρ → Option ν) (x : Traced ρ ε α) : Prop := InOrder key x.trace

theorem Silent.ascending (h : Silent key x) : Ascending key x :=
  ⟨[], [], h.filterMap_trace, .nil, List.nil_subset _⟩

theorem Silent.bind_ascending (h : Silent key x)
    (hf : ∀ a, x.result = .ok a → Ascending key (f a)) : Ascending key (x >>= f) := by
  cases hr : x.result with
  | error e =>
    unfold Ascending
    rw [trace_bind_error hr]
    exact h.ascending
  | ok a =>
    obtain ⟨first, later, he, hp, hsub⟩ := hf a hr
    refine ⟨first, later, ?_, hp, hsub⟩
    rw [trace_bind_ok hr, List.filterMap_append, h.filterMap_trace, List.nil_append, he]

theorem ascending_lift_bind {x : Except ε α} (hf : ∀ a, x = .ok a → Ascending key (f a)) :
    Ascending key (lift x >>= f) :=
  Silent.bind_ascending (.lift x) hf

theorem Ascending.guard {c : Prop} [Decidable c] {e : Except ε α} (h : Ascending key x) :
    Ascending key (if c then lift e else x) := by
  split
  · exact Silent.ascending (.lift e)
  · exact h

theorem ascending_of_pairwise (h : (x.trace.filterMap key).Pairwise (· < ·)) : Ascending key x :=
  ⟨_, [], (List.append_nil _).symm, h, List.nil_subset _⟩

/-- A computation that asks for no row of the kind but those already locked. -/
theorem Ascending.bind (hx : Ascending key x)
    (hf : ∀ a, x.result = .ok a →
      Confined (fun r => ∀ k, key r = some k → k ∈ x.trace.filterMap key) (f a)) :
    Ascending key (x >>= f) := by
  cases hr : x.result with
  | error e =>
    unfold Ascending
    rw [trace_bind_error hr]
    exact hx
  | ok a =>
    obtain ⟨first, later, he, hp, hsub⟩ := hx
    refine ⟨first, later ++ (f a).trace.filterMap key, ?_, hp, fun k hk => ?_⟩
    · rw [trace_bind_ok hr, List.filterMap_append, he, List.append_assoc]
    · rcases List.mem_append.mp hk with hk | hk
      · exact hsub hk
      · obtain ⟨r, hr', hk⟩ := List.mem_filterMap.mp hk
        have hmem := (hf a hr).of_mem r hr' k hk
        rw [he] at hmem
        exact (List.mem_append.mp hmem).elim id fun h => hsub h

theorem Ascending.bind_silent (hx : Ascending key x)
    (hf : ∀ a, x.result = .ok a → Silent key (f a)) : Ascending key (x >>= f) :=
  hx.bind fun a ha => within_of_silent (hf a ha)

end Ascending

end Traced

/-! ## The lock table -/

/-- A transaction: the rows it holds and, in order, those it still asks for. -/
structure Txn (ρ : Type) where
  held : List ρ
  wants : List ρ
  deriving DecidableEq, Repr

inductive Label (ρ : Type) where
  | start (wants : List ρ)
  | acquire (i : Nat)
  | finish (i : Nat)
  deriving DecidableEq, Repr

/-- A transaction starts, gets the next row unless another one holds it, or ends, be it before its
last request. -/
def step [DecidableEq ρ] : Label ρ → List (Txn ρ) → Option (List (Txn ρ))
  | .start wants, s => some (s ++ [⟨[], wants⟩])
  | .acquire i, s =>
    match s[i]? with
    | some ⟨held, r :: rest⟩ =>
      if ∀ t ∈ s.eraseIdx i, r ∉ t.held then some (s.set i ⟨r :: held, rest⟩) else none
    | _ => none
  | .finish i, s => if i < s.length then some (s.eraseIdx i) else none

section Waiting

variable {ν : Type} (key : ρ → Option ν)

/-- Transaction `i` waits for a row of the kind that `j` holds. -/
def WaitsFor (s : List (Txn ρ)) (i j : Nat) : Prop :=
  i ≠ j ∧ ∃ t u r rest k, s[i]? = some t ∧ s[j]? = some u ∧ t.wants = r :: rest ∧
    key r = some k ∧ r ∈ u.held

def CyclicWait (s : List (Txn ρ)) : Prop := ∃ i, Relation.TransGen (WaitsFor key s) i i

end Waiting

/-- No two transactions hold one row. -/
def Exclusive (s : List (Txn ρ)) : Prop := s.Pairwise fun t u => List.Disjoint t.held u.held

section Order

variable {ν : Type} [LinearOrder ν] {key : ρ → Option ν} {s s' : List (Txn ρ)} {i j m : Nat}
  {ok : List (Txn ρ) → Label ρ → Prop}

/-- What the transaction asks for goes on in ascending order from what it holds. -/
def Txn.Ordered (key : ρ → Option ν) (t : Txn ρ) : Prop :=
  Ascends (t.held.filterMap key) (t.wants.filterMap key)

structure Inv (key : ρ → Option ν) (s : List (Txn ρ)) : Prop where
  exclusive : Exclusive s
  ordered : ∀ t ∈ s, t.Ordered key

theorem Txn.Ordered.acquire {held rest : List ρ} {r : ρ} (h : Txn.Ordered key ⟨held, r :: rest⟩) :
    Txn.Ordered key ⟨r :: held, rest⟩ := by
  unfold Txn.Ordered at h ⊢
  cases hk : key r with
  | none => simpa [hk] using h
  | some k =>
    simp only [List.filterMap_cons, hk, Ascends] at h ⊢
    exact h.2

theorem Exclusive.get (h : Exclusive s) {t u : Txn ρ} (ht : s[i]? = some t) (hu : s[j]? = some u)
    (hij : i ≠ j) : List.Disjoint t.held u.held := by
  obtain ⟨hi, rfl⟩ := List.getElem?_eq_some_iff.mp ht
  obtain ⟨hj, rfl⟩ := List.getElem?_eq_some_iff.mp hu
  have hp := List.pairwise_iff_getElem.mp h
  rcases Nat.lt_or_gt_of_ne hij with hlt | hlt
  · exact hp i j hi hj hlt
  · exact List.disjoint_symm (hp j i hj hi hlt)

theorem Inv.step [DecidableEq ρ] (h : Inv key s) {l : Label ρ}
    (hl : ∀ wants, l = .start wants → Ascends [] (wants.filterMap key)) (hs : step l s = some s') :
    Inv key s' := by
  cases l with
  | start wants =>
    cases hs
    refine ⟨List.pairwise_append.mpr ⟨h.exclusive, List.pairwise_singleton _ _, ?_⟩, fun t ht => ?_⟩
    · intro t _ u hu
      rw [List.mem_singleton] at hu
      subst hu
      exact List.disjoint_nil_right _
    · rcases List.mem_append.mp ht with ht | ht
      · exact h.ordered t ht
      · rw [List.mem_singleton] at ht
        subst ht
        exact hl wants rfl
  | acquire i =>
    simp only [Locking.step] at hs
    split at hs
    · rename_i held r rest hi
      obtain ⟨hfree, rfl⟩ := Lts.of_enabled hs
      obtain ⟨hlt, he⟩ := List.getElem?_eq_some_iff.mp hi
      have hset : (s.set i ⟨r :: held, rest⟩).Perm (⟨r :: held, rest⟩ :: s.eraseIdx i) :=
        List.set_perm_cons_eraseIdx hlt _
      have hold : s.Perm (⟨held, r :: rest⟩ :: s.eraseIdx i) := by
        rw [← he]
        exact (List.getElem_cons_eraseIdx_perm hlt).symm
      have hsymm : ∀ {t u : Txn ρ}, List.Disjoint t.held u.held → List.Disjoint u.held t.held :=
        List.disjoint_symm
      have hex := (hold.pairwise_iff hsymm).mp h.exclusive
      rw [List.pairwise_cons] at hex
      refine ⟨(hset.pairwise_iff hsymm).mpr (List.pairwise_cons.mpr ⟨fun u hu => ?_, hex.2⟩),
        fun t ht => ?_⟩
      · exact List.disjoint_cons_left.mpr ⟨hfree u hu, hex.1 u hu⟩
      · rcases List.mem_cons.mp (hset.mem_iff.mp ht) with rfl | ht
        · exact (h.ordered _ (List.mem_of_getElem? hi)).acquire
        · exact h.ordered t (List.mem_of_mem_eraseIdx ht)
    · cases hs
  | finish i =>
    obtain ⟨-, rfl⟩ := Lts.of_enabled hs
    exact ⟨h.exclusive.sublist (List.eraseIdx_sublist _ _),
      fun t ht => h.ordered t (List.mem_of_mem_eraseIdx ht)⟩

theorem reach_inv [DecidableEq ρ]
    (hok : ∀ s wants, ok s (.start wants) → Ascends [] (wants.filterMap key))
    (h : Lts.Reach step ok [] s) : Inv key s := by
  apply Lts.Reach.invariant (Inv key) ⟨List.Pairwise.nil, nofun⟩ _ h
  intro t a u _ hI ha hs
  exact hI.step (fun wants hl => hok t wants (hl ▸ ha)) hs

/-- The row a transaction waits for lies before the one its holder waits for. -/
theorem Inv.waits_lt (h : Inv key s) (hinj : ∀ r r' k, key r = some k → key r' = some k → r = r')
    (hij : WaitsFor key s i j) (hjm : WaitsFor key s j m) :
    ∃ t u k k', s[i]? = some t ∧ s[j]? = some u ∧ t.wants.head?.bind key = some k ∧
      u.wants.head?.bind key = some k' ∧ k < k' := by
  obtain ⟨-, t, u, r, rest, k, ht, hu, hr, hk, hheld⟩ := hij
  obtain ⟨hne, u', w, r', rest', k', hu', hw, hr', hk', hheld'⟩ := hjm
  obtain rfl : u = u' := Option.some.inj (hu.symm.trans hu')
  refine ⟨t, u, k, k', ht, hu, by simp [hr, hk], by simp [hr', hk'], ?_⟩
  have hord := h.ordered u (List.mem_of_getElem? hu)
  simp only [Txn.Ordered, hr', List.filterMap_cons, hk', Ascends] at hord
  rcases hord.1 with hmem | hlt
  · -- it would wait for a row it holds itself, which nobody else can hold
    obtain ⟨q, hq, hqk⟩ := List.mem_filterMap.mp hmem
    obtain rfl := hinj q r' k' hqk hk'
    exact absurd hheld' (h.exclusive.get hu hw hne hq)
  · exact hlt k (List.mem_filterMap.mpr ⟨r, hheld, hk⟩)

theorem Inv.chain_lt (h : Inv key s) (hinj : ∀ r r' k, key r = some k → key r' = some k → r = r')
    (hij : Relation.TransGen (WaitsFor key s) i j) (hjm : WaitsFor key s j m) :
    ∃ t u k k', s[i]? = some t ∧ s[j]? = some u ∧ t.wants.head?.bind key = some k ∧
      u.wants.head?.bind key = some k' ∧ k < k' := by
  induction hij generalizing m with
  | single hij => exact h.waits_lt hinj hij hjm
  | tail _ hbj ih =>
    obtain ⟨t, b, k, kb, ht, hb, hk, hkb, hlt⟩ := ih hbj
    obtain ⟨b', u, kb', k', hb', hu, hkb', hk', hlt'⟩ := h.waits_lt hinj hbj hjm
    obtain rfl : b = b' := Option.some.inj (hb.symm.trans hb')
    obtain rfl : kb = kb' := Option.some.inj (hkb.symm.trans hkb')
    exact ⟨t, u, k, k', ht, hu, hk, hk', hlt.trans hlt'⟩

theorem Inv.not_cyclicWait (h : Inv key s)
    (hinj : ∀ r r' k, key r = some k → key r' = some k → r = r') : ¬CyclicWait key s := by
  rintro ⟨i, hi⟩
  obtain ⟨m, him, -⟩ := Relation.TransGen.head'_iff.mp hi
  obtain ⟨t, u, k, k', ht, hu, hk, hk', hlt⟩ := h.chain_lt hinj hi him
  obtain rfl : t = u := Option.some.inj (ht.symm.trans hu)
  obtain rfl : k = k' := Option.some.inj (hk.symm.trans hk')
  exact lt_irrefl k hlt

/-- Transactions that ask for the rows of a kind in ascending order never wait in a circle over
them. -/
theorem reach_no_cyclicWait [DecidableEq ρ]
    (hinj : ∀ r r' k, key r = some k → key r' = some k → r = r')
    (hok : ∀ s wants, ok s (.start wants) → InOrder key wants) (h : Lts.Reach step ok [] s) :
    ¬CyclicWait key s :=
  (reach_inv (fun s wants hw => ascends_of_firsts (hok s wants hw).firsts) h).not_cyclicWait hinj

end Order

end Locking
