import GoExchange.HoldsSound
import GoExchange.TransferChange

/-!
# The locked balances under transfers

A withdrawal locks its amount when its request is stored, and the first final
answer takes it out of the lock. The reference of the outside world is unique,
so that this journal is new.
-/
namespace GoExchange.Holds

open Ledger Service Rows Tally Fallible
open TransferRun (Change Numbered Paid Progress asMade entriesOf)

variable {b b' : Bank} {t t' : Tables} {w w' : TransferRequest}
  {es : List (JournalKey × List PostingInput)} {g : TransferRequest → TransferRequest}

/-- Sequence values may be lost. -/
theorem BankOk.lost (h : BankOk b) {ledger : Tables} (hl : Sound ledger)
    (hj : ledger.journals = b.ledger.journals)
    (hlocked : ∀ u, lockedOf ledger u = lockedOf b.ledger u) (m n r : Nat) :
    BankOk { b with
      ledger := ledger, orderSeq := b.orderSeq + m, tradeSeq := b.tradeSeq + n,
      transferSeq := b.transferSeq + r } := by
  refine ⟨hl, h.orderIDs, fun x hx => ?_, h.shape, fun x hx => ?_, h.transferIDs,
    fun x hx => ?_, h.refs, ?_, fun u => (hlocked u).trans (h.locked u)⟩
  · exact (h.orderSeq x hx).trans (Nat.le_add_right _ _)
  · exact (h.trades x hx).trans (Nat.le_add_right _ _)
  · exact (h.transferSeq x hx).trans (Nat.le_add_right _ _)
  · intro key hkey
    obtain ⟨k, htext, hk⟩ := h.keys key (by rw [← hj]; exact hkey)
    refine ⟨k, htext, ?_⟩
    cases k with
    | orderHold id => exact Nat.le_trans hk (Nat.le_add_right _ _)
    | withdrawHold id => exact Nat.le_trans hk (Nat.le_add_right _ _)
    | orderRelease id r => exact hk
    | trade key => exact hk
    | depositSettle ref | withdrawSettle ref | withdrawRefund ref => exact hk

/-! ## One request -/

/-- A change of one request that keeps whose it is and never reopens it. -/
structure Changes (b : Bank) (w : TransferRequest) (g : TransferRequest → TransferRequest) :
    Prop where
  ids : ∀ r, (g r).id = r.id
  party : requestedBy (g w) = requestedBy w
  refs : ∀ x ∈ b.transfers, x.id ≠ w.id → (g w).externalRef.isSome →
    (g w).externalRef ≠ x.externalRef
  final : w.status.isTerminal = true → (g w).status.isTerminal = true ∧
    (g w).externalRef = w.externalRef

theorem BankOk.change (h : BankOk b) (hw : w ∈ b.transfers)
    (hg : Changes b w g) {keys : List String} {events : List TransferStatusEvent}
    (hkeys : ∀ key ∈ keys, ∃ ref, (g w).externalRef = some ref ∧ (g w).status.isTerminal = true ∧
      (key = (JournalKey.depositSettle ref).text ∨ key = (JournalKey.withdrawSettle ref).text ∨
        key = (JournalKey.withdrawRefund ref).text))
    (hm : Moved b.ledger t' keys fun u =>
      if requestedBy w = u then openWithdrawal (g w) - openWithdrawal w else 0) :
    BankOk { b with
      ledger := t', transferEvents := events,
      transfers := modify TransferRequest.id w.id g b.transfers } := by
  have hids : (modify TransferRequest.id w.id g b.transfers).map TransferRequest.id =
      b.transfers.map TransferRequest.id := map_modify _ fun r _ _ => hg.ids r
  have hmem : g w ∈ modify TransferRequest.id w.id g b.transfers :=
    mem_modify.mpr (.inl ⟨w, hw, rfl, rfl⟩)
  have hsettled : ∀ ref, (∃ x ∈ b.transfers, x.externalRef = some ref ∧
      x.status.isTerminal = true) →
      ∃ x ∈ modify TransferRequest.id w.id g b.transfers, x.externalRef = some ref ∧
      x.status.isTerminal = true := by
    rintro ref ⟨x, hx, href, hterm⟩
    by_cases he : x.id = w.id
    · have hxw : x = w := List.inj_on_of_nodup_map h.transferIDs hx hw he
      obtain ⟨hterm', href'⟩ := hg.final (hxw ▸ hterm)
      exact ⟨g w, hmem, href'.trans (hxw ▸ href), hterm'⟩
    · exact ⟨x, mem_modify.mpr (.inr ⟨hx, he⟩), href, hterm⟩
  refine ⟨hm.sound, h.orderIDs, h.orderSeq, h.shape, h.trades, hids.symm ▸ h.transferIDs,
    fun x hx => ?_, ?_, ?_, fun u => ?_⟩
  · rcases mem_modify_row h.transferIDs hw hx with rfl | ⟨hx, -⟩
    · exact (hg.ids w).symm ▸ h.transferSeq w hw
    · exact h.transferSeq x hx
  · intro x hx y hy hsome heq
    rcases mem_modify_row h.transferIDs hw hx with rfl | ⟨hx, hxw⟩ <;>
      rcases mem_modify_row h.transferIDs hw hy with rfl | ⟨hy, hyw⟩
    · rfl
    · exact absurd heq (hg.refs y hy hyw hsome)
    · exact absurd heq.symm (hg.refs x hx hxw (heq ▸ hsome))
    · exact h.refs x hx y hy hsome heq
  · refine h.keys.moved hm (fun k hk => ?_) fun key hkey => ?_
    · cases k with
      | orderHold id => exact hk
      | orderRelease id r => exact hk
      | trade key => exact hk
      | withdrawHold id => exact hk
      | depositSettle ref | withdrawSettle ref | withdrawRefund ref => exact hsettled ref hk
    · obtain ⟨ref, href, hterm, rfl | rfl | rfl⟩ := hkeys key hkey
      all_goals exact ⟨_, rfl, g w, hmem, href, hterm⟩
  · have hsum :
        sumAt requestedBy openWithdrawal (modify TransferRequest.id w.id g b.transfers) u = _ :=
      sumAt_modify h.transferIDs hw hg.party fun _ _ _ => rfl
    have hlocked := h.locked u
    rw [holdsOf] at hlocked
    rw [hm.locked, hlocked, holdsOf, hsum]
    ring

/-- A new request, with what it locks. -/
theorem BankOk.insert (h : BankOk b) (hid : w.id = b.transferSeq + 1) (href : w.externalRef = none)
    {keys : List String} (hkeys : ∀ key ∈ keys, key = (JournalKey.withdrawHold w.id).text)
    (hm : Moved b.ledger t' keys fun u => if requestedBy w = u then openWithdrawal w else 0) :
    BankOk { b with
      ledger := t', transferSeq := b.transferSeq + 1, transfers := b.transfers ++ [w] } := by
  refine ⟨hm.sound, h.orderIDs, h.orderSeq, h.shape, h.trades, ?_,
    forall_mem_concat (fun x hx => ?_) hid.le, ?_, ?_, fun u => ?_⟩
  · exact nodup_concat_succ h.transferIDs h.transferSeq hid
  · exact (h.transferSeq x hx).trans (Nat.le_succ _)
  · intro x hx y hy hsome heq
    have hold : ∀ z ∈ b.transfers ++ [w], z.externalRef.isSome → z ∈ b.transfers := by
      intro z hz hz'
      rcases List.mem_append.mp hz with hz | hz
      · exact hz
      · rw [List.mem_singleton.mp hz, href] at hz'
        cases hz'
    exact h.refs x (hold x hx hsome) y (hold y hy (heq ▸ hsome)) hsome heq
  · refine h.keys.moved hm (fun k hk => ?_) fun key hkey => ⟨_, hkeys key hkey, hid.le⟩
    cases k with
    | orderHold id => exact hk
    | orderRelease id r => exact hk
    | trade key => exact hk
    | withdrawHold id => exact Nat.le_succ_of_le hk
    | depositSettle ref | withdrawSettle ref | withdrawRefund ref =>
      obtain ⟨x, hx, hrest⟩ := hk
      exact ⟨x, List.mem_append_left _ hx, hrest⟩
  · have hlocked := h.locked u
    rw [holdsOf] at hlocked
    simp only [holdsOf, hm.locked, hlocked, sumAt_append, sumAt_cons, sumAt_nil, add_zero]
    ring

theorem BankOk.events (h : BankOk b) (events : List TransferStatusEvent) :
    BankOk { b with transferEvents := events } := by
  refine ⟨h.ledger, h.orderIDs, h.orderSeq, h.shape, h.trades, h.transferIDs, h.transferSeq, h.refs,
    ?_, h.locked⟩
  intro key hkey
  obtain ⟨k, htext, hk⟩ := h.keys key hkey
  exact ⟨k, htext, by cases k <;> exact hk⟩

/-! ## What the journals of a request lock -/

theorem lockedBy_append (xs ys : List PostingInput) (u : Nat × String) :
    lockedBy (xs ++ ys) u = lockedBy xs u + lockedBy ys u := sumAt_append ..

/-- What is paid out or given back is what was locked. -/
theorem lockedBy_entries (w : TransferRequest) (u : Nat × String) :
    lockedBy ((entriesOf w).flatMap Prod.snd) u = if requestedBy w = u then openWithdrawal w
      else 0 := by
  have hnil : lockedBy [] u = 0 := rfl
  unfold entriesOf openWithdrawal
  cases hdir : w.direction <;> cases hst : w.status <;>
    simp [TransferStatus.isTerminal, lockedBy_append, lockedBy_lock, lockedBy_deposit,
      lockedBy_withdrawal, lockedBy_refund, hnil, requestedBy]
  all_goals
    split
    · ring
    · ring

theorem paid_moved {id : Nat} (h : Sound t) (hp : Paid t id t' es)
    (hfresh : ∀ e ∈ es, e.1.text ∉ t.journals.map JournalEntry.idempotencyKey) :
    Moved t t' (es.map fun e => e.1.text) (lockedBy (es.flatMap Prod.snd)) := by
  cases hp with
  | nothing => exact Moved.refl h
  | journal hr =>
    have hm := record_moved h (hfresh _ (List.mem_singleton_self _)) hr
    simpa using hm

/-! ## The operations -/

theorem BankOk.numbered (h : BankOk b) : Numbered b := ⟨h.transferIDs, h.transferSeq⟩

/-- A new request brings its lock, under a key that is new. -/
theorem BankOk.filed (h : BankOk b) (hid : w.id = b.transferSeq + 1) (hst : w.status = .received)
    (href : w.externalRef = none) (hpaid : Paid b.ledger w.id t (entriesOf w)) :
    BankOk { b with
      ledger := t, transferSeq := b.transferSeq + 1, transfers := b.transfers ++ [w] } := by
  have hlock : ∀ e ∈ entriesOf w, e.1 = .withdrawHold w.id := by
    unfold entriesOf
    cases w.direction <;> simp [hst]
  have hfresh : ¬ Known b (.withdrawHold w.id) := by
    intro hk
    have hle : w.id ≤ b.transferSeq := hk
    omega
  have hm := paid_moved h.ledger hpaid fun e he => hlock e he ▸ h.keys.fresh hfresh
  refine h.insert hid href ?_ ⟨hm.sound, hm.keys, ?_⟩
  · intro key hkey
    obtain ⟨e, he, rfl⟩ := List.mem_map.mp hkey
    rw [hlock e he]
  · intro u
    rw [hm.locked, lockedBy_entries]

/-- A request that moves on stays whose it is, and its reference stays its own. -/
theorem BankOk.changes
    (h : BankOk b) (hw : w ∈ b.transfers) (hmade : ∀ r, asMade (g r) = asMade r)
    (hp : Progress b.transfers w (g w) es) : Changes b w g := by
  have hids : ∀ r, (g r).id = r.id := fun r => TransferRun.id_of_made (hmade r)
  have hparty : requestedBy (g w) = requestedBy w := by
    have hpair : requestedBy (asMade (g w)) = requestedBy (asMade w) := by rw [hmade w]
    exact hpair
  have hsame : (g w).externalRef = w.externalRef →
      ∀ x ∈ b.transfers, x.id ≠ w.id → (g w).externalRef.isSome →
      (g w).externalRef ≠ x.externalRef := by
    intro href x hx hne hsome heq
    rw [href] at hsome heq
    exact hne (h.refs w hw x hx hsome heq ▸ rfl)
  cases hp with
  | noted hst href => exact ⟨hids, hparty, hsame href, fun hterm => ⟨hst ▸ hterm, href⟩⟩
  | sent hst hout href hnew =>
    refine ⟨hids, hparty, ?_, ?_⟩
    · intro x hx _ _ heq
      exact hnew (List.mem_map.mpr ⟨x, hx, heq.symm.trans href⟩)
    · intro hterm
      rw [hst] at hterm
      cases hterm
  | resolved hst hdone hold hnew hkeys hentries =>
    have href' := hnew.trans hold.symm
    exact ⟨hids, hparty, hsame href', fun _ => ⟨hdone, href'⟩⟩

/-- The journals of a request that moves on are new: its reference is its own, and it is not
resolved yet. -/
theorem BankOk.fresh (h : BankOk b) (hw : w ∈ b.transfers)
    (hp : Progress b.transfers w w' es) : ∀ e ∈ es,
      e.1.text ∉ b.ledger.journals.map JournalEntry.idempotencyKey ∧
      ∃ ref, w'.externalRef = some ref ∧ w'.status.isTerminal = true ∧
        (e.1.text = (JournalKey.depositSettle ref).text ∨
          e.1.text = (JournalKey.withdrawSettle ref).text ∨
          e.1.text = (JournalKey.withdrawRefund ref).text) := by
  cases hp with
  | noted => simp
  | sent => simp
  | resolved hst hdone href hsame hkeys hentries =>
    rename_i ref
    have hunused : ¬ ∃ x ∈ b.transfers, x.externalRef = some ref ∧ x.status.isTerminal = true := by
      rintro ⟨x, hx, hxref, hterm⟩
      have hxw := h.refs x hx w hw (by simp [hxref]) (hxref.trans href.symm)
      rw [hxw, hst] at hterm
      cases hterm
    intro e he
    refine ⟨h.keys.fresh ?_, ref, hsame, hdone, ?_⟩
    · rcases hkeys e he with hk | hk | hk <;> rw [hk] <;> exact hunused
    · exact (hkeys e he).imp (congrArg _) (Or.imp (congrArg _) (congrArg _))

theorem BankOk.changed {ks : List String} (h : BankOk b) (hc : Change b b' ks) : BankOk b' := by
  cases hc with
  | idle hkeys hb =>
    subst hb
    exact (h.lost h.ledger rfl (fun _ => rfl) 0 0 _).events _
  | filed hid hst href hpaid hks hb =>
    subst hb
    exact h.filed hid hst href hpaid
  | row hw hmade hprogress hpaid hkeys hb =>
    subst hb
    rename_i w g t es events
    have hchanges := h.changes hw hmade hprogress
    have hfresh := h.fresh hw hprogress
    have hm := paid_moved h.ledger hpaid fun e he => (hfresh e he).1
    refine h.change hw hchanges ?_ ⟨hm.sound, hm.keys, ?_⟩
    · intro key hkey
      obtain ⟨e, he, rfl⟩ := List.mem_map.mp hkey
      exact (hfresh e he).2
    · intro u
      have htotal := lockedBy_entries (g w) u
      rw [hprogress.entries (hmade w), List.flatMap_append, lockedBy_append, lockedBy_entries,
        hchanges.party] at htotal
      rw [hm.locked, add_right_inj]
      by_cases hu : requestedBy w = u
      · rw [if_pos hu, if_pos hu] at htotal
        rw [if_pos hu, ← htotal, add_sub_cancel_left]
      · rw [if_neg hu, if_neg hu, zero_add] at htotal
        rw [if_neg hu, htotal]

end GoExchange.Holds
