import GoExchange.TransferPolls
import GoExchange.LedgerRepeat

/-!
# The money of a transfer

The journals of a request are those its row tells of. A journal is recorded
under a key that no journal of the same request has yet, and a journal found
under that key would have to be of the same request. So whatever comes in, and
however often, no journal is recorded twice and none is missing.
-/
namespace GoExchange.TransferRun

open Service Ledger Rows Fallible

variable {b b' : Bank} {s s' : State} {w w' : TransferRequest} {t t' : Tables} {id : Nat}
  {es : List (JournalKey × List PostingInput)} {outcome : TransferOutcome}

/-! ## What the ledger says of a request -/

/-- The journals of a request, in the order of their ids. -/
def journalsOf (t : Tables) (id : Nat) : List JournalEntry :=
  t.journals.filter fun j => j.referenceType = .transfer ∧ j.referenceID = id

/-- The journal has the key and the lines, in some order. -/
def Told (t : Tables) (j : JournalEntry) (e : JournalKey × List PostingInput) : Prop :=
  j.idempotencyKey = e.1.text ∧ (lines t j.id).Perm e.2

theorem told_later {js : List JournalEntry} (hl : Later t t')
    (hjs : ∀ j ∈ js, j ∈ t.journals) (h : List.Forall₂ (Told t) js es) :
    List.Forall₂ (Told t') js es := by
  induction h with
  | nil => exact .nil
  | cons hj _ ih =>
    obtain ⟨hmem, hjs⟩ := List.forall_mem_cons.mp hjs
    refine .cons ⟨hj.1, ?_⟩ (ih hjs)
    rw [(hl _ hmem).2]
    exact hj.2

theorem mem_of_journalsOf {j : JournalEntry} (h : j ∈ journalsOf t id) : j ∈ t.journals :=
  List.mem_of_mem_filter h

/-! ## Recording -/

/-- A record finds its journal, or adds one at the end. -/
theorem record_journals {input : JournalInput} {entry : JournalEntry} {c : Bool} (h : Sound t)
    (hr : record t input = .ok (t', entry, c)) :
    entry ∈ t.journals ∧ t'.journals = t.journals ∨ t'.journals = t.journals ++ [entry] := by
  cases recording_of_record hr with
  | again found same => exact .inl ⟨(of_find? found).1, rfl⟩
  | fresh key hpost =>
    have hopen := h.opened key
    obtain ⟨t₁, rows, ps, run⟩ := post_run hopen.accounts hopen.rows hpost
    exact .inr run.journals_eq

/-- What has been recorded for one request: its list grows, and the other requests have the journals
they had. -/
theorem Paid.spec {known : List (JournalKey × List PostingInput)} (ha : Archive t)
    (h : Paid t id t' es)
    (hknown : List.Forall₂ (Told t) (journalsOf t id) known)
    (hnew : ∀ e ∈ es, e.1 ∉ known.map Prod.fst) :
    Archive t' ∧ List.Forall₂ (Told t') (journalsOf t' id) (known ++ es) ∧
      (∀ id' es', id' ≠ id → List.Forall₂ (Told t) (journalsOf t id') es' →
        List.Forall₂ (Told t') (journalsOf t' id') es') ∧
      ∀ j ∈ t'.journals, j ∈ t.journals ∨ j.referenceID = id := by
  cases h with
  | nothing =>
    rw [List.append_nil]
    exact ⟨ha, hknown, fun _ _ _ h => h, fun j hj => .inl hj⟩
  | journal h =>
    rename_i et key postings entry c
    obtain ⟨ha', hl, -, hkey, -, htype, hid, -, hperm⟩ := ha.record h
    have htold : Told t' entry (key, postings) := ⟨hkey, hperm.symm⟩
    have hold := told_later hl (fun _ => mem_of_journalsOf) hknown
    rcases record_journals ha.sound h with ⟨hmem, -⟩ | happend
    · -- the journal found would be one of the request's own
      have hmine : entry ∈ journalsOf t id := List.mem_filter.mpr ⟨hmem, by simp [← htype, ← hid]⟩
      obtain ⟨e, he, hsame⟩ := forall₂_exists_right hknown hmine
      have hkeys : e.1 = key := JournalKey.text_injective (hsame.1.symm.trans hkey)
      have hknew : key ∈ known.map Prod.fst := List.mem_map.mpr ⟨e, he, hkeys⟩
      exact absurd hknew (hnew _ (List.mem_singleton_self _))
    · have hjournals : ∀ id', journalsOf t' id' = journalsOf t id' ++ if id' = id then [entry]
          else [] := by
        intro id'
        unfold journalsOf
        rw [happend, List.filter_append, List.filter_singleton]
        simp [← htype, ← hid, eq_comm]
      refine ⟨ha', ?_, ?_, ?_⟩
      · rw [hjournals, if_pos rfl]
        exact List.rel_append hold (.cons htold .nil)
      · intro id' es' hne hes
        rw [hjournals, if_neg hne, List.append_nil]
        exact told_later hl (fun _ => mem_of_journalsOf) hes
      · intro j hj
        rw [happend] at hj
        rcases List.mem_append.mp hj with hj | hj
        · exact .inl hj
        · rw [List.mem_singleton.mp hj]
          exact .inr hid.symm

/-! ## Steps -/

/-- The request that an answer of the outside world is about. -/
def answeredID (s : State) : Label → Option Nat
  | .callback ref _ _ _ =>
    (s.bank.transfers.find? (·.externalRef = some ref)).map TransferRequest.id
  | .poll poll _ _ => some poll.requestID
  | _ => none

theorem resolve_change {input : ResolveInput} (h : Numbered s.bank)
    (hr : s.resolve input = .ok s') :
    (∃ ks, Change s.bank s'.bank ks) ∧
    (NotOut s.bank input.transferRequestID → s'.bank.ledger = s.bank.ledger) := by
  obtain ⟨bank, hb, hend⟩ := bind_eq_ok.mp hr
  cases hend
  rcases resolveTransfer_change h hb with rfl | ⟨hchange, -, hledger⟩
  · exact ⟨⟨_, .refl _⟩, fun _ => rfl⟩
  · exact ⟨⟨_, hchange⟩, hledger⟩

/-- An observation moves no money. -/
theorem recordObservation_change {key : String} {overdue : Bool}
    (hr : recordObservation s id key outcome overdue = .ok s') :
    (∃ ks, Change s.bank s'.bank ks) ∧ s'.bank.ledger = s.bank.ledger := by
  obtain ⟨-, hr⟩ := guard_eq_ok.mp hr
  obtain ⟨-, hr⟩ := guard_eq_ok.mp hr
  obtain ⟨w, hw, hrest⟩ := bind_eq_ok.mp hr
  have hkeys : Noted s.bank (s.bank.transferEvents ++ [⟨w.id, key, outcome⟩]) [key] := .one s.bank _
  split at hrest
  · cases hrest
    exact ⟨⟨_, .refl _⟩, rfl⟩
  split at hrest
  · cases hrest
    obtain ⟨hchange, hledger, -⟩ := advancePollSchedule_spec (lockByID_ok hw).1 hkeys _ overdue
    exact ⟨⟨_, hchange⟩, hledger⟩
  · cases hrest
  · cases hrest
    exact ⟨⟨_, .idle (n := 0) hkeys rfl⟩, rfl⟩
  · cases hrest
    exact ⟨⟨_, .idle (n := 0) hkeys rfl⟩, rfl⟩

theorem checkStatus_change {poll : Poll} {answer : StatusAnswer} {overdue : Bool}
    (hr : checkStatus s poll answer overdue = .ok s') (h : Numbered s.bank) :
    (∃ ks, Change s.bank s'.bank ks) ∧
    (NotOut s.bank poll.requestID → s'.bank.ledger = s.bank.ledger) := by
  cases answer with
  | unreachable =>
    obtain ⟨w, hw, hrest⟩ := bind_eq_ok.mp hr
    split at hrest
    · cases hrest
      exact ⟨⟨_, .refl _⟩, fun _ => rfl⟩
    · cases hrest
      obtain ⟨hchange, hledger, -⟩ :=
        advancePollSchedule_spec (lockByID_ok hw).1 (.none s.bank) .unreachable overdue
      exact ⟨⟨_, hchange⟩, fun _ => hledger⟩
  | answered outcome reason =>
    unfold checkStatus at hr
    simp only at hr
    split at hr
    · exact resolve_change h hr
    · exact (recordObservation_change hr).imp_right fun hledger _ => hledger

theorem receiveCallback_change {ref eventID : String} {reason : Option String}
    (h : Numbered s.bank) (hr : receiveCallback s ref eventID outcome reason = .ok s') :
    (∃ ks, Change s.bank s'.bank ks) ∧
    ∀ id, answeredID s (.callback ref eventID outcome reason) = some id →
      NotOut s.bank id → s'.bank.ledger = s.bank.ledger := by
  obtain ⟨-, hr⟩ := guard_eq_ok.mp hr
  split at hr
  · cases hr
  · rename_i request hfind
    obtain ⟨hchange, hledger⟩ := resolve_change h hr
    refine ⟨hchange, ?_⟩
    intro id hid
    simp only [answeredID, hfind, Option.map_some, Option.some.injEq] at hid
    exact hid ▸ hledger

/-- One step: a transaction on transfers, or a journal of another service. -/
inductive BankStep (b b' : Bank) : Prop
  | transfer {ks : List String} (h : Change b b' ks)
  | other {input : JournalInput} {t : Tables} {entry : JournalEntry} {c : Bool}
      (htype : input.referenceType ≠ .transfer)
      (hr : record b.ledger input = .ok (t, entry, c)) (hb : b' = { b with ledger := t })

theorem step_moved {l : Label} (h : Numbered s.bank) (hs : step l s = some s') :
    BankStep s.bank s'.bank := by
  have hidle : BankStep s.bank s.bank := .transfer (.refl _)
  cases l with
  | deposit input =>
    cases hs
    exact transact_of (P := fun u : State => BankStep s.bank u.bank) hidle fun b' hb =>
      .transfer (requestDeposit_change hb)
  | withdraw input =>
    cases hs
    exact transact_of (P := fun u : State => BankStep s.bank u.bank) hidle fun b' hb =>
      .transfer (requestWithdrawal_change h hb)
  | dispatch id submitted =>
    cases hs
    refine transact_of (P := fun u : State => BankStep s.bank u.bank) hidle fun u hr => ?_
    cases submitted with
    | none =>
      obtain ⟨w, -, hrest⟩ := bind_eq_ok.mp hr
      split at hrest
      · cases hrest
        exact hidle
      · cases hrest
        exact hidle
    | some ref =>
      obtain ⟨w, -, hrest⟩ := bind_eq_ok.mp hr
      obtain ⟨-, hrest⟩ := guard_eq_ok.mp hrest
      obtain ⟨bank, hd, hend⟩ := bind_eq_ok.mp hrest
      cases hend
      exact .transfer (dispatch_change hd)
  | callback ref eventID outcome reason =>
    cases hs
    refine transact_of (P := fun u : State => BankStep s.bank u.bank) hidle fun u hr => ?_
    obtain ⟨⟨ks, hchange⟩, -⟩ := receiveCallback_change h hr
    exact .transfer hchange
  | read id =>
    obtain ⟨-, rfl⟩ := Lts.of_enabled hs
    exact hidle
  | poll p answer overdue =>
    obtain ⟨-, rfl⟩ := Lts.of_enabled hs
    refine transact_of (P := fun u : State => BankStep s.bank u.bank) hidle fun u hr => ?_
    obtain ⟨⟨ks, hchange⟩, -⟩ := checkStatus_change hr h
    exact .transfer hchange
  | journal input =>
    obtain ⟨⟨htype, -⟩, rfl⟩ := Lts.of_enabled hs
    refine transact_of (P := fun u : State => BankStep s.bank u.bank) hidle fun b' hb => ?_
    obtain ⟨⟨ledger, entry, c⟩, hrec, hend⟩ := bind_eq_ok.mp hb
    cases hend
    exact .other htype hrec rfl
  | lost n =>
    cases hs
    exact .transfer (.idle (.none s.bank) rfl)

/-- The journals of every request are those its row tells of. -/
structure Booked (b : Bank) : Prop where
  archive : Archive b.ledger
  seq : ∀ j ∈ b.ledger.journals, j.referenceType = .transfer → j.referenceID ≤ b.transferSeq
  told : ∀ w ∈ b.transfers, List.Forall₂ (Told b.ledger) (journalsOf b.ledger w.id) (entriesOf w)

/-- Journals of other services are not looked at. -/
theorem Booked.other (h : Booked b) {input : JournalInput} {entry : JournalEntry} {c : Bool}
    (htype : input.referenceType ≠ .transfer) (hr : record b.ledger input = .ok (t, entry, c)) :
    Booked { b with ledger := t } := by
  obtain ⟨ha, hl, -, -, -, hentry, -⟩ := h.archive.record hr
  have hnot : entry.referenceType ≠ .transfer := hentry ▸ htype
  have hmem : ∀ j ∈ t.journals, j.referenceType = .transfer → j ∈ b.ledger.journals := by
    intro j hj ht
    rcases record_journals h.archive.sound hr with ⟨-, heq⟩ | happend
    · exact heq ▸ hj
    · rw [happend] at hj
      rcases List.mem_append.mp hj with hj | hj
      · exact hj
      · exact absurd (List.mem_singleton.mp hj ▸ ht) hnot
  have hjournals : ∀ id, journalsOf t id = journalsOf b.ledger id := by
    intro id
    unfold journalsOf
    rcases record_journals h.archive.sound hr with ⟨-, heq⟩ | happend
    · rw [heq]
    · rw [happend, List.filter_append, List.filter_singleton]
      simp [hnot]
  refine ⟨ha, fun j hj ht => h.seq j (hmem j hj ht) ht, ?_⟩
  intro w hw
  rw [hjournals]
  exact told_later hl (fun _ => mem_of_journalsOf) (h.told w hw)

/-- A new request has no journal yet. -/
theorem Booked.none_new (h : Booked b) (hid : b.transferSeq < id) :
    journalsOf b.ledger id = [] := by
  apply List.filter_eq_nil_iff.mpr
  intro j hj hmine
  obtain ⟨ht, hr⟩ := of_decide_eq_true hmine
  have hle := h.seq j hj ht
  omega

theorem Booked.change {ks : List String} (h : Booked b) (hn : Numbered b) (hc : Change b b' ks) :
    Booked b' := by
  cases hc with
  | idle hkeys hb =>
    subst hb
    exact ⟨h.archive, fun j hj ht => (h.seq j hj ht).trans (Nat.le_add_right _ _), h.told⟩
  | filed hid hst href hpaid hks hb =>
    subst hb
    rename_i w t
    have hnil : List.Forall₂ (Told b.ledger) (journalsOf b.ledger w.id) [] := by
      rw [h.none_new (by omega)]
      exact .nil
    obtain ⟨ha, hmine, hothers, hids⟩ := hpaid.spec h.archive hnil (by simp)
    refine ⟨ha, ?_, ?_⟩
    · intro j hj ht
      rcases hids j hj with hold | hnew
      · exact (h.seq j hold ht).trans (Nat.le_succ _)
      · exact (hnew.trans hid).le
    · refine forall_mem_concat (fun r hr => ?_) hmine
      have hle := hn.seq r hr
      exact hothers _ _ (by omega) (h.told r hr)
  | row hw hmade hprogress hpaid hkeys hb =>
    subst hb
    rename_i w g t es events
    obtain ⟨ha, hmine, hothers, hids⟩ := hpaid.spec h.archive (h.told w hw) hprogress.fresh
    refine ⟨ha, ?_, ?_⟩
    · intro j hj ht
      rcases hids j hj with hold | hnew
      · exact h.seq j hold ht
      · exact hnew ▸ hn.seq w hw
    · intro r hr
      rcases mem_modify_row hn.ids hw hr with rfl | ⟨hr, hne⟩
      · rw [id_of_made (hmade w), hprogress.entries (hmade w)]
        exact hmine
      · exact hothers _ _ hne (h.told r hr)

theorem Booked.moved (h : Booked b) (hn : Numbered b) (hm : BankStep b b') : Booked b' := by
  cases hm with
  | transfer hc => exact h.change hn hc
  | other htype hr hb => exact hb ▸ h.other htype hr

/-- They are sent out; the first withdrawal fails, the second and the deposit succeed, with repeated
and contradicting answers. -/
def answers : List Label :=
  [.dispatch 1 (some "r1"), .dispatch 3 (some "r3"), .dispatch 4 (some "r4"), .read 1,
    .callback "r1" "e1" .failure none, .callback "r1" "e1" .failure none,
    .callback "r1" "e2" .success none,
    .poll ⟨1, 0⟩ (.answered .success none) false, .callback "r3" "e3" .success none,
    .callback "r3" "e4" .failure none,
    .callback "r4" "e5" .success none, .callback "r4" "e6" .success none]

end GoExchange.TransferRun
