import GoExchange.Transfers

/-!
# What a transaction on transfers does

Every operation of `transfer_service.go` that succeeds does one of three things
to the bank: it changes no request, it stores a new one, or it moves one
request on. What is recorded in the ledger for a request is told by its row:
a deposit has a journal when it is completed, a withdrawal has the one of its
lock and, once it is resolved, the one that pays it out or gives it back.
-/
namespace GoExchange.TransferRun

open Service Ledger Rows Fallible

variable {b b' : Bank} {w w' : TransferRequest} {id : Nat}
  {es : List (JournalKey × List PostingInput)} {ks : List String}
  {events : List TransferStatusEvent} {rows : List TransferRequest} {input : ResolveInput}

/-! ## Rows -/

/-- A request is dispatched once and resolved once. -/
inductive StatusMove : TransferStatus → TransferStatus → Prop where
  | same (st : TransferStatus) : StatusMove st st
  | dispatched : StatusMove .received .processing
  | resolved {st : TransferStatus} (h : st.isTerminal = true) : StatusMove .processing st

structure Numbered (b : Bank) : Prop where
  ids : (b.transfers.map TransferRequest.id).Nodup
  seq : ∀ w ∈ b.transfers, w.id ≤ b.transferSeq

/-- The request as it was made. -/
def asMade (w : TransferRequest) : TransferRequest :=
  { w with
    status := .received, externalRef := none, resolutionJournalID := none, holdJournalID := none
    reviewReason := none, failureReason := "" }

theorem id_of_made (h : asMade w' = asMade w) : w'.id = w.id := by
  have hid : (asMade w').id = (asMade w).id := by rw [h]
  exact hid

/-- The journals that a request should have: their keys and what they move. -/
def entriesOf (w : TransferRequest) : List (JournalKey × List PostingInput) :=
  let ref := w.externalRef.getD ""
  let lock := (JournalKey.withdrawHold w.id, lockPostings w.userID w.asset (w.amount + w.feeAmount))
  match w.direction, w.status with
  | .deposit, .completed => [(.depositSettle ref, depositPostings w)]
  | .deposit, _ => []
  | .withdrawal, .completed => [lock, (.withdrawSettle ref, withdrawalPostings w)]
  | .withdrawal, .failed => [lock, (.withdrawRefund ref, refundPostings w)]
  | .withdrawal, _ => [lock]

/-- How one of the rows moves on, and the journals that come with it. -/
inductive Progress (rows : List TransferRequest) (w w' : TransferRequest) :
    List (JournalKey × List PostingInput) → Prop
  | noted (hst : w'.status = w.status) (href : w'.externalRef = w.externalRef) :
      Progress rows w w' []
  | sent {ref : String} (hst : w.status = .received) (hout : w'.status = .processing)
      (href : w'.externalRef = some ref) (hnew : some ref ∉ rows.map TransferRequest.externalRef) :
      Progress rows w w' []
  | resolved {ref : String} {es : List (JournalKey × List PostingInput)}
      (hst : w.status = .processing)
      (hdone : w'.status.isTerminal = true) (href : w.externalRef = some ref)
      (hsame : w'.externalRef = some ref)
      (hkeys : ∀ e ∈ es, e.1 = .depositSettle ref ∨ e.1 = .withdrawSettle ref ∨
        e.1 = .withdrawRefund ref)
      (hentries : entriesOf w' = entriesOf w ++ es) : Progress rows w w' es

theorem Progress.move (h : Progress rows w w' es) : StatusMove w.status w'.status := by
  cases h with
  | noted hst href => exact hst ▸ .same _
  | sent hst hout href hnew =>
    rw [hst, hout]
    exact .dispatched
  | resolved hst hdone href hsame hkeys hentries =>
    rw [hst]
    exact .resolved hdone

/-- What is told of a request depends on how it was made, its status and its reference. -/
theorem entriesOf_made (w : TransferRequest) :
    entriesOf w = entriesOf { asMade w with status := w.status, externalRef := w.externalRef } :=
  rfl

theorem Progress.entries (h : Progress rows w w' es) (hmade : asMade w' = asMade w) :
    entriesOf w' = entriesOf w ++ es := by
  cases h with
  | noted hst href => rw [List.append_nil, entriesOf_made w', entriesOf_made w, hmade, hst, href]
  | sent hst hout href hnew =>
    rw [List.append_nil, entriesOf_made w', entriesOf_made w, hmade, hst, hout]
    unfold entriesOf asMade
    cases w.direction <;> rfl
  | resolved hst hdone href hsame hkeys hentries => exact hentries

/-- The new journals have keys of their own. -/
theorem Progress.fresh (h : Progress rows w w' es) :
    ∀ e ∈ es, e.1 ∉ (entriesOf w).map Prod.fst := by
  cases h with
  | noted => simp
  | sent => simp
  | resolved hst hdone href hsame hkeys hentries =>
    intro e he
    have hlock : ∀ k ∈ (entriesOf w).map Prod.fst, k = .withdrawHold w.id := by
      unfold entriesOf
      cases w.direction <;> simp [hst]
    intro hmem
    have hkey := hkeys e he
    rw [hlock _ hmem] at hkey
    simp at hkey

/-! ## Transactions -/

/-- The ledger after nothing, or one journal, was recorded for a request. -/
inductive Paid (t : Tables) (id : Nat) : Tables → List (JournalKey × List PostingInput) → Prop
  | nothing : Paid t id t []
  | journal {t' : Tables} {et : JournalEventType} {key : JournalKey} {postings : List PostingInput}
      {entry : JournalEntry} {c : Bool}
      (h : record t ⟨et, key.text, .transfer, id, none, postings⟩ = .ok (t', entry, c)) :
      Paid t id t' [(key, postings)]

/-- The events after those of some keys were added. -/
def Noted (b : Bank) (events : List TransferStatusEvent) (ks : List String) : Prop :=
  events.map TransferStatusEvent.eventKey = b.transferEvents.map TransferStatusEvent.eventKey ++ ks

theorem Noted.none (b : Bank) : Noted b b.transferEvents [] := (List.append_nil _).symm

theorem Noted.one (b : Bank) (event : TransferStatusEvent) :
    Noted b (b.transferEvents ++ [event]) [event.eventKey] := List.map_append

/-- One transaction that stores events under the keys `ks`. -/
inductive Change (b b' : Bank) (ks : List String) : Prop
  /-- Ids may be used up. -/
  | idle {n : Nat} {events : List TransferStatusEvent} (hkeys : Noted b events ks)
      (hb : b' = { b with transferSeq := b.transferSeq + n, transferEvents := events })
  | filed {w : TransferRequest} {t : Tables} (hid : w.id = b.transferSeq + 1)
      (hst : w.status = .received)
      (href : w.externalRef = none) (hpaid : Paid b.ledger w.id t (entriesOf w)) (hks : ks = [])
      (hb : b' =
        { b with ledger := t, transferSeq := b.transferSeq + 1, transfers := b.transfers ++ [w] })
  | row {w : TransferRequest} {g : TransferRequest → TransferRequest} {t : Tables}
      {es : List (JournalKey × List PostingInput)} {events : List TransferStatusEvent}
      (hw : w ∈ b.transfers)
      (hmade : ∀ r, asMade (g r) = asMade r) (hprogress : Progress b.transfers w (g w) es)
      (hpaid : Paid b.ledger w.id t es) (hkeys : Noted b events ks)
      (hb : b' = { b with
        ledger := t, transfers := modify TransferRequest.id w.id g b.transfers,
        transferEvents := events })

theorem Change.refl (b : Bank) : Change b b [] := .idle (n := 0) (.none b) rfl

theorem Change.trades_eq (h : Change b b' ks) : b'.trades = b.trades := by
  cases h with
  | idle _ hb | filed _ _ _ _ _ hb | row _ _ _ _ _ hb => rw [hb]

/-- No request with the id is out. -/
def NotOut (b : Bank) (id : Nat) : Prop := ∀ w ∈ b.transfers, w.id = id → w.status ≠ .processing

/-! ### Requests -/

/-- A request is stored as a new row, or its key was taken. -/
theorem acceptTransfer_spec {r row : TransferRequest} {created : Bool}
    (h : acceptTransfer b r = .ok (b', row, created)) :
    created = false ∧ b' = { b with transferSeq := b.transferSeq + 1 } ∨
      created = true ∧ row = { r with id := b.transferSeq + 1 } ∧
        b' = { b with transferSeq := b.transferSeq + 1, transfers := b.transfers ++ [row] } := by
  unfold acceptTransfer insertOrGetByUserRequestKey at h
  simp only at h
  obtain ⟨-, h⟩ := guard_eq_ok.mp h
  split at h
  · cases h
    exact .inl ⟨rfl, rfl⟩
  · cases h
    exact .inr ⟨rfl, rfl, rfl⟩

theorem requestDeposit_change {input : TransferInput} (hr : requestDeposit b input = .ok b') :
    Change b b' [] := by
  obtain ⟨amount, -, hr⟩ := bind_eq_ok.mp hr
  obtain ⟨⟨b₁, row, created⟩, ha, hend⟩ := bind_eq_ok.mp hr
  cases hend
  rcases acceptTransfer_spec ha with ⟨-, rfl⟩ | ⟨-, hrow, rfl⟩
  · exact .idle (.none b) rfl
  · subst hrow
    exact .filed rfl rfl rfl .nothing rfl rfl

/-- The new row is the only one with its id. -/
theorem modify_new (h : Numbered b) (hid : w.id = b.transferSeq + 1)
    (g : TransferRequest → TransferRequest) :
    modify TransferRequest.id w.id g (b.transfers ++ [w]) = b.transfers ++ [g w] := by
  have hold : modify TransferRequest.id w.id g b.transfers = b.transfers := by
    apply modify_of_notMem
    intro hmem
    obtain ⟨r, hr, he⟩ := List.mem_map.mp hmem
    have hle := h.seq r hr
    omega
  have happend : modify TransferRequest.id w.id g (b.transfers ++ [w]) =
      modify TransferRequest.id w.id g b.transfers ++ [g w] := by simp [Rows.modify]
  rw [happend, hold]

theorem recordTransfer_paid {key : JournalKey} {et : JournalEventType} {n : Nat}
    {postings : List PostingInput} (h : recordTransfer b key et id postings = .ok (b', n)) :
    ∃ t, b' = { b with ledger := t } ∧ Paid b.ledger id t [(key, postings)] := by
  obtain ⟨⟨ledger, entry, c⟩, hrec, hend⟩ := bind_eq_ok.mp h
  cases hend
  exact ⟨ledger, rfl, .journal hrec⟩

/-- The lock is recorded with the row. -/
theorem requestWithdrawal_change (h : Numbered b) {input : TransferInput}
    (hr : requestWithdrawal b input = .ok b') : Change b b' [] := by
  obtain ⟨amount, -, hr⟩ := bind_eq_ok.mp hr
  obtain ⟨⟨b₁, row, created⟩, ha, hrest⟩ := bind_eq_ok.mp hr
  rcases acceptTransfer_spec ha with ⟨rfl, rfl⟩ | ⟨rfl, rfl, rfl⟩
  · cases hrest
    exact .idle (.none b) rfl
  · obtain ⟨⟨b₂, n⟩, hrec, hend⟩ := bind_eq_ok.mp hrest
    obtain ⟨t, rfl, hpaid⟩ := recordTransfer_paid hrec
    cases hend
    unfold updateTransfer
    rw [modify_new h rfl]
    refine .filed rfl rfl rfl ?_ rfl rfl
    exact hpaid

/-! ### Dispatch and answers -/

theorem setReviewRequired_change (hw : w ∈ b.transfers) (hkeys : Noted b events ks)
    (reason : String) :
    Change b (setReviewRequired { b with transferEvents := events } w.id reason) ks := by
  refine .row hw ?_ (.noted ?_ ?_) .nothing hkeys rfl
  · intro r
    rfl
  · rfl
  · rfl

/-- A request is sent out with its reference, and no money moves. -/
theorem dispatch_change {submitted : Option String}
    (hd : Service.dispatch b id submitted = .ok b') : Change b b' [] := by
  unfold Service.dispatch at hd
  obtain ⟨w, hw, hrest⟩ := bind_eq_ok.mp hd
  obtain ⟨hmem, rfl⟩ := lockByID_ok hw
  split at hrest
  · cases hrest
    exact .refl b
  · rename_i hst
    cases submitted with
    | none => cases hrest
    | some ref =>
      obtain ⟨hnew, hend⟩ := guard_eq_ok.mp hrest
      cases hend
      refine .row hmem ?_ (.sent (not_not.mp hst) ?_ ?_ hnew) .nothing (.none b) rfl
      · intro r
        rfl
      · rfl
      · rfl

/-- The row of a request with its final answer. -/
def confirmed (input : ResolveInput) (journalID : Option Nat) (r : TransferRequest) :
    TransferRequest :=
  { r with
    status := if input.outcome = .success then .completed else .failed
    resolutionJournalID := journalID, reviewReason := none
    failureReason := if input.outcome = .success then "" else input.reason.getD "" }

theorem confirmed_terminal (input : ResolveInput) (journalID : Option Nat) (r : TransferRequest) :
    (confirmed input journalID r).status.isTerminal = true := by
  unfold confirmed
  simp only
  split <;> rfl

/-- The final answer to a request that is out: at most one journal, under a key of its own. -/
theorem recordConfirmationJournal_progress {n : Option Nat} (hst : w.status = .processing)
    (h : recordConfirmationJournal b w input.outcome = .ok (b', n)) :
    ∃ t es, b' = { b with ledger := t } ∧ Paid b.ledger w.id t es ∧
    Progress b.transfers w (confirmed input n w) es := by
  have hdone := confirmed_terminal input n w
  unfold recordConfirmationJournal at h
  split at h
  · cases h
  rename_i ref href
  have hrecord : ∀ {key et postings},
      (recordTransfer b key et w.id postings >>= fun r => return (r.1, some r.2)) =
        Except.ok (b', n) →
      (key = .depositSettle ref ∨ key = .withdrawSettle ref ∨ key = .withdrawRefund ref) →
      entriesOf (confirmed input n w) = entriesOf w ++ [(key, postings)] →
      ∃ t es, b' = { b with ledger := t } ∧ Paid b.ledger w.id t es ∧
      Progress b.transfers w (confirmed input n w) es := by
    intro key et postings h hkey hentries
    obtain ⟨⟨b₁, m⟩, hrec, hend⟩ := bind_eq_ok.mp h
    obtain ⟨t, rfl, hpaid⟩ := recordTransfer_paid hrec
    cases hend
    refine ⟨t, _, rfl, hpaid, .resolved hst hdone href href ?_ hentries⟩
    intro e he
    rw [List.mem_singleton.mp he]
    exact hkey
  split at h
  · rename_i hdir hout
    apply hrecord h (.inl rfl)
    simp only [entriesOf, confirmed, hst, hdir, hout, href]
    rfl
  · rename_i hdir hout
    cases h
    refine ⟨b.ledger, [], rfl, .nothing, .resolved hst hdone href href (by simp) ?_⟩
    simp only [entriesOf, confirmed, hst, hdir, hout]
    rfl
  · rename_i hdir hout
    apply hrecord h (.inr (.inl rfl))
    simp only [entriesOf, confirmed, hst, hdir, hout, href]
    rfl
  · rename_i hdir hout
    apply hrecord h (.inr (.inr rfl))
    simp only [entriesOf, confirmed, hst, hdir, hout, href]
    rfl
  · cases h

theorem confirmTerminal_change (hn : Numbered b) (hw : w ∈ b.transfers)
    (hst : w.status = .processing) (hkeys : Noted b events ks)
    (h : confirmTerminal { b with transferEvents := events } w input = .ok b') :
    Change b b' ks ∧ NotOut b' w.id := by
  obtain ⟨⟨b₁, n⟩, hrec, hend⟩ := bind_eq_ok.mp h
  obtain ⟨t, es, rfl, hpaid, hprogress⟩ := recordConfirmationJournal_progress hst hrec
  cases hend
  constructor
  · exact .row (g := confirmed input n) hw (fun _ => rfl) hprogress hpaid hkeys rfl
  · intro w' hw' hid hout
    have hterminal := confirmed_terminal input n w
    rw [(mem_modify_row (g := confirmed input n) hn.ids hw hw').resolve_right fun h => h.2 hid]
      at hout
    rw [hout] at hterminal
    cases hterminal

/-- An answer that was seen before changes nothing; a new one is stored, and the request is then not
out. Only if it was, money may move. -/
theorem resolveTransfer_change (hn : Numbered b) (hr : resolveTransfer b input = .ok b') :
    b' = b ∨ Change b b' [input.eventKey] ∧ NotOut b' input.transferRequestID ∧
      (NotOut b input.transferRequestID → b'.ledger = b.ledger) := by
  obtain ⟨-, hr⟩ := guard_eq_ok.mp hr
  obtain ⟨-, hr⟩ := guard_eq_ok.mp hr
  obtain ⟨w, hw, hrest⟩ := bind_eq_ok.mp hr
  obtain ⟨hmem, hid⟩ := lockByID_ok hw
  rw [← hid]
  split at hrest
  · cases hrest
    exact .inl rfl
  right
  have hkeys : Noted b (b.transferEvents ++ [⟨w.id, input.eventKey, input.outcome⟩])
      [input.eventKey] := .one b _
  have hreview : ∀ reason, w.status ≠ .processing → b' = setReviewRequired { b with
        transferEvents := b.transferEvents ++ [⟨w.id, input.eventKey, input.outcome⟩] }
          w.id reason →
      Change b b' [input.eventKey] ∧ NotOut b' w.id ∧ (NotOut b w.id → b'.ledger = b.ledger) := by
    rintro reason hst rfl
    refine ⟨setReviewRequired_change hmem hkeys reason, ?_, fun _ => rfl⟩
    intro w' hw' hid'
    rw [(mem_modify_row hn.ids hmem hw').resolve_right fun h => h.2 hid']
    exact hst
  -- a resolved request is at most marked for review
  have hlate : ∀ status, w.status = status → status ≠ .processing →
      (if matchesTerminalOutcome status input.outcome then Except.ok { b with
          transferEvents := b.transferEvents ++ [⟨w.id, input.eventKey, input.outcome⟩] }
        else .ok (setReviewRequired { b with
          transferEvents := b.transferEvents ++ [⟨w.id, input.eventKey, input.outcome⟩] } w.id
          "CONFLICTING_TERMINAL_OUTCOME")) = (.ok b' : Except DomainError Bank) →
      Change b b' [input.eventKey] ∧ NotOut b' w.id ∧ (NotOut b w.id → b'.ledger = b.ledger) := by
    rintro status rfl hst h
    split at h
    · cases h
      refine ⟨.idle (n := 0) hkeys rfl, ?_, fun _ => rfl⟩
      intro w' hw' hid'
      rw [List.inj_on_of_nodup_map hn.ids hw' hmem hid']
      exact hst
    · cases h
      exact hreview _ hst rfl
  cases hst : w.status with
  | received =>
    simp only [hst] at hrest
    cases hrest
    exact hreview _ (by simp [hst]) rfl
  | processing =>
    simp only [hst] at hrest
    obtain ⟨hchange, hout⟩ := confirmTerminal_change hn hmem hst hkeys hrest
    exact ⟨hchange, hout, fun hno => absurd hst (hno w hmem rfl)⟩
  | completed =>
    simp only [hst] at hrest
    exact hlate _ hst (by simp) hrest
  | failed =>
    simp only [hst] at hrest
    exact hlate _ hst (by simp) hrest

end GoExchange.TransferRun
