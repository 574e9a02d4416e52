import GoExchange.Failures
import GoExchange.SettlementErrors

/-!
# The forms a trade takes on its way to settlement

A trade leaves the engine, is written to the outbox and read back after a
restart, is stored as a failed settlement and rebuilt for a retry, and has its
key and fees filled in on the way. All of its forms settle alike: the trade is
modelled with its texts here, since what is trimmed and raised to upper case on
one path must not make a difference on another.
-/
namespace GoExchange.TradeForms

open Service GoStrings Trimming

/-! ## Texts -/

/-- The library functions the fields of a trade go through. Times are in nanoseconds, and 0 is the
zero time. -/
structure Library where
  /-- `unicode.ToUpper` -/
  upper : Char → Char
  upper_upper : ∀ c, upper (upper c) = upper c
  upper_space : ∀ c, isSpace c = false → isSpace (upper c) = false
  /-- `Decimal.String`, which is also what a decimal is in JSON -/
  decimalString : Decimal → String
  /-- `decimal.NewFromString` -/
  newFromString : String → Option Decimal
  newFromString_decimalString : ∀ d, newFromString (decimalString d) = some d
  /-- `time.Time` in JSON -/
  timeString : Nat → String
  parseTime : String → Option Nat
  parseTime_timeString : ∀ t, parseTime (timeString t) = some t
  /-- what a `timestamptz` column keeps of a time -/
  timestamp : Nat → Nat
  sum256 : List UInt8 → List UInt8
  sum256_ne_nil : ∀ data, sum256 data ≠ []

variable (go : Library)

/-- `strings.ToUpper` on a string of runes. -/
def upperText (s : String) : String := String.ofList (s.toList.map go.upper)

def hexDigit (n : Nat) : Char := Char.ofNat (if n < 10 then 48 + n else 87 + n)

/-- `hex.EncodeToString`. -/
def encodeToString (data : List UInt8) : String :=
  String.ofList (data.flatMap fun b => [hexDigit (b.toNat / 16), hexDigit (b.toNat % 16)])

/-! ## The trade and its key -/

/-- `model.Trade` with its texts. -/
structure TradeFields where
  id : Nat
  idempotencyKey : String
  engineSequence : Int
  engineEventID : String
  coinSymbol : String
  price : Decimal
  quantity : Decimal
  feeRate : Decimal
  buyerFee : Decimal
  buyerFeeAsset : String
  sellerFee : Decimal
  sellerFeeAsset : String
  tradedAt : Nat
  buyOrderID : Nat
  sellOrderID : Nat
  deriving DecidableEq, Repr

/-- The engine's `newTrade`: the key and the fees are left to settlement. -/
def newTrade (engineID : String) (tradeSeq : Int) (now : Nat) (coinSymbol : String)
    (price quantity : Decimal) (buyOrderID sellOrderID : Nat) : TradeFields :=
  { id := 0
    idempotencyKey := ""
    engineSequence := tradeSeq + 1
    engineEventID := s!"{engineID}-{tradeSeq + 1}"
    coinSymbol := coinSymbol
    price := price
    quantity := quantity
    feeRate := 0
    buyerFee := 0
    buyerFeeAsset := ""
    sellerFee := 0
    sellerFeeAsset := ""
    tradedAt := now
    buyOrderID := buyOrderID
    sellOrderID := sellOrderID }

def normalizeTradeCoinSymbol (coinSymbol : String) : String := upperText go (trimSpace coinSymbol)

def deterministicTradeIdempotencyKey (trade : TradeFields) : String :=
  let symbol := normalizeTradeCoinSymbol go trade.coinSymbol
  let price := go.decimalString trade.price
  let quantity := go.decimalString trade.quantity
  encodeToString
    (go.sum256 (bytes s!"{symbol}|{trade.buyOrderID}|{trade.sellOrderID}|{price}|{quantity}"))

def tradeIdempotencyKey (trade : TradeFields) : String :=
  let engineEventID := trimSpace trade.engineEventID
  if engineEventID ≠ "" then s!"engine:{engineEventID}"
  else deterministicTradeIdempotencyKey go trade

/-! ## Before the transaction -/

/-- The checks that `prepareTradeForSettlement` and `failedSettlementFromTrade` have in common. -/
def validateTrade (trade : TradeFields) : Except DomainError Unit :=
  if normalizeTradeCoinSymbol go trade.coinSymbol = "" then
    .error ⟨.other, "trade coin symbol is required"⟩
  else if trade.buyOrderID = 0 ∨ trade.sellOrderID = 0 then
    .error ⟨.other, "trade buy_order_id and sell_order_id are required"⟩
  else if ¬ 0 < trade.price ∨ ¬ 0 < trade.quantity then
    .error ⟨.other, "trade price and quantity must be greater than zero"⟩
  else .ok ()

/-- The key a trade has, or the one it gets. -/
def keyOf (trade : TradeFields) : String :=
  let idempotencyKey := trimSpace trade.idempotencyKey
  if idempotencyKey = "" then tradeIdempotencyKey go trade else idempotencyKey

def normalized (trade : TradeFields) : TradeFields :=
  { trade with
    coinSymbol := normalizeTradeCoinSymbol go trade.coinSymbol
    engineEventID := trimSpace trade.engineEventID }

def prepareTradeForSettlement (trade : TradeFields) : Except DomainError TradeFields := do
  validateTrade go trade
  if trade.engineSequence < 0 then
    .error ⟨.other, "trade engine_sequence must be greater than or equal to zero"⟩
  else return { normalized go trade with idempotencyKey := keyOf go (normalized go trade) }

def tradeQuoteAmount (trade : TradeFields) : Decimal := trade.price * trade.quantity

def applyTradeFeePolicy (trade : TradeFields) : Except DomainError TradeFields :=
  if ¬ 0 < trade.quantity ∨ ¬ 0 < trade.price then
    .error ⟨.other, "trade price and quantity must be greater than zero"⟩
  else if 0 < trade.feeRate then .ok trade
  else if ¬ 0 ≤ defaultTradingFeeRate ∨ 1 ≤ defaultTradingFeeRate then
    .error ⟨.other, "invalid trading fee rate"⟩
  else .ok
    { trade with
      feeRate := defaultTradingFeeRate
      buyerFee := tradingFeeAmount (tradeQuoteAmount trade)
      buyerFeeAsset := krwAssetSymbol
      sellerFee := tradingFeeAmount (tradeQuoteAmount trade)
      sellerFeeAsset := krwAssetSymbol }

/-- What `SettleTrade` and `SettleTradeBatch` do to a trade before they open their transaction. -/
def prepare (trade : TradeFields) : Except DomainError TradeFields := do
  let trade ← prepareTradeForSettlement go trade
  applyTradeFeePolicy trade

def validateIdempotentTradePayload (existing incoming : TradeFields) : Except DomainError Unit :=
  if normalizeTradeCoinSymbol go existing.coinSymbol ≠
      normalizeTradeCoinSymbol go incoming.coinSymbol ∨
      existing.engineSequence ≠ incoming.engineSequence ∨
      trimSpace existing.engineEventID ≠ trimSpace incoming.engineEventID ∨
      existing.buyOrderID ≠ incoming.buyOrderID ∨
      existing.sellOrderID ≠ incoming.sellOrderID ∨
      existing.price ≠ incoming.price ∨
      existing.quantity ≠ incoming.quantity ∨
      existing.feeRate ≠ incoming.feeRate ∨
      existing.buyerFee ≠ incoming.buyerFee ∨
      trimSpace existing.buyerFeeAsset ≠ trimSpace incoming.buyerFeeAsset ∨
      existing.sellerFee ≠ incoming.sellerFee ∨
      trimSpace existing.sellerFeeAsset ≠ trimSpace incoming.sellerFeeAsset then
    .error ⟨.other,
      s!"idempotency key conflict for {incoming.idempotencyKey.quote}: existing trade payload differs"⟩
  else .ok ()

/-! ## The outbox -/

/-- The names of the fields of `model.Trade`, which are the names of its JSON object. -/
inductive Field where
  | id | idempotencyKey | engineSequence | engineEventID | coinSymbol | price | quantity
  | feeRate | buyerFee
  | buyerFeeAsset | sellerFee | sellerFeeAsset | tradedAt | buyOrderID | sellOrderID
  deriving DecidableEq, Repr

inductive Scalar where
  | number (n : Int)
  | text (s : String)
  deriving DecidableEq, Repr

/-- A `jsonb` object: the order of its members is not kept. -/
abbrev Payload := Field → Option Scalar

/-- `json.Marshal` of a trade. -/
def marshal (trade : TradeFields) : Payload
  | .id => some (.number trade.id)
  | .idempotencyKey => some (.text trade.idempotencyKey)
  | .engineSequence => some (.number trade.engineSequence)
  | .engineEventID => some (.text trade.engineEventID)
  | .coinSymbol => some (.text trade.coinSymbol)
  | .price => some (.text (go.decimalString trade.price))
  | .quantity => some (.text (go.decimalString trade.quantity))
  | .feeRate => some (.text (go.decimalString trade.feeRate))
  | .buyerFee => some (.text (go.decimalString trade.buyerFee))
  | .buyerFeeAsset => some (.text trade.buyerFeeAsset)
  | .sellerFee => some (.text (go.decimalString trade.sellerFee))
  | .sellerFeeAsset => some (.text trade.sellerFeeAsset)
  | .tradedAt => some (.text (go.timeString trade.tradedAt))
  | .buyOrderID => some (.number trade.buyOrderID)
  | .sellOrderID => some (.number trade.sellOrderID)

/-! A member that is missing leaves the zero value. -/

def readUint : Option Scalar → Except String Nat
  | none => .ok 0
  | some (.number (.ofNat n)) => .ok n
  | some _ => .error "json: cannot unmarshal into uint"

def readInt : Option Scalar → Except String Int
  | none => .ok 0
  | some (.number n) => .ok n
  | some _ => .error "json: cannot unmarshal into int64"

def readText : Option Scalar → Except String String
  | none => .ok ""
  | some (.text s) => .ok s
  | some _ => .error "json: cannot unmarshal into string"

/-- `Decimal.UnmarshalJSON` takes a number and a quoted one. -/
def readDecimal : Option Scalar → Except String Decimal
  | none => .ok 0
  | some (.number n) => .ok n
  | some (.text s) => (go.newFromString s).elim (.error "can't convert to decimal") .ok

def readTime : Option Scalar → Except String Nat
  | none => .ok 0
  | some (.text s) => (go.parseTime s).elim (.error "parsing time") .ok
  | some _ => .error "Time.UnmarshalJSON: input is not a JSON string"

def unmarshal (payload : Payload) : Except String TradeFields := do
  return {
    id := ← readUint (payload .id)
    idempotencyKey := ← readText (payload .idempotencyKey)
    engineSequence := ← readInt (payload .engineSequence)
    engineEventID := ← readText (payload .engineEventID)
    coinSymbol := ← readText (payload .coinSymbol)
    price := ← readDecimal go (payload .price)
    quantity := ← readDecimal go (payload .quantity)
    feeRate := ← readDecimal go (payload .feeRate)
    buyerFee := ← readDecimal go (payload .buyerFee)
    buyerFeeAsset := ← readText (payload .buyerFeeAsset)
    sellerFee := ← readDecimal go (payload .sellerFee)
    sellerFeeAsset := ← readText (payload .sellerFeeAsset)
    tradedAt := ← readTime go (payload .tradedAt)
    buyOrderID := ← readUint (payload .buyOrderID)
    sellOrderID := ← readUint (payload .sellOrderID) }

/-- A row of type TRADE. -/
structure TradeOutboxEvent where
  id : Nat
  coinSymbol : String
  engineEventID : String
  payload : Payload

/-- `NewTradeOutboxEvent` of a trade; the store gives the row its id. -/
def newTradeOutboxEvent (id : Nat) (trade : TradeFields) : TradeOutboxEvent :=
  ⟨id, trade.coinSymbol, trade.engineEventID, marshal go trade⟩

/-- `ExecutionEventFromOutbox` of a row of type TRADE. -/
def executionEventFromOutbox (row : TradeOutboxEvent) : Except DomainError TradeFields :=
  match unmarshal go row.payload with
  | .ok trade => .ok trade
  | .error e => .error ⟨.other, s!"unmarshal trade outbox payload {row.id}: {e}"⟩

/-! ## Failed settlements -/

/-- `model.FailedSettlement` with its texts, as far as a retry reads it. -/
structure FailedSettlementFields where
  tradeIdempotencyKey : String
  engineSequence : Int
  engineEventID : String
  tradedAt : Option Nat
  coinSymbol : String
  buyOrderID : Nat
  sellOrderID : Nat
  price : Decimal
  quantity : Decimal
  buyerFee : Decimal
  sellerFee : Decimal
  feeRate : Decimal
  errorMessage : List UInt8
  status : FailedSettlementStatus
  retryCount : Nat
  occurredAt : Nat
  deriving DecidableEq, Repr

/-- The caller's trade keeps the key it is given. -/
def failedSettlementFromTrade (trade : TradeFields) (err : Option SettlementErrors.SettlementError)
    (occurredAt now : Nat) : Except DomainError (TradeFields × FailedSettlementFields) := do
  validateTrade go trade
  let idempotencyKey := keyOf go trade
  return ({ trade with idempotencyKey := idempotencyKey },
    { tradeIdempotencyKey := idempotencyKey
      engineSequence := trade.engineSequence
      engineEventID := trimSpace trade.engineEventID
      tradedAt := if trade.tradedAt = 0 then none else some trade.tradedAt
      coinSymbol := normalizeTradeCoinSymbol go trade.coinSymbol
      buyOrderID := trade.buyOrderID
      sellOrderID := trade.sellOrderID
      price := trade.price
      quantity := trade.quantity
      buyerFee := trade.buyerFee
      sellerFee := trade.sellerFee
      feeRate := trade.feeRate
      errorMessage := SettlementErrors.settlementErrorMessage err
      status := .opened
      retryCount := 1
      occurredAt := if occurredAt = 0 then now else occurredAt })

/-- The row as it is read again: numbers are kept, times to the precision of their columns. -/
def stored (failure : FailedSettlementFields) : FailedSettlementFields :=
  { failure with
    tradedAt := failure.tradedAt.map go.timestamp
    occurredAt := go.timestamp failure.occurredAt }

def tradeFromFailedSettlement (failure : FailedSettlementFields) : TradeFields :=
  { id := 0
    idempotencyKey := failure.tradeIdempotencyKey
    engineSequence := failure.engineSequence
    engineEventID := failure.engineEventID
    coinSymbol := failure.coinSymbol
    price := failure.price
    quantity := failure.quantity
    feeRate := failure.feeRate
    buyerFee := failure.buyerFee
    buyerFeeAsset := krwAssetSymbol
    sellerFee := failure.sellerFee
    sellerFeeAsset := krwAssetSymbol
    tradedAt := (failure.tradedAt.filter (· ≠ 0)).getD failure.occurredAt
    buyOrderID := failure.buyOrderID
    sellOrderID := failure.sellOrderID }

/-! ## The way of a trade -/

/-- What may happen to a trade before it is settled: it is read back from the outbox, an attempt to
settle it gets as far as its key or its fees, its failure is recorded, and it is rebuilt from that
record. -/
inductive Trip where
  | outbox (id : Nat)
  | prepared
  | charged
  | recorded (err : Option SettlementErrors.SettlementError) (occurredAt now : Nat)
  | retried (err : Option SettlementErrors.SettlementError) (occurredAt now : Nat)

def Trip.run (trade : TradeFields) : Trip → Except DomainError TradeFields
  | .outbox id => executionEventFromOutbox go (newTradeOutboxEvent go id trade)
  | .prepared => prepareTradeForSettlement go trade
  | .charged => applyTradeFeePolicy trade
  | .recorded err occurredAt now => do
    let (trade, _) ← failedSettlementFromTrade go trade err occurredAt now
    return trade
  | .retried err occurredAt now => do
    let (_, failure) ← failedSettlementFromTrade go trade err occurredAt now
    return tradeFromFailedSettlement (stored go failure)

def travel (trips : List Trip) (trade : TradeFields) : Except DomainError TradeFields :=
  trips.foldlM (Trip.run go) trade

/-! ## Texts that are trimmed already -/

variable {go}

@[simp] theorem trimSpace_trimSpace (s : String) : trimSpace (trimSpace s) = trimSpace s := by
  simp [trimSpace]

theorem trimSpace_of_trimmed {s : String} (h : Trimmed isSpace s.toList) : trimSpace s = s := by
  rw [trimSpace, h.trim_eq, String.ofList_toList]

@[simp] theorem normalize_normalize (s : String) :
    normalizeTradeCoinSymbol go (normalizeTradeCoinSymbol go s) =
      normalizeTradeCoinSymbol go s := by
  have htrimmed : Trimmed isSpace (normalizeTradeCoinSymbol go s).toList := by
    simp only [normalizeTradeCoinSymbol, upperText, trimSpace, String.toList_ofList]
    exact (trimmed_trim _).map go.upper_space
  have hupper : upperText go (normalizeTradeCoinSymbol go s) = normalizeTradeCoinSymbol go s := by
    simp [normalizeTradeCoinSymbol, upperText, Function.comp_def, go.upper_upper]
  conv_lhs => rw [normalizeTradeCoinSymbol, trimSpace_of_trimmed htrimmed, hupper]

theorem isSpace_hexDigit : ∀ n < 16, isSpace (hexDigit n) = false := by decide +kernel

/-- A key is not blank and has no blanks around it. -/
theorem tradeIdempotencyKey_trimmed (trade : TradeFields) :
    Trimmed isSpace (tradeIdempotencyKey go trade).toList ∧
    (tradeIdempotencyKey go trade).toList ≠ [] := by
  simp only [tradeIdempotencyKey]
  split
  · rename_i hevent
    have htrimmed : Trimmed isSpace (trimSpace trade.engineEventID).toList := by
      simp only [trimSpace, String.toList_ofList]
      exact trimmed_trim _
    have hne : (trimSpace trade.engineEventID).toList ≠ [] :=
      fun h => hevent (String.toList_eq_nil_iff.mp h)
    have hengine : Trimmed isSpace "engine:".toList := by
      apply Trimmed.of_forall
      intro c (hc : c ∈ ['e', 'n', 'g', 'i', 'n', 'e', ':'])
      simp only [List.mem_cons, List.not_mem_nil, or_false] at hc
      rcases hc with rfl | rfl | rfl | rfl | rfl | rfl | rfl <;> decide
    have hkey : (s!"engine:{trimSpace trade.engineEventID}").toList =
        "engine:".toList ++ (trimSpace trade.engineEventID).toList := by
      rw [← String.toList_append]
      rfl
    rw [hkey]
    exact ⟨hengine.append htrimmed (by decide) hne, by simp⟩
  · simp only [deterministicTradeIdempotencyKey, encodeToString, String.toList_ofList]
    generalize hsum : go.sum256 _ = data
    constructor
    · apply Trimmed.of_forall
      intro c hc
      obtain ⟨b, -, hc⟩ := List.mem_flatMap.mp hc
      have hb : b.toNat < 256 := b.toNat_lt
      simp only [List.mem_cons, List.not_mem_nil, or_false] at hc
      rcases hc with rfl | rfl
      · exact isSpace_hexDigit _ (by omega)
      · exact isSpace_hexDigit _ (by omega)
    · cases data with
      | nil => exact absurd hsum (go.sum256_ne_nil _)
      | cons b data => simp

/-! ## One trade in all its forms -/

/-- What settlement asks of the engine's trade. -/
structure Valid (go : Library) (trade : TradeFields) : Prop where
  symbol : normalizeTradeCoinSymbol go trade.coinSymbol ≠ ""
  buyOrder : trade.buyOrderID ≠ 0
  sellOrder : trade.sellOrderID ≠ 0
  price : 0 < trade.price
  quantity : 0 < trade.quantity
  sequence : 0 ≤ trade.engineSequence

/-- The fees at the default rate are filled in. -/
structure Charged (trade : TradeFields) : Prop where
  feeRate : trade.feeRate = defaultTradingFeeRate
  buyerFee : trade.buyerFee = tradingFeeAmount (tradeQuoteAmount trade)
  buyerFeeAsset : trade.buyerFeeAsset = krwAssetSymbol
  sellerFee : trade.sellerFee = tradingFeeAmount (tradeQuoteAmount trade)
  sellerFeeAsset : trade.sellerFeeAsset = krwAssetSymbol

/-- `form` is the trade `trade` somewhere on its way: the texts agree up to what settlement
normalizes, the key is missing or the trade's, and there are no fees or the default ones. -/
structure Form (go : Library) (trade form : TradeFields) : Prop where
  symbol : normalizeTradeCoinSymbol go form.coinSymbol =
    normalizeTradeCoinSymbol go trade.coinSymbol
  event : trimSpace form.engineEventID = trimSpace trade.engineEventID
  sequence : form.engineSequence = trade.engineSequence
  buyOrder : form.buyOrderID = trade.buyOrderID
  sellOrder : form.sellOrderID = trade.sellOrderID
  price : form.price = trade.price
  quantity : form.quantity = trade.quantity
  key : trimSpace form.idempotencyKey = "" ∨ form.idempotencyKey = tradeIdempotencyKey go trade
  fees : form.feeRate = 0 ∨ Charged form

variable {trade form : TradeFields}

theorem Form.valid (h : Form go trade form) (hv : Valid go trade) : Valid go form where
  symbol := h.symbol.trans_ne hv.symbol
  buyOrder := h.buyOrder.trans_ne hv.buyOrder
  sellOrder := h.sellOrder.trans_ne hv.sellOrder
  price := hv.price.trans_eq h.price.symm
  quantity := hv.quantity.trans_eq h.quantity.symm
  sequence := hv.sequence.trans_eq h.sequence.symm

theorem validateTrade_ok (hv : Valid go trade) : validateTrade go trade = .ok () := by
  unfold validateTrade
  rw [if_neg hv.symbol, if_neg (not_or.mpr ⟨hv.buyOrder, hv.sellOrder⟩),
    if_neg (not_or.mpr ⟨not_not.mpr hv.price, not_not.mpr hv.quantity⟩)]

/-- Every form has or gets the key of the trade. -/
theorem Form.keyOf_eq (h : Form go trade form) : keyOf go form = tradeIdempotencyKey go trade := by
  have hkey : tradeIdempotencyKey go form = tradeIdempotencyKey go trade := by
    simp only [tradeIdempotencyKey, deterministicTradeIdempotencyKey, h.event, h.symbol, h.buyOrder,
      h.sellOrder, h.price, h.quantity]
  have htrimmed : Trimmed isSpace (tradeIdempotencyKey go trade).toList :=
    (tradeIdempotencyKey_trimmed trade).1
  simp only [keyOf]
  rcases h.key with hblank | hkey'
  · rw [if_pos hblank, hkey]
  · rw [hkey', trimSpace_of_trimmed htrimmed, if_neg]
    intro hempty
    exact (tradeIdempotencyKey_trimmed trade).2 (String.toList_eq_nil_iff.mpr hempty)

/-! ## What each trip leaves -/

theorem unmarshal_marshal (trade : TradeFields) : unmarshal go (marshal go trade) = .ok trade := by
  simp [unmarshal, marshal, readUint, readInt, readText, readDecimal, readTime,
    go.newFromString_decimalString, go.parseTime_timeString]
  rfl

theorem Form.outbox (h : Form go trade form) (id : Nat) :
    ∃ form', Trip.run go form (.outbox id) = .ok form' ∧ Form go trade form' := by
  refine ⟨form, ?_, h⟩
  simp only [Trip.run, executionEventFromOutbox, newTradeOutboxEvent, unmarshal_marshal]

theorem Form.normalized (h : Form go trade form) : Form go trade (TradeForms.normalized go form) :=
  { h with
    symbol := (normalize_normalize _).trans h.symbol
    event := (trimSpace_trimSpace _).trans h.event
    fees := h.fees.imp_right fun hc => { hc with } }

/-- A form may be given the key. -/
theorem Form.keyed (h : Form go trade form) {key : String}
    (hkey : key = tradeIdempotencyKey go trade) :
    Form go trade { form with idempotencyKey := key } :=
  { h with key := .inr hkey, fees := h.fees.imp_right fun hc => { hc with } }

theorem Form.prepared (h : Form go trade form) (hv : Valid go trade) :
    ∃ form', prepareTradeForSettlement go form = .ok form' ∧ Form go trade form' ∧
      form'.idempotencyKey = tradeIdempotencyKey go trade := by
  have hkey := h.normalized.keyOf_eq
  have hkeyed := h.normalized.keyed hkey
  unfold prepareTradeForSettlement
  rw [validateTrade_ok (h.valid hv), if_neg (not_lt.mpr (h.valid hv).sequence)]
  generalize keyOf go (TradeForms.normalized go form) = key at hkey hkeyed
  generalize TradeForms.normalized go form = form' at hkeyed
  exact ⟨_, rfl, hkeyed, hkey⟩

theorem Form.charged (h : Form go trade form) (hv : Valid go trade) :
    ∃ form', applyTradeFeePolicy form = .ok form' ∧ Form go trade form' ∧ Charged form' ∧
      form'.idempotencyKey = form.idempotencyKey := by
  have hvalid := h.valid hv
  have hrate := defaultTradingFeeRate_bounds
  unfold applyTradeFeePolicy
  rw [if_neg (not_or.mpr ⟨not_not.mpr hvalid.quantity, not_not.mpr hvalid.price⟩)]
  rcases h.fees with hnone | hcharged
  · rw [if_neg (by rw [hnone]; exact lt_irrefl 0),
      if_neg (not_or.mpr ⟨not_not.mpr hrate.1.le, not_le.mpr hrate.2⟩)]
    have hcharged : Charged
        { form with
          feeRate := defaultTradingFeeRate
          buyerFee := tradingFeeAmount (tradeQuoteAmount form)
          buyerFeeAsset := krwAssetSymbol
          sellerFee := tradingFeeAmount (tradeQuoteAmount form)
          sellerFeeAsset := krwAssetSymbol } := ⟨rfl, rfl, rfl, rfl, rfl⟩
    exact ⟨_, rfl, { h with fees := .inr hcharged }, hcharged, rfl⟩
  · rw [if_pos (by rw [hcharged.feeRate]; exact hrate.1)]
    exact ⟨form, rfl, h, hcharged, rfl⟩

/-- The row keeps what the form had, but for the assets of the fees, and those are the same for all
trades. -/
theorem Form.recorded (h : Form go trade form) (hv : Valid go trade)
    (err : Option SettlementErrors.SettlementError) (occurredAt now : Nat) :
    ∃ form' failure, failedSettlementFromTrade go form err occurredAt now = .ok (form', failure) ∧
      Form go trade form' ∧ Form go trade (tradeFromFailedSettlement (stored go failure)) := by
  have hkey := h.keyOf_eq
  unfold failedSettlementFromTrade
  rw [validateTrade_ok (h.valid hv)]
  generalize keyOf go form = key at hkey
  refine ⟨_, _, rfl, h.keyed hkey, ?_⟩
  exact
    { h with
      symbol := (normalize_normalize _).trans h.symbol
      event := (trimSpace_trimSpace _).trans h.event
      key := .inr hkey
      fees := h.fees.imp_right fun hc => { hc with buyerFeeAsset := rfl, sellerFeeAsset := rfl } }

theorem Form.run (h : Form go trade form) (hv : Valid go trade) (trip : Trip) :
    ∃ form', Trip.run go form trip = .ok form' ∧ Form go trade form' := by
  cases trip with
  | outbox id => exact h.outbox id
  | prepared =>
    obtain ⟨form', hrun, hform, -⟩ := h.prepared hv
    exact ⟨form', hrun, hform⟩
  | charged =>
    obtain ⟨form', hrun, hform, -⟩ := h.charged hv
    exact ⟨form', hrun, hform⟩
  | recorded err occurredAt now =>
    obtain ⟨form', failure, hrun, hform, -⟩ := h.recorded hv err occurredAt now
    exact ⟨form', by rw [Trip.run, hrun]; rfl, hform⟩
  | retried err occurredAt now =>
    obtain ⟨form', failure, hrun, -, hform⟩ := h.recorded hv err occurredAt now
    exact ⟨_, by rw [Trip.run, hrun]; rfl, hform⟩

/-- No trip fails, whatever came before it. -/
theorem Form.travel (h : Form go trade form) (hv : Valid go trade) (trips : List Trip) :
    ∃ form', TradeForms.travel go trips form = .ok form' ∧ Form go trade form' :=
  Fallible.foldlM_ok (Form go trade) (fun _ trip _ hform => hform.run hv trip) h

/-- Every form is settled with the key and the default fees of the trade. -/
theorem Form.settles (h : Form go trade form) (hv : Valid go trade) :
    ∃ settled, prepare go form = .ok settled ∧ Form go trade settled ∧ Charged settled ∧
      settled.idempotencyKey = tradeIdempotencyKey go trade := by
  obtain ⟨keyed, hkeyed, hform, hkey⟩ := h.prepared hv
  obtain ⟨settled, hsettled, hform', hcharged, hkey'⟩ := hform.charged hv
  refine ⟨settled, ?_, hform', hcharged, hkey'.trans hkey⟩
  unfold prepare
  rw [hkeyed]
  exact hsettled

/-- The row that was settled, under any id, and a form that comes to settlement later have the same
payload. -/
theorem validate_forms {settled again : TradeFields} (hs : Form go trade settled)
    (ha : Form go trade again) (hcs : Charged settled) (hca : Charged again) (id tradedAt : Nat) :
    validateIdempotentTradePayload go { settled with id := id, tradedAt := tradedAt } again =
      .ok () := by
  have hquote : tradeQuoteAmount settled = tradeQuoteAmount again := by
    simp [tradeQuoteAmount, hs.price, hs.quantity, ha.price, ha.quantity]
  unfold validateIdempotentTradePayload
  simp [hs.symbol, ha.symbol, hs.sequence, ha.sequence, hs.event, ha.event, hs.buyOrder,
    ha.buyOrder, hs.sellOrder,
    ha.sellOrder, hs.price, ha.price, hs.quantity, ha.quantity, hcs.feeRate, hca.feeRate,
    hcs.buyerFee, hca.buyerFee,
    hcs.buyerFeeAsset, hca.buyerFeeAsset, hcs.sellerFee, hca.sellerFee, hcs.sellerFeeAsset,
    hca.sellerFeeAsset, hquote]

theorem valid_of_prepare {settled : TradeFields} (h : prepare go trade = .ok settled) :
    Valid go trade := by
  obtain ⟨keyed, hkeyed, -⟩ := Fallible.bind_eq_ok.mp h
  obtain ⟨_, hvalid, hrest⟩ := Fallible.bind_eq_ok.mp hkeyed
  obtain ⟨hsequence, -⟩ := Fallible.guard_eq_ok.mp hrest
  obtain ⟨hsymbol, hvalid⟩ := Fallible.guard_eq_ok.mp hvalid
  obtain ⟨horders, hvalid⟩ := Fallible.guard_eq_ok.mp hvalid
  obtain ⟨hterms, -⟩ := Fallible.guard_eq_ok.mp hvalid
  rw [not_or] at horders hterms
  exact ⟨hsymbol, horders.1, horders.2, not_not.mp hterms.1, not_not.mp hterms.2,
    not_lt.mp hsequence⟩

section

variable (go)
variable (engineID : String) (tradeSeq : Int) (now : Nat) (coinSymbol : String)
  (price quantity : Decimal)
variable (buyOrderID sellOrderID : Nat)

theorem newTrade_form :
    Form go (newTrade engineID tradeSeq now coinSymbol price quantity buyOrderID sellOrderID)
      (newTrade engineID tradeSeq now coinSymbol price quantity buyOrderID sellOrderID) := by
  have hblank : trimSpace "" = "" := by decide
  exact ⟨rfl, rfl, rfl, rfl, rfl, rfl, rfl, .inl hblank, .inl rfl⟩

/-- However a trade of the engine gets to settlement again, it has the key of the settled trade and
the same payload. -/
theorem forms_settle_alike (settled : TradeFields) (trips : List Trip)
    (hsettled : prepare go (newTrade engineID tradeSeq now coinSymbol price quantity buyOrderID
      sellOrderID) = .ok settled) :
    ∃ form again,
      travel go trips (newTrade engineID tradeSeq now coinSymbol price quantity buyOrderID
        sellOrderID) = .ok form ∧
      prepare go form = .ok again ∧ again.idempotencyKey = settled.idempotencyKey ∧
      ∀ id tradedAt,
        validateIdempotentTradePayload go { settled with id := id, tradedAt := tradedAt } again =
          .ok () := by
  have hv := valid_of_prepare hsettled
  have hnew := newTrade_form go engineID tradeSeq now coinSymbol price quantity
    buyOrderID sellOrderID
  generalize newTrade engineID tradeSeq now coinSymbol price quantity buyOrderID sellOrderID =
    trade at *
  obtain ⟨settled', hsettled', hs, hcs, hskey⟩ := hnew.settles hv
  cases hsettled.symm.trans hsettled'
  obtain ⟨form, hform, hf⟩ := hnew.travel hv trips
  obtain ⟨again, hagain, ha, hca, hakey⟩ := hf.settles hv
  exact ⟨form, again, hform, hagain, hakey.trans hskey.symm, validate_forms hs ha hcs hca⟩

end

theorem toUpper_cases (c : Char) : c.toUpper = c ∨ 65 ≤ c.toUpper.toNat ∧ c.toUpper.toNat ≤ 90 := by
  unfold Char.toUpper
  split
  · rename_i h
    simp only [UInt32.le_iff_toNat_le] at h
    have hlo : 97 ≤ c.val.toNat := h.1
    have hhi : c.val.toNat ≤ 122 := h.2
    right
    simp only [Char.toNat, UInt32.toNat_add]
    rw [show ('A'.val - 'a'.val).toNat = 2 ^ 32 - 32 by decide]
    omega
  · exact .inl rfl

theorem toUpper_toUpper (c : Char) : c.toUpper.toUpper = c.toUpper := by
  rcases toUpper_cases c with h | ⟨-, hhi⟩
  · rw [h, h]
  · generalize c.toUpper = d at hhi
    unfold Char.toUpper
    rw [dif_neg]
    simp only [UInt32.le_iff_toNat_le, not_and]
    intro (h : 97 ≤ d.toNat)
    omega

theorem isSpace_toUpper (c : Char) (h : isSpace c = false) : isSpace c.toUpper = false := by
  rcases toUpper_cases c with hc | hrange
  · rwa [hc]
  · simp only [isSpace, Bool.or_eq_false_iff, Bool.and_eq_false_iff, decide_eq_false_iff_not,
      beq_eq_false_iff_ne]
    omega

/-- 2024-05-01, five microseconds after noon, in nanoseconds from the zero time. -/
def noon : Nat := 63850161600000005000

def noonText : String := "2024-05-01T12:00:00.000005Z"

/-- The functions on letters of ASCII, on decimals, on the time of the trade below and on the text
that its key would be made of. -/
def ascii : Library where
  upper := Char.toUpper
  upper_upper := toUpper_toUpper
  upper_space := isSpace_toUpper
  decimalString := Decimal.string
  newFromString := Decimal.newFromString
  newFromString_decimalString := Decimal.newFromString_string
  timeString t := if t = noon then noonText else Decimal.string t
  parseTime s := if s = noonText then some noon else (Decimal.newFromString s).map fun d =>
    d.num.natAbs
  parseTime_timeString t := by
    by_cases ht : t = noon
    · simp [ht]
    · have hread := Decimal.newFromString_string t
      have hne : Decimal.string t ≠ noonText := by
        intro he
        rw [he, show Decimal.newFromString noonText = none by decide +kernel] at hread
        cases hread
      simp [ht, hne, hread]
  timestamp t := t / 1000 * 1000
  sum256 data :=
    if data = bytes "BTC|1|2|100.5|0.02" then
      [246, 152, 100, 96, 134, 52, 191, 45, 208, 194, 3, 186, 156, 77, 229, 210, 206, 15, 202, 66,
        133, 121, 98, 185, 35, 106, 180, 111, 8, 144, 217, 212]
    else List.replicate 32 0
  sum256_ne_nil data := by split <;> simp

theorem forms_settle_alike_deadlock :
    ∃ settled form again, prepare ascii (newTrade "engine-1" 0 noon " btc" (201 / 2) (1 / 50) 1 2) =
      .ok settled ∧
      travel ascii [.charged, .retried (some ⟨"deadlock detected", some "40P01"⟩) 7 8,
        .outbox 3, .prepared]
        (newTrade "engine-1" 0 noon " btc" (201 / 2) (1 / 50) 1 2) = .ok form ∧
      prepare ascii form = .ok again ∧ again.idempotencyKey = settled.idempotencyKey ∧
      ∀ id tradedAt,
        validateIdempotentTradePayload ascii { settled with id := id, tradedAt := tradedAt } again =
          .ok () := by
  have hv : Valid ascii (newTrade "engine-1" 0 noon " btc" (201 / 2) (1 / 50) 1 2) :=
    ⟨by decide, by decide, by decide, by decide +kernel, by decide +kernel, by decide⟩
  obtain ⟨settled, hsettled, -⟩ :=
    (newTrade_form ascii "engine-1" 0 noon " btc" (201 / 2) (1 / 50) 1 2).settles hv
  obtain ⟨form, again, hform⟩ :=
    forms_settle_alike ascii "engine-1" 0 noon " btc" (201 / 2) (1 / 50) 1 2 settled
    [.charged, .retried (some ⟨"deadlock detected", some "40P01"⟩) 7 8, .outbox 3,
      .prepared] hsettled
  exact ⟨settled, form, again, hsettled, hform⟩

/-! ## The rows of the settlement

The services are modelled on rows whose texts need no trimming. On these, the functions above
compute what the settlement does.
-/

def eventText (id : EventID) : String := s!"{id.engineID}-{id.sequence}"

def fieldsOf (row : TradeRow) (tradedAt : Nat) : TradeFields :=
  { id := row.id
    idempotencyKey := row.idempotencyKey
    engineSequence := row.eventID.sequence
    engineEventID := eventText row.eventID
    coinSymbol := row.coinSymbol
    price := row.price
    quantity := row.quantity
    feeRate := row.feeRate
    buyerFee := row.buyerFee
    buyerFeeAsset := row.buyerFeeAsset
    sellerFee := row.sellerFee
    sellerFeeAsset := row.sellerFeeAsset
    tradedAt := tradedAt
    buyOrderID := row.buyOrderID
    sellOrderID := row.sellOrderID }

/-- The texts of the row need no trimming. -/
structure Plain (go : Library) (row : TradeRow) : Prop where
  symbol : normalizeTradeCoinSymbol go row.coinSymbol = row.coinSymbol
  key : trimSpace row.idempotencyKey = row.idempotencyKey
  buyerAsset : trimSpace row.buyerFeeAsset = row.buyerFeeAsset
  sellerAsset : trimSpace row.sellerFeeAsset = row.sellerFeeAsset

variable {row row' : TradeRow}

theorem eventText_eq (id : EventID) : eventText id = id.engineID.repr ++ "-" ++ id.sequence.repr :=
  rfl

theorem isSpace_of_isDigit {c : Char} (h : c.isDigit = true) : isSpace c = false := by
  have hrange : 48 ≤ c.toNat ∧ c.toNat ≤ 57 := by
    simpa [Char.isDigit, UInt32.le_iff_toNat_le] using h
  simp only [isSpace, Bool.or_eq_false_iff, Bool.and_eq_false_iff, decide_eq_false_iff_not,
    beq_eq_false_iff_ne]
  omega

/-- The id of an event is made of digits and a hyphen. -/
theorem trimSpace_eventText (id : EventID) : trimSpace (eventText id) = eventText id := by
  have hdigit : ∀ n c, c ∈ Nat.toDigits 10 n → isSpace c = false := fun n c hc =>
    isSpace_of_isDigit (Nat.isDigit_of_mem_toDigits (by decide) (by decide) hc)
  apply trimSpace_of_trimmed
  apply Trimmed.of_forall
  intro c hc
  rw [eventText_eq, String.toList_append, String.toList_append, Nat.toList_repr, Nat.toList_repr]
    at hc
  rcases List.mem_append.mp hc with hc | hc
  · rcases List.mem_append.mp hc with hc | hc
    · exact hdigit _ c hc
    · rw [List.mem_singleton.mp hc]
      decide
  · exact hdigit _ c hc

theorem eventText_ne (id : EventID) : eventText id ≠ "" := by
  intro h
  have hlist := congrArg String.toList h
  simp [eventText_eq] at hlist

theorem keyOf_fieldsOf (h : Plain go row) (t : Nat) :
    keyOf go (fieldsOf row t) = settlementKey row := by
  have hengine : tradeIdempotencyKey go (fieldsOf row t) = engineKey row.eventID := by
    simp only [tradeIdempotencyKey, fieldsOf, trimSpace_eventText]
    rw [if_pos (eventText_ne _)]
    simp only [eventText, engineKey, String.append_assoc]
    rfl
  simp only [keyOf, settlementKey, hengine]
  simp only [fieldsOf, h.key]

theorem validateTrade_fieldsOf (h : Plain go row) (t : Nat) :
    validateTrade go (fieldsOf row t) = Service.validateTrade row.toTrade := by
  unfold validateTrade
  rw [show (fieldsOf row t).coinSymbol = row.coinSymbol from rfl, h.symbol]
  rfl

theorem prepareTradeForSettlement_fieldsOf (h : Plain go row) (t : Nat) :
    prepareTradeForSettlement go (fieldsOf row t) =
      (Service.prepareTradeForSettlement row).map (fieldsOf · t) := by
  have hnormal : normalized go (fieldsOf row t) = fieldsOf row t := by
    simp only [normalized, fieldsOf, h.symbol, trimSpace_eventText]
  have hsequence : ¬ (fieldsOf row t).engineSequence < 0 := by simp [fieldsOf]
  unfold prepareTradeForSettlement Service.prepareTradeForSettlement
  rw [validateTrade_fieldsOf h, if_neg hsequence, hnormal, keyOf_fieldsOf h]
  cases Service.validateTrade row.toTrade <;> rfl

theorem applyTradeFeePolicy_fieldsOf (row : TradeRow) (t : Nat) :
    applyTradeFeePolicy (fieldsOf row t) =
      (Service.applyTradeFeePolicy row).map (fieldsOf · t) := by
  unfold applyTradeFeePolicy Service.applyTradeFeePolicy
  rw [apply_ite (Except.map _), apply_ite (Except.map _), apply_ite (Except.map _)]
  rfl

/-- A trade is given the same key and the same fees. -/
theorem prepare_fieldsOf (h : Plain go row) (t : Nat) : prepare go (fieldsOf row t) =
    (Service.prepareTradeForSettlement row >>= Service.applyTradeFeePolicy).map (fieldsOf · t) := by
  unfold prepare
  rw [prepareTradeForSettlement_fieldsOf h]
  cases Service.prepareTradeForSettlement row with
  | error e => rfl
  | ok x => exact applyTradeFeePolicy_fieldsOf x t

theorem eventText_inj {a b : EventID} (hsequence : a.sequence = b.sequence)
    (h : eventText a = eventText b) : a = b := by
  rw [eventText_eq, eventText_eq, hsequence, String.append_left_inj, String.append_left_inj] at h
  cases a
  cases b
  cases natText_inj.mp h
  cases hsequence
  rfl

/-- Two rows with one key have the same payload under both checks. -/
theorem validateIdempotentTradePayload_fieldsOf (h : Plain go row) (h' : Plain go row')
    (hkey : row.idempotencyKey = row'.idempotencyKey) (t t' : Nat) :
    validateIdempotentTradePayload go (fieldsOf row t) (fieldsOf row' t') =
      Service.validateIdempotentTradePayload row row' := by
  have hevent : row.eventID = row'.eventID ↔
      row.eventID.sequence = row'.eventID.sequence ∧
      eventText row.eventID = eventText row'.eventID :=
    ⟨fun he => by rw [he]; exact ⟨rfl, rfl⟩, fun he => eventText_inj he.1 he.2⟩
  have hsame : row = { row' with id := row.id } ↔ row.coinSymbol = row'.coinSymbol ∧
      row.eventID = row'.eventID ∧
      row.buyOrderID = row'.buyOrderID ∧ row.sellOrderID = row'.sellOrderID ∧
      row.price = row'.price ∧
      row.quantity = row'.quantity ∧ row.feeRate = row'.feeRate ∧ row.buyerFee = row'.buyerFee ∧
      row.buyerFeeAsset = row'.buyerFeeAsset ∧ row.sellerFee = row'.sellerFee ∧
      row.sellerFeeAsset = row'.sellerFeeAsset := by
    constructor
    · intro he
      rw [he]
      simp
    · intro he
      obtain ⟨⟨⟩⟩ := row
      obtain ⟨⟨⟩⟩ := row'
      simp_all
  unfold validateIdempotentTradePayload Service.validateIdempotentTradePayload
  refine if_congr (Iff.trans ?_ hsame.not.symm) rfl rfl
  rw [hevent]
  simp only [fieldsOf, h.symbol, h'.symbol, trimSpace_eventText, h.buyerAsset, h'.buyerAsset,
    h.sellerAsset, h'.sellerAsset, Nat.cast_inj, not_and_or, ne_eq, or_assoc]

/-- The row of a failed settlement, with the message of its error. -/
def failureFields (failure : FailedSettlement) (errorMessage : List UInt8) (tradedAt : Option Nat)
    (occurredAt : Nat) : FailedSettlementFields :=
  { tradeIdempotencyKey := failure.tradeIdempotencyKey
    engineSequence := failure.eventID.sequence
    engineEventID := eventText failure.eventID
    tradedAt := tradedAt
    coinSymbol := failure.coinSymbol
    buyOrderID := failure.buyOrderID
    sellOrderID := failure.sellOrderID
    price := failure.price
    quantity := failure.quantity
    buyerFee := failure.buyerFee
    sellerFee := failure.sellerFee
    feeRate := failure.feeRate
    errorMessage := errorMessage
    status := failure.status
    retryCount := failure.retryCount
    occurredAt := occurredAt }

theorem failedSettlementFromTrade_fieldsOf (h : Plain go row) (error : CallError) (text : String)
    (t occurredAt now : Nat) :
    failedSettlementFromTrade go (fieldsOf row t) (some (error.withText text)) occurredAt now =
      (Service.failedSettlementFromTrade row error).map fun failure =>
        ({ fieldsOf row t with idempotencyKey := failure.tradeIdempotencyKey },
          failureFields failure
            (SettlementErrors.settlementErrorMessage (some (error.withText text)))
            (if t = 0 then none else some t) (if occurredAt = 0 then now else occurredAt)) := by
  unfold failedSettlementFromTrade Service.failedSettlementFromTrade
  rw [validateTrade_fieldsOf h, keyOf_fieldsOf h]
  cases Service.validateTrade row.toTrade with
  | error e => rfl
  | ok =>
    simp only [bind, Except.bind, pure, Except.pure, Except.map, failureFields, fieldsOf, h.symbol,
      trimSpace_eventText]
    rfl

/-- The retry worker rebuilds the same trade. -/
theorem tradeFromFailedSettlement_failureFields (failure : FailedSettlement)
    (errorMessage : List UInt8) (tradedAt : Option Nat) (occurredAt : Nat) :
    tradeFromFailedSettlement (failureFields failure errorMessage tradedAt occurredAt) =
      fieldsOf (Service.tradeFromFailedSettlement failure)
        ((tradedAt.filter (· ≠ 0)).getD occurredAt) := rfl

end GoExchange.TradeForms
