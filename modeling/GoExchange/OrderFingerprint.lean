import GoExchange.CreateOrder
import GoExchange.Words

/-!
# What a fingerprint is computed from

`computeOrderFingerprintV1` of `order_fingerprint.go` writes every field that
decides an order to the hash, each with its length before it. The decimals are
written with `String()`, which gives the same text for all representations of
one number; the hash is a parameter.
-/
namespace GoExchange.Service

open Framing

/-- `OrderFingerprintInput` with its texts, and with decimals as they were parsed: `ρ` is their
representation. -/
structure FingerprintFields (ρ : Type) where
  userID : Nat
  coinSymbol : String
  side : String
  orderType : String
  price : ρ
  amount : ρ
  quoteAmount : ρ
  deriving DecidableEq, Repr

/-- `binary.BigEndian.PutUint32(prefix[:], uint32(n))`. -/
def putUint32 (n : Nat) : List UInt8 :=
  let v := UInt32.ofNat n
  [(v >>> 24).toUInt8, (v >>> 16).toUInt8, (v >>> 8).toUInt8, v.toUInt8]

section

-- the texts of decimals, `Decimal.String`
variable {ρ : Type} (string : ρ → String)

/-- What is written, in this order. -/
def FingerprintFields.texts (input : FingerprintFields ρ) : List String :=
  ["v1", Nat.repr input.userID, input.coinSymbol, input.side, input.orderType,
    string input.price, string input.amount, string input.quoteAmount]

/-- The bytes that reach the hash. -/
def fingerprintBytes (input : FingerprintFields ρ) : List UInt8 :=
  ((input.texts string).map bytes).flatMap (frame putUint32)

end

theorem putUint32_prefixes : Prefixes putUint32 4 (2 ^ 32) where
  length _ := rfl
  inj m n hm hn h := by
    simp only [putUint32, List.cons.injEq, and_true] at h
    obtain ⟨h₁, h₂, h₃, h₄⟩ := h
    have h₁ := congrArg UInt8.toNat h₁
    have h₂ := congrArg UInt8.toNat h₂
    have h₃ := congrArg UInt8.toNat h₃
    have h₄ := congrArg UInt8.toNat h₄
    simp only [UInt32.toNat_toUInt8, UInt32.toNat_shiftRight, UInt32.toNat_ofNat',
      Nat.shiftRight_eq_div_pow, Nat.mod_eq_of_lt hm, Nat.mod_eq_of_lt hn] at h₁ h₂ h₃ h₄
    simp at h₁ h₂ h₃ h₄
    omega

theorem bytes_injective : Function.Injective bytes := by
  intro a b h
  exact String.toByteArray_inj.mp (ByteArray.ext (Array.toList_inj.mp h))

theorem length_bytes (value : String) : (bytes value).length = value.utf8ByteSize := by
  simp [bytes]

section

variable {ρ : Type} {string : ρ → String} {a b : FingerprintFields ρ}

/-- The texts can be read off the bytes. -/
theorem texts_of_fingerprintBytes (ha : ∀ text ∈ a.texts string, text.utf8ByteSize < 2 ^ 32)
    (hb : ∀ text ∈ b.texts string, text.utf8ByteSize < 2 ^ 32)
    (h : fingerprintBytes string a = fingerprintBytes string b) :
    a.texts string = b.texts string := by
  have hshort : ∀ c : FingerprintFields ρ, (∀ text ∈ c.texts string, text.utf8ByteSize < 2 ^ 32) →
      ∀ field ∈ (c.texts string).map bytes, field.length < 2 ^ 32 := by
    intro c hc field hfield
    obtain ⟨text, htext, rfl⟩ := List.mem_map.mp hfield
    rw [length_bytes]
    exact hc text htext
  apply List.map_injective_iff.mpr bytes_injective
  exact putUint32_prefixes.flatMap_frame (by simp [FingerprintFields.texts]) (hshort a ha)
    (hshort b hb) h

/-- Two requests reach the hash as the same bytes exactly if they are the same order: the texts are
equal, and the decimals are equal as numbers. -/
theorem fingerprintBytes_eq_iff (value : ρ → ℚ)
    (hstring : ∀ x y, string x = string y ↔ value x = value y)
    (a b : FingerprintFields ρ) (ha : ∀ text ∈ a.texts string, text.utf8ByteSize < 2 ^ 32)
    (hb : ∀ text ∈ b.texts string, text.utf8ByteSize < 2 ^ 32) :
    fingerprintBytes string a = fingerprintBytes string b ↔
      a.userID = b.userID ∧ a.coinSymbol = b.coinSymbol ∧ a.side = b.side ∧
      a.orderType = b.orderType ∧
        value a.price = value b.price ∧ value a.amount = value b.amount ∧
        value a.quoteAmount = value b.quoteAmount := by
  have htexts : a.texts string = b.texts string ↔ a.userID = b.userID ∧
      a.coinSymbol = b.coinSymbol ∧
      a.side = b.side ∧ a.orderType = b.orderType ∧ value a.price = value b.price ∧
      value a.amount = value b.amount ∧ value a.quoteAmount = value b.quoteAmount := by
    simp only [FingerprintFields.texts, List.cons.injEq, true_and, and_true, natText_inj, hstring]
  rw [← htexts]
  constructor
  · exact texts_of_fingerprintBytes ha hb
  · intro h
    rw [fingerprintBytes, fingerprintBytes, h]

/-- Whole numbers written with any number of zeros after the point, which `String()` drops. -/
theorem fingerprintBytes_zeros :
    fingerprintBytes (fun x : Nat × Nat => Nat.repr x.1) ⟨1, "BTC", "BUY", "LIMIT", (100, 0),
      (5, 3), (0, 0)⟩ =
      fingerprintBytes (fun x : Nat × Nat => Nat.repr x.1) ⟨1, "BTC", "BUY", "LIMIT", (100, 2),
        (5, 0), (0, 1)⟩ ∧
    fingerprintBytes (fun x : Nat × Nat => Nat.repr x.1) ⟨1, "BTC", "SELL", "LIMIT", (100, 0),
      (5, 0), (0, 0)⟩ ≠
      fingerprintBytes (fun x : Nat × Nat => Nat.repr x.1) ⟨1, "BTCS", "ELL", "LIMIT", (100, 0),
        (5, 0), (0, 0)⟩ := by
  have hstring : ∀ x y : Nat × Nat, Nat.repr x.1 = Nat.repr y.1 ↔ (x.1 : ℚ) = (y.1 : ℚ) := by
    intro x y
    rw [natText_inj, Nat.cast_inj]
  constructor
  · exact (fingerprintBytes_eq_iff (fun x : Nat × Nat => (x.1 : ℚ)) hstring _ _ (by decide)
      (by decide)).mpr (by simp)
  · intro h
    have := (fingerprintBytes_eq_iff (fun x : Nat × Nat => (x.1 : ℚ)) hstring _ _ (by decide)
      (by decide)).mp h
    exact absurd this.2.1 (by decide)

end

/-! ## The fingerprints that `CreateOrder` compares -/

def sideText : OrderSide → String
  | .buy => "BUY"
  | .sell => "SELL"
  | .unknown => ""

def orderTypeText : OrderType → String
  | .limit => "LIMIT"
  | .market => "MARKET"
  | .unknown => ""

theorem sideText_injective : Function.Injective sideText := by
  intro a b h
  cases a <;> cases b <;> first | rfl | exact absurd h (by decide)

theorem orderTypeText_injective : Function.Injective orderTypeText := by
  intro a b h
  cases a <;> cases b <;> first | rfl | exact absurd h (by decide)

def OrderFingerprintInput.fields (input : OrderFingerprintInput) : FingerprintFields Decimal :=
  ⟨input.userID, input.coinSymbol, sideText input.side, orderTypeText input.orderType, input.price,
    input.amount, input.quoteAmount⟩

section

-- `sha256` in hexadecimal and `Decimal.String`
variable (hash : List UInt8 → String) (string : Decimal → String)

def computeOrderFingerprintV1 (input : OrderFingerprintInput) : String :=
  hash (fingerprintBytes string input.fields)

/-- With a hash that tells the bytes apart, only the stored request itself is answered from a stored
row. -/
theorem replayResult_same (hhash : Function.Injective hash) (hstring : Function.Injective string)
    {record : OrderIdempotencyKey} {stored input : OrderFingerprintInput}
    {answer : CreateOrderResult}
    (hrecord : record.fingerprint = computeOrderFingerprintV1 hash string stored)
    (hstored : ∀ text ∈ stored.fields.texts string, text.utf8ByteSize < 2 ^ 32)
    (hinput : ∀ text ∈ input.fields.texts string, text.utf8ByteSize < 2 ^ 32)
    (h : replayResult (computeOrderFingerprintV1 hash string) record input = .ok answer) :
    input = stored := by
  unfold replayResult computeOrderFingerprint at h
  by_cases hversion : record.fingerprintVersion = 1
  · simp only [hversion, if_true] at h
    obtain ⟨hsame, -⟩ := Fallible.guard_eq_ok.mp h
    rw [not_not, hrecord] at hsame
    have htexts := texts_of_fingerprintBytes hstored hinput (hhash hsame)
    simp only [FingerprintFields.texts, OrderFingerprintInput.fields, List.cons.injEq,
      true_and, and_true,
      natText_inj, hstring.eq_iff, sideText_injective.eq_iff, orderTypeText_injective.eq_iff]
      at htexts
    obtain ⟨h₁, h₂, h₃, h₄, h₅, h₆, h₇⟩ := htexts
    cases stored
    cases input
    simp_all
  · simp only [hversion, if_false] at h
    cases h

end

end GoExchange.Service
