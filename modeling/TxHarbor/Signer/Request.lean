import TxHarbor.Signer.FeeScope

open List Option

namespace TxHarbor.Signer

/-! The body of a signing request (009): its text fields, the numbers, addresses and bytes they stand for, and the
transaction that is built from them. -/

/-- `Request`, as `DecodeRequest` leaves it. The call data is a text, given by its characters. -/
structure Request where
  signingRequestID : String
  attemptID : String
  intentID : String
  bindingRef : String
  recoveryVersion : UInt64
  chainID : UInt64
  sender : String
  nonce : String
  txType : UInt8
  toAddr : String
  value : String
  data : List Char
  gasLimit : String
  gasPrice : String
  maxFeePerGas : String
  maxPriorityFeePerGas : String
  asset : String
  recipient : String
  amount : String
  authorizationID : String
  deriving DecidableEq

/-! ### Numbers -/

/-- `decimalBig`: digits only, at least one. -/
def decimalBig (s : String) : Option Nat :=
  if s.toList = [] ∨ s.toList.any (fun c => !c.isDigit) = true then none
  else some (s.toList.foldl (fun n c => 10 * n + (c.toNat - 48)) 0)

def decimalUint64 (s : String) : Option Nat := (decimalBig s).filter fun n => decide (n < 2 ^ 64)

/-- The conversion `int64(n)`. -/
def int64 (n : UInt64) : Int := if n.toNat < 2 ^ 63 then n.toNat else n.toNat - 2 ^ 64

theorem int64_injective {m n : UInt64} (h : int64 m = int64 n) : m = n := by
  unfold int64 at h
  have hm := m.toNat_lt
  have hn := n.toNat_lt
  apply UInt64.toNat_inj.mp
  split_ifs at h <;> omega

/-! ### Addresses -/

def isHexDigit (c : Char) : Bool := c.isDigit || ('a' ≤ c && c ≤ 'f') || ('A' ≤ c && c ≤ 'F')

/-- The digits of an address in lower case. The prefix is optional and may be written `0X`. -/
def addressDigits (s : String) : List Char :=
  match s.toList.map Char.toLower with
  | '0' :: 'x' :: digits => digits
  | digits => digits

/-- `common.IsHexAddress`. -/
def isHexAddress (s : String) : Bool := (addressDigits s).length == 40 && (addressDigits s).all isHexDigit

/-- `lowerAddr`: the canonical form of an address. -/
def lowerAddr (s : String) : String := String.ofList ('0' :: 'x' :: addressDigits s)

/-- `strings.EqualFold`, on the texts of addresses. -/
def equalFold (s s' : String) : Bool := s.toList.map Char.toLower == s'.toList.map Char.toLower

open Char

theorem toLower_toLower (c : Char) : c.toLower.toLower = c.toLower := by
  unfold toLower
  split
  next hupper =>
    split
    next hagain =>
      exfalso
      simp only [UInt32.le_iff_toNat_le, ge_iff_le] at hupper hagain
      simp at hupper hagain
      omega
    · rfl
  · rfl

theorem lowerAddr_of_equalFold {s s' : String} (h : equalFold s s' = true) : lowerAddr s = lowerAddr s' := by
  unfold lowerAddr addressDigits
  rw [beq_iff_eq.mp h]

/-- The canonical form is its own. -/
theorem lowerAddr_lowerAddr (s : String) : lowerAddr (lowerAddr s) = lowerAddr s := by
  have hdigits : (addressDigits s).map toLower = addressDigits s := by
    have hlower : ∀ digits : List Char, (digits.map toLower).map toLower = digits.map toLower := by
      intro digits
      rw [List.map_map]
      exact map_congr_left fun c _ => toLower_toLower c
    unfold addressDigits
    split
    next digits hprefixed =>
      have htail := congrArg (List.drop 2) (hlower s.toList)
      rw [hprefixed] at htail
      exact htail
    · exact hlower s.toList
  have hzero : toLower '0' = '0' := by decide
  have hx : toLower 'x' = 'x' := by decide
  unfold lowerAddr
  congr 2
  rw [addressDigits, String.toList_ofList, map_cons, map_cons, hdigits, hzero, hx]
  rfl

/-! ### Call data -/

def hexDigit (c : Char) : Option Nat :=
  if c.isDigit then some (c.toNat - 48)
  else if 'a' ≤ c ∧ c ≤ 'f' then some (c.toNat - 87)
  else if 'A' ≤ c ∧ c ≤ 'F' then some (c.toNat - 55)
  else none

def hexBytes : List Char → Option (List Nat)
  | [] => some []
  | [_] => none
  | high :: low :: rest => do
    let h ← hexDigit high
    let l ← hexDigit low
    let bytes ← hexBytes rest
    some ((16 * h + l) :: bytes)

/-- `hexutil.Decode`: the prefix is required. -/
def hexDecode : List Char → Option (List Nat)
  | '0' :: 'x' :: digits | '0' :: 'X' :: digits => hexBytes digits
  | _ => none

def lowerDigit (n : Nat) : Char := Char.ofNat (if n < 10 then n + 48 else n + 87)

/-- `common.BytesToAddress` in canonical form. -/
def addressText (bytes : List Nat) : String :=
  String.ofList ('0' :: 'x' :: bytes.flatMap fun b => [lowerDigit (b / 16), lowerDigit (b % 16)])

def bigEndian (bytes : List Nat) : Nat := bytes.foldl (fun n b => 256 * n + b) 0

/-- `transferSelector`: `transfer(address,uint256)`. -/
def transferSelector : List Nat := [0xa9, 0x05, 0x9c, 0xbb]

/-- `checkCalldata`: whether the bytes are the transfer of the amount to the recipient. -/
def checkCalldata (raw : List Nat) (recipient : String) (amount : Nat) : Bool :=
  if raw.length ≠ 4 + 32 + 32 ∨ raw.take 4 ≠ transferSelector then false
  else if (raw.drop 4).take 12 ≠ List.replicate 12 0 then false
  else if equalFold (addressText ((raw.drop 16).take 20)) recipient = false then false
  else bigEndian (raw.drop 36) == amount

/-- What a token contract reads from call data: the recipient and the amount of a transfer. -/
def decodeTransfer (data : List Nat) : Option (String × Nat) :=
  if data.length = 68 ∧ data.take 4 = transferSelector ∧ (data.drop 4).take 12 = List.replicate 12 0 then
    some (lowerAddr (addressText ((data.drop 16).take 20)), bigEndian (data.drop 36))
  else none

theorem decodeTransfer_of_checkCalldata {raw : List Nat} {recipient : String} {amount : Nat}
    (h : checkCalldata raw recipient amount = true) : decodeTransfer raw = some (lowerAddr recipient, amount) := by
  unfold checkCalldata at h
  split_ifs at h with hshape hpadding hrecipient
  rw [not_or, not_not, not_not] at hshape
  rw [decodeTransfer, if_pos ⟨hshape.1, hshape.2, not_not.mp hpadding⟩,
    lowerAddr_of_equalFold (Bool.not_eq_false _ ▸ hrecipient), beq_iff_eq.mp h]

/-! ### Validation -/

def maxUint256 : Nat := 2 ^ 256 - 1

/-- `checkAddress`; `checksum` is the EIP-55 test of a mixed-case text. -/
def checkAddress (checksum : String → Bool) (s : String) : Bool :=
  isHexAddress s && (s.toList.map Char.toLower == s.toList || checksum s)

/-- The fee fields of the type: both shapes are closed. -/
def Request.fees (r : Request) : Option FeeShape :=
  if r.txType = 0 then
    if r.gasPrice = "" ∨ r.maxFeePerGas ≠ "" ∨ r.maxPriorityFeePerGas ≠ "" then none
    else (decimalBig r.gasPrice).map .legacy
  else if r.txType = 2 then
    if r.maxFeePerGas = "" ∨ r.maxPriorityFeePerGas = "" ∨ r.gasPrice ≠ "" then none
    else do
      let maxFee ← decimalBig r.maxFeePerGas
      let tip ← decimalBig r.maxPriorityFeePerGas
      some (.dynamicFee maxFee tip)
  else none

/-- A field that is refused unless it is good. -/
def refusedUnless (good : Bool) (field : String) : Option String := if good then none else some field

theorem refusedUnless_eq_none {good : Bool} {field : String} : refusedUnless good field = none ↔ good = true := by
  cases good <;> simp [refusedUnless]

theorem orElse_eq_none {A : Type} {o o' : Option A} : (o <|> o') = none ↔ o = none ∧ o' = none := by
  cases o <;> simp

/-- `checkFees`: exactly the fields of the type, positive, the priority fee at most the fee. -/
def checkFees (r : Request) : Option String :=
  if r.txType = 0 then
    refusedUnless (r.gasPrice != "" && r.maxFeePerGas == "" && r.maxPriorityFeePerGas == "") "gas_price" <|>
      refusedUnless ((decimalBig r.gasPrice).any (0 < ·)) "gas_price"
  else
    refusedUnless (r.maxFeePerGas != "" && r.maxPriorityFeePerGas != "") "max_fee_per_gas" <|>
      refusedUnless (r.gasPrice == "") "gas_price" <|>
      refusedUnless ((decimalBig r.maxFeePerGas).any (0 < ·)) "max_fee_per_gas" <|>
      refusedUnless ((decimalBig r.maxPriorityFeePerGas).any fun tip =>
        decide (0 < tip) && (decimalBig r.maxFeePerGas).any (tip ≤ ·)) "max_priority_fee_per_gas"

/-- `Validate`: the first field it refuses, or `none`. -/
def validate (checksum : String → Bool) (r : Request) : Option String := refusedUnless (r.chainID != 0) "chain_id" <|>
    refusedUnless (r.txType == 0 || r.txType == 2) "tx_type" <|>
    refusedUnless (checkAddress checksum r.sender) "sender" <|>
    refusedUnless (checkAddress checksum r.toAddr) "to" <|>
    refusedUnless (checkAddress checksum r.asset) "asset" <|>
    refusedUnless (lowerAddr r.asset == lowerAddr r.toAddr) "asset" <|>
    refusedUnless (checkAddress checksum r.recipient) "recipient" <|>
    refusedUnless (decimalUint64 r.nonce).isSome "nonce" <|>
    refusedUnless (decimalBig r.value == some 0) "value" <|>
    refusedUnless ((decimalBig r.amount).any fun amount => decide (0 < amount) && decide (amount ≤ maxUint256)) "amount" <|>
    refusedUnless ((decimalUint64 r.gasLimit).any (0 < ·)) "gas_limit" <|>
    checkFees r <|>
    refusedUnless ((hexDecode r.data).any fun raw =>
      (decimalBig r.amount).any fun amount => checkCalldata raw (lowerAddr r.recipient) amount) "data"

/-! ### The transaction and the columns of a request -/

/-- What is signed. -/
structure Transaction where
  chainID : UInt64
  sender : String
  nonce : Nat
  txType : UInt8
  toAddr : String
  value : Nat
  data : List Nat
  gasLimit : Nat
  fees : FeeShape
  deriving DecidableEq

/-- `Transaction`, with the chain and the sender it is signed for. -/
def Request.transaction (r : Request) : Option Transaction := do
  let nonce ← decimalUint64 r.nonce
  let value ← decimalBig r.value
  let data ← hexDecode r.data
  let gasLimit ← decimalUint64 r.gasLimit
  let fees ← r.fees
  some ⟨r.chainID, lowerAddr r.sender, nonce, r.txType, lowerAddr r.toAddr, value, data, gasLimit, fees⟩

/-- The content columns of `signing_requests`. -/
structure Columns where
  chainID : Int
  sender : String
  nonce : Nat
  txType : UInt8
  toAddr : String
  value : Nat
  data : List Nat
  gasLimit : Nat
  fees : FeeShape
  asset : String
  recipient : String
  amount : Nat
  deriving DecidableEq

/-- The values of the insert. -/
def Request.columns (r : Request) : Option Columns := do
  let nonce ← decimalBig r.nonce
  let value ← decimalBig r.value
  let data ← hexDecode r.data
  let gasLimit ← decimalBig r.gasLimit
  let fees ← r.fees
  let amount ← decimalBig r.amount
  some ⟨int64 r.chainID, lowerAddr r.sender, nonce, r.txType, lowerAddr r.toAddr, value, data, gasLimit, fees,
    lowerAddr r.asset, lowerAddr r.recipient, amount⟩

/-- The `CHECK` constraints and the range of `NUMERIC(78,0)` that a validated request can still violate. -/
def Columns.storable (c : Columns) : Bool :=
  decide (0 < c.chainID) && decide (c.fees.perGas < 10 ^ 78) && decide (c.fees.priority < 10 ^ 78)

/-- PostgreSQL stores no text with a NUL. -/
def textual (s : String) : Bool := !s.toList.contains '\x00'

/-- The texts that `findAnchorRow` compares with. -/
def Request.searchable (r : Request) : Bool :=
  textual r.intentID && textual r.bindingRef && textual r.authorizationID && textual r.signingRequestID

/-- The insert of a searched row meets the types and the `CHECK`s of its table. -/
def Request.storable (r : Request) (columns : Columns) : Bool :=
  columns.storable && textual r.attemptID && decide (0 ≤ int64 r.recoveryVersion)

/-- A transaction pays what the columns of a request say. The fee fields are free. -/
structure Transaction.Pays (t : Transaction) (c : Columns) : Prop where
  chainID : int64 t.chainID = c.chainID
  sender : t.sender = c.sender
  nonce : t.nonce = c.nonce
  txType : t.txType = c.txType
  toAddr : t.toAddr = c.toAddr
  value : t.value = c.value
  data : t.data = c.data
  gasLimit : t.gasLimit = c.gasLimit

/-- Everything but the fees. -/
def Transaction.payment (t : Transaction) : UInt64 × String × Nat × UInt8 × String × Nat × List Nat × Nat :=
  (t.chainID, t.sender, t.nonce, t.txType, t.toAddr, t.value, t.data, t.gasLimit)

variable {t : Transaction} {c : Columns} {r : Request}

theorem Transaction.Pays.agree {t' : Transaction} (h : t.Pays c) (h' : t'.Pays c) : t.payment = t'.payment := by
  simp only [Transaction.payment, Prod.mk.injEq]
  exact ⟨int64_injective (h.chainID.trans h'.chainID.symm), h.sender.trans h'.sender.symm, h.nonce.trans h'.nonce.symm,
    h.txType.trans h'.txType.symm, h.toAddr.trans h'.toAddr.symm, h.value.trans h'.value.symm, h.data.trans h'.data.symm,
    h.gasLimit.trans h'.gasLimit.symm⟩

open Request

/-- Each field of the transaction is a field of the request, read. -/
theorem Request.transaction_reads (h : r.transaction = some t) :
    decimalBig r.nonce = some t.nonce ∧ decimalBig r.value = some t.value ∧ hexDecode r.data = some t.data ∧
      decimalBig r.gasLimit = some t.gasLimit ∧ r.fees = some t.fees ∧ t.chainID = r.chainID ∧ t.txType = r.txType ∧
      t.sender = lowerAddr r.sender ∧ t.toAddr = lowerAddr r.toAddr := by
  simp only [transaction, bind_eq_bind, bind_eq_some_iff, decimalUint64, filter_eq_some_iff] at h
  obtain ⟨nonce, ⟨hnonce, -⟩, value, hvalue, data, hdata, gasLimit, ⟨hgas, -⟩, fees, hfees, h⟩ := h
  cases h
  exact ⟨hnonce, hvalue, hdata, hgas, hfees, rfl, rfl, rfl, rfl⟩

/-- The transaction and the columns of a request say the same. -/
theorem Request.transaction_pays (ht : r.transaction = some t) (hc : r.columns = some c) : t.Pays c := by
  obtain ⟨hnonce, hvalue, hdata, hgas, -, hchain, htype, hsender, hto⟩ := transaction_reads ht
  simp only [columns, bind_eq_bind, bind_eq_some_iff] at hc
  obtain ⟨nonce, hnonce', value, hvalue', data, hdata', gasLimit, hgas', fees, -, amount, -, hc⟩ := hc
  cases hc
  exact ⟨congrArg int64 hchain, hsender, some.inj (hnonce.symm.trans hnonce'), htype, hto,
    some.inj (hvalue.symm.trans hvalue'), some.inj (hdata.symm.trans hdata'),
    some.inj (hgas.symm.trans hgas')⟩

/-- The transaction of a validated request is a transfer of its amount to its recipient by its asset, without value. -/
theorem validate_transfer {checksum : String → Bool} (h : validate checksum r = none) (ht : r.transaction = some t) :
    t.value = 0 ∧ t.toAddr = lowerAddr r.asset ∧
      ∃ amount, decimalBig r.amount = some amount ∧ decodeTransfer t.data = some (lowerAddr r.recipient, amount) := by
  obtain ⟨-, hvalue, hdata, -, -, -, -, -, hto⟩ := transaction_reads ht
  simp only [validate, orElse_eq_none, refusedUnless_eq_none] at h
  obtain ⟨-, -, -, -, -, hasset, -, -, hzero, -, -, -, hcalldata⟩ := h
  rw [hdata, any_some] at hcalldata
  cases hamount : decimalBig r.amount with
  | none =>
    rw [hamount] at hcalldata
    cases hcalldata
  | some amount =>
    rw [hamount, any_some] at hcalldata
    refine ⟨some.inj (hvalue.symm.trans (beq_iff_eq.mp hzero)), hto.trans (beq_iff_eq.mp hasset).symm, amount, rfl, ?_⟩
    rw [decodeTransfer_of_checkCalldata hcalldata, lowerAddr_lowerAddr]

end TxHarbor.Signer
