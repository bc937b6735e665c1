import ForgeLink.Drivers.S7Read
import ForgeLink.Lib.Binary64

/-!
# The S7 driver: planning batch writes

`encode.rs`, the write half of `batch.rs` and `write_data_budget` of `pdu.rs`.
The width of a value is that of its address, and a value that does not fit it is
refused.  Encoded items are grouped by area, data block and width and sorted by
their first byte.  Every bit is a plan of its own; the others share a plan if
they follow each other exactly, up to the budget that the negotiated PDU leaves.
-/

namespace ForgeLink.Drivers.S7comm

open Lib

/-! ## Encoding -/

/-- A value as the transport takes it. -/
structure EncodedWrite where
  transportSize : UInt8
  length : UInt16
  payload : Bytes

/-- `byte_write`, `word_write` and `dword_write`. -/
def wideWrite (ty : S7Type) (payload : Bytes) : EncodedWrite := ⟨ty.unit.1, 1, payload⟩

/-- The bits of a width. -/
def S7Type.bits (ty : S7Type) : Nat := 8 * ty.widthBytes

/-- The name of a width in a message. -/
def S7Type.label : S7Type → String
  | bit => "位"
  | byte => "字节"
  | word => "字"
  | dword => "双字"

/-- The error for a number that is out of range. -/
def outOfRange (ty : S7Type) (v : String) : DriverErrorInfo :=
  .invalidType ("值 " ++ v ++ " 超出" ++ ty.label ++ "目标可表示范围（禁止静默截断）")

/-- The arms of `encode_write` for `I64`. -/
def signedWrite (ty : S7Type) (v : Int64) : Except DriverErrorInfo EncodedWrite :=
  if -2 ^ (ty.bits - 1) ≤ v.toInt ∧ v.toInt < 2 ^ (ty.bits - 1) then
    .ok (wideWrite ty (beBytes ty.widthBytes v.toUInt64.toNat))
  else .error (outOfRange ty (toString v))

/-- The arms of `encode_write` for `U64`. -/
def unsignedWrite (ty : S7Type) (v : UInt64) : Except DriverErrorInfo EncodedWrite :=
  if v.toNat < 2 ^ ty.bits then .ok (wideWrite ty (beBytes ty.widthBytes v.toNat))
  else .error (outOfRange ty (toString v))

/-- `encode_write`; `showF64` is how a double is printed. -/
def encodeWrite (showF64 : UInt64 → String) (ty : S7Type) (value : RawValue) :
    Except DriverErrorInfo EncodedWrite :=
  match ty, value with
  | .bit, .bool b => .ok ⟨0x01, 1, [if b then 1 else 0]⟩
  | .byte, .i64 v => signedWrite .byte v
  | .byte, .u64 v => unsignedWrite .byte v
  | .word, .i64 v => signedWrite .word v
  | .word, .u64 v => unsignedWrite .word v
  | .dword, .i64 v => signedWrite .dword v
  | .dword, .u64 v => unsignedWrite .dword v
  | .dword, .f64 v =>
    let narrowed := f64ToF32 v
    if ¬isNan32 narrowed ∧ ¬Binary64.eq (f32ToF64 narrowed) v then
      .error (.invalidType ("F64 值 " ++ showF64 v ++ " 无法无损缩窄为 f32（S7 Classic 无 LReal）"))
    else .ok (wideWrite .dword (beBytes 4 narrowed.toNat))
  | ty, value =>
    .error (.invalidType ("目标语法 " ++ ty.debug ++ " 不接受值类型 " ++ typeName value ++
      "（映射表见模块文档）"))

/-! ## Planning -/

/-- The area of process inputs is read-only. -/
def S7Address.writable (a : S7Address) : Bool := a.area ≠ .input

/-- `write_data_budget`; the sum is cut to 16 bits before it is taken off. -/
def writeDataBudget (negotiatedPdu : UInt16) (itemCount : Nat) : Nat :=
  negotiatedPdu.toNat - (10 + 2 + 12 * itemCount + 16) % 65536

/-- `EncodedEntry`, with the address that it was parsed from. -/
structure WriteEntry where
  address : S7Address
  id : Nat
  payload : Bytes

/-- The keys of the groups. -/
structure WriteKey where
  areaCode : UInt8
  db : Nat
  ty : S7Type
deriving DecidableEq

/-- The place of a type in the order of the enumeration. -/
def S7Type.rank : S7Type → Nat
  | bit => 0
  | byte => 1
  | word => 2
  | dword => 3

/-- The order of the `BTreeMap`. -/
def WriteKey.le (k l : WriteKey) : Bool :=
  k.areaCode < l.areaCode ∨ (k.areaCode = l.areaCode ∧
    (k.db < l.db ∨ (k.db = l.db ∧ k.ty.rank ≤ l.ty.rank)))

namespace WriteEntry

/-- The key of an entry. -/
def key (e : WriteEntry) : WriteKey := ⟨e.address.area.code, e.address.db, e.address.ty⟩

/-- The first byte of an item. -/
def start (e : WriteEntry) : Nat := e.address.byte

end WriteEntry

/-- The first loop of `plan_write_batch`, for one item: an entry, or the error of an item
that cannot be written. -/
def admitItem (showF64 : UInt64 → String) (req : WriteRequest) :
    Except Stop (WriteEntry ⊕ (Nat × DriverErrorInfo)) :=
  let wrapped (text : String) : Stop := .error (.invalidAddress (req.address ++ ": " ++ text))
  match parse req.address with
  | .error (.invalidSyntax text) => .error (wrapped text)
  | .error (.outOfRange text) => .error (wrapped text)
  | .error .panic => .error .panic
  | .ok addr =>
    if ¬addr.writable then
      .ok (.inr (req.id,
        .invalidAddress (req.address ++ " 为过程映像输入（I 区只读），禁止写入")))
    else
      match encodeWrite showF64 addr.ty req.value with
      | .ok enc => .ok (.inl ⟨addr, req.id, enc.payload⟩)
      | .error e => .ok (.inr (req.id, e))

/-- An entry joins the run if it starts where the last one ends. -/
def adjoins (run : List WriteEntry) (e : WriteEntry) : Bool :=
  match run.getLast? with
  | some last => last.start + last.payload.length = e.start
  | none => true

/-- An entry joins the chunk if the values and their headers keep to the budget, and there are
not too many of them. -/
def fitsWrite (negotiatedPdu : UInt16) (maxItemsPerPdu : Nat) (chunk : List WriteEntry)
    (e : WriteEntry) : Bool :=
  let count := chunk.length + 1
  let bytes := (chunk.map (·.payload.length)).sum + e.payload.length
  ¬(count > maxItemsPerPdu ∨ bytes + 4 * count > writeDataBudget negotiatedPdu count)

/-- The chunks of a sorted group. -/
def cutWriteGroup (negotiatedPdu : UInt16) (maxItemsPerPdu : Nat) (key : WriteKey)
    (group : List WriteEntry) : List (List WriteEntry) :=
  if key.ty = .bit then group.map ([·])
  else (runs adjoins group).flatMap (runs (fitsWrite negotiatedPdu maxItemsPerPdu))

/-- The plan of a bit, and `flush_write` for the others. -/
def emitWritePlan (key : WriteKey) (chunk : List WriteEntry) : WritePlan where
  areaCode := key.areaCode
  db := UInt16.ofNat key.db
  ty := key.ty
  startByte := UInt32.ofNat ((chunk.head?.map WriteEntry.start).getD 0)
  bit := if key.ty = .bit then UInt8.ofNat ((chunk.head?.map (·.address.bit)).getD 0) else 0
  payload := chunk.flatMap WriteEntry.payload
  itemIds := chunk.map WriteEntry.id

/-- The chunks of a batch. -/
def writeChunksOf (negotiatedPdu : UInt16) (maxItemsPerPdu : Nat) (entries : List WriteEntry) :
    List (WriteKey × List WriteEntry) :=
  batches WriteKey.le WriteEntry.key WriteEntry.start (cutWriteGroup negotiatedPdu maxItemsPerPdu)
    entries

/-- The plans of a batch, and the items that are refused. -/
def planWriteBatch (showF64 : UInt64 → String) (items : List WriteRequest) (negotiatedPdu : UInt16)
    (maxItemsPerPdu : Nat) : Except Stop (List WritePlan × List (Nat × DriverErrorInfo)) := do
  let admitted ← items.mapM (admitItem showF64)
  let chunks :=
    writeChunksOf negotiatedPdu maxItemsPerPdu (admitted.filterMap Sum.getLeft?)
  .ok (chunks.map fun c => emitWritePlan c.1 c.2, admitted.filterMap Sum.getRight?)

end ForgeLink.Drivers.S7comm
