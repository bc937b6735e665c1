import ForgeLink.Drivers.ModbusRead
import ForgeLink.Lib.Binary64

/-!
# The Modbus driver: planning batch writes

`encode.rs` and the write half of `batch.rs`.  An item that carries a narrow tag
is encoded in the width of the tag.  The loader sends every integer as 64 bits
and every number with a fraction as a double, and these are encoded in the least
width that loses nothing.  The encoded items are grouped by unit and segment and
sorted by address; items that follow each other exactly share a frame, up to the
limit of the protocol.
-/

namespace ForgeLink.Drivers.Modbus

open Lib

/-! ## Encoding -/

/-- A value for a coil, or the bytes of registers. -/
inductive EncodedWrite where
  | coil (bit : Bool)
  | registers (data : Bytes)
deriving DecidableEq

/-- The coils or registers of a value. -/
def EncodedWrite.units : EncodedWrite → Nat
  | .coil _ => 1
  | .registers data => data.length / 2

/-- The data of a write to one coil. -/
def coilPayload (on : Bool) : Bytes := if on then [0xFF, 0x00] else [0x00, 0x00]

/-- `pack_bits`: bit `i` is set in byte `i / 8`. -/
def packBits (bits : List Bool) : Bytes :=
  bits.zipIdx.foldl
    (fun bytes p =>
      if p.1 then bytes.modify (p.2 / 8) (· ||| (1 <<< UInt8.ofNat (p.2 % 8))) else bytes)
    (List.replicate ((bits.length + 7) / 8) 0)

/-- The least words for an unsigned number. -/
def minimalUnsignedWords (v : UInt64) : Nat :=
  if v.toNat ≤ 65535 then 1 else if v.toNat ≤ 4294967295 then 2 else 4

/-- The least words for a signed number. -/
def minimalSignedWords (v : Int64) : Nat :=
  if -32768 ≤ v.toInt ∧ v.toInt ≤ 32767 then 1
  else if -2147483648 ≤ v.toInt ∧ v.toInt ≤ 2147483647 then 2
  else 4

/-- An unsigned number in as many words. -/
def unsignedBe (v : UInt64) (words : Nat) : Bytes := beBytes (words * 2) v.toNat

/-- A signed number in as many words. -/
def signedBe (v : Int64) (words : Nat) : Bytes := beBytes (words * 2) v.toUInt64.toNat

/-- `f32_lossless`. -/
def f32Lossless (v : UInt64) : Bool :=
  ¬Binary64.isNan v ∧ Binary64.eq (f32ToF64 (f64ToF32 v)) v

/-- The bytes of a value, before the words are put in order: the `match` of
`encode_register_data`. -/
def registerBytes : TypeTag → RawValue → Except String Bytes
  | .u64, .u64 v => .ok (unsignedBe v (minimalUnsignedWords v))
  | .i64, .i64 v => .ok (signedBe v (minimalSignedWords v))
  | .u8, .u64 v => .ok [0x00, v.toUInt8]
  | .i8, .i64 v => .ok [0x00, v.toUInt64.toUInt8]
  | .u16, .u64 v => .ok (beBytes 2 v.toNat)
  | .i16, .i64 v => .ok (beBytes 2 v.toUInt64.toNat)
  | .u32, .u64 v => .ok (beBytes 4 v.toNat)
  | .i32, .i64 v => .ok (beBytes 4 v.toUInt64.toNat)
  | .f32, .f64 v => .ok (beBytes 4 (f64ToF32 v).toNat)
  | .f64, .f64 v =>
    if f32Lossless v then .ok (beBytes 4 (f64ToF32 v).toNat) else .ok (beBytes 8 v.toNat)
  | .bool, _ => .error "寄存器段不支持 Bool 类型，请改用位段地址"
  | tag, _ => .error ("值变体与写入类型 Tag " ++ tag.debug ++ " 不匹配，无法编码为寄存器数据")

/-- The words of a value in their order. -/
def orderWords (wordOrder : WordOrder) (bytes : Bytes) : Except String Bytes :=
  match bytes.length with
  | 2 => .ok bytes
  | 4 => .ok (reorderWords4 bytes wordOrder)
  | 8 => .ok (reorderWords8 bytes wordOrder)
  | len => .error s!"寄存器编码长度异常（{len} 字节）"

/-- The bytes of a value, with its words in order. -/
def encodeRegisterData (valueType : UInt32) (value : RawValue) (wordOrder : WordOrder) :
    Except String Bytes :=
  match TypeTag.tryFrom valueType with
  | .error e => .error ("写入值类型 Tag 非法：" ++ e.text)
  | .ok tag => do orderWords wordOrder (← registerBytes tag value)

/-- A value for an address. -/
def encodeWriteValue (fmt : DebugFmt) (kind : RegisterKind) (valueType : UInt32) (value : RawValue)
    (wordOrder : WordOrder) : Except String EncodedWrite :=
  match kind with
  | .coil =>
    match value with
    | .bool bit => .ok (.coil bit)
    | other => .error ("位段只支持 Bool 类型，收到 " ++ fmt.rawValue other)
  | .holdingRegister => do .ok (.registers (← encodeRegisterData valueType value wordOrder))
  | kind => .error ("数据段 " ++ kind.debug ++ " 只读，不可写入")

/-! ## Planning -/

/-- An item with its address and its encoded value. -/
structure WriteGroupEntry where
  itemId : Nat
  address : ModbusAddress
  encoded : EncodedWrite

namespace WriteGroupEntry

/-- The key of an entry. -/
def key (e : WriteGroupEntry) : GroupKey := (e.address.unitId, e.address.kind)

/-- The units of an entry. -/
def units (e : WriteGroupEntry) : Nat := e.encoded.units

/-- The bytes of an entry of registers. -/
def data (e : WriteGroupEntry) : Bytes :=
  match e.encoded with
  | .registers bytes => bytes
  | .coil _ => []

/-- The bit of an entry of coils. -/
def bit (e : WriteGroupEntry) : Bool :=
  match e.encoded with
  | .coil bit => bit
  | .registers _ => false

end WriteGroupEntry

/-- The first loop of `plan_write_batch`, for one item: an entry, or the result of an item
that cannot be encoded. -/
def admitItem (fmt : DebugFmt) (defaultUnitId : UInt8) (wordOrder : WordOrder)
    (item : WriteRequest) :
    Except DriverErrorInfo (WriteGroupEntry ⊕ RawWriteResult) :=
  match parseAddress fmt item.address defaultUnitId with
  | .error e => .error (.invalidAddress (e.text fmt))
  | .ok address =>
    let canonical := address.canonical
    if ¬address.kind.writable then
      let name := address.kind.name
      .error (.invalidAddress s!"{canonical}（{name}）为只读数据段，不可写入")
    else
      match encodeWriteValue fmt address.kind item.valueType item.value wordOrder with
      | .error message => .ok (.inr (.failed item.id (.invalidType message)))
      | .ok encoded =>
        let units := encoded.units
        if address.offset + units > 65536 then
          .error (.invalidAddress s!"地址 {canonical} 连同写入宽度 {units} 超出协议偏移上限 65535")
        else .ok (.inl ⟨item.id, address, encoded⟩)

/-- An entry joins the run if it starts where the last one ends, in 16 bits. -/
def adjoins (run : List WriteGroupEntry) (e : WriteGroupEntry) : Bool :=
  match run.getLast? with
  | some prev => e.address.offset = (prev.address.offset + prev.units) % 65536
  | none => true

/-- `MAX_WRITE_BITS_PER_REQUEST` and `MAX_WRITE_REGISTERS_PER_REQUEST`. -/
def writeLimit (kind : RegisterKind) : Nat := if kind = .coil then 1968 else 123

/-- An entry joins the chunk if the units still add up to at most the limit. -/
def fitsWrite (limit : Nat) (chunk : List WriteGroupEntry) (e : WriteGroupEntry) : Bool :=
  (chunk.map WriteGroupEntry.units).sum + e.units ≤ limit

/-- The runs of a sorted group, each cut into chunks. -/
def cutWriteGroup (key : GroupKey) (group : List WriteGroupEntry) : List (List WriteGroupEntry) :=
  (runs adjoins group).flatMap (runs (fitsWrite (writeLimit key.2)))

/-- `build_write_payload`.  In a group of coils every entry is a bit, and in a group of
registers every entry is bytes; the source marks the other cases unreachable. -/
def buildWritePayload (kind : RegisterKind) (chunk : List WriteGroupEntry) (quantity : Nat) :
    UInt8 × Bytes :=
  if kind = .coil then
    match chunk with
    | [e] => (0x05, coilPayload e.bit)
    | _ =>
      let data := packBits (chunk.map WriteGroupEntry.bit)
      (0x0F, beBytes 2 quantity ++ [UInt8.ofNat data.length] ++ data)
  else
    let data := chunk.flatMap WriteGroupEntry.data
    let multiple := (0x10, beBytes 2 quantity ++ [UInt8.ofNat data.length] ++ data)
    match chunk with
    | [e] => if e.units = 1 then (0x06, e.data) else multiple
    | _ => multiple

/-- `emit_write_plan`, for one chunk. -/
def emitWritePlan (key : GroupKey) (chunk : List WriteGroupEntry) : WritePlan :=
  let quantity := (chunk.map WriteGroupEntry.units).sum
  let (function, payload) := buildWritePayload key.2 chunk quantity
  { unitId := key.1, function
    startOffset := UInt16.ofNat ((chunk.head?.map fun e => e.address.offset).getD 0)
    payload, itemIds := chunk.map WriteGroupEntry.itemId }

/-- The chunks of a batch. -/
def writeChunksOf (entries : List WriteGroupEntry) : List (GroupKey × List WriteGroupEntry) :=
  batches GroupKey.le WriteGroupEntry.key (·.address.address) cutWriteGroup entries

/-- The plans of a batch, and the items that are refused. -/
def planWriteBatch (fmt : DebugFmt) (items : List WriteRequest) (defaultUnitId : UInt8)
    (wordOrder : WordOrder) : Except DriverErrorInfo (List WritePlan × List RawWriteResult) := do
  let admitted ← items.mapM (admitItem fmt defaultUnitId wordOrder)
  .ok ((writeChunksOf (admitted.filterMap Sum.getLeft?)).map fun c => emitWritePlan c.1 c.2,
    admitted.filterMap Sum.getRight?)

end ForgeLink.Drivers.Modbus
