import ForgeLink.Drivers.S7comm
import ForgeLink.Lib.Strings

/-!
# S7 addresses

`address.rs`: `db<db>.dbx<byte>.<bit>` and its siblings for bytes, words and
double words, and the forms `m<byte>.<bit>`, `mb<n>`, `mw<n>`, `md<n>` of the
three areas without a number.  The width is part of the syntax.
-/

namespace ForgeLink.Drivers.S7comm

open Lib

/-- The areas of a PLC. -/
inductive Area where
  | db
  | marker
  | input
  | output
deriving DecidableEq, Repr

/-- `Area::code` and `area_code_of`. -/
def Area.code : Area → UInt8
  | db => 0x84
  | marker => 0x83
  | input => 0x81
  | output => 0x82

/-- `S7Type::width_bytes`. -/
def S7Type.widthBytes : S7Type → Nat
  | bit => 1
  | byte => 1
  | word => 2
  | dword => 4

/-- The `{:?}` form. -/
def S7Type.debug : S7Type → String
  | bit => "Bit"
  | byte => "Byte"
  | word => "Word"
  | dword => "Dword"

/-- `S7Address`; only a bit address has a bit number. -/
structure S7Address where
  area : Area
  db : Nat
  byte : Nat
  bit : Nat
  ty : S7Type
  db_lt : db < 65536
  byte_le : byte ≤ 0x1FFFFF
  bit_le : bit ≤ 7
  bit_eq : ty ≠ .bit → bit = 0

/-- `AddressError`, and the panic of `split_at`. -/
inductive AddressFault where
  | invalidSyntax (text : String)
  | outOfRange (text : String)
  | panic
deriving DecidableEq, Repr

/-- `parse_u8`, `parse_u16` and `parse_u32`. -/
def parseNumber (max : Nat) (digits : List Char) : Except AddressFault Nat :=
  match Str.parseUnsigned max digits with
  | some n => .ok n
  | none => .error (.outOfRange ("非法数值 '" ++ String.ofList digits ++ "'"))

/-- A byte and a bit, with a point between them. -/
def splitBit (cs : List Char) : Option (Nat × Nat) := do
  let (off, bit) ← Str.splitOnce '.' cs
  return (← Str.parseUnsigned (2 ^ 32 - 1) off, ← Str.parseUnsigned 255 bit)

/-- What stands before the first digit, and the rest. -/
def splitSuffix (cs : List Char) : Except AddressFault (String × List Char) :=
  if cs.any Str.isAsciiDigit then
    .ok (String.ofList (cs.takeWhile fun c => ¬Str.isAsciiDigit c),
      cs.dropWhile fun c => ¬Str.isAsciiDigit c)
  else .error (.invalidSyntax ("缺少偏移: " ++ String.ofList cs))

/-- The error of `validate_offset`. -/
def offsetFault (byte : Nat) : AddressFault :=
  .outOfRange s!"字节偏移 {byte} 超 Any 指针 3 字节地址域上限（2097151）"

/-- A bit address, after `validate_offset` and `validate_bit`. -/
def bitAddress (area : Area) (db : Fin 65536) (byte bit : Nat) : Except AddressFault S7Address :=
  if byte_le : byte ≤ 0x1FFFFF then
    if bit_le : bit ≤ 7 then
      .ok { area, db, byte, bit, ty := .bit, db_lt := db.isLt, byte_le, bit_le
            bit_eq := fun other => absurd rfl other }
    else .error (.outOfRange s!"位号 {bit} 越界（0..=7）")
  else .error (offsetFault byte)

/-- An address of bytes, after `validate_offset`. -/
def wideAddress (area : Area) (db : Fin 65536) (ty : S7Type) (digits : List Char) :
    Except AddressFault S7Address := do
  let byte ← parseNumber (2 ^ 32 - 1) digits
  if byte_le : byte ≤ 0x1FFFFF then
    .ok { area, db, byte, bit := 0, ty, db_lt := db.isLt, byte_le, bit_le := by decide
          bit_eq := fun _ => rfl }
  else .error (offsetFault byte)

/-- An address in a data block, without its first letters. -/
def parseDb (rest : List Char) : Except AddressFault S7Address :=
  match Str.splitOnce '.' rest with
  | none => .error (.invalidSyntax ("DB 地址缺少 '.': db" ++ String.ofList rest))
  | some (number, tail) => do
    let db := Fin.ofNat 65536 (← parseNumber 65535 number)
    if db = 0 then .error (.outOfRange "DB 号不得为 0")
    else
      let (suffix, offset) ← splitSuffix tail
      match suffix with
      | "dbx" =>
        match splitBit offset with
        | none => .error (.invalidSyntax ("dbx 需要位号: " ++ String.ofList offset))
        | some (byte, bit) => bitAddress .db db byte bit
      | "dbb" => wideAddress .db db .byte offset
      | "dbw" => wideAddress .db db .word offset
      | "dbd" => wideAddress .db db .dword offset
      | other => .error (.invalidSyntax s!"未知 DB 后缀 '{other}'（支持 dbx/dbb/dbw/dbd）")

/-- `parse_area`.  Here the bit number is checked before the offset. -/
def parseArea (area : Area) (rest : List Char) : Except AddressFault S7Address :=
  match splitBit rest with
  | some (byte, bit) =>
    if bit > 7 then .error (.outOfRange s!"位号 {bit} 越界（0..=7）")
    else bitAddress area 0 byte bit
  | none => do
    let (suffix, digits) ← splitSuffix rest
    match suffix with
    | "b" => wideAddress area 0 .byte digits
    | "w" => wideAddress area 0 .word digits
    | "d" => wideAddress area 0 .dword digits
    | other =>
      .error (.invalidSyntax s!"未知宽度后缀 '{other}'（裸数字地址必须带位号，如 m0.1）")

/-- `parse`.  `split_at(1)` panics on the empty text and inside a character. -/
def parse (input : String) : Except AddressFault S7Address :=
  let unknown : AddressFault := .invalidSyntax s!"无法识别的 S7 地址: {input}"
  match (Str.trim input.toList).map Str.toAsciiLower with
  | 'd' :: 'b' :: rest => parseDb rest
  | 'm' :: rest => parseArea .marker rest
  | 'i' :: rest => parseArea .input rest
  | 'q' :: rest => parseArea .output rest
  | [] => .error .panic
  | c :: _ => .error (if c.toNat < 128 then unknown else .panic)

/-- The letters of a type in a data block. -/
def S7Type.suffix : S7Type → String
  | bit => "dbx"
  | byte => "dbb"
  | word => "dbw"
  | dword => "dbd"

/-- The letter of a width outside the data blocks. -/
def S7Type.letter : S7Type → String
  | bit => ""
  | byte => "b"
  | word => "w"
  | dword => "d"

/-- The full form of an address outside of data blocks. -/
def canonicalArea (letter : String) (a : S7Address) : String :=
  match a.ty with
  | .bit => letter ++ toString a.byte ++ "." ++ toString a.bit
  | ty => letter ++ ty.letter ++ toString a.byte

/-- The full form of an address. -/
def S7Address.canonical (a : S7Address) : String :=
  match a.area with
  | .db =>
    match a.ty with
    | .bit => "db" ++ toString a.db ++ ".dbx" ++ toString a.byte ++ "." ++ toString a.bit
    | ty => "db" ++ toString a.db ++ "." ++ ty.suffix ++ toString a.byte
  | .marker => canonicalArea "m" a
  | .input => canonicalArea "i" a
  | .output => canonicalArea "q" a

/-- The bit that an address starts at, counted from the start of its area:
`addr.byte * 8 + addr.bit`. -/
def S7Address.key (a : S7Address) : Nat := a.byte * 8 + a.bit

end ForgeLink.Drivers.S7comm
