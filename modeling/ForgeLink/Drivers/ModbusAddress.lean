import ForgeLink.Drivers.Transport
import ForgeLink.Lib.Strings

/-!
# Modbus addresses

`address.rs`: the four data segments, and the four ways to write an address,
`40001`, `coil:00001`, `1!40001` and `2!holding:40001`.  The numbers are the
traditional ones, which start at the base of the segment; what goes over the
wire is the offset from the base, and it fits 16 bits.
-/

namespace ForgeLink.Drivers.Modbus

open Lib

/-! ## Segments -/

/-- The four segments. -/
inductive RegisterKind where
  | coil
  | discreteInput
  | inputRegister
  | holdingRegister
deriving DecidableEq, Repr

namespace RegisterKind

/-- The order of the variants, which is the derived `Ord`. -/
def rank : RegisterKind → Nat
  | coil => 0
  | discreteInput => 1
  | inputRegister => 2
  | holdingRegister => 3

/-- The function that reads a segment. -/
def functionCode : RegisterKind → UInt8
  | coil => 0x01
  | discreteInput => 0x02
  | holdingRegister => 0x03
  | inputRegister => 0x04

/-- The first number of a segment. -/
def segmentBase : RegisterKind → Nat
  | coil => 1
  | discreteInput => 10001
  | inputRegister => 30001
  | holdingRegister => 40001

/-- The last number that may be written with the name of a segment. -/
def explicitMax (kind : RegisterKind) : Nat := kind.segmentBase + 65535

/-- The numbers that stand for a segment without its name. -/
def matchesNumeric (kind : RegisterKind) (address : Nat) : Bool :=
  kind.segmentBase ≤ address ∧ address < kind.segmentBase + 9999

/-- The segments that can be written. -/
def writable : RegisterKind → Bool
  | coil => true
  | holdingRegister => true
  | _ => false

/-- The name of a segment. -/
def name : RegisterKind → String
  | coil => "coil"
  | discreteInput => "discrete"
  | inputRegister => "input"
  | holdingRegister => "holding"

/-- The `{:?}` form. -/
def debug : RegisterKind → String
  | coil => "Coil"
  | discreteInput => "DiscreteInput"
  | inputRegister => "InputRegister"
  | holdingRegister => "HoldingRegister"

/-- The segments of bits; the other two are made of registers. -/
def isBit : RegisterKind → Bool
  | coil => true
  | discreteInput => true
  | _ => false

end RegisterKind

/-! ## Addresses -/

/-- `ModbusAddress`: the number lies in its segment, so `offset` is a `u16`. -/
structure ModbusAddress where
  unitId : UInt8
  kind : RegisterKind
  address : Nat
  unit_valid : 1 ≤ unitId ∧ unitId ≤ 247
  in_segment : kind.segmentBase ≤ address ∧ address ≤ kind.explicitMax
deriving DecidableEq

namespace ModbusAddress

/-- The place in the segment. -/
def offset (a : ModbusAddress) : Nat := a.address - a.kind.segmentBase

/-- The full form of an address. -/
def canonical (a : ModbusAddress) : String :=
  toString a.unitId ++ "!" ++ a.kind.name ++ ":" ++ toString a.address

theorem offset_lt (a : ModbusAddress) : a.offset < 65536 := by
  have inside := a.in_segment
  unfold RegisterKind.explicitMax at inside
  unfold offset
  omega

theorem base_add_offset (a : ModbusAddress) : a.kind.segmentBase + a.offset = a.address := by
  have inside := a.in_segment
  unfold offset
  omega

end ModbusAddress

/-- `AddressError`. -/
inductive AddressError where
  | outOfRange (address : String)
  | unknownSegment (address : String)
  | invalidSyntax (address : String)
  | invalidUnit (unit : UInt8)
deriving DecidableEq, Repr

/-- `AddressError` as text. -/
def AddressError.text (fmt : DebugFmt) : AddressError → String
  | outOfRange a => s!"地址 {a} 超出协议偏移范围"
  | unknownSegment a => s!"地址 {a} 不在任何已知数据段（coil/discrete/input/holding）"
  | invalidSyntax a => "地址 " ++ fmt.string a ++ " 语法无法解析"
  | invalidUnit u => s!"从站地址 {u} 越界（Modbus 只允许 1..=247）"

/-! ## Parsing -/

/-- The segment of a number without a name. -/
def inferKindFromNumeric (number : Nat) : Except AddressError RegisterKind :=
  match [RegisterKind.coil, .discreteInput, .inputRegister, .holdingRegister].find?
    (·.matchesNumeric number) with
  | some kind => .ok kind
  | none => .error (.unknownSegment (toString number))

/-- The segment of a name. -/
def kindOfName (name : List Char) : Option RegisterKind :=
  [RegisterKind.coil, .discreteInput, .inputRegister, .holdingRegister].find?
    (·.name.toList = name)

/-- The unit, and the rest of the text. -/
def splitUnit (input : String) (defaultUnitId : UInt8) : Except AddressError (UInt8 × List Char) :=
  match Str.splitOnce '!' input.toList with
  | some (unit, rest) =>
    match Str.parseUnsigned 255 (Str.trim unit) with
    | some unit => .ok (UInt8.ofNat unit, rest)
    | none => .error (.invalidSyntax input)
  | none => .ok (defaultUnitId, input.toList)

/-- The segment and the number. -/
def splitKind (fmt : DebugFmt) (input : String) (rest : List Char) :
    Except AddressError (RegisterKind × Nat) :=
  match Str.splitOnce ':' rest with
  | some (name, number) =>
    match kindOfName (Str.trim name) with
    | none =>
      .error (.invalidSyntax ("未知数据段 " ++ fmt.string (String.ofList (Str.trim name))))
    | some kind =>
      match Str.parseUnsigned (2 ^ 32 - 1) (Str.trim number) with
      | some number => .ok (kind, number)
      | none => .error (.invalidSyntax input)
  | none =>
    match Str.parseUnsigned (2 ^ 32 - 1) (Str.trim rest) with
    | some number => (inferKindFromNumeric number).map (·, number)
    | none => .error (.invalidSyntax input)

/-- `parse_address`; the last step is `validate`. -/
def parseAddress (fmt : DebugFmt) (input : String) (defaultUnitId : UInt8) :
    Except AddressError ModbusAddress :=
  if defaultUnitId = 0 ∨ defaultUnitId > 247 then .error (.invalidUnit defaultUnitId)
  else do
    let (unitId, rest) ← splitUnit input defaultUnitId
    if unit_valid : 1 ≤ unitId ∧ unitId ≤ 247 then
      let (kind, address) ← splitKind fmt input rest
      if in_segment : kind.segmentBase ≤ address ∧ address ≤ kind.explicitMax then
        .ok { unitId, kind, address, unit_valid, in_segment }
      else .error (.outOfRange (toString address))
    else .error (.invalidUnit unitId)

/-! ## What is parsed -/

section

variable (fmt : DebugFmt)
variable {input : String} {kind : RegisterKind}

/-- A number lies in the five-digit range of one segment at most. -/
theorem matchesNumeric_unique {k l : RegisterKind} {n : Nat} (here : k.matchesNumeric n = true)
    (there : l.matchesNumeric n = true) : k = l := by
  simp only [RegisterKind.matchesNumeric, decide_eq_true_eq] at here there
  cases k <;> cases l <;> first | rfl | (simp only [RegisterKind.segmentBase] at here there; omega)

/-- What a text says of the unit: it is written before the first `!`, or else it is the
default one.  The rest of the text is about the point. -/
inductive NamesUnit (default : UInt8) : List Char → UInt8 → List Char → Prop where
  | default {text : List Char} : '!' ∉ text → NamesUnit default text default text
  | explicit {front rest : List Char} {unit : UInt8} :
      '!' ∉ front → Str.IsSigned (Str.trim front) unit.toNat →
      NamesUnit default (front ++ '!' :: rest) unit rest

/-- What a text says of the point: its number, and the segment by name before the first `:`,
or else by the five-digit range that the number lies in. -/
inductive NamesPoint : List Char → RegisterKind → Nat → Prop where
  | plain {text : List Char} {kind : RegisterKind} {n : Nat} :
      ':' ∉ text → Str.IsSigned (Str.trim text) n →
      kind.segmentBase ≤ n ∧ n < kind.segmentBase + 9999 → NamesPoint text kind n
  | named {front rest : List Char} {kind : RegisterKind} {n : Nat} :
      ':' ∉ front → Str.trim front = kind.name.toList → Str.IsSigned (Str.trim rest) n →
      NamesPoint (front ++ ':' :: rest) kind n

/-- The text is one of the ways to write the address. -/
def Denotes (default : UInt8) (input : String) (a : ModbusAddress) : Prop :=
  ∃ rest, NamesUnit default input.toList a.unitId rest ∧ NamesPoint rest a.kind a.address

/-- What is read of the unit. -/
theorem splitUnit_eq_ok {default unit : UInt8} {rest : List Char} :
    splitUnit input default = .ok (unit, rest) ↔ NamesUnit default input.toList unit rest := by
  constructor
  · intro ok
    unfold splitUnit at ok
    split at ok
    next front _ cut =>
      obtain ⟨eq, absent⟩ := Str.splitOnce_eq_some.mp cut
      split at ok
      next n number =>
        cases ok
        obtain ⟨spells, le⟩ := Str.parseUnsigned_eq_some.mp number
        have same : (UInt8.ofNat n).toNat = n := by
          rw [UInt8.toNat_ofNat']
          omega
        rw [eq]
        exact .explicit absent (same.symm ▸ spells)
      next => cases ok
    next whole =>
      cases ok
      exact .default (Str.splitOnce_eq_none.mp whole)
  · intro names
    unfold splitUnit
    generalize input.toList = text at names
    cases names with
    | default absent => rw [Str.splitOnce_eq_none.mpr absent]
    | explicit absent spells =>
      have le := unit.toNat_lt
      rw [Str.splitOnce_append absent]
      simp only [Str.parseUnsigned_eq_some.mpr ⟨spells, show unit.toNat ≤ 255 by omega⟩,
        UInt8.ofNat_toNat]

theorem kindOfName_eq_some {name : List Char} :
    kindOfName name = some kind ↔ name = kind.name.toList := by
  constructor
  · intro found
    have named := List.find?_some (p := fun k : RegisterKind => k.name.toList = name) found
    exact (of_decide_eq_true named).symm
  · rintro rfl
    cases kind <;> decide

theorem inferKindFromNumeric_eq_ok {n : Nat} :
    inferKindFromNumeric n = .ok kind ↔
      kind.segmentBase ≤ n ∧ n < kind.segmentBase + 9999 := by
  have iff : kind.matchesNumeric n = true ↔
      kind.segmentBase ≤ n ∧ n < kind.segmentBase + 9999 := decide_eq_true_iff
  rw [← iff]
  unfold inferKindFromNumeric
  constructor
  · intro ok
    split at ok
    next found =>
      cases ok
      exact List.find?_some (p := fun k : RegisterKind => k.matchesNumeric n) found
    next => cases ok
  · intro own
    split
    next k found =>
      have there := List.find?_some (p := fun k : RegisterKind => k.matchesNumeric n) found
      rw [matchesNumeric_unique there own]
    next none =>
      have other := List.find?_eq_none.mp none kind (by cases kind <;> decide)
      exact absurd own other

/-- What is read of the segment and the number. -/
theorem splitKind_eq_ok {rest : List Char} {n : Nat} :
    splitKind fmt input rest = .ok (kind, n) ↔ NamesPoint rest kind n ∧ n ≤ 2 ^ 32 - 1 := by
  constructor
  · intro ok
    unfold splitKind at ok
    split at ok
    next front number cut =>
      obtain ⟨rfl, absent⟩ := Str.splitOnce_eq_some.mp cut
      split at ok
      next => cases ok
      next k name =>
        split at ok
        next m digits =>
          cases ok
          obtain ⟨spells, le⟩ := Str.parseUnsigned_eq_some.mp digits
          exact ⟨.named absent (kindOfName_eq_some.mp name) spells, le⟩
        next => cases ok
    next whole =>
      split at ok
      next m digits =>
        obtain ⟨spells, le⟩ := Str.parseUnsigned_eq_some.mp digits
        cases inferred : inferKindFromNumeric m with
        | error e =>
          rw [inferred] at ok
          cases ok
        | ok k =>
          rw [inferred] at ok
          cases ok
          exact ⟨.plain (Str.splitOnce_eq_none.mp whole) spells
            (inferKindFromNumeric_eq_ok.mp inferred), le⟩
      next => cases ok
  · rintro ⟨names, le⟩
    unfold splitKind
    cases names with
    | plain absent spells inside =>
      rw [Str.splitOnce_eq_none.mpr absent]
      simp only [Str.parseUnsigned_eq_some.mpr ⟨spells, le⟩,
        inferKindFromNumeric_eq_ok.mpr inside]
      rfl
    | named absent name spells =>
      rw [Str.splitOnce_append absent]
      simp only [kindOfName_eq_some.mpr name, Str.parseUnsigned_eq_some.mpr ⟨spells, le⟩]

/-- Parsing finds the address that a text is written for, and no other. -/
theorem parseAddress_eq_ok {unitId : UInt8} {a : ModbusAddress} :
    parseAddress fmt input unitId = .ok a ↔
      (1 ≤ unitId ∧ unitId ≤ 247) ∧ Denotes unitId input a := by
  have valid : ¬(unitId = 0 ∨ unitId > 247) ↔ 1 ≤ unitId ∧ unitId ≤ 247 := by
    simp only [UInt8.le_iff_toNat_le, gt_iff_lt, UInt8.lt_iff_toNat_lt, ← UInt8.toNat_inj]
    have one : (1 : UInt8).toNat = 1 := rfl
    have zero : (0 : UInt8).toNat = 0 := rfl
    omega
  have small : a.address ≤ 2 ^ 32 - 1 := by
    have inside := a.in_segment.2
    cases kind : a.kind <;>
      simp only [kind, RegisterKind.explicitMax, RegisterKind.segmentBase] at inside <;> omega
  rw [← valid, parseAddress]
  split
  next bad => exact ⟨nofun, fun h => absurd bad h.1⟩
  next good =>
    simp only [good, not_false_eq_true, true_and, Denotes, ← splitUnit_eq_ok]
    constructor
    · intro ok
      obtain ⟨⟨unit, rest⟩, unit_eq, ok⟩ := bind_eq_ok.mp ok
      dsimp only at ok
      split at ok
      · obtain ⟨⟨kind, n⟩, point_eq, ok⟩ := bind_eq_ok.mp ok
        dsimp only at ok
        split at ok
        · cases ok
          exact ⟨rest, unit_eq, ((splitKind_eq_ok fmt).mp point_eq).1⟩
        · cases ok
      · cases ok
    · rintro ⟨rest, unit_eq, names⟩
      have point : splitKind fmt input rest = .ok (a.kind, a.address) :=
        (splitKind_eq_ok fmt).mpr ⟨names, small⟩
      simp only [unit_eq, point, bind, Except.bind, a.unit_valid, a.in_segment, and_self, dif_pos]

/-- Without the name of a segment, the number names it. -/
theorem Denotes.plain {unitId : UInt8} {a : ModbusAddress} (denotes : Denotes unitId input a)
    (plain : ':' ∉ input.toList) :
    a.kind.segmentBase ≤ a.address ∧ a.address < a.kind.segmentBase + 9999 := by
  obtain ⟨rest, unit, point⟩ := denotes
  have plain : ':' ∉ rest := by
    generalize input.toList = text at unit plain
    cases unit with
    | default => exact plain
    | explicit => exact fun inside => plain (by simp [inside])
  cases point with
  | plain _ _ inside => exact inside
  | named => simp at plain

theorem toList_canonical (a : ModbusAddress) :
    a.canonical.toList =
      Nat.toDigits 10 a.unitId.toNat ++ '!' :: (a.kind.name.toList ++
        ':' :: Nat.toDigits 10 a.address) := by
  have unit : toString a.unitId = toString a.unitId.toNat := rfl
  simp [ModbusAddress.canonical, unit]

theorem trim_toDigits (n : Nat) : Str.trim (Nat.toDigits 10 n) = Nat.toDigits 10 n :=
  Str.trim_eq_self fun _ inside =>
    Str.isWhitespace_of_isAsciiDigit (Str.isAsciiDigit_of_mem_toDigits inside)

/-- The canonical form of an address is one of the ways to write it. -/
theorem denotes_canonical (a : ModbusAddress) (unitId : UInt8) :
    Denotes unitId a.canonical a := by
  have digits : ∀ {n : Nat} {c : Char}, Str.isAsciiDigit c = false → c ∉ Nat.toDigits 10 n :=
    fun other inside => by
      rw [Str.isAsciiDigit_of_mem_toDigits inside] at other
      cases other
  have number : ∀ n : Nat, Str.IsSigned (Str.trim (Nat.toDigits 10 n)) n := fun n => by
    rw [trim_toDigits]
    exact (Str.isNumber_toDigits n).isSigned
  have named : ':' ∉ a.kind.name.toList ∧ Str.trim a.kind.name.toList = a.kind.name.toList := by
    cases a.kind <;> decide
  refine ⟨a.kind.name.toList ++ ':' :: Nat.toDigits 10 a.address, ?_, ?_⟩
  · rw [toList_canonical]
    exact .explicit (digits (by decide)) (number _)
  · exact .named named.1 named.2 (number _)

/-- A text is parsed to the address that it is written for, if there is one.  A parsed address
has a valid unit, an offset of 16 bits from the base of its segment, and if the text names
no segment the only one whose five-digit range has the number.  Its canonical form is
parsed to it again, and is the only one for its unit, segment and offset. -/
theorem parseAddress_spec :
    (∀ input unitId a, parseAddress fmt input unitId = .ok a ↔
      (1 ≤ unitId ∧ unitId ≤ 247) ∧ Denotes unitId input a) ∧
    (∀ input unitId a, parseAddress fmt input unitId = .ok a →
      (1 ≤ a.unitId ∧ a.unitId ≤ 247) ∧
      (a.kind.segmentBase + a.offset = a.address ∧ a.offset < 65536) ∧
      (':' ∉ input.toList → ∀ kind : RegisterKind,
        kind.segmentBase ≤ a.address ∧ a.address < kind.segmentBase + 9999 ↔ kind = a.kind) ∧
      ∀ default : UInt8, 1 ≤ default ∧ default ≤ 247 →
        parseAddress fmt a.canonical default = .ok a) ∧
    ∀ input input' unitId unitId' a a', parseAddress fmt input unitId = .ok a →
      parseAddress fmt input' unitId' = .ok a' → a.unitId = a'.unitId → a.kind = a'.kind →
      a.offset = a'.offset → a.canonical = a'.canonical := by
  refine ⟨fun input unitId a => parseAddress_eq_ok fmt, ?_, ?_⟩
  · intro input unitId a parsed
    refine ⟨a.unit_valid, ⟨a.base_add_offset, a.offset_lt⟩, ?_, fun default valid =>
      (parseAddress_eq_ok fmt).mpr ⟨valid, denotes_canonical a default⟩⟩
    intro plain kind
    have own := ((parseAddress_eq_ok fmt).mp parsed).2.plain plain
    constructor
    · exact fun inside => matchesNumeric_unique (decide_eq_true inside) (decide_eq_true own)
    · rintro rfl
      exact own
  · intro input input' unitId unitId' a a' _ _ unit kind offset
    have number : a.address = a'.address := by
      rw [← a.base_add_offset, ← a'.base_add_offset, kind, offset]
    rw [ModbusAddress.canonical, unit, kind, number, ModbusAddress.canonical]

end

/-- A plain number for another unit than the default one. -/
theorem parseAddress_spec_sample :
    let fmt : DebugFmt := ⟨id, fun _ => "", fun _ => ""⟩
    ∃ a, parseAddress fmt " 2!40010 " 1 = .ok a ∧ (1 ≤ a.unitId ∧ a.unitId ≤ 247) ∧
      a.kind.segmentBase + a.offset = a.address ∧
      (RegisterKind.holdingRegister.segmentBase ≤ a.address ∧
        a.address < RegisterKind.holdingRegister.segmentBase + 9999 ↔ .holdingRegister = a.kind) ∧
      parseAddress fmt a.canonical 7 = .ok a ∧ Denotes 1 " 2!40010 " a := by
  intro fmt
  have parsed : parseAddress fmt " 2!40010 " 1 =
      .ok ⟨2, .holdingRegister, 40010, by decide, by decide⟩ := rfl
  obtain ⟨valid, offset, plain, back⟩ := (parseAddress_spec fmt).2.1 _ _ _ parsed
  exact ⟨_, parsed, valid, offset.1, plain (by decide) _, back 7 (by decide),
    (((parseAddress_spec fmt).1 _ _ _).mp parsed).2⟩

end ForgeLink.Drivers.Modbus
