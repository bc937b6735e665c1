import ForgeLink.Drivers.Numbers

/-!
# A device that answers

The peer of a driver whose transport never fails and whose device answers every
frame, the answers coming in the order of the frames: `answering answer`, and
`replying reply` if an answer depends on its frame alone.  What lies unread on the
stream is computed from the log (`unread`, `inbox`).

Devices answer a read of bits with eight bits to a byte, the first one in the
lowest place; `packBits` does that, and `bit_packBits` finds a bit again.
-/

namespace ForgeLink.Drivers

open Lib

/-! ## The stream -/

/-- What lies unread on the stream: the answers to the frames that were sent since
the stream was opened, less what was read.  An answer may depend on what was sent before. -/
def unread (answer : List Event → Bytes → Bytes) : List Event → Bytes
  | [] => []
  | .sent _ frame :: log => unread answer log ++ answer log frame
  | .awaited len :: log => (unread answer log).drop len
  | .dialled _ :: _ => []
  | .serialOpened :: _ => []
  | .resolved :: log => unread answer log
  | .configured :: log => unread answer log

/-- A device that answers every frame, over a transport that never fails. -/
def answering (answer : List Event → Bytes → Bytes) : Peer where
  resolve _ := .ok 1
  dial _ _ := .ok ()
  configure _ := .ok ()
  openSerial _ := .ok ()
  writeAll _ _ := .ok ()
  readExact log len :=
    if enough : len ≤ (unread answer log).length then
      .ok fun i => (unread answer log)[i]
    else .error ⟨.timedOut, "timed out"⟩

/-- The stream of a device whose answers depend on the frame alone. -/
def inbox (reply : Bytes → Bytes) : List Event → Bytes := unread fun _ => reply

/-- A device whose answers depend on the frame alone. -/
def replying (reply : Bytes → Bytes) : Peer := answering fun _ => reply

section

variable {κ : Type} {answer : List Event → Bytes → Bytes} {reply : Bytes → Bytes}
  {E : Stop → Session κ → Prop} {s : Session κ}

@[simp] theorem unread_sent (kind : FrameKind) (frame : Bytes) (log : List Event) :
    unread answer (.sent kind frame :: log) = unread answer log ++ answer log frame := rfl

@[simp] theorem unread_awaited (len : Nat) (log : List Event) :
    unread answer (.awaited len :: log) = (unread answer log).drop len := rfl

@[simp] theorem inbox_sent (kind : FrameKind) (frame : Bytes) (log : List Event) :
    inbox reply (.sent kind frame :: log) = inbox reply log ++ reply frame := rfl

@[simp] theorem inbox_awaited (len : Nat) (log : List Event) :
    inbox reply (.awaited len :: log) = (inbox reply log).drop len := rfl

@[simp] theorem wp_writeAll_replying {Q : Except IoError Unit → Session κ → Prop}
    (kind : FrameKind) (frame : Bytes) :
    wp (writeAll (replying reply) kind frame) Q E s ↔
      Q (.ok ()) { s with log := .sent kind frame :: s.log } := Iff.rfl

/-- A read that the stream can serve takes its bytes from the front. -/
theorem wp_readExact_answering {Q : Except IoError Bytes → Session κ → Prop} {len : Nat}
    (enough : len ≤ (unread answer s.log).length) :
    wp (readExact (answering answer) len) Q E s ↔
      Q (.ok ((unread answer s.log).take len)) { s with log := .awaited len :: s.log } := by
  have taken : (List.ofFn fun i : Fin len => (unread answer s.log)[i]) =
      (unread answer s.log).take len := by
    refine List.ext_getElem (by simp [enough]) fun i _ _ => ?_
    simp
  rw [readExact, wp_ask, answering]
  simp only [enough, dif_pos, Except.map, taken]

theorem wp_readExact_replying {Q : Except IoError Bytes → Session κ → Prop} {len : Nat}
    (enough : len ≤ (inbox reply s.log).length) :
    wp (readExact (replying reply) len) Q E s ↔
      Q (.ok ((inbox reply s.log).take len)) { s with log := .awaited len :: s.log } :=
  wp_readExact_answering enough

end

/-! ## Steps of a program that returns -/

section

variable {κ α β : Type} {Q : α → Session κ → Prop} {s : Session κ}

theorem returns_modifyOwn_bind (f : κ → κ) (next : Unit → DriverM κ α) :
    Returns (modifyOwn f >>= next) Q s ↔ Returns (next ()) Q { s with own := f s.own } := Iff.rfl

theorem returns_getOwn_bind (next : κ → DriverM κ α) :
    Returns (getOwn >>= next) Q s ↔ Returns (next s.own) Q s := Iff.rfl

theorem returns_isConnected_bind (next : Bool → DriverM κ α) :
    Returns (isConnected >>= next) Q s ↔ Returns (next s.stream) Q s := Iff.rfl

theorem returns_liftExcept {x : Except Stop α} {a : α} (eq : x = .ok a) (holds : Q a s) :
    Returns (liftExcept x : DriverM κ α) Q s := by
  subst eq
  exact holds

theorem returns_liftExcept_bind {x : Except Stop β} {b : β} (next : β → DriverM κ α)
    (eq : x = .ok b) (rest : Returns (next b) Q s) :
    Returns ((liftExcept x : DriverM κ β) >>= next) Q s := by
  subst eq
  exact rest

end

/-- A read of what lies at the front of the stream. -/
theorem returns_readStream_answering {κ : Type} {answer : List Event → Bytes → Bytes}
    {s : Session κ}
    {disconnect : DriverM κ Unit} {front back : Bytes} {len : Nat}
    (waiting : unread answer s.log = front ++ back) (len_eq : len = front.length) :
    Returns (readStream (answering answer) disconnect len)
      (fun bytes t => bytes = front ∧ t = { s with log := .awaited len :: s.log } ∧
        unread answer t.log = back) s := by
  subst len_eq
  have enough : front.length ≤ (unread answer s.log).length := by simp [waiting]
  simp [Returns, readStream, wp_readExact_answering enough, waiting]

theorem returns_readStream {κ : Type} {reply : Bytes → Bytes} {s : Session κ}
    {disconnect : DriverM κ Unit} {front back : Bytes} {len : Nat}
    (waiting : inbox reply s.log = front ++ back) (len_eq : len = front.length) :
    Returns (readStream (replying reply) disconnect len)
      (fun bytes t => bytes = front ∧ inbox reply t.log = back ∧ t.stream = s.stream ∧
        t.own = s.own) s := by
  refine Returns.mono (returns_readStream_answering waiting len_eq) ?_
  rintro bytes _ ⟨rfl, rfl, rest⟩
  exact ⟨rfl, rest, rfl, rfl⟩

/-- Between two transactions nothing lies unread on the stream. -/
def Idle {κ : Type} (reply : Bytes → Bytes) (s : Session κ) : Prop := inbox reply s.log = []

/-- The `{:?}` form of plain text and of the scalar types. -/
def plainDebug : DebugFmt where
  string s := "\"" ++ s ++ "\""
  dataType
    | .bool => "Bool"
    | .i8 => "I8"
    | .i16 => "I16"
    | .i32 => "I32"
    | .i64 => "I64"
    | .u8 => "U8"
    | .u16 => "U16"
    | .u32 => "U32"
    | .u64 => "U64"
    | .f32 => "F32"
    | .f64 => "F64"
    | .string => "String"
    | .bytes => "Bytes"
    | .array _ => "Array"
    | .struct _ => "Struct"
  rawValue
    | .bool b => "Bool(" ++ toString b ++ ")"
    | .i64 v => "I64(" ++ toString v ++ ")"
    | .u64 v => "U64(" ++ toString v ++ ")"
    | .f64 _ => "F64"
    | .string s => "String(\"" ++ s ++ "\")"
    | .bytes _ => "Bytes"
    | .array _ => "Array"
    | .struct _ => "Struct"

/-- Which items got a value. -/
def valued {κ : Type} : EStateM.Result Stop (Session κ) (List RawReadResult) → List (Nat × Bool)
  | .ok results _ => results.map fun r => (r.itemId, r.value.isSome)
  | .error _ _ => []

/-- The types that a bit is read as. -/
def BitType (t : Option DataType) : Prop := t = none ∨ t = some .bool

/-- The bit of a result. -/
def RawReadResult.bit (r : RawReadResult) : Bool :=
  match r.value with
  | some (.bool b) => b
  | _ => false

/-! ## Packed bits -/

/-- The byte with these bits. -/
def byteOfBits (bit : Nat → Bool) : UInt8 :=
  UInt8.ofNat ((List.range 8).foldl (fun n k => if bit k then n + 2 ^ k else n) 0)

/-- Bits, eight to a byte, the first one in the lowest place. -/
def packBits (bits : List Bool) : Bytes :=
  (List.range ((bits.length + 7) / 8)).map fun j => byteOfBits fun k => bits.getD (8 * j + k) false

/-- The bit at a place of a byte. -/
def bitOf (byte : UInt8) (k : Nat) : Bool := (byte >>> UInt8.ofNat k) &&& 1 ≠ 0

@[simp] theorem length_packBits (bits : List Bool) :
    (packBits bits).length = (bits.length + 7) / 8 := by
  simp [packBits]

theorem bitOf_byteOfBits (bit : Nat → Bool) {k : Nat} (small : k < 8) :
    bitOf (byteOfBits bit) k = bit k := by
  have all : ∀ b0 b1 b2 b3 b4 b5 b6 b7 : Bool, ∀ k : Fin 8,
      bitOf (byteOfBits fun i => [b0, b1, b2, b3, b4, b5, b6, b7].getD i false) k =
        [b0, b1, b2, b3, b4, b5, b6, b7].getD k false := by
    decide +kernel
  have same : byteOfBits bit = byteOfBits fun i =>
      [bit 0, bit 1, bit 2, bit 3, bit 4, bit 5, bit 6, bit 7].getD i false := by
    simp [byteOfBits, List.range, List.range.loop]
  rw [same, all _ _ _ _ _ _ _ _ ⟨k, small⟩]
  match k, small with
  | 0, _ | 1, _ | 2, _ | 3, _ | 4, _ | 5, _ | 6, _ | 7, _ => rfl

/-- The bits are found in the bytes again. -/
theorem bit_packBits {bits : List Bool} {i : Nat} (inside : i < bits.length) :
    ∃ byte, (packBits bits)[i / 8]? = some byte ∧ bitOf byte (i % 8) = bits[i] := by
  have here : i / 8 < (bits.length + 7) / 8 := by omega
  refine ⟨byteOfBits fun k => bits.getD (8 * (i / 8) + k) false, ?_, ?_⟩
  · simp [packBits, here]
  · rw [bitOf_byteOfBits _ (Nat.mod_lt i (by decide)), Nat.div_add_mod]
    simp [inside]

end ForgeLink.Drivers
