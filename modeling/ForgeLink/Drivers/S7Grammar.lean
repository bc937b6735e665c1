import ForgeLink.Drivers.S7Address

/-!
# The grammar of S7 addresses

The grammar that `address.rs` documents, over a form of numbers: `IsNumber` is
the documented one, digits only, and `IsSigned` is what the integer parser of
the standard library takes, digits after an optional plus sign.  A byte offset
after a suffix has no sign, because the suffix ends at the first digit.  The
parser takes just what is generated with signed numbers, and panics on the empty
text and on a first character outside ASCII.
-/

namespace ForgeLink.Drivers.S7comm

open Lib
open Lib.Str (IsNumber IsSigned)

/-! ## The grammar -/

/-- The letter of an area without data blocks. -/
def Area.letter : Area → Option Char
  | db => none
  | marker => some 'm'
  | input => some 'i'
  | output => some 'q'

/-- The texts of an address, for a form of the numbers that follow no suffix. -/
inductive Form (num : List Char → Nat → Prop) : List Char → S7Address → Prop where
  | dbBit {a d b t} : a.area = .db → a.ty = .bit → num d a.db → 1 ≤ a.db → IsNumber b a.byte →
      num t a.bit → Form num ('d' :: 'b' :: (d ++ '.' :: ("dbx".toList ++ (b ++ '.' :: t)))) a
  | dbWide {a d b} : a.area = .db → a.ty ≠ .bit → num d a.db → 1 ≤ a.db → IsNumber b a.byte →
      Form num ('d' :: 'b' :: (d ++ '.' :: (a.ty.suffix.toList ++ b))) a
  | areaBit {a c b t} : a.area.letter = some c → a.ty = .bit → a.db = 0 → num b a.byte →
      num t a.bit → Form num (c :: (b ++ '.' :: t)) a
  | areaWide {a c b} : a.area.letter = some c → a.ty ≠ .bit → a.db = 0 → IsNumber b a.byte →
      Form num (c :: (a.ty.letter.toList ++ b)) a

/-- The text that is parsed: trimmed, and in lower case. -/
def textOf (input : String) : List Char := (Str.trim input.toList).map Str.toAsciiLower

/-- The text has a first character, and it is one byte. -/
def StartsAscii (text : List Char) : Prop := ∃ c rest, text = c :: rest ∧ c.toNat < 128

/-! ## Numbers -/

variable {a : S7Address} {cs text b rest digits t d : List Char} {n : Nat} {input : String}
variable {byte : Nat} {area : Area}

theorem isNumber_of_isSigned {c : Char} (h : IsSigned (c :: cs) n)
    (digit : Str.isAsciiDigit c = true) : IsNumber (c :: cs) n := by
  unfold IsSigned Str.stripPlus at h
  split at h
  next eq =>
    cases eq
    exact absurd digit (by decide)
  next => exact h

theorem not_dot_of_isSigned (h : IsSigned cs n) : '.' ∉ cs := by
  intro inside
  obtain ⟨-, all, -⟩ := h
  unfold Str.stripPlus at all
  split at all
  next rest =>
    have later : '.' ∈ rest := by simpa using inside
    exact absurd (all '.' later) (by decide)
  next => exact absurd (all '.' inside) (by decide)

/-! ## What is parsed is in the form with signs -/

theorem splitSuffix_ok {suffix : String} (cut : splitSuffix cs = .ok (suffix, rest)) :
    cs = suffix.toList ++ rest ∧ ∀ {b tail : List Char} {n : Nat}, rest = b ++ tail →
      IsSigned b n → IsNumber b n := by
  unfold splitSuffix at cut
  split at cut
  · cases cut
    refine ⟨by simp, fun {b tail n} eq signed => ?_⟩
    cases b with
    | nil => exact absurd rfl signed.1
    | cons c b =>
      have first := List.head?_dropWhile_not (fun c => decide ¬Str.isAsciiDigit c = true) cs
      rw [eq] at first
      exact isNumber_of_isSigned signed (by simpa using first)
  · cases cut

theorem splitBit_some {bit : Nat} (cut : splitBit cs = some (byte, bit)) :
    ∃ b t, cs = b ++ '.' :: t ∧ IsSigned b byte ∧ IsSigned t bit := by
  obtain ⟨⟨b, t⟩, split, cut⟩ := Option.bind_eq_some_iff.mp cut
  obtain ⟨n, first, cut⟩ := Option.bind_eq_some_iff.mp cut
  obtain ⟨k, second, eq⟩ := Option.bind_eq_some_iff.mp cut
  cases eq
  exact ⟨b, t, (Str.splitOnce_eq_some.mp split).1, (Str.parseUnsigned_eq_some.mp first).1,
    (Str.parseUnsigned_eq_some.mp second).1⟩

theorem parseNumber_ok {max : Nat} (parsed : parseNumber max cs = .ok n) :
    IsSigned cs n ∧ n ≤ max := by
  unfold parseNumber at parsed
  split at parsed
  next value =>
    cases parsed
    exact Str.parseUnsigned_eq_some.mp value
  next => cases parsed

theorem bitAddress_ok {db : Fin 65536} {bit : Nat} (ok : bitAddress area db byte bit = .ok a) :
    a.area = area ∧ a.db = db ∧ a.ty = .bit ∧ a.byte = byte ∧ a.bit = bit := by
  unfold bitAddress at ok
  split at ok
  · split at ok
    · cases ok
      exact ⟨rfl, rfl, rfl, rfl, rfl⟩
    · cases ok
  · cases ok

theorem wideAddress_ok {db : Fin 65536} {ty : S7Type} (ok : wideAddress area db ty digits = .ok a) :
    a.area = area ∧ a.db = db ∧ a.ty = ty ∧ IsSigned digits a.byte := by
  obtain ⟨byte, number, ok⟩ := bind_eq_ok.mp ok
  split at ok
  · cases ok
    exact ⟨rfl, rfl, rfl, (parseNumber_ok number).1⟩
  · cases ok

/-- What `parseDb` accepts has the form. -/
theorem form_of_parseDb (parsed : parseDb rest = .ok a) : Form IsSigned ('d' :: 'b' :: rest) a := by
  unfold parseDb at parsed
  split at parsed
  · cases parsed
  next d tail cut =>
    obtain ⟨db, number, tailed⟩ := bind_eq_ok.mp parsed
    obtain ⟨isDb, le⟩ := parseNumber_ok number
    have db_eq : (Fin.ofNat 65536 db : Fin 65536).val = db := Nat.mod_eq_of_lt (by omega)
    dsimp only at tailed
    split at tailed
    · cases tailed
    next positive =>
      have positive : 1 ≤ db := by
        by_contra zero
        exact positive (Fin.ext (by rw [db_eq]; simp; omega))
      obtain ⟨⟨letters, offset⟩, suffix, chosen⟩ := bind_eq_ok.mp tailed
      obtain ⟨rfl, _⟩ := Str.splitOnce_eq_some.mp cut
      obtain ⟨rfl, digits⟩ := splitSuffix_ok suffix
      dsimp only at chosen
      split at chosen
      · split at chosen
        · cases chosen
        next byte bit bits =>
          obtain ⟨b, t, rfl, isByte, isBit⟩ := splitBit_some bits
          obtain ⟨area, number, ty, rfl, rfl⟩ := bitAddress_ok chosen
          rw [db_eq] at number
          exact .dbBit area ty (number ▸ isDb) (number ▸ positive) (digits rfl isByte) isBit
      iterate 3
        · obtain ⟨area, number, ty, isByte⟩ := wideAddress_ok chosen
          rw [db_eq] at number
          have form := Form.dbWide area (by rw [ty]; decide) (number ▸ isDb)
            (number ▸ positive) (digits (List.append_nil _).symm isByte)
          rwa [ty] at form
      · cases chosen

/-- What `parseArea` accepts has the form. -/
theorem form_of_parseArea {c : Char} (letter : area.letter = some c)
    (parsed : parseArea area rest = .ok a) : Form IsSigned (c :: rest) a := by
  unfold parseArea at parsed
  split at parsed
  next byte bit bits =>
    split at parsed
    · cases parsed
    · obtain ⟨b, t, rfl, isByte, isBit⟩ := splitBit_some bits
      obtain ⟨own, db, ty, rfl, rfl⟩ := bitAddress_ok parsed
      exact .areaBit (own ▸ letter) ty db isByte isBit
  next =>
    obtain ⟨⟨letters, offset⟩, suffix, chosen⟩ := bind_eq_ok.mp parsed
    obtain ⟨rfl, digits⟩ := splitSuffix_ok suffix
    dsimp only at chosen
    split at chosen
    iterate 3
      · obtain ⟨own, db, ty, isByte⟩ := wideAddress_ok chosen
        have form : Form IsSigned _ a := .areaWide (own ▸ letter) (by rw [ty]; decide) db
          (digits (List.append_nil _).symm isByte)
        rwa [ty] at form
    · cases chosen

theorem form_of_parse (parsed : parse input = .ok a) : Form IsSigned (textOf input) a := by
  unfold parse at parsed
  dsimp only at parsed
  unfold textOf
  split at parsed
  next rest text =>
    rw [text]
    exact form_of_parseDb parsed
  iterate 3
    next rest text =>
      rw [text]
      exact form_of_parseArea rfl parsed
  next => cases parsed
  next => cases parsed

/-! ## Panics -/

theorem fails_parseNumber (max : Nat) (cs : List Char) :
    Fails (· ≠ .panic) (parseNumber max cs) := by
  unfold parseNumber
  split <;> simp

theorem fails_splitSuffix (cs : List Char) : Fails (· ≠ .panic) (splitSuffix cs) := by
  unfold splitSuffix
  split <;> simp

theorem fails_bitAddress (area : Area) (db : Fin 65536) (byte bit : Nat) :
    Fails (· ≠ .panic) (bitAddress area db byte bit) := by
  unfold bitAddress
  split
  · split <;> simp
  · simp [offsetFault]

theorem fails_wideAddress (area : Area) (db : Fin 65536) (ty : S7Type) (digits : List Char) :
    Fails (· ≠ .panic) (wideAddress area db ty digits) := by
  unfold wideAddress
  rw [fails_bind]
  refine ⟨fails_parseNumber _ _, fun byte _ => ?_⟩
  split <;> simp [offsetFault]

theorem fails_parseDb (rest : List Char) : Fails (· ≠ .panic) (parseDb rest) := by
  unfold parseDb
  split
  · simp
  · rw [fails_bind]
    refine ⟨fails_parseNumber _ _, fun db _ => ?_⟩
    dsimp only
    split
    · simp
    · rw [fails_bind]
      refine ⟨fails_splitSuffix _, fun pair _ => ?_⟩
      split
      · split
        · simp
        · exact fails_bitAddress _ _ _ _
      · exact fails_wideAddress _ _ _ _
      · exact fails_wideAddress _ _ _ _
      · exact fails_wideAddress _ _ _ _
      · simp

theorem fails_parseArea (area : Area) (rest : List Char) :
    Fails (· ≠ .panic) (parseArea area rest) := by
  unfold parseArea
  split
  · split
    · simp
    · exact fails_bitAddress _ _ _ _
  · rw [fails_bind]
    refine ⟨fails_splitSuffix _, fun pair _ => ?_⟩
    dsimp only
    split
    · exact fails_wideAddress _ _ _ _
    · exact fails_wideAddress _ _ _ _
    · exact fails_wideAddress _ _ _ _
    · simp

/-- The parser panics just if the text has no first character of one byte. -/
theorem parse_panic_iff (input : String) :
    parse input = .error .panic ↔ ¬StartsAscii (textOf input) := by
  have ascii : ∀ {c : Char} {rest : List Char}, textOf input = c :: rest → c.toNat < 128 →
      StartsAscii (textOf input) := fun eq small => ⟨_, _, eq, small⟩
  unfold parse
  dsimp only
  split
  next rest text =>
    exact iff_of_false (fun panics => fails_parseDb rest _ panics rfl)
      (not_not_intro (ascii text (by decide)))
  iterate 3
    next rest text =>
      exact iff_of_false (fun panics => fails_parseArea _ rest _ panics rfl)
        (not_not_intro (ascii text (by decide)))
  next text => exact iff_of_true rfl fun ⟨c, rest, eq, _⟩ => by rw [textOf, text] at eq; cases eq
  next c rest _ _ _ _ text =>
    by_cases small : c.toNat < 128
    · exact iff_of_false (by simp [small]) (not_not_intro (ascii text small))
    · refine iff_of_true (by simp [small]) fun ⟨c', rest', eq, small'⟩ => ?_
      rw [textOf, text] at eq
      cases eq
      exact small small'

/-! ## What is in the form is parsed -/

theorem Form.of_signed (h : Form IsSigned text a) (unsigned : '+' ∉ text) :
    Form IsNumber text a := by
  have plain : ∀ {cs : List Char} {n : Nat}, IsSigned cs n → (∀ c ∈ cs, c ∈ text) →
      IsNumber cs n := by
    intro cs n signed inside
    rwa [IsSigned, Str.stripPlus_eq_self fun plus => unsigned (inside _ plus)] at signed
  cases h with
  | dbBit area ty d positive b t =>
    exact .dbBit area ty (plain d (by simp +contextual)) positive b
      (plain t (by simp +contextual))
  | dbWide area ty d positive b =>
    exact .dbWide area ty (plain d (by simp +contextual)) positive b
  | areaBit letter ty db b t =>
    exact .areaBit letter ty db (plain b (by simp +contextual)) (plain t (by simp +contextual))
  | areaWide letter ty db b => exact .areaWide letter ty db b

theorem Form.not_plus (h : Form IsNumber text a) : '+' ∉ text := by
  have letter : ∀ {c : Char}, a.area.letter = some c → '+' ≠ c := by
    intro c eq
    cases area : a.area <;> rw [area] at eq <;> cases eq <;> decide
  have suffix : '+' ∉ a.ty.suffix.toList ∧ '+' ∉ a.ty.letter.toList := by
    cases a.ty <;> decide
  cases h with
  | dbBit _ _ d _ b t =>
    simp [d.not_plus, b.not_plus, t.not_plus]
  | dbWide _ _ d _ b => simp [d.not_plus, b.not_plus, suffix.1]
  | areaBit eq _ _ b t =>
    simp [b.not_plus, t.not_plus, letter eq]
  | areaWide eq _ _ b => simp [b.not_plus, suffix.2, letter eq]

theorem splitSuffix_append {letters : List Char} (none : ∀ c ∈ letters, Str.isAsciiDigit c = false)
    (h : IsNumber digits n) (rest : List Char) :
    splitSuffix (letters ++ (digits ++ rest)) = .ok (String.ofList letters, digits ++ rest) := by
  obtain ⟨some, all, _⟩ := h
  obtain ⟨c, cs, rfl⟩ := List.exists_cons_of_ne_nil some
  have digit := all c List.mem_cons_self
  have letter : ∀ c ∈ letters, decide (¬Str.isAsciiDigit c = true) = true := fun c inside => by
    simp [none c inside]
  rw [splitSuffix, if_pos (by simp [digit]), List.takeWhile_append_of_pos letter,
    List.dropWhile_append_of_pos letter]
  simp [digit]

theorem bitAddress_eq (bit : a.ty = .bit) :
    bitAddress a.area ⟨a.db, a.db_lt⟩ a.byte a.bit = .ok a := by
  obtain ⟨area, db, byte, bit, ty, db_lt, byte_le, bit_le, bit_eq⟩ := a
  cases bit
  simp [bitAddress, byte_le, bit_le]

theorem wideAddress_eq (wide : a.ty ≠ .bit) (h : IsSigned digits a.byte) :
    wideAddress a.area ⟨a.db, a.db_lt⟩ a.ty digits = .ok a := by
  have small := a.byte_le
  have zero := a.bit_eq wide
  have number : parseNumber (2 ^ 32 - 1) digits = .ok a.byte := by
    rw [parseNumber, Str.parseUnsigned_eq_some.mpr ⟨h, by omega⟩]
  obtain ⟨area, db, byte, bit, ty, db_lt, byte_le, bit_le, bit_eq⟩ := a
  obtain rfl : bit = 0 := zero
  rw [wideAddress, number]
  exact dif_pos byte_le

theorem splitBit_of_signed {bit : Nat} (isByte : IsSigned b byte) (byte_le : byte ≤ 2 ^ 32 - 1)
    (isBit : IsSigned t bit) (bit_le : bit ≤ 255) :
    splitBit (b ++ '.' :: t) = some (byte, bit) := by
  have first := Str.parseUnsigned_eq_some.mpr ⟨isByte, byte_le⟩
  have second := Str.parseUnsigned_eq_some.mpr ⟨isBit, bit_le⟩
  rw [splitBit, Str.splitOnce_append (not_dot_of_isSigned isByte)]
  dsimp only [Option.bind_eq_bind, Option.bind_some]
  rw [first, second]
  rfl

/-- The number of a data block is parsed, and is not zero. -/
theorem parseNumber_db (isDb : IsSigned d a.db) (positive : 1 ≤ a.db) :
    parseNumber 65535 d = .ok a.db ∧ Fin.ofNat 65536 a.db = ⟨a.db, a.db_lt⟩ ∧
      (⟨a.db, a.db_lt⟩ : Fin 65536) ≠ 0 := by
  have lt := a.db_lt
  refine ⟨?_, Fin.ext (Nat.mod_eq_of_lt lt), fun zero => ?_⟩
  · rw [parseNumber, Str.parseUnsigned_eq_some.mpr ⟨isDb, by omega⟩]
  · have none : a.db = 0 := congrArg Fin.val zero
    omega

/-- A canonical text is in lower case. -/
theorem plain_of_form (h : Form IsNumber text a) :
    ∀ c ∈ text, Str.isWhitespace c = false ∧ Str.toAsciiLower c = c := by
  have digits : ∀ {cs : List Char} {n : Nat}, IsNumber cs n → ∀ c ∈ cs,
      Str.isWhitespace c = false ∧ Str.toAsciiLower c = c := by
    intro cs n number c inside
    have digit := number.2.1 c inside
    have bounds : 48 ≤ c.toNat ∧ c.toNat ≤ 57 := by simpa [Str.isAsciiDigit] using digit
    refine ⟨Str.isWhitespace_of_isAsciiDigit digit, if_neg ?_⟩
    simp
    omega
  have letter : ∀ {c : Char}, a.area.letter = some c →
      Str.isWhitespace c = false ∧ Str.toAsciiLower c = c := by
    intro c eq
    cases area : a.area <;> rw [area] at eq <;> cases eq <;> decide
  have suffix : ∀ c ∈ a.ty.suffix.toList ++ a.ty.letter.toList,
      Str.isWhitespace c = false ∧ Str.toAsciiLower c = c := by
    cases a.ty <;> simp [S7Type.suffix, S7Type.letter, Str.isWhitespace, Str.toAsciiLower]
  have dbx : ∀ c ∈ "dbx".toList, Str.isWhitespace c = false ∧ Str.toAsciiLower c = c := by
    simp [Str.isWhitespace, Str.toAsciiLower]
  intro c inside
  cases h with
  | dbBit _ _ d _ b t =>
    simp only [List.mem_cons, List.mem_append] at inside
    rcases inside with rfl | rfl | h | rfl | h | h | rfl | h
    · decide
    · decide
    · exact digits d c h
    · decide
    · exact dbx c h
    · exact digits b c h
    · decide
    · exact digits t c h
  | dbWide _ _ d _ b =>
    simp only [List.mem_cons, List.mem_append] at inside
    rcases inside with rfl | rfl | h | rfl | h | h
    · decide
    · decide
    · exact digits d c h
    · decide
    · exact suffix c (List.mem_append_left _ h)
    · exact digits b c h
  | areaBit eq _ _ b t =>
    simp only [List.mem_cons, List.mem_append] at inside
    rcases inside with rfl | h | rfl | h
    · exact letter eq
    · exact digits b c h
    · decide
    · exact digits t c h
  | areaWide eq _ _ b =>
    simp only [List.mem_cons, List.mem_append] at inside
    rcases inside with rfl | h | h
    · exact letter eq
    · exact suffix c (List.mem_append_right _ h)
    · exact digits b c h

theorem parseDb_bit (area : a.area = .db) (ty : a.ty = .bit) (isDb : IsSigned d a.db)
    (positive : 1 ≤ a.db) (isByte : IsNumber b a.byte) (isBit : IsSigned t a.bit) :
    parseDb (d ++ '.' :: ("dbx".toList ++ (b ++ '.' :: t))) = .ok a := by
  obtain ⟨number, block, some⟩ := parseNumber_db isDb positive
  have byte := a.byte_le
  have bit := a.bit_le
  have letters : ∀ c ∈ "dbx".toList, Str.isAsciiDigit c = false := by
    simp [Str.isAsciiDigit]
  have suffix := splitSuffix_append letters isByte ('.' :: t)
  have pair := splitBit_of_signed isByte.isSigned (by omega) isBit (by omega)
  have address := bitAddress_eq ty
  rw [area] at address
  rw [parseDb, Str.splitOnce_append (not_dot_of_isSigned isDb)]
  simp only [number, block, some, if_false, suffix, pair, String.ofList_toList, bind, Except.bind]
  exact address

theorem parseDb_wide (area : a.area = .db) (ty : a.ty ≠ .bit) (isDb : IsSigned d a.db)
    (positive : 1 ≤ a.db) (isByte : IsNumber b a.byte) :
    parseDb (d ++ '.' :: (a.ty.suffix.toList ++ b)) = .ok a := by
  obtain ⟨number, block, some⟩ := parseNumber_db isDb positive
  have letters : ∀ c ∈ a.ty.suffix.toList, Str.isAsciiDigit c = false := by
    cases a.ty <;> simp [S7Type.suffix, Str.isAsciiDigit]
  have suffix := splitSuffix_append letters isByte []
  have address := wideAddress_eq ty isByte.isSigned
  rw [area] at address
  rw [List.append_nil] at suffix
  rw [parseDb, Str.splitOnce_append (not_dot_of_isSigned isDb)]
  simp only [number, block, some, if_false, suffix, String.ofList_toList, bind, Except.bind]
  cases kind : a.ty with
  | bit => exact absurd kind ty
  | byte | word | dword =>
    rw [kind] at address
    exact address

theorem parseArea_bit (ty : a.ty = .bit) (db : a.db = 0) (isByte : IsSigned b a.byte)
    (isBit : IsSigned t a.bit) :
    parseArea a.area (b ++ '.' :: t) = .ok a := by
  have byte := a.byte_le
  have bit := a.bit_le
  have zero : (⟨a.db, a.db_lt⟩ : Fin 65536) = 0 := Fin.ext db
  have address := bitAddress_eq ty
  rw [zero] at address
  rw [parseArea, splitBit_of_signed isByte (by omega) isBit (by omega)]
  dsimp only
  rw [if_neg (by omega)]
  exact address

theorem parseArea_wide (ty : a.ty ≠ .bit) (db : a.db = 0) (isByte : IsNumber b a.byte) :
    parseArea a.area (a.ty.letter.toList ++ b) = .ok a := by
  have letters : ∀ c ∈ a.ty.letter.toList, Str.isAsciiDigit c = false := by
    cases a.ty <;> simp [S7Type.letter, Str.isAsciiDigit]
  have letters' : '.' ∉ a.ty.letter.toList := by
    cases a.ty <;> decide
  have undotted : '.' ∉ a.ty.letter.toList ++ b := by
    simp [letters', not_dot_of_isSigned isByte.isSigned]
  have noBit : splitBit (a.ty.letter.toList ++ b) = none := by
    simp [splitBit, Str.splitOnce_eq_none.mpr undotted]
  have suffix := splitSuffix_append letters isByte []
  have zero : (⟨a.db, a.db_lt⟩ : Fin 65536) = 0 := Fin.ext db
  have address := wideAddress_eq ty isByte.isSigned
  rw [zero] at address
  rw [List.append_nil] at suffix
  rw [parseArea, noBit]
  simp only [suffix, String.ofList_toList, bind, Except.bind]
  cases kind : a.ty with
  | bit => exact absurd kind ty
  | byte | word | dword =>
    rw [kind] at address
    exact address

theorem parse_of_form (h : Form IsSigned (textOf input) a) : parse input = .ok a := by
  unfold textOf at h
  unfold parse
  generalize (Str.trim input.toList).map Str.toAsciiLower = text at h ⊢
  cases h with
  | dbBit area ty d positive b t => exact parseDb_bit area ty d positive b t
  | dbWide area ty d positive b => exact parseDb_wide area ty d positive b
  | areaBit letter ty db b t =>
    have parsed := parseArea_bit ty db b t
    cases area : a.area <;> rw [area] at letter parsed <;> cases letter <;> exact parsed
  | areaWide letter ty db b =>
    have parsed := parseArea_wide ty db b
    cases area : a.area <;> rw [area] at letter parsed <;> cases letter <;> exact parsed

theorem textOf_of_form (h : Form IsNumber input.toList a) : textOf input = input.toList := by
  have plain := plain_of_form h
  rw [textOf, Str.trim_eq_self fun c inside => (plain c inside).1]
  exact (List.map_congr_left fun c inside => (plain c inside).2).trans (List.map_id' _)

theorem Form.signed (h : Form IsNumber text a) : Form IsSigned text a := by
  cases h with
  | dbBit area ty d positive b t => exact .dbBit area ty d.isSigned positive b t.isSigned
  | dbWide area ty d positive b => exact .dbWide area ty d.isSigned positive b
  | areaBit letter ty db b t => exact .areaBit letter ty db b.isSigned t.isSigned
  | areaWide letter ty db b => exact .areaWide letter ty db b

/-- What the parser takes has a number just if it is a data block. -/
theorem Form.db {num : List Char → Nat → Prop} (h : Form num text a) :
    (a.area = .db → 1 ≤ a.db) ∧ (a.area ≠ .db → a.db = 0) := by
  cases h with
  | dbBit area _ _ positive _ _ | dbWide area _ _ positive _ =>
    exact ⟨fun _ => positive, fun other => absurd area other⟩
  | areaBit letter _ db _ _ | areaWide letter _ db _ =>
    refine ⟨fun area => ?_, fun _ => db⟩
    rw [area] at letter
    cases letter

/-- Canonical forms are in the grammar. -/
theorem form_canonical (db : a.area = .db → 1 ≤ a.db) (other : a.area ≠ .db → a.db = 0) :
    Form IsNumber a.canonical.toList a := by
  have isDb := Str.isNumber_toDigits a.db
  have isByte := Str.isNumber_toDigits a.byte
  have isBit := Str.isNumber_toDigits a.bit
  cases area : a.area with
  | db =>
    cases ty : a.ty with
    | bit =>
      have form := Form.dbBit area ty isDb (db area) isByte isBit
      simpa [S7Address.canonical, area, ty] using form
    | byte | word | dword =>
      have form := Form.dbWide area (by rw [ty]; decide) isDb (db area) isByte
      simpa [S7Address.canonical, area, ty] using form
  | marker | input | output =>
    have zero := other (by rw [area]; decide)
    have letter := congrArg Area.letter area
    cases ty : a.ty with
    | bit =>
      have form := Form.areaBit letter ty zero isByte isBit
      simpa [S7Address.canonical, canonicalArea, area, ty] using form
    | byte | word | dword =>
      have form : Form IsNumber _ a := .areaWide letter (by rw [ty]; decide) zero isByte
      simpa [S7Address.canonical, canonicalArea, area, ty] using form

/-- The parser does not panic and takes only texts of the documented grammar, just if the text
starts with an ASCII character and has no number with a plus sign.  What it takes is in
bounds, and its canonical form is parsed to it again. -/
theorem parse_documented_iff (input : String) :
    ((parse input ≠ .error .panic ∧
        ∀ a, parse input = .ok a → Form IsNumber (textOf input) a) ↔
      StartsAscii (textOf input) ∧
        ∀ a, Form IsSigned (textOf input) a → '+' ∉ textOf input) ∧
    ∀ a, parse input = .ok a →
      (a.area = .db → 1 ≤ a.db ∧ a.db ≤ 65535) ∧ a.byte ≤ 0x1FFFFF ∧ a.bit ≤ 7 ∧
        parse a.canonical = .ok a := by
  refine ⟨?_, fun a parsed => ?_⟩
  · rw [ne_eq, parse_panic_iff, not_not]
    refine and_congr_right fun _ => ⟨fun documented a form => ?_, fun unsigned a parsed => ?_⟩
    · exact (documented a (parse_of_form form)).not_plus
    · have form := form_of_parse parsed
      exact form.of_signed (unsigned a form)
  · obtain ⟨db, other⟩ := (form_of_parse parsed).db
    have canonical := form_canonical db other
    have lt := a.db_lt
    refine ⟨fun area => ⟨db area, by omega⟩, a.byte_le, a.bit_le, parse_of_form ?_⟩
    rw [textOf_of_form canonical]
    exact canonical.signed

/-- A bit of a data block is in the grammar and comes back from its canonical form. -/
theorem parse_documented_sample :
    (parse " DB1.DBX12.3 ").isOk = true ∧
      ∀ a, parse " DB1.DBX12.3 " = .ok a →
        Form IsNumber (textOf " DB1.DBX12.3 ") a ∧ parse a.canonical = .ok a := by
  have text : textOf " DB1.DBX12.3 " = "db1.dbx12.3".toList := by decide
  have fine : StartsAscii (textOf " DB1.DBX12.3 ") ∧ '+' ∉ textOf " DB1.DBX12.3 " := by
    rw [text]
    exact ⟨⟨'d', "b1.dbx12.3".toList, by decide, by decide⟩, by decide⟩
  obtain ⟨documented, canonical⟩ := parse_documented_iff " DB1.DBX12.3 "
  refine ⟨by decide, fun a parsed => ?_⟩
  exact ⟨(documented.mpr ⟨fine.1, fun _ _ => fine.2⟩).2 a parsed, (canonical a parsed).2.2.2⟩

/-- The empty text and `é` are panics, and `m+1.+2` is taken though no number of the grammar
has a sign. -/
theorem parse_undocumented :
    parse "" = .error .panic ∧ parse "é" = .error .panic ∧
      (parse "m+1.+2").isOk = true ∧ ∀ a, ¬Form IsNumber (textOf "m+1.+2") a := by
  refine ⟨rfl, rfl, by decide, fun a form => ?_⟩
  exact form.not_plus (by decide)

end ForgeLink.Drivers.S7comm
