import Mathlib.Algebra.Ring.Nat
import Mathlib.Data.List.Basic

/-!
# The string functions of the standard library

The functions that the address parsers use, on lists of characters, and what they
make of a text that was printed: a number is read from its digits, and a text is
cut where two parts were joined.
-/

namespace ForgeLink.Lib.Str

variable {cs front : List Char} {c sep : Char} {n : Nat} {rest rest' : String}

/-- `char::is_whitespace`: the Unicode property `White_Space`. -/
def isWhitespace (c : Char) : Bool :=
  let n := c.toNat
  (9 ≤ n && n ≤ 13) || n = 0x20 || n = 0x85 || n = 0xA0 || n = 0x1680 ||
    (0x2000 ≤ n && n ≤ 0x200A) || n = 0x2028 || n = 0x2029 || n = 0x202F || n = 0x205F ||
    n = 0x3000

/-- Without white space at its ends. -/
def trim (cs : List Char) : List Char :=
  ((cs.dropWhile isWhitespace).reverse.dropWhile isWhitespace).reverse

/-- What stands before and after the first separator. -/
def splitOnce (sep : Char) : List Char → Option (List Char × List Char)
  | [] => none
  | c :: cs =>
    if c = sep then some ([], cs) else (splitOnce sep cs).map fun p => (c :: p.1, p.2)

/-- A decimal digit. -/
def isAsciiDigit (c : Char) : Bool := '0'.toNat ≤ c.toNat && c.toNat ≤ '9'.toNat

/-- A letter. -/
def isAsciiAlphabetic (c : Char) : Bool :=
  ('A'.toNat ≤ c.toNat && c.toNat ≤ 'Z'.toNat) || ('a'.toNat ≤ c.toNat && c.toNat ≤ 'z'.toNat)

/-- `str::len`, the number of bytes. -/
def byteLen (cs : List Char) : Nat := (cs.map Char.utf8Size).sum

/-- The number that decimal digits spell. -/
def ofDigits (cs : List Char) : Nat :=
  cs.foldl (fun n c => 10 * n + (c.toNat - '0'.toNat)) 0

/-- A plus sign at the start is dropped. -/
def stripPlus : List Char → List Char
  | '+' :: rest => rest
  | cs => cs

/-- `str::parse` of an unsigned integer type whose largest value is `max`: an
optional plus sign, and at least one digit. -/
def parseUnsigned (max : Nat) (cs : List Char) : Option Nat :=
  let digits := stripPlus cs
  if digits ≠ [] ∧ digits.all isAsciiDigit ∧ ofDigits digits ≤ max then some (ofDigits digits)
  else none

/-- A number in digits. -/
def IsNumber (cs : List Char) (n : Nat) : Prop :=
  cs ≠ [] ∧ (∀ c ∈ cs, isAsciiDigit c = true) ∧ ofDigits cs = n

/-- A number with an optional plus sign. -/
def IsSigned (cs : List Char) (n : Nat) : Prop := IsNumber (stripPlus cs) n

/-- `char::to_ascii_lowercase`. -/
def toAsciiLower (c : Char) : Char :=
  if 'A'.toNat ≤ c.toNat ∧ c.toNat ≤ 'Z'.toNat then Char.ofNat (c.toNat + 32) else c

/-- `char::to_ascii_uppercase`. -/
def toAsciiUpper (c : Char) : Char :=
  if 'a'.toNat ≤ c.toNat ∧ c.toNat ≤ 'z'.toNat then Char.ofNat (c.toNat - 32) else c

theorem byteLen_eq_length (ascii : ∀ c ∈ cs, c.toNat < 128) : byteLen cs = cs.length := by
  induction cs with
  | nil => rfl
  | cons c cs ih =>
    have one : c.utf8Size = 1 := by
      have small := ascii c List.mem_cons_self
      exact Char.utf8Size_eq_one_iff.mpr (UInt32.le_iff_toNat_le.mpr (by
        change c.toNat ≤ 127
        omega))
    have rest := ih fun d inside => ascii d (List.mem_cons_of_mem c inside)
    simp only [byteLen, List.map_cons, List.sum_cons, List.length_cons] at rest ⊢
    omega

/-- A text is cut in one way at the first character outside of a class. -/
theorem cut_unique {p : Char → Prop} {front' : List Char} {d : Char} {rest rest' : List Char}
    (inside : ∀ x ∈ front, p x) (inside' : ∀ x ∈ front', p x) (stop : ¬p c) (stop' : ¬p d)
    (eq : front ++ c :: rest = front' ++ d :: rest') : front = front' ∧ c = d ∧ rest = rest' := by
  induction front generalizing front' with
  | nil =>
    cases front' with
    | nil =>
      cases eq
      exact ⟨rfl, rfl, rfl⟩
    | cons x front' =>
      cases eq
      exact absurd (inside' c List.mem_cons_self) stop
  | cons x front ih =>
    cases front' with
    | nil =>
      cases eq
      exact absurd (inside d List.mem_cons_self) stop'
    | cons y front' =>
      obtain ⟨rfl, later⟩ := List.cons.inj eq
      obtain ⟨rfl, same⟩ := ih (fun z h => inside z (List.mem_cons_of_mem _ h))
        (fun z h => inside' z (List.mem_cons_of_mem _ h)) later
      exact ⟨rfl, same⟩

/-! ## Printing and reading back -/

theorem toList_toString (n : Nat) : (toString n).toList = Nat.toDigits 10 n := by
  simp [toString, Nat.repr]

theorem isAsciiDigit_of_mem_toDigits (inside : c ∈ Nat.toDigits 10 n) : isAsciiDigit c = true := by
  have digit := Nat.isDigit_of_mem_toDigits (by decide) (by decide) inside
  simpa [isAsciiDigit, Char.isDigit, UInt32.le_iff_toNat_le] using digit

theorem ne_of_isAsciiDigit {d : Char} (digit : isAsciiDigit c = true)
    (other : isAsciiDigit d = false) : c ≠ d := by
  rintro rfl
  rw [digit] at other
  cases other

theorem stripPlus_eq_self (unsigned : '+' ∉ cs) : stripPlus cs = cs := by
  unfold stripPlus
  split
  · exact absurd List.mem_cons_self unsigned
  · rfl

theorem IsNumber.not_plus (h : IsNumber cs n) : '+' ∉ cs :=
  fun inside => absurd (h.2.1 '+' inside) (by decide)

theorem IsNumber.isSigned (h : IsNumber cs n) : IsSigned cs n := by
  rwa [IsSigned, stripPlus_eq_self h.not_plus]

/-- `str::parse` takes the numbers up to `max`, with a plus sign or without. -/
theorem parseUnsigned_eq_some {max : Nat} :
    parseUnsigned max cs = some n ↔ IsSigned cs n ∧ n ≤ max := by
  unfold parseUnsigned
  dsimp only
  constructor
  · intro some
    obtain ⟨⟨full, digits, le⟩, ⟨⟩⟩ := Option.ite_none_right_eq_some.mp some
    exact ⟨⟨full, List.all_eq_true.mp digits, rfl⟩, le⟩
  · rintro ⟨⟨full, digits, rfl⟩, le⟩
    rw [if_pos ⟨full, List.all_eq_true.mpr digits, le⟩]

theorem isNumber_toDigits (n : Nat) : IsNumber (Nat.toDigits 10 n) n :=
  ⟨Nat.toDigits_ne_nil, fun _ => isAsciiDigit_of_mem_toDigits, Nat.ofDigitChars_ten_toDigits⟩

theorem splitOnce_append (absent : sep ∉ front) (rest : List Char) :
    splitOnce sep (front ++ sep :: rest) = some (front, rest) := by
  induction front with
  | nil => simp [splitOnce]
  | cons c front ih =>
    obtain ⟨first, later⟩ := List.ne_and_not_mem_of_not_mem_cons absent
    simp [splitOnce, first.symm, ih later]

theorem splitOnce_eq_none : splitOnce sep cs = none ↔ sep ∉ cs := by
  induction cs with
  | nil => simp [splitOnce]
  | cons c cs ih =>
    unfold splitOnce
    split
    next same => simp [same]
    next other => simp [ih, Ne.symm other]

theorem splitOnce_eq_some {rest : List Char} :
    splitOnce sep cs = some (front, rest) ↔ cs = front ++ sep :: rest ∧ sep ∉ front := by
  constructor
  · intro split
    induction cs generalizing front with
    | nil => cases split
    | cons c cs ih =>
      unfold splitOnce at split
      split at split
      next same =>
        cases split
        exact ⟨by rw [same]; rfl, List.not_mem_nil⟩
      next other =>
        obtain ⟨p, later, eq⟩ := Option.map_eq_some_iff.mp split
        cases eq
        obtain ⟨rfl, absent⟩ := ih later
        exact ⟨rfl, by simp [Ne.symm other, absent]⟩
  · rintro ⟨rfl, absent⟩
    exact splitOnce_append absent rest

theorem trim_eq_self (solid : ∀ c ∈ cs, isWhitespace c = false) : trim cs = cs := by
  have keep : ∀ xs : List Char, (∀ c ∈ xs, isWhitespace c = false) →
      xs.dropWhile isWhitespace = xs := by
    intro xs solid
    cases xs with
    | nil => rfl
    | cons c xs => exact List.dropWhile_cons_of_neg (by rw [solid c List.mem_cons_self]; decide)
  rw [trim, keep cs solid, keep cs.reverse fun c inside => solid c (List.mem_reverse.mp inside),
    List.reverse_reverse]

theorem isWhitespace_of_isAsciiDigit (digit : isAsciiDigit c = true) : isWhitespace c = false := by
  have bounds : 48 ≤ c.toNat ∧ c.toNat ≤ 57 := by simpa [isAsciiDigit] using digit
  simp [isWhitespace]
  omega

/-! ## Texts after their lengths -/

/-- Two joined texts are told apart when the first ones have one length. -/
theorem append_inj_of_size {s s' : String} (size : s.utf8ByteSize = s'.utf8ByteSize)
    (eq : s ++ rest = s' ++ rest') : s = s' ∧ rest = rest' := by
  have bytes : s.toByteArray ++ rest.toByteArray = s'.toByteArray ++ rest'.toByteArray := by
    rw [← String.toByteArray_append, ← String.toByteArray_append, eq]
  have same : s = s' := String.toByteArray_inj.mp (ByteArray.append_inj_left bytes size)
  subst same
  exact ⟨rfl, (String.append_right_inj s).mp eq⟩

theorem toString_inj {m : Nat} (eq : toString m = toString n) : m = n := by
  have digits : Nat.toDigits 10 m = Nat.toDigits 10 n := by
    rw [← toList_toString, ← toList_toString, eq]
  have value := congrArg (Nat.ofDigitChars 10 · 0) digits
  rwa [Nat.ofDigitChars_ten_toDigits, Nat.ofDigitChars_ten_toDigits] at value

/-- A number ends at the colon that follows it. -/
theorem number_inj {m : Nat} (eq : toString m ++ (":" ++ rest) = toString n ++ (":" ++ rest')) :
    m = n ∧ rest = rest' := by
  have lists : Nat.toDigits 10 m ++ ':' :: rest.toList =
      Nat.toDigits 10 n ++ ':' :: rest'.toList := by
    have lists := congrArg String.toList eq
    rw [String.toList_append, String.toList_append, String.toList_append, String.toList_append,
      toList_toString, toList_toString] at lists
    exact lists
  obtain ⟨digits, _, rests⟩ := cut_unique (p := fun c => isAsciiDigit c = true)
    (fun c => isAsciiDigit_of_mem_toDigits) (fun c => isAsciiDigit_of_mem_toDigits) (by decide)
    (by decide) lists
  refine ⟨toString_inj ?_, String.toList_inj.mp rests⟩
  rw [← String.toList_inj, toList_toString, toList_toString, digits]

/-- A text after its length in bytes and a colon. -/
def sized (s : String) : String := toString s.utf8ByteSize ++ (":" ++ s)

/-- It is told from what follows it, whatever the characters. -/
theorem sized_inj {s s' : String} (eq : sized s ++ rest = sized s' ++ rest') :
    s = s' ∧ rest = rest' := by
  simp only [sized, String.append_assoc] at eq
  obtain ⟨size, eq⟩ := number_inj eq
  exact append_inj_of_size size eq

end ForgeLink.Lib.Str
