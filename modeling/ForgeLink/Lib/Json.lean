import Mathlib.Data.List.TakeWhile

/-!
# Compact JSON

JSON values with integer numbers, their compact text, and a reader of that text.
Strings are escaped as compact writers do: the two characters that have to be,
the five control characters with a short form, and `\u00xx` for the other ones.

The reader is run with fuel; the length of the text is enough
(`Json.read_print`).
-/

namespace ForgeLink.Lib

/-- A JSON value. -/
inductive Json where
  | null
  | bool (b : Bool)
  | int (n : Int)
  | str (s : String)
  | arr (items : List Json)
  | obj (fields : List (String × Json))

namespace Json

variable {rest : List Char}

/-! ## Writing -/

/-- The text of one character of a string. -/
def escapeChar (c : Char) : List Char :=
  if c = '"' then ['\\', '"']
  else if c = '\\' then ['\\', '\\']
  else if c = '\x08' then ['\\', 'b']
  else if c = '\t' then ['\\', 't']
  else if c = '\n' then ['\\', 'n']
  else if c = '\x0c' then ['\\', 'f']
  else if c = '\r' then ['\\', 'r']
  else if c.toNat < 32 then
    ['\\', 'u', '0', '0', Nat.digitChar (c.toNat / 16), Nat.digitChar (c.toNat % 16)]
  else [c]

/-- A string after its opening quote. -/
def printString (s : String) : List Char := s.toList.flatMap escapeChar ++ ['"']

/-- An integer. -/
def printInt : Int → List Char
  | .ofNat n => Nat.toDigits 10 n
  | .negSucc n => '-' :: Nat.toDigits 10 (n + 1)

mutual

/-- The compact text of a value. -/
def print : Json → List Char
  | .null => ['n', 'u', 'l', 'l']
  | .bool true => ['t', 'r', 'u', 'e']
  | .bool false => ['f', 'a', 'l', 's', 'e']
  | .int n => printInt n
  | .str s => '"' :: printString s
  | .arr [] => ['[', ']']
  | .arr (x :: xs) => '[' :: (print x ++ printItems xs)
  | .obj [] => ['\x7b', '\x7d']
  | .obj ((name, x) :: fields) =>
    '\x7b' :: '"' :: (printString name ++ ':' :: (print x ++ printFields fields))

/-- The items after the first. -/
def printItems : List Json → List Char
  | [] => [']']
  | x :: xs => ',' :: (print x ++ printItems xs)

/-- The fields after the first. -/
def printFields : List (String × Json) → List Char
  | [] => ['\x7d']
  | (name, x) :: fields =>
    ',' :: '"' :: (printString name ++ ':' :: (print x ++ printFields fields))

end

/-! ## Reading -/

/-- The value of a hexadecimal digit. -/
def hexValue (c : Char) : Nat :=
  if c.isDigit then c.toNat - '0'.toNat else c.toNat - 'a'.toNat + 10

/-- The character a short escape stands for. -/
def unescape (c : Char) : Option Char :=
  if c = '"' ∨ c = '\\' ∨ c = '/' then some c
  else if c = 'b' then some '\x08'
  else if c = 't' then some '\t'
  else if c = 'n' then some '\n'
  else if c = 'f' then some '\x0c'
  else if c = 'r' then some '\r'
  else none

/-- Put a character in front of a string that was read. -/
def push (c : Char) (p : List Char × List Char) : List Char × List Char := (c :: p.1, p.2)

/-- Read a string after its opening quote. -/
def readString : List Char → Option (List Char × List Char)
  | [] => none
  | c :: rest =>
    if c = '"' then some ([], rest)
    else if c = '\\' then
      match rest with
      | 'u' :: '0' :: '0' :: high :: low :: rest =>
        (readString rest).map (push (Char.ofNat (16 * hexValue high + hexValue low)))
      | e :: rest => (unescape e).bind fun c => (readString rest).map (push c)
      | [] => none
    else (readString rest).map (push c)

/-- Read digits. -/
def readNat (cs : List Char) : Option (Nat × List Char) :=
  if (cs.takeWhile Char.isDigit).isEmpty then none
  else some (Nat.ofDigitChars 10 (cs.takeWhile Char.isDigit) 0, cs.dropWhile Char.isDigit)

/-- Read an integer. -/
def readInt : List Char → Option (Int × List Char)
  | '-' :: cs => (readNat cs).map fun p => (-(p.1 : Int), p.2)
  | cs => (readNat cs).map fun p => ((p.1 : Int), p.2)

/-- Read the rest of a word. -/
def readWord (word : List Char) (j : Json) (cs : List Char) : Option (Json × List Char) :=
  if word.isPrefixOf cs then some (j, cs.drop word.length) else none

mutual

/-- Read a value. -/
def read : Nat → List Char → Option (Json × List Char)
  | 0, _ => none
  | _ + 1, [] => none
  | n + 1, c :: cs =>
    if c = '"' then (readString cs).map fun p => (.str (String.ofList p.1), p.2)
    else if c = '[' then
      if cs.head? = some ']' then some (.arr [], cs.tail)
      else
        (read n cs).bind fun p => (readItems n p.2).map fun q => (.arr (p.1 :: q.1), q.2)
    else if c = '\x7b' then
      if cs.head? = some '\x7d' then some (.obj [], cs.tail)
      else
        (readField n cs).bind fun p => (readFields n p.2).map fun q => (.obj (p.1 :: q.1), q.2)
    else if c = 'n' then readWord ['u', 'l', 'l'] .null cs
    else if c = 't' then readWord ['r', 'u', 'e'] (.bool true) cs
    else if c = 'f' then readWord ['a', 'l', 's', 'e'] (.bool false) cs
    else (readInt (c :: cs)).map fun p => (.int p.1, p.2)

/-- Read the items after the first. -/
def readItems : Nat → List Char → Option (List Json × List Char)
  | 0, _ => none
  | _ + 1, [] => none
  | n + 1, c :: cs =>
    if c = ']' then some ([], cs)
    else if c = ',' then
      (read n cs).bind fun p => (readItems n p.2).map fun q => (p.1 :: q.1, q.2)
    else none

/-- Read a field. -/
def readField : Nat → List Char → Option ((String × Json) × List Char)
  | 0, _ => none
  | _ + 1, [] => none
  | n + 1, c :: cs =>
    if c = '"' then
      (readString cs).bind fun name =>
        if name.2.head? = some ':' then
          (read n name.2.tail).map fun p => ((String.ofList name.1, p.1), p.2)
        else none
    else none

/-- Read the fields after the first. -/
def readFields : Nat → List Char → Option (List (String × Json) × List Char)
  | 0, _ => none
  | _ + 1, [] => none
  | n + 1, c :: cs =>
    if c = '\x7d' then some ([], cs)
    else if c = ',' then
      (readField n cs).bind fun p => (readFields n p.2).map fun q => (p.1 :: q.1, q.2)
    else none

end

/-! ## Reading back a string -/

theorem hexValue_digitChar {n : Nat} (h : n < 16) : hexValue n.digitChar = n := by
  have all : ∀ n < 16, hexValue n.digitChar = n := by decide
  exact all n h

/-- An escaped character is read back. -/
theorem readString_escapeChar (c : Char) (rest : List Char) :
    readString (escapeChar c ++ rest) = (readString rest).map (push c) := by
  unfold escapeChar
  split
  next eq => subst eq; rfl
  split
  next eq => subst eq; rfl
  split
  next eq => subst eq; rfl
  split
  next eq => subst eq; rfl
  split
  next eq => subst eq; rfl
  split
  next eq => subst eq; rfl
  split
  next eq => subst eq; rfl
  split
  next low =>
    have high := hexValue_digitChar (n := c.toNat / 16) (by omega)
    have low := hexValue_digitChar (n := c.toNat % 16) (by omega)
    have whole : Char.ofNat (16 * (c.toNat / 16) + c.toNat % 16) = c := by
      rw [Nat.div_add_mod, Char.ofNat_toNat]
    simp only [List.cons_append, List.nil_append, readString, high, low, whole]
    rfl
  next quote slash _ _ _ _ _ _ =>
    rw [List.singleton_append, readString.eq_def]
    simp [quote, slash]

theorem readString_printString (s : String) (rest : List Char) :
    readString (printString s ++ rest) = some (s.toList, rest) := by
  rw [printString]
  induction s.toList with
  | nil => simp [readString.eq_def]
  | cons c cs ih =>
    rw [List.flatMap_cons, List.append_assoc, List.append_assoc, readString_escapeChar,
      ← List.append_assoc, ih]
    rfl

/-! ## Reading back a number -/

/-- What follows a number. -/
def Stops (rest : List Char) : Prop := rest.takeWhile Char.isDigit = []

theorem Stops.cons {c : Char} (rest : List Char) (h : c.isDigit = false) : Stops (c :: rest) := by
  rw [Stops, List.takeWhile_cons, h]
  rfl

theorem readNat_toDigits (n : Nat) (stops : Stops rest) :
    readNat (Nat.toDigits 10 n ++ rest) = some (n, rest) := by
  have digits : ∀ c ∈ Nat.toDigits 10 n, c.isDigit = true := fun c inside =>
    Nat.isDigit_of_mem_toDigits (by decide) (by decide) inside
  have drop : rest.dropWhile Char.isDigit = rest := by
    have whole := List.takeWhile_append_dropWhile (p := Char.isDigit) (l := rest)
    rwa [stops, List.nil_append] at whole
  rw [readNat, List.takeWhile_append_of_pos digits, List.dropWhile_append_of_pos digits, drop,
    stops, List.append_nil, Nat.ofDigitChars_ten_toDigits]
  exact if_neg (by simp [Nat.toDigits_ne_nil])

/-- The first character of an integer's text. -/
theorem printInt_head (n : Int) :
    ∃ c cs, printInt n = c :: cs ∧ (c = '-' ∨ c.isDigit = true) := by
  cases n with
  | ofNat n =>
    obtain ⟨c, cs, eq⟩ := List.exists_cons_of_ne_nil (Nat.toDigits_ne_nil (n := n) (b := 10))
    refine ⟨c, cs, eq, .inr ?_⟩
    exact Nat.isDigit_of_mem_toDigits (by decide) (by decide) (eq ▸ List.mem_cons_self)
  | negSucc n => exact ⟨'-', _, rfl, .inl rfl⟩

theorem readInt_printInt (n : Int) (stops : Stops rest) :
    readInt (printInt n ++ rest) = some (n, rest) := by
  cases n with
  | ofNat n =>
    obtain ⟨c, cs, eq⟩ := List.exists_cons_of_ne_nil (Nat.toDigits_ne_nil (n := n) (b := 10))
    have digit : c.isDigit = true :=
      Nat.isDigit_of_mem_toDigits (by decide) (by decide) (eq ▸ List.mem_cons_self)
    have sign : c ≠ '-' := by
      rintro rfl
      revert digit
      decide
    have back := readNat_toDigits n stops
    rw [printInt]
    rw [eq, List.cons_append] at back ⊢
    rw [readInt, back]
    · rfl
    · exact fun cs' same => sign (List.cons.inj same).1
  | negSucc n =>
    rw [printInt, List.cons_append, readInt, readNat_toDigits (n + 1) stops]
    rfl

/-! ## Reading back a value -/

/-- A value's text starts with a character that closes nothing. -/
theorem print_head (j : Json) :
    ∃ c cs, print j = c :: cs ∧ c ≠ ']' ∧ c ≠ '\x7d' := by
  cases j with
  | null | str s => exact ⟨_, _, by rw [print], by decide, by decide⟩
  | bool b => cases b <;> exact ⟨_, _, by rw [print], by decide, by decide⟩
  | int n =>
    obtain ⟨c, cs, eq, first⟩ := printInt_head n
    refine ⟨c, cs, by rw [print, eq], ?_, ?_⟩ <;> rintro rfl <;> revert first <;> decide
  | arr items => cases items <;> exact ⟨_, _, by rw [print], by decide, by decide⟩
  | obj fields => cases fields <;> exact ⟨_, _, by rw [print], by decide, by decide⟩

theorem stops_printItems (xs : List Json) (rest : List Char) : Stops (printItems xs ++ rest) := by
  cases xs <;> rw [printItems, List.cons_append] <;> exact .cons _ (by decide)

theorem stops_printFields (fields : List (String × Json)) (rest : List Char) :
    Stops (printFields fields ++ rest) := by
  cases fields <;> rw [printFields, List.cons_append] <;> exact .cons _ (by decide)

theorem read_int (n : Int) (fuel : Nat) (stops : Stops rest) :
    read (fuel + 1) (printInt n ++ rest) = some (.int n, rest) := by
  obtain ⟨c, cs, eq, first⟩ := printInt_head n
  have back := readInt_printInt n stops
  have differ : ∀ d : Char, d ≠ '-' → d.isDigit = false → c ≠ d := by
    rintro d sign digit rfl
    rcases first with same | same
    · exact sign same
    · rw [digit] at same
      cases same
  rw [eq, List.cons_append] at back ⊢
  rw [read, if_neg (differ _ (by decide) (by decide)), if_neg (differ _ (by decide) (by decide)),
    if_neg (differ _ (by decide) (by decide)), if_neg (differ _ (by decide) (by decide)),
    if_neg (differ _ (by decide) (by decide)), if_neg (differ _ (by decide) (by decide)), back]
  rfl

theorem length_print_pos (j : Json) : 0 < (print j).length := by
  obtain ⟨c, cs, eq, _⟩ := print_head j
  rw [eq]
  exact Nat.succ_pos _

theorem length_printItems_pos (xs : List Json) : 0 < (printItems xs).length := by
  cases xs <;> rw [printItems] <;> exact Nat.succ_pos _

theorem length_printFields_pos (fields : List (String × Json)) :
    0 < (printFields fields).length := by
  cases fields <;> rw [printFields] <;> exact Nat.succ_pos _

theorem readField_print {name : String} {x : Json} {n : Nat}
    (value : read n (print x ++ rest) = some (x, rest)) :
    readField (n + 1) ('"' :: (printString name ++ ':' :: (print x ++ rest))) =
      some ((name, x), rest) := by
  rw [readField, if_pos rfl, readString_printString, Option.bind_some]
  simp only [List.head?_cons, if_true, List.tail_cons, value, Option.map_some,
    String.ofList_toList]

mutual

/-- The reader inverts the writer, whatever follows the value. -/
theorem read_print : ∀ (j : Json) (n : Nat) (rest : List Char), (print j).length ≤ n + 1 →
    Stops rest → read (n + 1) (print j ++ rest) = some (j, rest)
  | .null, n, rest, _, _ => by
    rw [print]
    rfl
  | .bool true, n, rest, _, _ => by
    rw [print]
    rfl
  | .bool false, n, rest, _, _ => by
    rw [print]
    rfl
  | .int i, n, rest, _, stops => by
    rw [print]
    exact read_int i n stops
  | .str s, n, rest, _, _ => by
    rw [print, List.cons_append, read, if_pos rfl, readString_printString, Option.map_some,
      String.ofList_toList]
  | .arr [], n, rest, _, _ => by
    rw [print]
    rfl
  | .arr (x :: xs), n, rest, enough, _ => by
    rw [print] at enough ⊢
    rw [List.length_cons, List.length_append] at enough
    have first := length_print_pos x
    have later := length_printItems_pos xs
    obtain ⟨m, rfl⟩ : ∃ m, n = m + 1 := ⟨n - 1, by omega⟩
    obtain ⟨c, cs, eq, open', _⟩ := print_head x
    have head : (print x ++ (printItems xs ++ rest)).head? ≠ some ']' := by
      rw [eq]
      simpa using open'
    have value := read_print x m (printItems xs ++ rest) (by omega) (stops_printItems xs rest)
    have items := readItems_print xs m rest (by omega)
    rw [List.cons_append, List.append_assoc, read, if_neg (by decide), if_pos rfl, if_neg head,
      value, Option.bind_some, items, Option.map_some]
  | .obj [], n, rest, _, _ => by
    rw [print]
    rfl
  | .obj ((name, x) :: fields), n, rest, enough, _ => by
    rw [print] at enough ⊢
    rw [List.length_cons, List.length_cons, List.length_append, List.length_cons,
      List.length_append] at enough
    have first := length_print_pos x
    have later := length_printFields_pos fields
    obtain ⟨m, rfl⟩ : ∃ m, n = m + 1 + 1 := ⟨n - 2, by omega⟩
    have value := read_print x m (printFields fields ++ rest) (by omega)
      (stops_printFields fields rest)
    have others := readFields_print fields (m + 1) rest (by omega)
    rw [List.cons_append, List.cons_append, List.append_assoc, List.cons_append,
      List.append_assoc, read, if_neg (by decide), if_neg (by decide), if_pos rfl,
      if_neg (by simp), readField_print value, Option.bind_some, others, Option.map_some]

theorem readItems_print : ∀ (xs : List Json) (n : Nat) (rest : List Char),
    (printItems xs).length ≤ n + 1 → readItems (n + 1) (printItems xs ++ rest) = some (xs, rest)
  | [], n, rest, _ => by
    rw [printItems]
    rfl
  | x :: xs, n, rest, enough => by
    rw [printItems] at enough ⊢
    rw [List.length_cons, List.length_append] at enough
    have first := length_print_pos x
    have later := length_printItems_pos xs
    obtain ⟨m, rfl⟩ : ∃ m, n = m + 1 := ⟨n - 1, by omega⟩
    have value := read_print x m (printItems xs ++ rest) (by omega) (stops_printItems xs rest)
    have items := readItems_print xs m rest (by omega)
    rw [List.cons_append, List.append_assoc, readItems, if_neg (by decide), if_pos rfl, value,
      Option.bind_some, items, Option.map_some]

/-- The fields of an object are read back. -/
theorem readFields_print : ∀ (fields : List (String × Json)) (n : Nat) (rest : List Char),
    (printFields fields).length ≤ n + 1 →
    readFields (n + 1) (printFields fields ++ rest) = some (fields, rest)
  | [], n, rest, _ => by
    rw [printFields]
    rfl
  | (name, x) :: fields, n, rest, enough => by
    rw [printFields] at enough ⊢
    rw [List.length_cons, List.length_cons, List.length_append, List.length_cons,
      List.length_append] at enough
    have first := length_print_pos x
    have later := length_printFields_pos fields
    obtain ⟨m, rfl⟩ : ∃ m, n = m + 1 + 1 := ⟨n - 2, by omega⟩
    have value := read_print x m (printFields fields ++ rest) (by omega)
      (stops_printFields fields rest)
    have others := readFields_print fields (m + 1) rest (by omega)
    rw [List.cons_append, List.cons_append, List.append_assoc, List.cons_append,
      List.append_assoc, readFields, if_neg (by decide), if_pos rfl, readField_print value,
      Option.bind_some, others, Option.map_some]

end

/-! ## Texts -/

/-- The compact text of a value. -/
def toText (j : Json) : String := String.ofList (print j)

/-- Read a compact text: the reader must reach the end, and the text must be
the one the writer gives. -/
def ofText (text : String) : Option Json :=
  (read (text.toList.length + 1) text.toList).bind fun p =>
    if p.2 = [] ∧ toText p.1 = text then some p.1 else none

theorem ofText_toText (j : Json) : ofText (toText j) = some j := by
  have back := read_print j (print j).length [] (Nat.le_succ _) rfl
  rw [List.append_nil] at back
  rw [ofText, toText, String.toList_ofList, back]
  exact if_pos ⟨rfl, rfl⟩

end Json

end ForgeLink.Lib
