import ForgeLink.Lib.Json
import ForgeLink.Lib.JsonScan

/-!
# The bytes of a compact text

The UTF-8 bytes of the compact text of an array or an object are a document in
the sense of the scanner (`document_print`), and none of them is a line break
(`newline_notMem_print`).
-/

namespace ForgeLink.Lib.Json

variable {c : Char} {cs : List Char}

/-- The UTF-8 bytes of a text. -/
def utf8 (cs : List Char) : Bytes := cs.flatMap String.utf8EncodeChar

@[simp] theorem utf8_append (cs ds : List Char) : utf8 (cs ++ ds) = utf8 cs ++ utf8 ds :=
  List.flatMap_append

theorem utf8_cons (c : Char) (cs : List Char) :
    utf8 (c :: cs) = String.utf8EncodeChar c ++ utf8 cs :=
  List.flatMap_cons

theorem toText_bytes (j : Json) : (toText j).toByteArray.data.toList = utf8 (print j) := by
  rw [toText, String.toByteArray_ofList, List.utf8Encode, List.data_toByteArray]
  rfl

/-! ## Encoded characters -/

theorem encode_ascii (h : c.toNat ≤ 127) : String.utf8EncodeChar c = [UInt8.ofNat c.toNat] :=
  if_pos h

theorem le_ofNat {n : Nat} (low : 128 ≤ n) (high : n < 256) : 128 ≤ UInt8.ofNat n := by
  rw [UInt8.le_iff_toNat_le, UInt8.toNat_ofNat', Nat.mod_eq_of_lt high]
  exact low

theorem encode_high (h : 127 < c.toNat) : ∀ b ∈ String.utf8EncodeChar c, 128 ≤ b := by
  have above : ¬c.val.toNat ≤ 127 := Nat.not_le_of_lt h
  rw [String.utf8EncodeChar]
  simp only [if_neg above]
  split
  · exact List.forall_mem_cons.mpr ⟨le_ofNat (by omega) (by omega),
      List.forall_mem_singleton.mpr (le_ofNat (by omega) (by omega))⟩
  · split
    · exact List.forall_mem_cons.mpr ⟨le_ofNat (by omega) (by omega),
        List.forall_mem_cons.mpr ⟨le_ofNat (by omega) (by omega),
          List.forall_mem_singleton.mpr (le_ofNat (by omega) (by omega))⟩⟩
    · exact List.forall_mem_cons.mpr ⟨le_ofNat (by omega) (by omega),
        List.forall_mem_cons.mpr ⟨le_ofNat (by omega) (by omega),
          List.forall_mem_cons.mpr ⟨le_ofNat (by omega) (by omega),
            List.forall_mem_singleton.mpr (le_ofNat (by omega) (by omega))⟩⟩⟩

/-- A text whose first byte is ASCII starts with that character. -/
theorem toList_of_head? {text : String} {b : UInt8} (ascii : b < 128)
    (h : text.toByteArray.data.toList.head? = some b) :
    ∃ cs, text.toList = Char.ofNat b.toNat :: cs := by
  rw [← String.utf8Encode_toList, List.utf8Encode, List.data_toByteArray, List.toList_toArray] at h
  cases here : text.toList with
  | nil =>
    rw [here] at h
    cases h
  | cons c cs =>
    rw [here, List.flatMap_cons, List.head?_append_of_ne_nil _ String.utf8EncodeChar_ne_nil] at h
    by_cases low : c.toNat ≤ 127
    · rw [encode_ascii low, List.head?_cons, Option.some.injEq] at h
      rw [← h, UInt8.toNat_ofNat', Nat.mod_eq_of_lt (by omega), Char.ofNat_toNat]
      exact ⟨cs, rfl⟩
    · have high := encode_high (by omega) b (List.mem_of_head? h)
      rw [UInt8.le_iff_toNat_le] at high
      rw [UInt8.lt_iff_toNat_lt] at ascii
      exact absurd ascii (Nat.not_lt_of_le high)

/-! ## Strings -/

theorem scan_string_high {text : Bytes} (high : ∀ b ∈ text, 128 ≤ b) (d : Nat) :
    scan (.string, d) text = some (.string, d) := by
  induction text with
  | nil => rfl
  | cons b text ih =>
    obtain ⟨first, rest⟩ := List.forall_mem_cons.mp high
    rw [UInt8.le_iff_toNat_le] at first
    have quote : b ≠ 34 := by
      rintro rfl
      exact absurd first (by decide)
    have backslash : b ≠ 92 := by
      rintro rfl
      exact absurd first (by decide)
    have printable : ¬b < 32 := by
      rw [UInt8.lt_iff_toNat_lt]
      exact Nat.not_lt_of_le (Nat.le_trans (by decide) first)
    rw [scan, step, move, if_neg quote, if_neg backslash, if_neg printable]
    exact ih rest

/-- A character outside ASCII stands for itself. -/
theorem escapeChar_of_high (high : ¬c.toNat < 128) : escapeChar c = [c] := by
  have differ : ∀ {c' : Char}, c'.toNat < 128 → c ≠ c' := by
    rintro c' low rfl
    exact high low
  rw [escapeChar, if_neg (differ (by decide)), if_neg (differ (by decide)),
    if_neg (differ (by decide)), if_neg (differ (by decide)), if_neg (differ (by decide)),
    if_neg (differ (by decide)), if_neg (differ (by decide)), if_neg (by omega)]

theorem scan_escapeChar_ascii : ∀ n : Fin 128,
    scan (.string, 0) (utf8 (escapeChar (Char.ofNat n))) = some (.string, 0) := by
  decide

theorem scan_escapeChar (c : Char) (d : Nat) :
    scan (.string, d) (utf8 (escapeChar c)) = some (.string, d) := by
  by_cases ascii : c.toNat < 128
  · have here := scan_add (scan_escapeChar_ascii ⟨c.toNat, ascii⟩) d
    rwa [Char.ofNat_toNat, Nat.zero_add] at here
  · rw [escapeChar_of_high ascii, utf8_cons]
    refine scan_string_high (fun b inside => ?_) d
    rw [utf8, List.flatMap_nil, List.append_nil] at inside
    exact encode_high (by omega) b inside

theorem scan_printString (s : String) (d : Nat) :
    scan (.string, d) (utf8 (printString s)) = some (.closed, d) := by
  rw [printString, utf8_append, scan_append]
  have body : scan (.string, d) (utf8 (s.toList.flatMap escapeChar)) = some (.string, d) := by
    induction s.toList with
    | nil => rfl
    | cons c cs ih =>
      rw [List.flatMap_cons, utf8_append, scan_append, scan_escapeChar, Option.bind_some, ih]
  rw [body]
  rfl

/-! ## Numbers -/

theorem scan_digit_ascii : ∀ n : Fin 128, (Char.ofNat n).isDigit = true →
    scan (.value, 0) (utf8 [Char.ofNat n]) = some (.bare, 0) ∧
      scan (.bare, 0) (utf8 [Char.ofNat n]) = some (.bare, 0) := by
  decide

theorem scan_digit (digit : c.isDigit = true) (d : Nat) :
    scan (.value, d) (utf8 [c]) = some (.bare, d) ∧
      scan (.bare, d) (utf8 [c]) = some (.bare, d) := by
  have ascii : c.toNat < 128 := by
    exact Nat.lt_of_le_of_lt (Char.isDigit_iff_toNat.mp digit).2 (by decide)
  have here := scan_digit_ascii ⟨c.toNat, ascii⟩
  rw [Char.ofNat_toNat] at here
  have fromValue := scan_add (here digit).1 d
  have fromBare := scan_add (here digit).2 d
  rw [Nat.zero_add] at fromValue fromBare
  exact ⟨fromValue, fromBare⟩

theorem scan_bare_digits (digits : ∀ c ∈ cs, c.isDigit = true) (d : Nat) :
    scan (.bare, d) (utf8 cs) = some (.bare, d) := by
  induction cs with
  | nil => rfl
  | cons c cs ih =>
    obtain ⟨first, rest⟩ := List.forall_mem_cons.mp digits
    rw [← List.singleton_append, utf8_append, scan_append, (scan_digit first d).2]
    exact ih rest

theorem scan_toDigits (n d : Nat) :
    scan (.value, d) (utf8 (Nat.toDigits 10 n)) = some (.bare, d) ∧
      scan (.bare, d) (utf8 (Nat.toDigits 10 n)) = some (.bare, d) := by
  have digits : ∀ c ∈ Nat.toDigits 10 n, c.isDigit = true := fun c inside =>
    Nat.isDigit_of_mem_toDigits (by decide) (by decide) inside
  refine ⟨?_, scan_bare_digits digits d⟩
  cases here : Nat.toDigits 10 n with
  | nil => exact absurd here Nat.toDigits_ne_nil
  | cons c cs =>
    rw [here] at digits
    obtain ⟨first, rest⟩ := List.forall_mem_cons.mp digits
    rw [← List.singleton_append, utf8_append, scan_append, (scan_digit first d).1]
    exact scan_bare_digits rest d

theorem scan_printInt (n : Int) : scan (.value, 0) (utf8 (printInt n)) = some (.bare, 0) := by
  cases n with
  | ofNat n => exact (scan_toDigits n 0).1
  | negSucc n => exact (scan_toDigits (n + 1) 0).2

/-! ## Values -/

/-- A value has been read, perhaps a number that could go on. -/
def Finished (m : Mode) : Prop := m = .closed ∨ m = .bare

theorem scan_next {m : Mode} (finished : Finished m) (cs : List Char) :
    scan (m, 1) (utf8 (',' :: cs)) = scan (.value, 1) (utf8 cs) := by
  rcases finished with rfl | rfl <;> rfl

mutual

/-- The bytes of a printed value are one value. -/
theorem scan_print : ∀ j : Json,
    ∃ m, Finished m ∧ scan (.value, 0) (utf8 (print j)) = some (m, 0)
  | .null => ⟨.bare, .inr rfl, rfl⟩
  | .bool true => ⟨.bare, .inr rfl, rfl⟩
  | .bool false => ⟨.bare, .inr rfl, rfl⟩
  | .int n => ⟨.bare, .inr rfl, by rw [print, scan_printInt]⟩
  | .str s => ⟨.closed, .inl rfl, by rw [print]; exact scan_printString s 0⟩
  | .arr [] => ⟨.closed, .inl rfl, rfl⟩
  | .arr (x :: xs) => by
    obtain ⟨m, finished, first⟩ := scan_print x
    refine ⟨.closed, .inl rfl, ?_⟩
    rw [print]
    change scan (.value, 1) (utf8 (print x ++ printItems xs)) = _
    rw [utf8_append, scan_append, scan_add first 1]
    exact scan_printItems xs m finished
  | .obj [] => ⟨.closed, .inl rfl, rfl⟩
  | .obj ((name, x) :: fields) => by
    refine ⟨.closed, .inl rfl, ?_⟩
    rw [print]
    change scan (.string, 1)
      (utf8 (printString name ++ ':' :: (print x ++ printFields fields))) = _
    exact scan_printField name x fields (scan_print x)

/-- A field and what follows it, inside the object. -/
theorem scan_printField (name : String) (x : Json) (fields : List (String × Json))
    (first : ∃ m, Finished m ∧ scan (.value, 0) (utf8 (print x)) = some (m, 0)) :
    scan (.string, 1) (utf8 (printString name ++ ':' :: (print x ++ printFields fields))) =
      some (.closed, 0) := by
  obtain ⟨m, finished, first⟩ := first
  rw [utf8_append, scan_append, scan_printString]
  change scan (.value, 1) (utf8 (print x ++ printFields fields)) = _
  rw [utf8_append, scan_append, scan_add first 1]
  exact scan_printFields fields m finished

theorem scan_printItems : ∀ (xs : List Json) (m : Mode), Finished m →
    scan (m, 1) (utf8 (printItems xs)) = some (.closed, 0)
  | [], m, finished => by
    rcases finished with rfl | rfl <;> rfl
  | x :: xs, m, finished => by
    obtain ⟨m', finished', first⟩ := scan_print x
    rw [printItems, scan_next finished, utf8_append, scan_append, scan_add first 1]
    exact scan_printItems xs m' finished'

theorem scan_printFields : ∀ (fields : List (String × Json)) (m : Mode), Finished m →
    scan (m, 1) (utf8 (printFields fields)) = some (.closed, 0)
  | [], m, finished => by
    rcases finished with rfl | rfl <;> rfl
  | (name, x) :: fields, m, finished => by
    rw [printFields, scan_next finished]
    exact scan_printField name x fields (scan_print x)

end

/-- The compact text of an object is a document. -/
theorem document_print (fields : List (String × Json)) :
    Document (utf8 (print (.obj fields))) := by
  cases fields with
  | nil => rfl
  | cons field fields =>
    rw [print]
    exact scan_printField field.1 field.2 fields (scan_print field.2)

/-! ## Control characters -/

/-- The text has no control character. -/
def Printable (cs : List Char) : Prop := ∀ c ∈ cs, 32 ≤ c.toNat

instance (cs : List Char) : Decidable (Printable cs) :=
  List.decidableBAll (fun c : Char => 32 ≤ c.toNat) cs

theorem Printable.append {ds : List Char} (h : Printable cs) (h' : Printable ds) :
    Printable (cs ++ ds) := fun c inside =>
  (List.mem_append.mp inside).elim (h c) (h' c)

theorem Printable.cons (first : 32 ≤ c.toNat) (h : Printable cs) : Printable (c :: cs) :=
  List.forall_mem_cons.mpr ⟨first, h⟩

theorem printable_escapeChar_ascii : ∀ n, n < 128 → Printable (escapeChar (Char.ofNat n)) := by
  decide

theorem printable_escapeChar (c : Char) : Printable (escapeChar c) := by
  by_cases ascii : c.toNat < 128
  · have here := printable_escapeChar_ascii c.toNat ascii
    rwa [Char.ofNat_toNat] at here
  · rw [escapeChar_of_high ascii]
    exact List.forall_mem_singleton.mpr (by omega)

theorem printable_printString (s : String) : Printable (printString s) := by
  refine Printable.append (fun c inside => ?_) (by decide)
  obtain ⟨c', _, here⟩ := List.mem_flatMap.mp inside
  exact printable_escapeChar c' c here

theorem printable_toDigits (n : Nat) : Printable (Nat.toDigits 10 n) := by
  intro c inside
  have digit := Nat.isDigit_of_mem_toDigits (by decide) (by decide) inside
  exact Nat.le_trans (by decide) (Char.isDigit_iff_toNat.mp digit).1

theorem printable_printInt (n : Int) : Printable (printInt n) := by
  cases n with
  | ofNat n => exact printable_toDigits n
  | negSucc n => exact .cons (by decide) (printable_toDigits (n + 1))

mutual

theorem printable_print : ∀ j : Json, Printable (print j)
  | .null => by decide
  | .bool true => by decide
  | .bool false => by decide
  | .int n => by rw [print]; exact printable_printInt n
  | .str s => by rw [print]; exact .cons (by decide) (printable_printString s)
  | .arr [] => by decide
  | .arr (x :: xs) => by
    rw [print]
    exact .cons (by decide) ((printable_print x).append (printable_printItems xs))
  | .obj [] => by decide
  | .obj ((name, x) :: fields) => by
    rw [print]
    exact .cons (by decide) (.cons (by decide) ((printable_printString name).append
      (.cons (by decide) ((printable_print x).append (printable_printFields fields)))))

theorem printable_printItems : ∀ xs : List Json, Printable (printItems xs)
  | [] => by decide
  | x :: xs => by
    rw [printItems]
    exact .cons (by decide) ((printable_print x).append (printable_printItems xs))

theorem printable_printFields : ∀ fields : List (String × Json), Printable (printFields fields)
  | [] => by decide
  | (name, x) :: fields => by
    rw [printFields]
    exact .cons (by decide) (.cons (by decide) ((printable_printString name).append
      (.cons (by decide) ((printable_print x).append (printable_printFields fields)))))

end

/-- No byte of a compact text is a line break. -/
theorem newline_notMem_print (j : Json) : Bytes.newline ∉ utf8 (print j) := by
  intro inside
  obtain ⟨c, here, encoded⟩ := List.mem_flatMap.mp inside
  have printable := printable_print j c here
  by_cases ascii : c.toNat ≤ 127
  · rw [encode_ascii ascii, List.mem_singleton] at encoded
    have same := congrArg UInt8.toNat encoded
    rw [UInt8.toNat_ofNat', Nat.mod_eq_of_lt (by omega)] at same
    exact absurd (same ▸ printable) (by decide)
  · exact absurd (encode_high (by omega) _ encoded) (by decide)

end ForgeLink.Lib.Json
