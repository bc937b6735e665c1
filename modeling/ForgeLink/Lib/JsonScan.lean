import ForgeLink.Lib.Lines
import Mathlib.Data.List.Induction

/-!
# Scanning JSON documents

A scanner over the bytes of a JSON text.  It follows strings, escapes and the
nesting of brackets and lets everything else through, so every JSON document
that is an object or an array scans to the end with nothing open
(`Json.Document`), and many other texts do too.

It is enough to tell a document from what is left of one.  A text that starts
like a compact object with a named first field is *tagged*; pieces of tagged
documents that together make a document again are one whole text
(`Json.whole_of_document`).
-/

namespace ForgeLink.Lib.Json

/-- Where the scanner is: before a value, after one, in a number or a word, or
in a string. -/
inductive Mode where
  | value
  | closed
  | bare
  | string
  | escape
  | hex (left : Nat)
deriving DecidableEq

/-- White space between tokens. -/
def isSpace (b : UInt8) : Bool := b = 32 || b = 9 || b = 10 || b = 13

/-- A brace or a bracket that opens. -/
def isOpening (b : UInt8) : Bool := b = 123 || b = 91

/-- A brace or a bracket that closes. -/
def isClosing (b : UInt8) : Bool := b = 125 || b = 93

/-- A byte of a number or of a word. -/
def isBare (b : UInt8) : Bool :=
  (48 ≤ b && b ≤ 57) || (97 ≤ b && b ≤ 122) || b = 43 || b = 45 || b = 46 || b = 69

/-- A hexadecimal digit. -/
def isHex (b : UInt8) : Bool :=
  (48 ≤ b && b ≤ 57) || (97 ≤ b && b ≤ 102) || (65 ≤ b && b ≤ 70)

/-- A byte after a backslash, but `u`. -/
def isEscaped (b : UInt8) : Bool := b ∈ [34, 92, 47, 98, 102, 110, 114, 116]

/-- What a byte does to the number of open brackets: nothing, one more, one
less, or nothing but only inside a bracket. -/
inductive Change where
  | keep
  | enter
  | leave
  | inside

/-- The number of open brackets after a change. -/
def Change.apply : Change → Nat → Option Nat
  | .keep, d => some d
  | .enter, d => some (d + 1)
  | .leave, 0 => none
  | .leave, d + 1 => some d
  | .inside, 0 => none
  | .inside, d + 1 => some (d + 1)

/-- After a value. -/
def moveClosed (b : UInt8) : Option (Mode × Change) :=
  if isSpace b then some (.closed, .keep)
  else if isClosing b then some (.closed, .leave)
  else if b = 44 || b = 58 then some (.value, .inside)
  else none

/-- What a byte does. -/
def move : Mode → UInt8 → Option (Mode × Change)
  | .value, b =>
    if isSpace b then some (.value, .keep)
    else if isOpening b then some (.value, .enter)
    else if isClosing b then some (.closed, .leave)
    else if b = 34 then some (.string, .keep)
    else if isBare b then some (.bare, .keep)
    else none
  | .closed, b => moveClosed b
  | .bare, b => if isBare b then some (.bare, .keep) else moveClosed b
  | .string, b =>
    if b = 34 then some (.closed, .keep)
    else if b = 92 then some (.escape, .keep)
    else if b < 32 then none
    else some (.string, .keep)
  | .escape, b =>
    if isEscaped b then some (.string, .keep)
    else if b = 117 then some (.hex 3, .keep)
    else none
  | .hex 0, b => if isHex b then some (.string, .keep) else none
  | .hex (left + 1), b => if isHex b then some (.hex left, .keep) else none

/-- One byte. -/
def step (st : Mode × Nat) (b : UInt8) : Option (Mode × Nat) :=
  (move st.1 b).bind fun next => (next.2.apply st.2).map fun d => (next.1, d)

/-- Scan a text. -/
def scan : Mode × Nat → Bytes → Option (Mode × Nat)
  | st, [] => some st
  | st, b :: bs => (step st b).bind fun st => scan st bs

/-- The text scans to its end with nothing open. -/
def Document (text : Bytes) : Prop := scan (.value, 0) text = some (.closed, 0)

theorem scan_append (st : Mode × Nat) (xs ys : Bytes) :
    scan st (xs ++ ys) = (scan st xs).bind fun st => scan st ys := by
  induction xs generalizing st with
  | nil => rfl
  | cons b xs ih =>
    rw [List.cons_append, scan, scan, Option.bind_assoc]
    exact congrArg _ (funext fun st => ih st)

/-! ## Nesting -/

theorem Change.apply_add {c : Change} {d d' : Nat} (h : c.apply d = some d') (k : Nat) :
    c.apply (d + k) = some (d' + k) := by
  cases c with
  | keep =>
    cases h
    rfl
  | enter =>
    cases h
    exact congrArg some (Nat.add_right_comm d k 1)
  | leave | inside =>
    cases d with
    | zero => cases h
    | succ d =>
      cases h
      rw [Nat.succ_add]
      rfl

/-- What is scanned outside a bracket is scanned in the same way inside. -/
theorem scan_add {text : Bytes} {st st' : Mode × Nat} (h : scan st text = some st') (k : Nat) :
    scan (st.1, st.2 + k) text = some (st'.1, st'.2 + k) := by
  induction text generalizing st with
  | nil =>
    cases h
    rfl
  | cons b text ih =>
    obtain ⟨mid, stepped, rest⟩ := Option.bind_eq_some_iff.mp h
    obtain ⟨next, moved, counted⟩ := Option.bind_eq_some_iff.mp stepped
    obtain ⟨d, applied, rfl⟩ := Option.map_eq_some_iff.mp counted
    rw [scan, step, moved, Option.bind_some, Change.apply_add applied k]
    exact ih rest

/-- A scan that has opened a bracket. -/
def Opened (st : Mode × Nat) : Prop := 0 < st.2 ∨ st = (.closed, 0)

theorem moveClosed_leave {b : UInt8} {m : Mode} (h : moveClosed b = some (m, .leave)) :
    m = .closed := by
  rw [moveClosed] at h
  split at h
  · cases h
  · split at h
    · cases h
      rfl
    · split at h <;> cases h

theorem move_leave {m m' : Mode} {b : UInt8} (h : move m b = some (m', .leave)) :
    m' = .closed := by
  cases m with
  | value =>
    rw [move] at h
    split at h
    · cases h
    · split at h
      · cases h
      · split at h
        · cases h
          rfl
        · split at h
          · cases h
          · split at h <;> cases h
  | closed => exact moveClosed_leave h
  | bare =>
    rw [move] at h
    split at h
    · cases h
    · exact moveClosed_leave h
  | string =>
    rw [move] at h
    split at h
    · cases h
    · split at h
      · cases h
      · split at h <;> cases h
  | escape =>
    rw [move] at h
    split at h
    · cases h
    · split at h <;> cases h
  | hex left => cases left <;> rw [move] at h <;> split at h <;> cases h

/-- Outside all brackets a finished document goes on with white space only. -/
theorem step_finished {b : UInt8} {st : Mode × Nat} (h : step (.closed, 0) b = some st) :
    isSpace b = true ∧ st = (.closed, 0) := by
  rw [step, move, moveClosed] at h
  split at h
  next space =>
    cases h
    exact ⟨space, rfl⟩
  · split at h
    · cases h
    · split at h <;> cases h

theorem Opened.step {st st' : Mode × Nat} {b : UInt8} (opened : Opened st)
    (h : Json.step st b = some st') : Opened st' := by
  rcases opened with inside | rfl
  · obtain ⟨m, depth⟩ := st
    obtain ⟨⟨m', c⟩, moved, counted⟩ := Option.bind_eq_some_iff.mp h
    obtain ⟨d, applied, rfl⟩ := Option.map_eq_some_iff.mp counted
    cases depth with
    | zero => exact absurd inside (Nat.lt_irrefl 0)
    | succ depth =>
      cases c with
      | leave =>
        cases applied
        obtain rfl := move_leave moved
        rcases Nat.eq_zero_or_pos d with rfl | deep
        · exact .inr rfl
        · exact .inl deep
      | _ =>
        cases applied
        exact .inl (Nat.succ_pos _)
  · exact .inr (step_finished h).2

theorem Opened.scan {text : Bytes} {st st' : Mode × Nat} (opened : Opened st)
    (h : Json.scan st text = some st') : Opened st' := by
  induction text generalizing st with
  | nil =>
    cases h
    exact opened
  | cons b text ih =>
    obtain ⟨mid, stepped, rest⟩ := Option.bind_eq_some_iff.mp h
    exact ih (opened.step stepped) rest

/-! ## Torn documents -/

/-- A document that opens with an object whose first key starts with a
character that cannot follow a value, and that ends with the closing brace. -/
structure Tagged (text : Bytes) : Prop where
  document : Document text
  opens : ∃ tag rest, text = 123 :: 34 :: tag :: rest ∧ moveClosed tag = none
  closes : text.getLast? = some 125

theorem Tagged.ne_nil {text : Bytes} (h : Tagged text) : text ≠ [] := by
  rintro rfl
  cases h.closes

/-- A piece of a text: what a write that stopped early leaves. -/
structure Piece where
  text : Bytes
  tagged : Tagged text
  bytes : Bytes
  starts : bytes <+: text
  nonempty : bytes ≠ []

namespace Piece

/-- Every piece begins with the opening brace. -/
theorem bytes_eq (p : Piece) : ∃ rest, p.bytes = 123 :: rest := by
  obtain ⟨tag, rest, eq, _⟩ := p.tagged.opens
  have starts := p.starts
  have nonempty := p.nonempty
  rw [eq] at starts
  cases here : p.bytes with
  | nil => exact absurd here nonempty
  | cons b bytes =>
    rw [here] at starts
    exact ⟨bytes, by rw [(List.cons_prefix_cons.mp starts).1]⟩

theorem scan_isSome (p : Piece) : ∃ st, scan (.value, 0) p.bytes = some st := by
  obtain ⟨rest, eq⟩ := p.starts
  have document := p.tagged.document
  rw [Document, ← eq, scan_append] at document
  obtain ⟨st, here, _⟩ := Option.bind_eq_some_iff.mp document
  exact ⟨st, here⟩

theorem opened (p : Piece) {st : Mode × Nat} (h : scan (.value, 0) p.bytes = some st) :
    Opened st := by
  obtain ⟨rest, eq⟩ := p.bytes_eq
  rw [eq] at h
  have inside : Opened (.value, 1) := .inl Nat.one_pos
  exact inside.scan h

end Piece

theorem isSpace_of_scan_finished {text : Bytes} {st : Mode × Nat}
    (h : scan (.closed, 0) text = some st) : ∀ b ∈ text, isSpace b = true := by
  induction text with
  | nil =>
    intro b inside
    cases inside
  | cons b text ih =>
    obtain ⟨mid, stepped, rest⟩ := Option.bind_eq_some_iff.mp h
    obtain ⟨space, rfl⟩ := step_finished stepped
    exact List.forall_mem_cons.mpr ⟨space, ih rest⟩

/-- A piece that is scanned to the end of a document is the whole text. -/
theorem Piece.whole (p : Piece) (h : scan (.value, 0) p.bytes = some (.closed, 0)) :
    p.bytes = p.text := by
  obtain ⟨rest, eq⟩ := p.starts
  have document := p.tagged.document
  rw [Document, ← eq, scan_append, h] at document
  cases rest using List.reverseRecOn with
  | nil => rw [← eq, List.append_nil]
  | append_singleton rest b =>
    have space := isSpace_of_scan_finished document b (List.mem_append_right _ (by simp))
    have last := p.tagged.closes
    rw [← eq, ← List.append_assoc, List.getLast?_concat] at last
    obtain rfl := Option.some.inj last
    cases space

/-- Inside a bracket another piece never closes it. -/
theorem Piece.resume (p : Piece) {st st' : Mode × Nat} (inside : 0 < st.2)
    (h : scan st p.bytes = some st') : 0 < st'.2 := by
  obtain ⟨m, d⟩ := st
  cases m with
  | value =>
    obtain ⟨st₀, here⟩ := p.scan_isSome
    have shifted := scan_add here d
    rw [Nat.zero_add] at shifted
    obtain rfl := Option.some.inj (shifted.symm.trans h)
    exact Nat.add_pos_right _ inside
  | string =>
    obtain ⟨tag, rest, eq, rejected⟩ := p.tagged.opens
    have starts := p.starts
    rw [eq] at starts
    cases bytes : p.bytes with
    | nil => exact absurd bytes p.nonempty
    | cons b₁ more =>
      rw [bytes] at h starts
      obtain ⟨rfl, second⟩ := List.cons_prefix_cons.mp starts
      cases more with
      | nil =>
        cases h
        exact inside
      | cons b₂ more =>
        obtain ⟨rfl, third⟩ := List.cons_prefix_cons.mp second
        cases more with
        | nil =>
          cases h
          exact inside
        | cons b₃ more =>
          obtain ⟨rfl, _⟩ := List.cons_prefix_cons.mp third
          have stuck : scan (.closed, d) (b₃ :: more) = some st' := h
          rw [scan, step, move, rejected] at stuck
          cases stuck
  | hex left =>
    obtain ⟨rest, eq⟩ := p.bytes_eq
    rw [eq] at h
    cases left <;> cases h
  | _ =>
    obtain ⟨rest, eq⟩ := p.bytes_eq
    rw [eq] at h
    cases h

theorem scan_pieces {pieces : List Piece} {st st' : Mode × Nat} (inside : 0 < st.2)
    (h : scan st (pieces.flatMap Piece.bytes) = some st') : 0 < st'.2 := by
  induction pieces generalizing st with
  | nil =>
    cases h
    exact inside
  | cons p pieces ih =>
    rw [List.flatMap_cons, scan_append] at h
    obtain ⟨mid, here, rest⟩ := Option.bind_eq_some_iff.mp h
    exact ih (p.resume inside here) rest

/-- Pieces that together are a document are one whole text. -/
theorem whole_of_document {pieces : List Piece}
    (document : Document (pieces.flatMap Piece.bytes)) :
    ∃ p, pieces = [p] ∧ p.bytes = p.text := by
  cases pieces with
  | nil => cases document
  | cons p pieces =>
    rw [Document, List.flatMap_cons, scan_append] at document
    obtain ⟨st, here, rest⟩ := Option.bind_eq_some_iff.mp document
    rcases p.opened here with inside | rfl
    · exact absurd (scan_pieces inside rest) (Nat.lt_irrefl 0)
    · cases pieces with
      | nil => exact ⟨p, rfl, p.whole here⟩
      | cons p' pieces =>
        obtain ⟨bytes, eq⟩ := p'.bytes_eq
        rw [List.flatMap_cons, eq] at rest
        cases rest

end ForgeLink.Lib.Json
