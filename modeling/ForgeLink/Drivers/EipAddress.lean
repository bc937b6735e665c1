import ForgeLink.Drivers.Transport
import ForgeLink.Lib.Strings

/-!
# The tag paths of EtherNet/IP

`address.rs`.  `parse` goes once over the characters of a path, with the buffer
of the segment or of the index it is in.  The grammar is the one the file
documents, over a form of the indices and over whether a segment may stand
directly behind an index group.  The parser takes the indices that the integer
parser of the standard library takes, which may have a plus sign, and it takes
such glued segments: it accepts just the paths of the wider grammar.  So an
accepted path is a documented one unless it has one of the two.
-/

namespace ForgeLink.Drivers.EthernetIp

open Lib

/-! ## The parser -/

/-- `AddressError`. -/
inductive AddressError where
  | invalidSyntax (message : String)
  | outOfRange (message : String)
deriving DecidableEq, Repr

/-- A tag path: its text, and how many index groups it has. -/
structure TagPath where
  raw : String
  dims : Nat
deriving DecidableEq, Repr

/-- A character of a segment: a letter, a digit or an underscore. -/
def isWord (c : Char) : Bool := Str.isAsciiAlphabetic c || Str.isAsciiDigit c || c == '_'

/-- The checks of a segment that is complete. -/
def finishSeg (seg : List Char) : Except AddressError Unit :=
  match seg with
  | [] => .error (.invalidSyntax "空段名")
  | first :: _ =>
    let name := String.ofList seg
    let length := Str.byteLen seg
    if length > 40 then .error (.outOfRange s!"段长 {length} 超上限 40: {name}")
    else if ¬(Str.isAsciiAlphabetic first ∨ first = '_') then
      .error (.invalidSyntax s!"段首字符非法 '{first}'（须字母或下划线）")
    else if seg.all isWord then .ok ()
    else .error (.invalidSyntax s!"段含非法字符: {name}（仅字母/数字/下划线）")

/-- An index, up to the greatest `u32`. -/
def parseIndex (text : List Char) : Except AddressError Nat :=
  match Str.parseUnsigned 4294967295 text with
  | some n => .ok n
  | none =>
    let shown := String.ofList text
    .error (.outOfRange s!"数组下标 '{shown}' 非法（十进制 u32）")

/-- The variables of the loop of `parse`. -/
structure PathState where
  dims : Nat
  seg : List Char
  index : List Char
  inBracket : Bool
  indicesInDim : Nat
  afterIndex : Bool
deriving DecidableEq, Repr

/-- The macro `close_segment!`. -/
def closeSegment (s : PathState) : Except AddressError PathState := do
  let _ ← if s.afterIndex then .ok () else finishSeg s.seg
  .ok { s with seg := [], afterIndex := false }

/-- One character of the loop. -/
def pathStep (raw : String) (s : PathState) (c : Char) : Except AddressError PathState :=
  if c = '.' ∧ s.inBracket = false then closeSegment s
  else if c = '[' ∧ s.inBracket = false then
    if s.afterIndex then .error (.invalidSyntax s!"连续数组下标非法: {raw}")
    else do
      let s ← closeSegment s
      let dims := s.dims + 1
      if dims > 3 then .error (.outOfRange s!"数组维度 {dims} 超上限 3")
      else .ok { s with inBracket := true, indicesInDim := 0, dims }
  else if c = ']' ∧ s.inBracket = true then do
    let _ ← parseIndex s.index
    .ok { s with index := [], inBracket := false, afterIndex := true }
  else if c = ',' ∧ s.inBracket = true then do
    let _ ← parseIndex s.index
    let indices := s.indicesInDim + 1
    if indices ≥ 3 then .error (.outOfRange "单维度下标数超上限 3")
    else .ok { s with index := [], indicesInDim := indices }
  else if s.inBracket then .ok { s with index := s.index ++ [c] }
  else .ok { s with seg := s.seg ++ [c], afterIndex := false }

/-- The checks after the loop. -/
def finishPath (raw : String) (s : PathState) : Except AddressError Unit :=
  if s.inBracket then .error (.invalidSyntax s!"未闭合的 '[': {raw}")
  else if s.seg ≠ [] then finishSeg s.seg
  else if raw.toList.getLast? = some '.' then .error (.invalidSyntax s!"空段名: {raw}")
  else if s.afterIndex = false ∧ s.dims = 0 then finishSeg s.seg
  else .ok ()

/-- The parser of tag paths. -/
def parse (input : String) : Except AddressError TagPath :=
  let chars := Str.trim input.toList
  let raw := String.ofList chars
  let length := Str.byteLen chars
  if chars = [] then .error (.invalidSyntax "地址为空")
  else if length > 240 then .error (.outOfRange s!"地址总长 {length} 超上限 240")
  else if chars.any (fun c => 128 ≤ c.toNat || Str.isWhitespace c) then
    .error (.invalidSyntax "地址仅允许 ASCII 可见字符且不得含空白")
  else do
    let s ← chars.foldlM (pathStep raw) ⟨0, [], [], false, 0, false⟩
    let _ ← finishPath raw s
    .ok ⟨raw, s.dims⟩

/-! ## The grammar -/

/-- `seg := [A-Za-z_][A-Za-z0-9_]*`, at most 40 characters. -/
structure IsSeg (seg : List Char) : Prop where
  first : ∃ c rest, seg = c :: rest ∧ (Str.isAsciiAlphabetic c ∨ c = '_')
  word : ∀ c ∈ seg, isWord c = true
  length : seg.length ≤ 40

/-- A decimal number up to 4294967295. -/
structure IsIndex (text : List Char) : Prop where
  some : text ≠ []
  digits : ∀ c ∈ text, Str.isAsciiDigit c = true
  bound : Str.ofDigits text ≤ 4294967295

/-- What `str::parse` takes: a plus sign may stand before the digits. -/
def IsSignedIndex (text : List Char) : Prop := IsIndex (Str.stripPlus text)

/-- The rest of a path, with the number of its index groups; `after` says that an
index group stands directly before it. -/
inductive Rest (idx : List Char → Prop) (glue : Prop) : Bool → Nat → List Char → Prop where
  | done {after} : Rest idx glue after 0 []
  | field {after n seg rest} : IsSeg seg → Rest idx glue false n rest →
      Rest idx glue after n ('.' :: (seg ++ rest))
  | group {n i} {is : List (List Char)} {rest} : idx i → (∀ j ∈ is, idx j) → is.length ≤ 2 →
      Rest idx glue true n rest →
      Rest idx glue false (n + 1) ('[' :: (i ++ (is.flatMap (',' :: ·) ++ ']' :: rest)))
  | glued {n seg rest text} : glue → IsSeg seg → Rest idx glue false n rest →
      text = seg ++ rest → Rest idx glue true n text

/-- A path whose first segment has begun, with its index groups. -/
def Named (idx : List Char → Prop) (glue : Prop) (n : Nat) (text : List Char) : Prop :=
  ∃ seg rest, text = seg ++ rest ∧ IsSeg seg ∧ Rest idx glue false n rest

/-- A whole path. -/
def IsPath (idx : List Char → Prop) (glue : Prop) (text : List Char) : Prop :=
  text.length ≤ 240 ∧ ∃ n, n ≤ 3 ∧ Named idx glue n text

/-- The text that is parsed. -/
def textOf (input : String) : List Char := Str.trim input.toList

/-- A character other than a dot stands directly behind a closing bracket. -/
def hasGlued : List Char → Bool
  | ']' :: c :: cs => c != '.' || hasGlued (c :: cs)
  | _ :: cs => hasGlued cs
  | [] => false

/-! ## Segments and indices -/

variable {seg text : List Char}

theorem toNat_lt_of_isWord {c : Char} (word : isWord c = true) : c.toNat < 128 := by
  simp only [isWord, Str.isAsciiAlphabetic, Str.isAsciiDigit, Bool.or_eq_true, Bool.and_eq_true,
    decide_eq_true_eq, beq_iff_eq] at word
  rcases word with (h | h) | rfl
  · rcases h with ⟨-, le⟩ | ⟨-, le⟩ <;> exact Nat.lt_of_le_of_lt le (by decide)
  · exact Nat.lt_of_le_of_lt h.2 (by decide)
  · decide

/-- The names that a segment may have. -/
theorem finishSeg_ok_iff : finishSeg seg = .ok () ↔ IsSeg seg := by
  have ascii : (∀ c ∈ seg, isWord c = true) → Str.byteLen seg = seg.length := fun word =>
    Str.byteLen_eq_length fun c inside => toNat_lt_of_isWord (word c inside)
  constructor
  · intro ok
    unfold finishSeg at ok
    split at ok
    · cases ok
    next first rest =>
      dsimp only at ok
      split at ok
      · cases ok
      next short =>
        split at ok
        · cases ok
        next letter =>
          split at ok
          next word =>
            have word := List.all_eq_true.mp word
            rw [ascii word] at short
            exact ⟨⟨first, rest, rfl, not_not.mp letter⟩, word, by omega⟩
          · cases ok
  · rintro ⟨⟨first, rest, rfl, letter⟩, word, short⟩
    have length := ascii word
    simp only [finishSeg]
    rw [if_neg (by omega), if_neg (not_not.mpr letter), if_pos (List.all_eq_true.mpr word)]

theorem exists_finishSeg : (∃ u, finishSeg seg = .ok u) ↔ IsSeg seg :=
  ⟨fun ⟨_, ok⟩ => finishSeg_ok_iff.mp ok, fun isSeg => ⟨(), finishSeg_ok_iff.mpr isSeg⟩⟩

theorem parseIndex_ok_iff : (∃ n, parseIndex text = .ok n) ↔ IsSignedIndex text := by
  unfold parseIndex Str.parseUnsigned
  dsimp only
  split
  next n some =>
    split at some
    next h => exact ⟨fun _ => ⟨h.1, List.all_eq_true.mp h.2.1, h.2.2⟩, fun _ => ⟨n, rfl⟩⟩
    next => cases some
  next none =>
    split at none
    next => cases none
    next h =>
      refine ⟨fun ⟨n, ok⟩ => (by cases ok), fun signed => ?_⟩
      exact absurd ⟨signed.some, List.all_eq_true.mpr signed.digits, signed.bound⟩ h

/-- The characters of an index with an optional sign. -/
theorem IsSignedIndex.mem (signed : IsSignedIndex text) {c : Char} (inside : c ∈ text) :
    Str.isAsciiDigit c = true ∨ c = '+' := by
  have digits := signed.digits
  unfold Str.stripPlus at digits
  split at digits
  · rcases List.mem_cons.mp inside with rfl | later
    · exact .inr rfl
    · exact .inl (digits c later)
  · exact .inl (digits c inside)

theorem IsSignedIndex.ne (signed : IsSignedIndex text) : ∀ c ∈ text, c ≠ ',' ∧ c ≠ ']' := by
  intro c inside
  rcases signed.mem inside with digit | rfl
  · exact ⟨Str.ne_of_isAsciiDigit digit (by decide), Str.ne_of_isAsciiDigit digit (by decide)⟩
  · decide

theorem IsSeg.ne (isSeg : IsSeg seg) {c : Char} (inside : c ∈ seg) {d : Char}
    (other : isWord d = false) : c ≠ d := by
  rintro rfl
  rw [isSeg.word c inside] at other
  cases other

theorem IsSeg.plain (isSeg : IsSeg seg) : ∀ c ∈ seg, c ≠ '.' ∧ c ≠ '[' :=
  fun _ inside => ⟨isSeg.ne inside (by decide), isSeg.ne inside (by decide)⟩

/-! ## The scan -/

/-- The loop goes through from a state, and the checks after it pass. -/
def Accepts (raw : String) (s : PathState) (cs : List Char) : Prop :=
  ∃ s', cs.foldlM (pathStep raw) s = .ok s' ∧ finishPath raw s' = .ok ()

theorem accepts_nil {raw : String} {s : PathState} : Accepts raw s [] ↔ finishPath raw s = .ok () :=
  ⟨fun ⟨_, eq, ok⟩ => by cases eq; exact ok, fun ok => ⟨s, rfl, ok⟩⟩

theorem accepts_cons {raw : String} {s : PathState} {c : Char} {cs : List Char} :
    Accepts raw s (c :: cs) ↔ ∃ s', pathStep raw s c = .ok s' ∧ Accepts raw s' cs := by
  simp only [Accepts, List.foldlM_cons, bind_eq_ok]
  constructor
  · rintro ⟨last, ⟨s', step, rest⟩, ok⟩
    exact ⟨s', step, last, rest, ok⟩
  · rintro ⟨s', step, last, rest, ok⟩
    exact ⟨last, ⟨s', step, rest⟩, ok⟩

/-- What may follow within a bracket after `k` commas: the indices, and the rest of
the path. -/
def Inside (k n : Nat) (text : List Char) : Prop :=
  ∃ (i : List Char) (is : List (List Char)) (rest : List Char),
    text = i ++ (is.flatMap (',' :: ·) ++ ']' :: rest) ∧ IsSignedIndex i ∧
      (∀ j ∈ is, IsSignedIndex j) ∧ is.length + k ≤ 2 ∧ Rest IsSignedIndex True true n rest

section Languages

variable {seg index cs : List Char} {k n : Nat}

theorem named_nil (plain : ∀ c ∈ seg, c ≠ '.' ∧ c ≠ '[') :
    Named IsSignedIndex True n seg ↔ n = 0 ∧ IsSeg seg := by
  constructor
  · rintro ⟨name, rest, rfl, isSeg, tail⟩
    cases tail with
    | done => exact ⟨rfl, by simpa using isSeg⟩
    | field => exact absurd rfl (plain '.' (by simp)).1
    | group => exact absurd rfl (plain '[' (by simp)).2
  · rintro ⟨rfl, isSeg⟩
    exact ⟨seg, [], (List.append_nil seg).symm, isSeg, .done⟩

theorem named_dot (plain : ∀ c ∈ seg, c ≠ '.' ∧ c ≠ '[') :
    Named IsSignedIndex True n (seg ++ '.' :: cs) ↔ IsSeg seg ∧ Named IsSignedIndex True n cs := by
  constructor
  · rintro ⟨name, rest, eq, isSeg, tail⟩
    cases tail with
    | done =>
      have inside : '.' ∈ name ++ [] := by simp [← eq]
      exact absurd rfl (isSeg.plain '.' (by simpa using inside)).1
    | field next tail =>
      obtain ⟨rfl, -, rfl⟩ := Str.cut_unique plain isSeg.plain (by decide) (by decide) eq
      exact ⟨isSeg, _, _, rfl, next, tail⟩
    | group =>
      obtain ⟨-, clash, -⟩ := Str.cut_unique plain isSeg.plain (by decide) (by decide) eq
      exact absurd clash (by decide)
  · rintro ⟨isSeg, name, rest, rfl, next, tail⟩
    exact ⟨seg, _, rfl, isSeg, .field next tail⟩

theorem named_open (plain : ∀ c ∈ seg, c ≠ '.' ∧ c ≠ '[') :
    Named IsSignedIndex True n (seg ++ '[' :: cs) ↔
      IsSeg seg ∧ ∃ m, n = m + 1 ∧ Inside 0 m cs := by
  constructor
  · rintro ⟨name, rest, eq, isSeg, tail⟩
    cases tail with
    | done =>
      have inside : '[' ∈ name ++ [] := by simp [← eq]
      exact absurd rfl (isSeg.plain '[' (by simpa using inside)).2
    | field =>
      obtain ⟨-, clash, -⟩ := Str.cut_unique plain isSeg.plain (by decide) (by decide) eq
      exact absurd clash (by decide)
    | group first others few tail =>
      obtain ⟨rfl, -, rfl⟩ := Str.cut_unique plain isSeg.plain (by decide) (by decide) eq
      exact ⟨isSeg, _, rfl, _, _, _, rfl, first, others, few, tail⟩
  · rintro ⟨isSeg, m, rfl, i, is, rest, rfl, first, others, few, tail⟩
    exact ⟨seg, _, rfl, isSeg, .group first others few tail⟩

theorem after_dot : Rest IsSignedIndex True true n ('.' :: cs) ↔ Named IsSignedIndex True n cs := by
  constructor
  · intro tail
    cases tail with
    | field isSeg tail => exact ⟨_, _, rfl, isSeg, tail⟩
    | glued _ isSeg _ eq =>
      obtain ⟨c, rest, rfl, -⟩ := isSeg.first
      obtain ⟨rfl, -⟩ := List.cons.inj eq
      exact absurd rfl (isSeg.plain '.' List.mem_cons_self).1
  · rintro ⟨seg, rest, rfl, isSeg, tail⟩
    exact .field isSeg tail

/-- A segment may stand directly behind an index group. -/
theorem after_other {c : Char} (other : c ≠ '.') :
    Rest IsSignedIndex True true n (c :: cs) ↔ Named IsSignedIndex True n (c :: cs) := by
  constructor
  · intro tail
    cases tail with
    | field => exact absurd rfl other
    | glued _ isSeg tail eq => exact ⟨_, _, eq, isSeg, tail⟩
  · rintro ⟨seg, rest, eq, isSeg, tail⟩
    exact .glued trivial isSeg tail eq

theorem inside_nil (plain : ∀ c ∈ index, c ≠ ',' ∧ c ≠ ']') : ¬Inside k n index := by
  rintro ⟨i, is, rest, rfl, -⟩
  exact (plain ']' (by simp)).2 rfl

theorem inside_close (plain : ∀ c ∈ index, c ≠ ',' ∧ c ≠ ']') :
    Inside k n (index ++ ']' :: cs) ↔
      IsSignedIndex index ∧ k ≤ 2 ∧ Rest IsSignedIndex True true n cs := by
  constructor
  · rintro ⟨i, is, rest, eq, first, others, few, tail⟩
    cases is with
    | nil =>
      obtain ⟨rfl, -, rfl⟩ := Str.cut_unique plain first.ne (by decide) (by decide) eq
      exact ⟨first, by simpa using few, tail⟩
    | cons j js =>
      obtain ⟨-, clash, -⟩ := Str.cut_unique plain first.ne (by decide) (by decide) eq
      exact absurd clash (by decide)
  · rintro ⟨first, few, tail⟩
    exact ⟨index, [], cs, rfl, first, by simp, by simpa using few, tail⟩

theorem inside_comma (plain : ∀ c ∈ index, c ≠ ',' ∧ c ≠ ']') :
    Inside k n (index ++ ',' :: cs) ↔ IsSignedIndex index ∧ Inside (k + 1) n cs := by
  constructor
  · rintro ⟨i, is, rest, eq, first, others, few, tail⟩
    cases is with
    | nil =>
      obtain ⟨-, clash, -⟩ := Str.cut_unique plain first.ne (by decide) (by decide) eq
      exact absurd clash (by decide)
    | cons j js =>
      obtain ⟨rfl, -, rfl⟩ := Str.cut_unique plain first.ne (by decide) (by decide) eq
      refine ⟨first, j, js, rest, List.append_assoc .., others j List.mem_cons_self,
        fun x h => others x (List.mem_cons_of_mem j h), ?_, tail⟩
      rw [List.length_cons] at few
      omega
  · rintro ⟨first, j, js, rest, rfl, second, others, few, tail⟩
    refine ⟨index, j :: js, rest, by simp, first, ?_, ?_, tail⟩
    · rintro x (_ | ⟨_, later⟩)
      · exact second
      · exact others x later
    · rw [List.length_cons]
      omega

end Languages

section Scan

variable {raw : String} {dims k : Nat} {seg index cs : List Char}
variable {c : Char}

theorem accepts_dot {after : Bool} :
    Accepts raw ⟨dims, seg, [], false, k, after⟩ ('.' :: cs) ↔
      (after = true ∨ IsSeg seg) ∧ Accepts raw ⟨dims, [], [], false, k, false⟩ cs := by
  rw [accepts_cons]
  cases after <;> simp [pathStep, closeSegment, bind_eq_ok, exists_finishSeg]

theorem accepts_open :
    Accepts raw ⟨dims, seg, [], false, k, false⟩ ('[' :: cs) ↔
      IsSeg seg ∧ dims + 1 ≤ 3 ∧ Accepts raw ⟨dims + 1, [], [], true, 0, false⟩ cs := by
  rw [accepts_cons]
  constructor
  · rintro ⟨s', step, ok⟩
    obtain ⟨closed, close, step⟩ := bind_eq_ok.mp (show closeSegment _ >>= _ = .ok s' from step)
    obtain ⟨u, isSeg, eq⟩ := bind_eq_ok.mp close
    cases eq
    dsimp only at step
    split at step
    · cases step
    next room =>
      cases step
      exact ⟨exists_finishSeg.mp ⟨u, isSeg⟩, Nat.le_of_not_lt room, ok⟩
  · rintro ⟨isSeg, room, ok⟩
    refine ⟨_, ?_, ok⟩
    have closed : closeSegment ⟨dims, seg, [], false, k, false⟩ =
        .ok ⟨dims, [], [], false, k, false⟩ :=
      bind_eq_ok.mpr ⟨(), finishSeg_ok_iff.mpr isSeg, rfl⟩
    exact bind_eq_ok.mpr ⟨_, closed, if_neg (Nat.not_lt.mpr room)⟩

theorem not_accepts_open : ¬Accepts raw ⟨dims, [], [], false, k, true⟩ ('[' :: cs) := by
  rw [accepts_cons]
  simp [pathStep]

theorem accepts_push {after : Bool} (dot : c ≠ '.') (bracket : c ≠ '[') :
    Accepts raw ⟨dims, seg, [], false, k, after⟩ (c :: cs) ↔
      Accepts raw ⟨dims, seg ++ [c], [], false, k, false⟩ cs := by
  rw [accepts_cons]
  simp [pathStep, dot, bracket]

theorem accepts_close :
    Accepts raw ⟨dims, [], index, true, k, false⟩ (']' :: cs) ↔
      IsSignedIndex index ∧ Accepts raw ⟨dims, [], [], false, k, true⟩ cs := by
  rw [accepts_cons]
  simp [pathStep, bind_eq_ok, parseIndex_ok_iff]

theorem accepts_comma :
    Accepts raw ⟨dims, [], index, true, k, false⟩ (',' :: cs) ↔
      IsSignedIndex index ∧ k + 1 < 3 ∧ Accepts raw ⟨dims, [], [], true, k + 1, false⟩ cs := by
  rw [accepts_cons]
  by_cases room : k + 1 < 3
  · simp [pathStep, bind_eq_ok, parseIndex_ok_iff, Nat.not_le.mpr room, room]
  · simp [pathStep, bind_eq_ok, Nat.le_of_not_lt room, room]

theorem accepts_pushIndex (close : c ≠ ']') (comma : c ≠ ',') :
    Accepts raw ⟨dims, [], index, true, k, false⟩ (c :: cs) ↔
      Accepts raw ⟨dims, [], index ++ [c], true, k, false⟩ cs := by
  rw [accepts_cons]
  simp [pathStep, close, comma]

/-- Within a segment the scan accepts just what the grammar lets follow.  `front` is what was
read; an empty segment buffer means that a dot was read last, or nothing. -/
def InSegment (raw : String) (cs : List Char) : Prop :=
  ∀ {dims k : Nat} {seg front : List Char}, raw.toList = front ++ cs → dims ≤ 3 →
    (∀ c ∈ seg, c ≠ '.' ∧ c ≠ '[') → (seg = [] → front.getLast? = some '.' ∨ dims = 0) →
    (Accepts raw ⟨dims, seg, [], false, k, false⟩ cs ↔
      ∃ n, dims + n ≤ 3 ∧ Named IsSignedIndex True n (seg ++ cs))

/-- The same behind an index group. -/
def BehindIndex (raw : String) (cs : List Char) : Prop :=
  ∀ {dims k : Nat} {front : List Char}, raw.toList = front ++ cs → dims ≤ 3 →
    front.getLast? = some ']' →
    (Accepts raw ⟨dims, [], [], false, k, true⟩ cs ↔
      ∃ n, dims + n ≤ 3 ∧ Rest IsSignedIndex True true n cs)

/-- The same within a bracket. -/
def InBracket (raw : String) (cs : List Char) : Prop :=
  ∀ {dims k : Nat} {index front : List Char}, raw.toList = front ++ cs → dims ≤ 3 → k ≤ 2 →
    (∀ c ∈ index, c ≠ ',' ∧ c ≠ ']') →
    (Accepts raw ⟨dims, [], index, true, k, false⟩ cs ↔
      ∃ n, dims + n ≤ 3 ∧ Inside k n (index ++ cs))

theorem inSegment_nil : InSegment raw [] := by
  intro dims k seg front whole few plain empty
  rw [accepts_nil, List.append_nil]
  simp only [named_nil plain]
  rw [List.append_nil] at whole
  by_cases none : seg = []
  · have refused : ¬IsSeg ([] : List Char) := by
      rintro ⟨⟨c, rest, eq, -⟩, -⟩
      cases eq
    rcases empty none with dot | zero
    · simp [finishPath, none, whole, dot, refused]
    · by_cases dot : raw.toList.getLast? = some '.'
      · simp [finishPath, none, dot, refused]
      · simp [finishPath, none, dot, zero, refused, finishSeg_ok_iff]
  · simp [finishPath, none, finishSeg_ok_iff, few]

theorem behindIndex_nil : BehindIndex raw [] := by
  intro dims k front whole few last
  rw [accepts_nil]
  rw [List.append_nil] at whole
  simp only [finishPath, whole, last]
  exact ⟨fun _ => ⟨0, few, .done⟩, fun _ => by simp⟩

theorem inBracket_nil : InBracket raw [] := by
  intro dims k index front whole few room plain
  rw [accepts_nil, List.append_nil]
  simp [finishPath, inside_nil plain]

theorem toList_read {front : List Char} (whole : raw.toList = front ++ c :: cs) :
    raw.toList = front ++ [c] ++ cs := by
  rw [whole]
  simp

/-- One more character within a segment. -/
theorem inSegment_cons (inSeg : InSegment raw cs) (inBracket : InBracket raw cs) :
    InSegment raw (c :: cs) := by
  intro dims k seg front whole few plain empty
  by_cases dot : c = '.'
  · subst dot
    rw [accepts_dot, inSeg (toList_read whole) few (by simp) (by simp)]
    simp only [named_dot plain, List.nil_append]
    constructor
    · rintro ⟨isSeg | isSeg, n, le, named⟩
      · cases isSeg
      · exact ⟨n, le, isSeg, named⟩
    · rintro ⟨n, le, isSeg, named⟩
      exact ⟨.inr isSeg, n, le, named⟩
  by_cases bracket : c = '['
  · subst bracket
    rw [accepts_open]
    simp only [named_open plain]
    constructor
    · rintro ⟨isSeg, few', ok⟩
      obtain ⟨m, le, inside⟩ := (inBracket (toList_read whole) few' (by omega) (by simp)).mp ok
      exact ⟨m + 1, by omega, isSeg, m, rfl, by simpa using inside⟩
    · rintro ⟨_, le, isSeg, m, rfl, inside⟩
      have few' : dims + 1 ≤ 3 := by omega
      refine ⟨isSeg, few', (inBracket (toList_read whole) few' (by omega) (by simp)).mpr ?_⟩
      exact ⟨m, by omega, by simpa using inside⟩
  · rw [accepts_push dot bracket, inSeg (toList_read whole) few ?_ (by simp)]
    · simp
    · intro d inside
      rcases List.mem_append.mp inside with old | new
      · exact plain d old
      · cases List.mem_singleton.mp new
        exact ⟨dot, bracket⟩

theorem behindIndex_cons (inSeg : InSegment raw cs) : BehindIndex raw (c :: cs) := by
  intro dims k front whole few last
  by_cases dot : c = '.'
  · subst dot
    rw [accepts_dot, inSeg (toList_read whole) few (by simp) (by simp)]
    simp [after_dot]
  simp only [after_other dot]
  by_cases bracket : c = '['
  · subst bracket
    refine ⟨fun ok => absurd ok not_accepts_open, ?_⟩
    rintro ⟨n, -, named⟩
    obtain ⟨isSeg, -⟩ := (@named_open [] cs n (by simp)).mp named
    obtain ⟨d, rest, eq, -⟩ := isSeg.first
    cases eq
  · rw [accepts_push dot bracket, inSeg (toList_read whole) few ?_ (by simp)]
    · simp
    · intro d inside
      cases List.mem_singleton.mp inside
      exact ⟨dot, bracket⟩

/-- One more character within a bracket. -/
theorem inBracket_cons (behind : BehindIndex raw cs) (inBracket : InBracket raw cs) :
    InBracket raw (c :: cs) := by
  intro dims k index front whole few room plain
  by_cases close : c = ']'
  · subst close
    rw [accepts_close, behind (toList_read whole) few (by simp)]
    simp only [inside_close plain]
    constructor
    · rintro ⟨signed, n, le, tail⟩
      exact ⟨n, le, signed, room, tail⟩
    · rintro ⟨n, le, signed, -, tail⟩
      exact ⟨signed, n, le, tail⟩
  by_cases comma : c = ','
  · subst comma
    rw [accepts_comma]
    simp only [inside_comma plain]
    constructor
    · rintro ⟨signed, room', ok⟩
      obtain ⟨n, le, inside⟩ := (inBracket (toList_read whole) few (by omega) (by simp)).mp ok
      exact ⟨n, le, signed, by simpa using inside⟩
    · rintro ⟨n, le, signed, inside⟩
      have room' : k + 1 < 3 := by
        obtain ⟨-, is, -, -, -, -, few', -⟩ := inside
        omega
      refine ⟨signed, room', (inBracket (toList_read whole) few (by omega) (by simp)).mpr ?_⟩
      exact ⟨n, le, by simpa using inside⟩
  · rw [accepts_pushIndex close comma, inBracket (toList_read whole) few room ?_]
    · simp
    · intro d inside
      rcases List.mem_append.mp inside with old | new
      · exact plain d old
      · cases List.mem_singleton.mp new
        exact ⟨comma, close⟩

/-- The three modes of the scan follow the grammar together. -/
theorem accepts_iff (cs : List Char) :
    InSegment raw cs ∧ BehindIndex raw cs ∧ InBracket raw cs := by
  induction cs with
  | nil => exact ⟨inSegment_nil, behindIndex_nil, inBracket_nil⟩
  | cons c cs ih =>
    obtain ⟨inSeg, behind, inBracket⟩ := ih
    exact ⟨inSegment_cons inSeg inBracket, behindIndex_cons inSeg, inBracket_cons behind inBracket⟩

end Scan

/-! ## What is accepted -/

variable {text : List Char}

/-- A visible character of ASCII. -/
def Visible (c : Char) : Prop := 33 ≤ c.toNat ∧ c.toNat < 128

instance (c : Char) : Decidable (Visible c) := inferInstanceAs (Decidable (_ ∧ _))

theorem visible_of_isWord {c : Char} (word : isWord c = true) : Visible c := by
  refine ⟨?_, toNat_lt_of_isWord word⟩
  simp only [isWord, Str.isAsciiAlphabetic, Str.isAsciiDigit, Bool.or_eq_true, Bool.and_eq_true,
    decide_eq_true_eq, beq_iff_eq] at word
  rcases word with (h | h) | rfl
  · rcases h with ⟨le, -⟩ | ⟨le, -⟩ <;> exact Nat.le_trans (by decide) le
  · exact Nat.le_trans (by decide) h.1
  · decide

theorem IsSignedIndex.visible (signed : IsSignedIndex text) : ∀ c ∈ text, Visible c := by
  intro c inside
  rcases signed.mem inside with digit | rfl
  · exact visible_of_isWord (by simp [isWord, digit])
  · decide

theorem Rest.visible {glue : Prop} {after : Bool} {n : Nat}
    (tail : Rest IsSignedIndex glue after n text) : ∀ c ∈ text, Visible c := by
  induction tail with
  | done => simp
  | field isSeg _ ih =>
    rintro c (_ | ⟨_, inside⟩)
    · decide
    rcases List.mem_append.mp inside with name | later
    · exact visible_of_isWord (isSeg.word c name)
    · exact ih c later
  | @group n i is rest first others _ _ ih =>
    rintro c (_ | ⟨_, inside⟩)
    · decide
    rcases List.mem_append.mp inside with digit | inside
    · exact first.visible c digit
    rcases List.mem_append.mp inside with digit | inside
    · obtain ⟨j, mem, digit⟩ := List.mem_flatMap.mp digit
      rcases List.mem_cons.mp digit with rfl | digit
      · decide
      · exact (others j mem).visible c digit
    · rcases List.mem_cons.mp inside with rfl | later
      · decide
      · exact ih c later
  | glued _ isSeg _ eq ih =>
    subst eq
    intro c inside
    rcases List.mem_append.mp inside with name | later
    · exact visible_of_isWord (isSeg.word c name)
    · exact ih c later

theorem isWhitespace_of_visible {c : Char} (visible : Visible c) : Str.isWhitespace c = false := by
  obtain ⟨le, lt⟩ := visible
  simp [Str.isWhitespace]
  omega

theorem Named.visible {glue : Prop} {n : Nat} (named : Named IsSignedIndex glue n text) :
    ∀ c ∈ text, Visible c := by
  obtain ⟨seg, rest, rfl, isSeg, tail⟩ := named
  intro c inside
  exact (Rest.field isSeg tail : Rest _ _ true _ _).visible c (List.mem_cons_of_mem '.' inside)

/-- The parser accepts the paths of the wider grammar. -/
theorem parse_ok_iff (input : String) :
    (∃ path, parse input = .ok path) ↔ IsPath IsSignedIndex True (textOf input) := by
  have scan : Accepts (String.ofList (textOf input)) ⟨0, [], [], false, 0, false⟩ (textOf input) ↔
      ∃ n, 0 + n ≤ 3 ∧ Named IsSignedIndex True n ([] ++ textOf input) :=
    (accepts_iff (textOf input)).1 (show _ = [] ++ textOf input from String.toList_ofList)
      (by omega) (by simp) fun _ => .inr rfl
  simp only [Nat.zero_add, List.nil_append] at scan
  rw [IsPath, ← scan]
  constructor
  · rintro ⟨path, ok⟩
    unfold parse at ok
    dsimp only at ok
    split at ok
    · cases ok
    split at ok
    · cases ok
    next short =>
      split at ok
      · cases ok
      next ascii =>
        obtain ⟨s, run, ok⟩ := bind_eq_ok.mp ok
        obtain ⟨_, finished, -⟩ := bind_eq_ok.mp ok
        simp only [List.any_eq_true, Bool.or_eq_true, decide_eq_true_eq, not_exists, not_and,
          not_or] at ascii
        have bytes : Str.byteLen (textOf input) = (textOf input).length :=
          Str.byteLen_eq_length fun c inside => Nat.lt_of_not_le (ascii c inside).1
        rw [textOf] at bytes ⊢
        exact ⟨by omega, s, run, finished⟩
  · rintro ⟨short, accepted⟩
    obtain ⟨n, -, named⟩ := scan.mp accepted
    have visible := named.visible
    have some : textOf input ≠ [] := by
      obtain ⟨seg, rest, eq, isSeg, -⟩ := named
      obtain ⟨c, tail, rfl, -⟩ := isSeg.first
      rw [eq]
      exact List.cons_ne_nil _ _
    have bytes := Str.byteLen_eq_length fun c inside => (visible c inside).2
    have ascii : ¬(textOf input).any (fun c => 128 ≤ c.toNat || Str.isWhitespace c) = true := by
      simp only [List.any_eq_true, Bool.or_eq_true, decide_eq_true_eq, not_exists, not_and, not_or]
      intro c inside
      refine ⟨Nat.not_le.mpr (visible c inside).2, ?_⟩
      rw [isWhitespace_of_visible (visible c inside)]
      decide
    obtain ⟨s, run, finished⟩ := accepted
    refine ⟨⟨String.ofList (textOf input), s.dims⟩, ?_⟩
    rw [textOf] at *
    simp only [parse]
    rw [if_neg some, if_neg (by omega), if_neg ascii, run]
    exact bind_eq_ok.mpr ⟨s, rfl, bind_eq_ok.mpr ⟨(), finished, rfl⟩⟩

/-! ## The documented grammar -/

attribute [local simp] hasGlued

theorem hasGlued_cons {c : Char} (other : c ≠ ']') (cs : List Char) :
    hasGlued (c :: cs) = hasGlued cs := by
  rw [hasGlued]
  intro _ _ eq
  exact absurd eq other

theorem hasGlued_append {front : List Char} (unclosed : ']' ∉ front) (cs : List Char) :
    hasGlued (front ++ cs) = hasGlued cs := by
  induction front with
  | nil => rfl
  | cons c front ih =>
    obtain ⟨other, later⟩ := List.ne_and_not_mem_of_not_mem_cons unclosed
    rw [List.cons_append, hasGlued_cons other.symm, ih later]

/-- The rest of a path with the bracket before it. -/
def marked : Bool → List Char → List Char
  | true, text => ']' :: text
  | false, text => text

theorem hasGlued_marked_dot (after : Bool) (cs : List Char) :
    hasGlued (marked after ('.' :: cs)) = hasGlued cs := by
  cases after <;> simp [marked]

theorem hasGlued_marked_seg {seg : List Char} (isSeg : IsSeg seg) (rest : List Char) :
    hasGlued (marked true (seg ++ rest)) = true := by
  obtain ⟨c, tail, rfl, -⟩ := isSeg.first
  have other : c ≠ '.' := (isSeg.plain c List.mem_cons_self).1
  simp [marked, other]

theorem IsSeg.not_close {seg : List Char} (isSeg : IsSeg seg) : ']' ∉ seg :=
  fun inside => isSeg.ne inside (by decide) rfl

theorem IsSeg.not_plus {seg : List Char} (isSeg : IsSeg seg) : '+' ∉ seg :=
  fun inside => isSeg.ne inside (by decide) rfl

theorem IsIndex.not_plus (index : IsIndex text) : '+' ∉ text :=
  fun inside => absurd (index.digits '+' inside) (by decide)

theorem IsIndex.signed (index : IsIndex text) : IsSignedIndex text := by
  rwa [IsSignedIndex, Str.stripPlus_eq_self index.not_plus]

theorem IsSignedIndex.unsigned (signed : IsSignedIndex text) (none : '+' ∉ text) :
    IsIndex text := by
  rwa [IsSignedIndex, Str.stripPlus_eq_self none] at signed

/-- The text of an index group has no closing bracket before its end. -/
theorem hasGlued_group {i rest : List Char} {is : List (List Char)} (first : IsSignedIndex i)
    (others : ∀ j ∈ is, IsSignedIndex j) :
    hasGlued ('[' :: (i ++ (is.flatMap (',' :: ·) ++ ']' :: rest))) =
      hasGlued (marked true rest) := by
  have list : ']' ∉ is.flatMap (',' :: ·) := by
    intro inside
    obtain ⟨j, mem, inside⟩ := List.mem_flatMap.mp inside
    rcases List.mem_cons.mp inside with eq | inside
    · cases eq
    · exact ((others j mem).ne ']' inside).2 rfl
  rw [hasGlued_cons (by decide), hasGlued_append fun inside => (first.ne ']' inside).2 rfl,
    hasGlued_append list, marked]

/-- Without a plus sign and without a glued segment, the rest of a path is a
documented one. -/
theorem Rest.documented {after : Bool} {n : Nat} (tail : Rest IsSignedIndex True after n text)
    (unsigned : '+' ∉ text) (separate : hasGlued (marked after text) = false) :
    Rest IsIndex False after n text := by
  induction tail with
  | done => exact .done
  | @field after n seg rest isSeg _ ih =>
    rw [hasGlued_marked_dot, hasGlued_append isSeg.not_close] at separate
    exact .field isSeg (ih (fun inside => unsigned (by simp [inside])) separate)
  | @group n i is rest first others few _ ih =>
    rw [marked, hasGlued_group first others] at separate
    refine .group (first.unsigned fun inside => unsigned (by simp [inside])) ?_ few
      (ih (fun inside => unsigned (by simp [inside])) separate)
    intro j mem
    refine (others j mem).unsigned fun inside => unsigned ?_
    simp only [List.mem_cons, List.mem_append, List.mem_flatMap]
    exact .inr (.inr (.inl ⟨j, mem, .inr inside⟩))
  | glued _ isSeg _ eq =>
    rw [eq, hasGlued_marked_seg isSeg] at separate
    cases separate

/-- A documented rest of a path is one of the wider grammar, and has neither. -/
theorem Rest.wide {after : Bool} {n : Nat} (tail : Rest IsIndex False after n text) :
    Rest IsSignedIndex True after n text ∧ '+' ∉ text ∧ hasGlued (marked after text) = false := by
  induction tail with
  | @done after => exact ⟨.done, by simp, by cases after <;> rfl⟩
  | field isSeg _ ih =>
    obtain ⟨tail, unsigned, separate⟩ := ih
    refine ⟨.field isSeg tail, ?_, ?_⟩
    · simp [isSeg.not_plus, unsigned]
    · rwa [hasGlued_marked_dot, hasGlued_append isSeg.not_close]
  | @group n i is rest first others few _ ih =>
    obtain ⟨tail, unsigned, separate⟩ := ih
    have signed : ∀ j ∈ is, IsSignedIndex j := fun j mem => (others j mem).signed
    refine ⟨.group first.signed signed few tail, ?_, ?_⟩
    · have list : ∀ j ∈ is, '+' ∉ j := fun j mem => (others j mem).not_plus
      simpa [first.not_plus, unsigned] using list
    · rwa [marked, hasGlued_group first.signed signed]
  | glued impossible => exact impossible.elim

/-- The documented paths are those of the wider grammar without a plus sign and
without a glued segment. -/
theorem isPath_documented_iff :
    IsPath IsIndex False text ↔
      IsPath IsSignedIndex True text ∧ '+' ∉ text ∧ hasGlued text = false := by
  constructor
  · rintro ⟨short, n, few, seg, rest, rfl, isSeg, tail⟩
    obtain ⟨tail, unsigned, separate⟩ := tail.wide
    refine ⟨⟨short, n, few, seg, rest, rfl, isSeg, tail⟩, ?_, ?_⟩
    · simp [isSeg.not_plus, unsigned]
    · rwa [hasGlued_append isSeg.not_close]
  · rintro ⟨⟨short, n, few, seg, rest, rfl, isSeg, tail⟩, unsigned, separate⟩
    rw [hasGlued_append isSeg.not_close] at separate
    have documented := tail.documented (fun inside => unsigned (by simp [inside])) separate
    exact ⟨short, n, few, seg, rest, rfl, isSeg, documented⟩

/-- The parser decides the documented grammar for just those texts that are no path
of the wider grammar with a plus sign or a glued segment. -/
theorem tagPath_documented_iff (input : String) :
    ((∃ path, parse input = .ok path) ↔ IsPath IsIndex False (textOf input)) ↔
      ¬(IsPath IsSignedIndex True (textOf input) ∧
        ('+' ∈ textOf input ∨ hasGlued (textOf input) = true)) := by
  rw [parse_ok_iff, isPath_documented_iff, ← Bool.not_eq_true]
  tauto

/-- An index with a plus sign and a segment behind an index group are accepted,
and neither is documented. -/
theorem tagPath_undocumented :
    parse "a[+1]" = .ok ⟨"a[+1]", 1⟩ ∧ ¬IsPath IsIndex False (textOf "a[+1]") ∧
      parse "a[0]b" = .ok ⟨"a[0]b", 1⟩ ∧ ¬IsPath IsIndex False (textOf "a[0]b") := by
  refine ⟨by decide, fun path => ?_, by decide, fun path => ?_⟩
  · exact (isPath_documented_iff.mp path).2.1 (by decide)
  · exact absurd (isPath_documented_iff.mp path).2.2 (by decide)

end ForgeLink.Drivers.EthernetIp
