import ForgeLink.Control.JournalRun
import ForgeLink.Lib.JsonText

/-!
# Files with failed writes

A write that fails part of the way leaves a *scrap* of its line, and what is
written next is glued to it.  `Shape` says what a file then holds: records, and
after the last newline the scraps that were left since.

A line that was glued together is not a JSON document, so no open accepts it
(`Broken`).  An open that succeeds has therefore read whole records only, the
last one perhaps without its newline (`Shape.lines_of_opened`).
-/

namespace ForgeLink.Control

open Lib

variable {serde : SerdeJson} {nowNs : TimestampNs} {order : IterOrder}

/-! ## Lines that no open accepts -/

/-- A line that is neither blank nor a document. -/
def Garbled (line : Bytes) : Prop := line.head? = some 123 ∧ ¬Json.Document line

/-- Some finished line is garbled. -/
def Broken (file : Bytes) : Prop := ∃ line ∈ (Bytes.scan file).1, Garbled line

/-- A garbled line is never a record. -/
theorem Garbled.readLine (strict : serde.Strict) {line : Bytes} (garbled : Garbled line) :
    readLine serde line = .notUtf8 ∨ readLine serde line = .malformed := by
  rw [Control.readLine]
  cases read : String.fromUTF8? ⟨line.toArray⟩ with
  | none => exact .inl rfl
  | some text =>
    have bytes := Bytes.toByteArray_of_fromUTF8? read
    have visible : text.toList.all isWhitespace = false := by
      obtain ⟨cs, starts⟩ := Json.toList_of_head? (by decide) (bytes ▸ garbled.1)
      have brace : isWhitespace (Char.ofNat (123 : UInt8).toNat) = false := by decide
      rw [starts, List.all_cons, brace, Bool.false_and]
    simp only [visible, Bool.false_eq_true, ↓reduceIte]
    cases parsed : serde.fromStr text with
    | none => exact .inr rfl
    | some r => exact absurd (bytes ▸ strict.document text r parsed) garbled.2

theorem replayLines_of_garbled (strict : serde.Strict) {lines : List Bytes} {line : Bytes}
    (inside : line ∈ lines) (garbled : Garbled line) (lineNo : Nat) (st st' : Replay) :
    replayLines serde nowNs lineNo st lines ≠ .ok st' := by
  induction lines generalizing lineNo st with
  | nil => cases inside
  | cons first lines ih =>
    intro done
    rw [replayLines] at done
    rcases List.mem_cons.mp inside with rfl | later
    · rcases garbled.readLine strict with read | read <;> rw [read] at done <;> cases done
    · split at done
      · cases done
      · exact ih later _ _ done
      · cases done
      · split at done
        · cases done
        · exact ih later _ _ done

theorem Broken.openAt_ne_ok (strict : serde.Strict) {file : Bytes} (broken : Broken file)
    (j : FileJournal) : FileJournal.openAt serde order file nowNs ≠ .ok j := by
  obtain ⟨line, inside, garbled⟩ := broken
  intro opened
  rw [FileJournal.openAt] at opened
  split at opened
  · cases opened
  next st done =>
    exact replayLines_of_garbled strict (List.mem_append_left _ inside) garbled 1 .start st done

/-! ## Scraps -/

/-- What a failed write left of a record's text. -/
structure Scrap (serde : SerdeJson) where
  record : Record
  bytes : Bytes
  starts : bytes <+: serde.bytes record
  nonempty : bytes ≠ []

/-- A scrap is a piece of a document. -/
def Scrap.piece (strict : serde.Strict) (s : Scrap serde) : Json.Piece :=
  ⟨serde.bytes s.record, strict.tagged s.record, s.bytes, s.starts, s.nonempty⟩

/-- The file holds these records, and these scraps after its last newline. -/
def Shape (serde : SerdeJson) (file : Bytes) (records : List Record)
    (scraps : List (Scrap serde)) : Prop :=
  file = serde.fileOf records ++ scraps.flatMap Scrap.bytes

section
variable {file : Bytes} {records : List Record} {scraps : List (Scrap serde)}

theorem newline_notMem_scraps (lawful : serde.Lawful) (scraps : List (Scrap serde)) :
    Bytes.newline ∉ scraps.flatMap Scrap.bytes := by
  intro inside
  obtain ⟨s, _, here⟩ := List.mem_flatMap.mp inside
  exact lawful.newline_notMem s.record (s.starts.subset here)

/-- Scraps that are glued together are garbled, unless they are one record. -/
theorem garbled_scraps (strict : serde.Strict) (some : scraps ≠ [])
    (torn : ∀ s, scraps = [s] → s.bytes ≠ serde.bytes s.record) :
    Garbled (scraps.flatMap Scrap.bytes) := by
  refine ⟨?_, fun document => ?_⟩
  · obtain ⟨s, rest, rfl⟩ := List.exists_cons_of_ne_nil some
    obtain ⟨bytes, eq⟩ := (s.piece strict).bytes_eq
    have eq : s.bytes = 123 :: bytes := eq
    rw [List.flatMap_cons, eq]
    rfl
  · have pieces : (scraps.map (Scrap.piece strict)).flatMap Json.Piece.bytes =
        scraps.flatMap Scrap.bytes := List.flatMap_map ..
    rw [← pieces] at document
    obtain ⟨p, single, whole⟩ := Json.whole_of_document document
    obtain ⟨s, rfl, rfl⟩ := List.map_eq_singleton_iff.mp single
    exact torn s rfl whole

theorem Shape.scan (lawful : serde.Lawful) (shape : Shape serde file records scraps) :
    Bytes.scan file = (records.map serde.bytes, scraps.flatMap Scrap.bytes) := by
  obtain ⟨closed, lines⟩ := lawful.lines_fileOf records
  rw [shape, Bytes.scan_append _ _ (newline_notMem_scraps lawful scraps), closed,
    ← Bytes.lines_of_tail_nil closed, lines, List.nil_append]

/-- A whole line is a new record, unless there are scraps to glue it to. -/
theorem Shape.line (strict : serde.Strict) (shape : Shape serde file records scraps) (r : Record) :
    scraps = [] ∧ Shape serde (file ++ serde.line r) (records ++ [r]) [] ∨
      Broken (file ++ serde.line r) := by
  by_cases none : scraps = []
  · refine .inl ⟨none, ?_⟩
    rw [Shape, none, List.flatMap_nil, List.append_nil] at shape
    rw [Shape, shape, serde.fileOf_snoc, List.flatMap_nil, List.append_nil]
  · refine .inr ⟨scraps.flatMap Scrap.bytes ++ serde.bytes r, ?_, ?_⟩
    · have last : (scraps.flatMap Scrap.bytes ++ serde.bytes r).getLast? = some 125 := by
        rw [List.getLast?_append, (strict.tagged r).closes, Option.some_or]
      rw [SerdeJson.line, Bytes.scan_append_line _ _ (strict.newline_notMem r), Bytes.tail,
        shape.scan strict.toLawful, Bytes.stripReturn_of_getLast? last (by decide)]
      exact List.mem_append_right _ List.mem_cons_self
    · let whole : Scrap serde :=
        ⟨r, serde.bytes r, List.prefix_refl _, (strict.tagged r).ne_nil⟩
      have glued : Garbled ((scraps ++ [whole]).flatMap Scrap.bytes) := by
        refine garbled_scraps strict (List.append_ne_nil_of_left_ne_nil none _) fun s single => ?_
        have short := congrArg List.length single
        rw [List.length_append] at short
        exact absurd (List.length_eq_zero_iff.mp (Nat.succ.inj short)) none
      rwa [List.flatMap_append, List.flatMap_singleton] at glued

end

end ForgeLink.Control
