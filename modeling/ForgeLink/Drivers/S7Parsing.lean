import ForgeLink.Drivers.Numbers
import ForgeLink.Drivers.S7Read

/-!
# What the S7 parsers accept

All lengths in an answer come from the peer.  Every access of the parsers is in
bounds, an accepted acknowledgement is its header and its two parts, and the
data area of an accepted read answer is the items one after the other, with a
fill byte after an odd payload that is not at the end.

`PayloadLength` says where a payload ends.  Bits are counted in bits and bytes
in bytes; for words and double words devices differ, so that a single item takes
all that is left, and several items count in bits unless that is too long.
-/

namespace ForgeLink.Drivers.S7comm

open Lib

/-! ## Accesses in bounds -/

section

variable {E : Stop → Prop}

theorem ends_refused {α : Type} {Q : α → Prop} (e : DriverErrorInfo) :
    Ends Q (· ≠ Stop.panic) (.error (.error e)) := by
  rintro ⟨⟩

theorem ends_byteAt {Q : UInt8 → Prop} {bs : Bytes} {i : Nat} (lt : i < bs.length) :
    Ends Q E (byteAt bs i) ↔ Q bs[i] := by
  simp [byteAt, lt]

theorem ends_u16Be {Q : UInt16 → Prop} {bs : Bytes} {i : Nat} (lt : i + 1 < bs.length) :
    Ends Q E (u16Be bs i) ↔ Q (UInt16.ofNat (ofBeBytes [bs[i], bs[i + 1]])) := by
  rw [u16Be, ends_bind, ends_byteAt (by omega), ends_bind, ends_byteAt lt, ends_ok]

theorem ends_slice {Q : Bytes → Prop} {bs : Bytes} {start stop : Nat} (ordered : start ≤ stop)
    (le : stop ≤ bs.length) :
    Ends Q E (slice bs start stop) ↔ Q ((bs.drop start).take (stop - start)) := by
  rw [slice, if_pos ⟨ordered, le⟩, ends_ok]

@[simp] theorem ends_shortOr {Q : Bool → Prop} (first : Bool) (second : Except Stop Bool) :
    Ends Q E (shortOr first second) ↔
      (first = true → Q true) ∧ (¬first = true → Ends Q E second) := by
  cases first <;> simp [shortOr]

end

theorem parseFrame_inBounds (frame : Bytes) :
    Ends (fun _ => True) (· ≠ .panic) (parseFrame frame) := by
  unfold parseFrame
  rw [ends_bind, ends_shortOr, decide_eq_true_eq]
  refine ⟨fun _ => by simp, fun long => ?_⟩
  simp (disch := omega) only [ends_bind, ends_byteAt, ends_shortOr, ends_pure, ends_ite, ends_u16Be,
    ends_slice, ends_error, ends_ok, not_true, false_implies, implies_true, true_and, and_true,
    ne_eq, reduceCtorEq, not_false_eq_true]
  generalize (frame.drop 4).take (frame.length - 4) = body
  intro _ _ _ body_long
  simp (disch := omega) only [ends_byteAt, decide_eq_true_eq]
  intro _ _ structured
  simp (disch := omega) only [ends_byteAt, ends_slice, implies_true]

/-! ## What an accepted acknowledgement is -/

/-- The parts of an acknowledgement are all of it. -/
theorem parseAck_inBounds (pdu : Bytes) :
    Ends (fun ack => 12 + ack.param.length + ack.data.length = pdu.length ∧
      pdu.drop 12 = ack.param ++ ack.data) (· ≠ .panic) (parseAck pdu) := by
  unfold parseAck
  rw [ends_bind, ends_shortOr, decide_eq_true_eq]
  refine ⟨fun _ => by simp, fun long => ?_⟩
  simp (disch := omega) only [ends_bind, ends_byteAt, ends_pure, ends_ite, ends_u16Be, ends_error,
    ne_eq, reduceCtorEq, not_false_eq_true, implies_true, true_and]
  intro _ _
  generalize (UInt16.ofNat (ofBeBytes [pdu[6], pdu[6 + 1]])).toNat = paramLen
  generalize (UInt16.ofNat (ofBeBytes [pdu[8], pdu[8 + 1]])).toNat = dataLen
  intro fits exact _
  simp (disch := omega) only [ends_slice, ends_ok]
  have rest : (pdu.drop (12 + paramLen)).take dataLen = pdu.drop (12 + paramLen) :=
    List.take_of_length_le (by simp; omega)
  refine ⟨by simp; omega, ?_⟩
  simp [rest]

/-! ## What an accepted read answer is -/

/-- How long a payload is, if `remaining` bytes follow its header. -/
structure PayloadLength (expectedItems : Nat) (transportSize : UInt8)
    (declared remaining length : Nat) : Prop where
  bits : transportSize = 0x01 → length = (declared + 7) / 8
  bytes : transportSize ∉ [0x01, 0x04, 0x05, 0x06, 0x07] → length = declared
  single : transportSize ∈ [0x04, 0x05, 0x06, 0x07] → expectedItems = 1 → length = remaining
  several : transportSize ∈ [0x04, 0x05, 0x06, 0x07] → expectedItems ≠ 1 →
    length = (declared + 7) / 8

/-- A data area that is just these items: headers, payloads and fill bytes. -/
inductive DataArea (expectedItems : Nat) : Bytes → List ItemResponse → Prop where
  | nil : DataArea expectedItems [] []
  | cons {returnCode transportSize hi lo : UInt8} {payload fill rest : Bytes}
      {items : List ItemResponse} :
      PayloadLength expectedItems transportSize (ofBeBytes [hi, lo])
        (payload ++ (fill ++ rest)).length payload.length →
      fill.length = (if payload.length % 2 = 1 ∧ fill ++ rest ≠ [] then 1 else 0) →
      DataArea expectedItems rest items →
      DataArea expectedItems
        (returnCode :: transportSize :: hi :: lo :: (payload ++ (fill ++ rest)))
        (⟨returnCode, payload⟩ :: items)

/-- A payload that fits is as long as this: a length that is taken as bytes, because the bits
are too many, does not fit either. -/
theorem payloadLen_spec {expectedItems : Nat} {transportSize : UInt8} {declared remaining : Nat}
    (fits : payloadLen expectedItems transportSize declared remaining ≤ remaining) :
    PayloadLength expectedItems transportSize declared remaining
      (payloadLen expectedItems transportSize declared remaining) := by
  unfold payloadLen at fits ⊢
  constructor
  · intro bits
    rw [if_pos bits]
  · intro other
    simp only [List.mem_cons, not_or] at other
    rw [if_neg other.1, if_neg (by simp [other])]
  · intro wide single
    rw [if_neg (by rintro rfl; revert wide; decide), if_pos wide, if_pos single]
  · intro wide several
    rw [if_neg (by rintro rfl; revert wide; decide), if_pos wide, if_neg several] at fits ⊢
    split
    · rfl
    next long =>
      rw [if_neg long] at fits
      omega

theorem take_append_drop_of_le (bs : Bytes) {i j : Nat} (le : i ≤ j) :
    (bs.drop i).take (j - i) ++ bs.drop j = bs.drop i := by
  have cut := List.take_append_drop (j - i) (bs.drop i)
  rwa [List.drop_drop, Nat.add_sub_cancel' le] at cut

/-- One round of the loop: a header at the cursor, a payload of `length`, and perhaps a byte. -/
theorem DataArea.at_cursor {expectedItems cursor length next : Nat} {data : Bytes}
    {items : List ItemResponse} (header : cursor + 4 ≤ data.length)
    (spec : PayloadLength expectedItems data[cursor + 1]
      (ofBeBytes [data[cursor + 2], data[cursor + 2 + 1]]) (data.length - cursor - 4) length)
    (fits : cursor + 4 + length ≤ data.length)
    (next_eq : next = if cursor + 4 + length < data.length ∧ length % 2 = 1
      then cursor + 4 + length + 1 else cursor + 4 + length)
    (area : DataArea expectedItems (data.drop next) items) :
    DataArea expectedItems (data.drop cursor)
      (⟨data[cursor], (data.drop (cursor + 4)).take length⟩ :: items) := by
  have bounds : cursor + 4 + length ≤ next ∧ next ≤ data.length := by
    split at next_eq <;> omega
  have fill := take_append_drop_of_le data bounds.1
  have payload := take_append_drop_of_le data (Nat.le_add_right (cursor + 4) length)
  rw [Nat.add_sub_cancel_left] at payload
  have whole : data.drop cursor = data[cursor] :: data[cursor + 1] :: data[cursor + 2] ::
      data[cursor + 2 + 1] :: data.drop (cursor + 4) := by
    rw [List.drop_eq_getElem_cons (by omega), List.drop_eq_getElem_cons (by omega),
      List.drop_eq_getElem_cons (by omega), List.drop_eq_getElem_cons (by omega)]
  rw [← payload, ← fill] at whole
  rw [whole]
  refine .cons ?_ ?_ area
  · rw [fill, payload, List.length_take, List.length_drop, Nat.min_eq_left (by omega),
      ← Nat.sub_sub]
    exact spec
  · have more : data.drop (cursor + 4 + length) ≠ [] ↔ cursor + 4 + length < data.length := by simp
    rw [fill, List.length_take, List.length_take, List.length_drop, List.length_drop,
      Nat.min_eq_left (by omega), Nat.min_eq_left (by omega)]
    simp only [more]
    split at next_eq
    · rw [if_pos (by omega)]
      omega
    · rw [if_neg (by omega)]
      omega

theorem toNat_ofBeBytes (hi lo : UInt8) :
    (UInt16.ofNat (ofBeBytes [hi, lo])).toNat = ofBeBytes [hi, lo] := by
  have mod := ofBeBytes_beBytes [hi, lo].length (ofBeBytes [hi, lo])
  rw [beBytes_ofBeBytes] at mod
  simpa using mod.symm

/-- Items are read inside the data. -/
theorem readItems_inBounds (expectedItems : Nat) (data : Bytes) (n cursor : Nat) :
    Ends (fun items => items.length = n ∧ DataArea expectedItems (data.drop cursor) items)
      (· ≠ .panic) (readItems expectedItems data n cursor) := by
  induction n generalizing cursor with
  | zero =>
    unfold readItems
    rw [ends_ite]
    refine ⟨fun _ => ends_refused _, fun closed => ?_⟩
    have closed : cursor = data.length := by simpa using closed
    rw [closed, List.drop_length]
    exact ⟨rfl, .nil⟩
  | succ n ih =>
    unfold readItems
    rw [ends_ite]
    refine ⟨fun _ => ends_refused _, fun header => ?_⟩
    simp (disch := omega) only [ends_bind, ends_byteAt, ends_u16Be, ends_ite, ends_error]
    refine ⟨fun _ => Stop.noConfusion, fun fits => ?_⟩
    simp (disch := omega) only [ends_slice, ends_pure]
    refine (ih _).mono fun items found => ?_
    obtain ⟨length, area⟩ := found
    refine ⟨by simp [length], ?_⟩
    rw [Nat.add_sub_cancel_left]
    refine .at_cursor (by omega) ?_ (by omega) rfl area
    rw [toNat_ofBeBytes] at fits ⊢
    exact payloadLen_spec (by omega)

/-! ## The answers to jobs -/

/-- The check of a header of two bytes. -/
theorem header_inBounds {param : Bytes} {function : UInt8} {α : Type} {Q : α → Prop}
    {wrong next : Except Stop α} (error : Ends Q (· ≠ .panic) wrong)
    (rest : 2 ≤ param.length → Ends Q (· ≠ .panic) next) :
    Ends Q (· ≠ .panic) (do
      if ← shortOr (param.length < 2) (return (← byteAt param 0) ≠ function) then wrong
      else next) := by
  rw [ends_bind, ends_shortOr, decide_eq_true_eq]
  refine ⟨fun _ => by simpa using error, fun long => ?_⟩
  simp (disch := omega) only [ends_bind, ends_byteAt, ends_pure, ends_ite]
  exact ⟨fun _ => error, fun _ => rest (by omega)⟩

theorem parseReadResponse_inBounds (param data : Bytes) (expectedItems : Nat) :
    Ends (fun items => items.length = expectedItems ∧ DataArea expectedItems data items)
      (· ≠ .panic) (parseReadResponse param data expectedItems) := by
  rw [parseReadResponse, ends_bind, checkReadHeader]
  refine header_inBounds nofun fun long => ?_
  rw [ends_bind, ends_byteAt (by omega), ends_ite]
  exact ⟨fun _ => nofun, fun _ => readItems_inBounds expectedItems data expectedItems 0⟩

theorem parseWriteResponse_inBounds (param data : Bytes) (expectedItems : Nat) :
    Ends (fun codes => codes = data ∧ data.length = expectedItems) (· ≠ .panic)
      (parseWriteResponse param data expectedItems) := by
  rw [parseWriteResponse]
  refine header_inBounds nofun fun long => ?_
  rw [ends_bind, ends_byteAt (by omega), ends_ite, ends_ite]
  exact ⟨fun _ => nofun, fun _ => ⟨fun _ => nofun, fun exact => ⟨rfl, by simpa using exact⟩⟩⟩

/-- No parser leaves its bytes.  An accepted acknowledgement is filled by its two parts, an
accepted read answer by the expected number of items, each with its own payload, and an
accepted write answer by one code for each item. -/
theorem parsers_inBounds (frame pdu param data : Bytes) (expectedItems : Nat) :
    (parseFrame frame ≠ .error .panic ∧ parseAck pdu ≠ .error .panic ∧
      parseReadResponse param data expectedItems ≠ .error .panic ∧
      parseWriteResponse param data expectedItems ≠ .error .panic) ∧
    (∀ ack, parseAck pdu = .ok ack →
      12 + ack.param.length + ack.data.length = pdu.length ∧
        pdu.drop 12 = ack.param ++ ack.data) ∧
    (∀ items, parseReadResponse param data expectedItems = .ok items →
      items.length = expectedItems ∧ DataArea expectedItems data items) ∧
    ∀ codes, parseWriteResponse param data expectedItems = .ok codes →
      codes = data ∧ data.length = expectedItems := by
  have ack := parseAck_inBounds pdu
  have read := parseReadResponse_inBounds param data expectedItems
  have write := parseWriteResponse_inBounds param data expectedItems
  refine ⟨⟨fun panics => ?_, fun panics => ?_, fun panics => ?_, fun panics => ?_⟩, ?_⟩
  · exact (parseFrame_inBounds frame).error panics rfl
  · exact ack.error panics rfl
  · exact read.error panics rfl
  · exact write.error panics rfl
  · exact ⟨fun _ ok => ack.ok ok, fun _ ok => read.ok ok, fun _ ok => write.ok ok⟩

/-- Two items, a byte with its fill byte and a word. -/
theorem parsers_inBounds_sample :
    parseReadResponse [4, 2] [0xFF, 2, 0, 1, 7, 0, 0xFF, 4, 0, 16, 8, 9] 2 =
        .ok [⟨0xFF, [7]⟩, ⟨0xFF, [8, 9]⟩] ∧
      DataArea 2 [0xFF, 2, 0, 1, 7, 0, 0xFF, 4, 0, 16, 8, 9] [⟨0xFF, [7]⟩, ⟨0xFF, [8, 9]⟩] :=
  ⟨rfl, ((parsers_inBounds [] [] [4, 2] _ 2).2.2.1 _ rfl).2⟩

/-- A single word with a length of 16 bits is accepted with five bytes: the length counts
neither in bits nor in bytes. -/
theorem single_word_takes_rest :
    parseReadResponse [4, 1] [0xFF, 4, 0, 16, 1, 2, 3, 4, 5] 1 =
      .ok [⟨0xFF, [1, 2, 3, 4, 5]⟩] := rfl

end ForgeLink.Drivers.S7comm
