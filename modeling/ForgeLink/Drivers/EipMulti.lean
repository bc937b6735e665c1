import ForgeLink.Drivers.EipAddress
import ForgeLink.Drivers.EipCodec

/-!
# Multi-service replies

`parse_multi_reply`.  A packet has a count, a table of offsets and the parts.  The
parser compares the offsets with each other and with the end of the packet, but
not the first one with the end of the table.
-/

namespace ForgeLink.Drivers.EthernetIp

open Lib

/-! ## The parser -/

/-- The loop of `parse_multi_reply` that cuts the replies at the offsets. -/
def cutReplies (data : Bytes) : List Nat → Except Stop (List Bytes)
  | [] => .ok []
  | start :: rest =>
    let length := data.length
    if start ≥ length then
      .error (.error (.invalidResponse s!"Multi 子应答偏移越界：{start} ≥ {length}"))
    else
      let stop := rest.head?.getD length
      if stop > length ∨ stop < start then
        .error (.error (.invalidResponse s!"Multi 子应答边界非法：[{start}, {stop})"))
      else do
        let reply ← slice data start stop
        let replies ← cutReplies data rest
        .ok (reply :: replies)

/-- The answers in the answer to a multiple request. -/
def parseMultiReply (data : Bytes) (expectedCount : Nat) : Except Stop (List Bytes) :=
  if data.length < 2 then .error (.error (.invalidResponse "Multi 应答截断"))
  else do
    let declared := (← u16Le data 0).toNat
    if declared ≠ expectedCount then
      .error (.error (.invalidResponse
        s!"Multi 子应答计数不符：期望 {expectedCount}，收到 {declared}"))
    else if data.length < 2 + expectedCount * 2 then
      .error (.error (.invalidResponse "Multi 偏移表截断"))
    else do
      let offsets ← (List.range expectedCount).mapM fun i => u16Le data (2 + i * 2)
      cutReplies data (offsets.map UInt16.toNat)

/-! ## Cutting at the offsets -/

theorem u16Le_eq {bs : Bytes} {i : Nat} (inside : i + 1 < bs.length) :
    u16Le bs i = .ok (UInt16.ofNat (ofLeBytes [bs.getD i 0, bs.getD (i + 1) 0])) := by
  simp [u16Le, byteAt, inside, Nat.lt_of_succ_lt inside, bind, Except.bind]

/-- The replies are cut off one after the other, from the first offset to the end. -/
theorem cutReplies_ends (data : Bytes) (offsets : List Nat) :
    Ends (fun replies => replies.length = offsets.length ∧ ∀ start ∈ offsets.head?,
        start < data.length ∧ replies.flatten = data.drop start)
      (· ≠ .panic) (cutReplies data offsets) := by
  induction offsets with
  | nil => simp [cutReplies]
  | cons start rest ih =>
    unfold cutReplies
    dsimp only
    split
    · exact nofun
    next inside =>
      split
      · exact nofun
      next ordered =>
        have cut : slice data start (rest.head?.getD data.length) =
            .ok ((data.drop start).take (rest.head?.getD data.length - start)) :=
          if_pos (by omega)
        rw [cut, ends_bind, ends_ok, ends_bind]
        refine ih.mono fun replies h => ?_
        obtain ⟨len, later⟩ := h
        refine ⟨by rw [List.length_cons, List.length_cons, len], ?_⟩
        rintro _ ⟨⟩
        refine ⟨by omega, ?_⟩
        cases rest with
        | nil =>
          have none : replies = [] := List.length_eq_zero_iff.mp len
          simp [none, List.take_of_length_le]
        | cons next rest =>
          obtain ⟨-, flat⟩ := later next rfl
          have le : start ≤ next := by
            simp only [List.head?_cons, Option.getD_some] at ordered
            omega
          have whole := List.take_append_drop (next - start) (data.drop start)
          rwa [List.drop_drop, Nat.add_sub_cancel' le, ← flat] at whole

/-- The first entry of the table. -/
def firstOffset (data : Bytes) : Nat := ofLeBytes [data.getD 2 0, data.getD 3 0]

theorem firstOffset_lt (data : Bytes) : firstOffset data < 256 ^ 2 := ofLeBytes_lt _

/-- The parts of a reply, without a panic. -/
theorem parseMultiReply_ends (data : Bytes) {n : Nat} (some : 1 ≤ n) :
    Ends (fun replies => replies.length = n ∧ 2 + 2 * n ≤ data.length ∧
        firstOffset data < data.length ∧ replies.flatten = data.drop (firstOffset data))
      (· ≠ .panic) (parseMultiReply data n) := by
  unfold parseMultiReply
  split
  · exact nofun
  next long =>
    rw [u16Le_eq (by omega)]
    refine (ends_ite ..).mpr ⟨fun _ => nofun, fun _ => (ends_ite ..).mpr ⟨fun _ => nofun, ?_⟩⟩
    intro table
    have entries : (List.range n).mapM (fun i => u16Le data (2 + i * 2)) =
        .ok ((List.range n).map fun i =>
          UInt16.ofNat (ofLeBytes [data.getD (2 + i * 2) 0, data.getD (2 + i * 2 + 1) 0])) := by
      refine mapM_of_forall₂ (List.forall₂_map_right_iff.mpr (List.forall₂_same.mpr ?_))
      intro i inside
      rw [List.mem_range] at inside
      exact u16Le_eq (by omega)
    rw [entries]
    refine (cutReplies_ends data _).mono fun replies h => ?_
    obtain ⟨len, first⟩ := h
    obtain ⟨m, rfl⟩ : ∃ m, n = m + 1 := ⟨n - 1, by omega⟩
    have head := first (firstOffset data) (by
      have small := firstOffset_lt data
      simp only [List.range_succ_eq_map, List.map_cons, List.head?_cons, Option.mem_def,
        Option.some.injEq, UInt16.toNat_ofNat']
      exact Nat.mod_eq_of_lt small)
    exact ⟨by simpa using len, by omega, head⟩

/-- The parser does not panic, and the replies of an accepted packet are consecutive
slices up to its end; they are all that follows the table just if the first offset is
the end of the table. -/
theorem parseMultiReply_partition_iff (data : Bytes) {n : Nat} (some : 1 ≤ n) :
    parseMultiReply data n ≠ .error .panic ∧
      ∀ replies, parseMultiReply data n = .ok replies →
        replies.length = n ∧ replies.flatten = data.drop (firstOffset data) ∧
          (replies.flatten = data.drop (2 + 2 * n) ↔ firstOffset data = 2 + 2 * n) := by
  have ends := parseMultiReply_ends data some
  refine ⟨fun panics => ends.error panics rfl, fun replies ok => ?_⟩
  obtain ⟨len, table, inside, flat⟩ := ends.ok ok
  refine ⟨len, flat, fun exact => ?_, fun anchored => by rw [flat, anchored]⟩
  have lengths := congrArg List.length (flat.symm.trans exact)
  rw [List.length_drop, List.length_drop] at lengths
  omega

/-- A packet that is packed as it should be. -/
theorem parseMultiReply_partition_two :
    firstOffset [2, 0, 6, 0, 7, 0, 0xAA, 0xBB, 0xCC] = 2 + 2 * 2 ∧
      parseMultiReply [2, 0, 6, 0, 7, 0, 0xAA, 0xBB, 0xCC] 2 = .ok [[0xAA], [0xBB, 0xCC]] ∧
      ([[0xAA], [0xBB, 0xCC]] : List Bytes).flatten =
        [2, 0, 6, 0, 7, 0, 0xAA, 0xBB, 0xCC].drop (2 + 2 * 2) := by
  have packet : parseMultiReply [2, 0, 6, 0, 7, 0, 0xAA, 0xBB, 0xCC] 2 =
      .ok [[0xAA], [0xBB, 0xCC]] := by decide
  have h := parseMultiReply_partition_iff [2, 0, 6, 0, 7, 0, 0xAA, 0xBB, 0xCC] (n := 2) (by decide)
  exact ⟨by decide, packet, (h.2 _ packet).2.2.mpr (by decide)⟩

/-- A reply that is the table itself, and bytes that belong to no reply. -/
theorem parseMultiReply_unanchored :
    parseMultiReply [1, 0, 0, 0] 1 = .ok [[1, 0, 0, 0]] ∧
      parseMultiReply [1, 0, 6, 0, 0xAA, 0xBB, 0xCC] 1 = .ok [[0xCC]] ∧
      ([1, 0, 6, 0, 0xAA, 0xBB, 0xCC] : Bytes).drop (2 + 2 * 1) = [0xAA, 0xBB, 0xCC] := by
  decide

end ForgeLink.Drivers.EthernetIp
