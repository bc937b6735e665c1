import ForgeLink.Drivers.ModbusDevice

/-!
# What a Modbus batch read returns

A batch read is to return for every item what reading that item alone returns.
The frames of a batch hold every item once, at its own address, and stay within
the limits of the protocol.  A frame asks for what lies between its first item
and the end of its *last* item, though.  The addresses of a frame follow each
other, so an item reaches over the end of the last one only if it has four
registers and stands next to the end: then the frame `endsShort`, and the batch
read loses the item.  Otherwise the batch read is right, for every memory
(`readBatch_alone_iff`).
-/

namespace ForgeLink.Drivers.Modbus

open Lib

variable {back : List GroupEntry} {plans : List ReadPlan} {s : Session Own} {fmt : DebugFmt}

/-! ## Frames -/

/-- The addresses of the entries follow each other. -/
abbrev InARow (frame : List GroupEntry) : Prop :=
  List.IsChain (fun a b : GroupEntry => b.address.address = a.address.address + 1) frame

theorem flatten_cutGroup (key : GroupKey) (group : List GroupEntry) :
    (cutGroup key group).flatten = group := by
  simp [cutGroup]

/-- What every frame of a batch is. -/
structure IsFrame (entries : List GroupEntry) (key : GroupKey) (frame : List GroupEntry) :
    Prop where
  nonempty : frame ≠ []
  inARow : InARow frame
  entry : ∀ e ∈ frame, e ∈ entries ∧ e.key = key
  fits : Chained (fits (readLimit key.2)) frame

theorem isFrame {entries : List GroupEntry} {key : GroupKey} {frame : List GroupEntry}
    (inside : (key, frame) ∈ framesOf entries) : IsFrame entries key frame := by
  obtain ⟨group, _, cut⟩ := mem_batches.mp inside
  obtain ⟨run, run_inside, frame_inside⟩ := List.mem_flatMap.mp cut
  refine ⟨ne_nil_of_mem_runs frame_inside, ?_, ?_, chained_of_mem_runs frame_inside⟩
  · exact isChain_of_mem_pieces run_inside frame_inside fun front x y joined => by
      simpa [follows] using joined
  · exact fun e here => key_of_mem_batches flatten_cutGroup inside here

theorem framesOf_perm (entries : List GroupEntry) :
    ((framesOf entries).flatMap Prod.snd).Perm entries :=
  batches_perm flatten_cutGroup entries

/-! ## Widths -/

theorem itemWidth_cases (kind : RegisterKind) (expectedType : Option DataType) :
    itemWidth kind expectedType = 1 ∨ itemWidth kind expectedType = 2 ∨
      itemWidth kind expectedType = 4 := by
  unfold itemWidth
  split
  · exact .inl rfl
  · cases expectedType with
    | none => exact .inl rfl
    | some t => cases t <;> simp [registerWidth]

theorem GroupEntry.width_cases (e : GroupEntry) : e.width = 1 ∨ e.width = 2 ∨ e.width = 4 :=
  itemWidth_cases _ _

/-- Does an entry with four registers reach over the end of its frame, given what comes
after it in the frame? -/
def sticksOut (e : GroupEntry) (back : List GroupEntry) : Bool :=
  match back with
  | [last] => e.width = 4 ∧ last.width ≤ 2
  | [_, last] => e.width = 4 ∧ last.width = 1
  | _ => false

/-- A frame that ends with an entry of four registers and one more of at most two, or
two more of which the last has one register. -/
def endsShort : List GroupEntry → Bool
  | [] => false
  | e :: back => sticksOut e back || endsShort back

theorem sticksOut_eq_false {e last : GroupEntry} (ends : (e :: back).getLast? = some last) :
    sticksOut e back = false ↔ e.width ≤ back.length + last.width := by
  have width := e.width_cases
  have last_width := last.width_cases
  match back, ends with
  | [], ends =>
    cases ends
    simp [sticksOut]
  | [y], ends =>
    obtain rfl : y = last := by simpa using ends
    simp only [sticksOut, List.length_singleton, decide_eq_false_iff_not]
    omega
  | [y, z], ends =>
    obtain rfl : z = last := by simpa using ends
    simp only [sticksOut, List.length_cons, List.length_nil, decide_eq_false_iff_not]
    omega
  | y :: z :: w :: back, _ =>
    simp only [sticksOut, List.length_cons, true_iff]
    omega

theorem endsShort_eq_false {frame : List GroupEntry} :
    endsShort frame = false ↔
      ∀ front e back, frame = front ++ e :: back → sticksOut e back = false := by
  induction frame with
  | nil => simp [endsShort]
  | cons e frame ih =>
    rw [endsShort, Bool.or_eq_false_iff, ih]
    constructor
    · rintro ⟨here, later⟩ front e' back eq
      cases front with
      | nil =>
        cases eq
        exact here
      | cons _ front =>
        cases eq
        exact later front e' back rfl
    · intro all
      exact ⟨all [] e frame rfl, fun front e' back eq =>
        all (e :: front) e' back (by rw [eq]; rfl)⟩

/-! ## Plans -/

/-- The planned item of an entry, in a frame that starts at `start`. -/
def GroupEntry.planned (start : Nat) (e : GroupEntry) : PlannedItem :=
  ⟨e.itemId, e.address.offset - start, e.expectedType, e.width⟩

theorem emitPlan_cons (key : GroupKey) {first last : GroupEntry} {rest : List GroupEntry}
    (ends : (first :: rest).getLast? = some last) :
    emitPlan key (first :: rest) =
      { unitId := key.1, kind := key.2, startOffset := first.address.offset
        quantity := last.address.offset - first.address.offset + last.width
        items := (first :: rest).map (GroupEntry.planned first.address.offset) } := by
  have item : (((first :: rest).map (GroupEntry.planned first.address.offset)).getLast?) =
      some (last.planned first.address.offset) := by
    rw [List.getLast?_map, ends]
    rfl
  rw [emitPlan]
  simp only [List.head?_cons, Option.map_some, Option.getD_some]
  show ReadPlan.mk _ _ _
    (((((first :: rest).map (GroupEntry.planned _)).getLast?).map _).getD 0) _ = _
  rw [item]
  rfl

theorem InARow.last {e last : GroupEntry} (chain : InARow (e :: back))
    (ends : (e :: back).getLast? = some last) :
    last.address.address = e.address.address + back.length := by
  induction back generalizing e with
  | nil =>
    cases ends
    rfl
  | cons y back ih =>
    obtain ⟨next, chain⟩ := List.isChain_cons_cons.mp chain
    have later := ih chain (by simpa using ends)
    rw [later, next, List.length_cons]
    omega

namespace IsFrame

variable {entries : List GroupEntry} {key : GroupKey} {frame : List GroupEntry}
variable {e : GroupEntry}

theorem kind_eq (h : IsFrame entries key frame) (here : e ∈ frame) : e.address.kind = key.2 :=
  congrArg Prod.snd (h.entry e here).2

/-- In a frame the offsets follow each other as the addresses do. -/
theorem last_offset (h : IsFrame entries key frame) (front : List GroupEntry) {last : GroupEntry}
    (eq : frame = front ++ e :: back) (ends : (e :: back).getLast? = some last) :
    last.address.offset = e.address.offset + back.length := by
  have chain : InARow (e :: back) := (eq ▸ h.inARow).right_of_append
  have numbers := chain.last ends
  have here : e ∈ frame := by simp [eq]
  have there : last ∈ frame := by
    rw [eq]
    exact List.mem_append_right _ (List.mem_of_getLast? ends)
  have kind := h.kind_eq here
  have kind' := h.kind_eq there
  have base := e.address.base_add_offset
  have base' := last.address.base_add_offset
  rw [kind] at base
  rw [kind'] at base'
  omega

theorem exists_last (h : IsFrame entries key frame) :
    ∃ first rest last, frame = first :: rest ∧ (first :: rest).getLast? = some last := by
  cases frame with
  | nil => exact absurd rfl h.nonempty
  | cons first rest => exact ⟨first, rest, _, rfl, List.getLast?_eq_getLast_of_ne_nil (by simp)⟩

theorem offset_eq (h : IsFrame entries key frame) {first : GroupEntry}
    {rest front : List GroupEntry} (eq : frame = first :: rest)
    (split : frame = front ++ e :: back) :
    e.address.offset = first.address.offset + front.length := by
  obtain ⟨last, ends⟩ : ∃ last, (e :: back).getLast? = some last :=
    ⟨_, List.getLast?_eq_getLast_of_ne_nil (by simp)⟩
  have whole : (first :: rest).getLast? = some last := by
    rw [← eq, split, List.getLast?_append, ends]
    rfl
  have fromFirst := h.last_offset [] eq whole
  have fromHere := h.last_offset _ split ends
  have lengths := congrArg List.length (eq.symm.trans split)
  simp only [List.length_cons, List.length_append] at lengths
  omega

/-- The plan of a frame asks for all of its items just if the frame does not end short. -/
theorem covers_iff (h : IsFrame entries key frame) :
    (∀ i ∈ (emitPlan key frame).items, i.offsetInFrame + i.width ≤ (emitPlan key frame).quantity) ↔
      endsShort frame = false := by
  obtain ⟨first, rest, last, eq, ends⟩ := h.exists_last
  have whole := h.last_offset [] eq ends
  have each : ∀ front e back, frame = front ++ e :: back →
      (e.address.offset - first.address.offset + e.width ≤
          last.address.offset - first.address.offset + last.width ↔
        sticksOut e back = false) := by
    intro front e back split
    have here := h.offset_eq eq split
    have tail : (e :: back).getLast? = some last := by
      rw [← ends, ← eq, split, List.getLast?_append, List.getLast?_cons]
      rfl
    have later := h.last_offset _ split tail
    rw [sticksOut_eq_false tail]
    omega
  rw [endsShort_eq_false, eq, emitPlan_cons key ends, ← eq]
  simp only [List.forall_mem_map, GroupEntry.planned]
  constructor
  · intro covered front e back split
    exact (each front e back split).mp (covered e (by simp [split]))
  · intro out e here
    obtain ⟨front, back, split⟩ := List.append_of_mem here
    exact (each front e back split).mpr (out front e back split)

theorem length_le_sum (front : List GroupEntry) :
    front.length ≤ (front.map GroupEntry.width).sum := by
  induction front with
  | nil => simp
  | cons e front ih =>
    have width := e.width_cases
    simp only [List.length_cons, List.map_cons, List.sum_cons]
    omega

theorem four_le_readLimit (kind : RegisterKind) : 4 ≤ readLimit kind := by
  cases kind <;> decide

/-- A plan keeps to the limit of its segment. -/
theorem quantity_le (h : IsFrame entries key frame) :
    (emitPlan key frame).quantity ≤ readLimit key.2 := by
  obtain ⟨first, rest, last, eq, ends⟩ := h.exists_last
  have whole := h.last_offset [] eq ends
  obtain ⟨front, split⟩ : ∃ front, frame = front ++ [last] := by
    rw [eq]
    exact List.getLast?_eq_some_iff.mp ends
  have lengths := congrArg List.length (eq.symm.trans split)
  simp only [List.length_cons, List.length_append, List.length_nil] at lengths
  rw [eq, emitPlan_cons key ends]
  show last.address.offset - first.address.offset + last.width ≤ _
  cases front with
  | nil =>
    have limit := four_le_readLimit key.2
    have width := last.width_cases
    simp only [List.length_nil] at lengths
    omega
  | cons e front =>
    have fitting := h.fits (e :: front) last [] split (by simp)
    have sum := length_le_sum (e :: front)
    simp only [Modbus.fits, decide_eq_true_eq] at fitting
    omega

theorem quantity_pos (h : IsFrame entries key frame) : 1 ≤ (emitPlan key frame).quantity := by
  obtain ⟨first, rest, last, rfl, ends⟩ := h.exists_last
  have width := last.width_cases
  rw [emitPlan_cons key ends]
  show 1 ≤ last.address.offset - first.address.offset + last.width
  omega

/-- A plan ends where its last item ends. -/
theorem start_add_quantity_le (h : IsFrame entries key frame)
    (inside : ∀ e ∈ entries, e.address.offset + e.width ≤ 65536) :
    (emitPlan key frame).startOffset + (emitPlan key frame).quantity ≤ 65536 := by
  obtain ⟨first, rest, last, eq, ends⟩ := h.exists_last
  have whole := h.last_offset [] eq ends
  have here : last ∈ frame := eq ▸ List.mem_of_getLast? ends
  have bound := inside last (h.entry last here).1
  rw [eq, emitPlan_cons key ends]
  show first.address.offset + (last.address.offset - first.address.offset + last.width) ≤ _
  omega

end IsFrame

/-! ## Decoding an item of a frame -/

section

variable (memory : Memory) (unitId : UInt8) (kind : RegisterKind) (start : Nat) {quantity : Nat}

theorem decodeBit_answer (bits : kind.isBit = true) {off : Nat} (inside : off < quantity) :
    decodeBit (memory.answer unitId kind start quantity) off =
      .ok (memory.bit unitId kind (start + off)) := by
  have here : off < ((List.range quantity).map fun i =>
    memory.bit unitId kind (start + i)).length := by
    simpa using inside
  obtain ⟨byte, found, bit⟩ := bit_packBits here
  rw [Memory.answer, if_pos bits, decodeBit, found]
  simp only [List.getElem_map, List.getElem_range] at bit
  rw [← bit]
  rfl

theorem length_answer_registers (quantity : Nat) (registers : kind.isBit = false) :
    (memory.answer unitId kind start quantity).length = quantity * 2 := by
  simp [Memory.answer, registers]

theorem slice_answer (registers : kind.isBit = false) {off width : Nat}
    (inside : off + width ≤ quantity) :
    ((memory.answer unitId kind start quantity).drop (off * 2)).take (width * 2) =
      memory.answer unitId kind (start + off) width := by
  simp only [Memory.answer, registers, Bool.false_eq_true, if_false]
  rw [slice_flatMap_range (by simp) inside]
  simp only [Nat.add_assoc]

/-- In registers, a type is refused whatever the bytes are, or it is decoded from its registers. -/
theorem decodeRegisterValue_cases (fmt : DebugFmt) (order : WordOrder) (t : DataType)
    {kind : RegisterKind} (bits : kind.isBit = false) :
    (∃ reason, ∀ bytes off,
      decodeRegisterValue fmt kind bytes off (some t) order = .error reason) ∨
    ∀ bytes off, ¬bytes.length < off * 2 + itemWidth kind (some t) * 2 →
      decodeRegisterValue fmt kind bytes off (some t) order =
        decodeSlice fmt t ((bytes.drop (off * 2)).take (itemWidth kind (some t) * 2)) order := by
  have width : itemWidth kind (some t) = (registerWidth t).getD 1 := by
    rw [itemWidth, bits]
    rfl
  rw [width]
  simp only [decodeRegisterValue, bits, Bool.false_eq_true, if_false]
  cases t
  case bool | string | bytes | array | struct => exact .inl ⟨_, fun _ _ => rfl⟩
  all_goals
    right
    intro bytes off enough
    exact if_neg enough

/-- An item is decoded as in a read of its own. -/
theorem decode_answer (fmt : DebugFmt) (order : WordOrder) {off : Nat} {t : Option DataType}
    (inside : off + itemWidth kind t ≤ quantity) :
    decodeRegisterValue fmt kind (memory.answer unitId kind start quantity) off t order =
      decodeRegisterValue fmt kind (memory.answer unitId kind (start + off) (itemWidth kind t)) 0 t
        order := by
  cases bits : kind.isBit with
  | true =>
    have width : itemWidth kind t = 1 := by simp [itemWidth, bits]
    rw [width] at inside ⊢
    have frame := decodeBit_answer memory unitId kind start bits
      (show off < quantity by omega)
    have alone := decodeBit_answer memory unitId kind (start + off) bits
      (show 0 < 1 by omega)
    cases t with
    | none => simp [decodeRegisterValue, bits, frame, alone]
    | some t => cases t <;> simp [decodeRegisterValue, bits, frame, alone]
  | false =>
    have slice := slice_answer memory unitId kind start bits inside
    have whole := slice_answer memory unitId kind (start + off) bits
      (Nat.le_of_eq (Nat.zero_add (itemWidth kind t)))
    have len := length_answer_registers memory unitId kind start quantity bits
    have len' := length_answer_registers memory unitId kind (start + off) (itemWidth kind t) bits
    have enough : ¬quantity * 2 < off * 2 + itemWidth kind t * 2 := by omega
    generalize memory.answer unitId kind start quantity = data at *
    generalize memory.answer unitId kind (start + off) (itemWidth kind t) = own at *
    rw [← len] at enough
    have enough' : ¬own.length < 0 * 2 + itemWidth kind t * 2 := by omega
    cases t with
    | none =>
      have width : itemWidth kind none = 1 := by rw [itemWidth, bits]; rfl
      rw [width] at slice whole enough enough'
      simp only [decodeRegisterValue, bits, decodeU16, Bool.false_eq_true, if_false]
      rw [if_neg enough, if_neg enough', slice, whole]
    | some t =>
      rcases decodeRegisterValue_cases fmt order t bits with ⟨reason, refused⟩ | decoded
      · rw [refused, refused]
      · rw [decoded _ _ enough, decoded _ _ enough', slice, whole]

end

/-! ## The results of a batch -/

/-- The results of a plan, from a memory. -/
def ReadPlan.results (memory : Memory) (fmt : DebugFmt) (order : WordOrder) (plan : ReadPlan) :
    List RawReadResult :=
  plan.items.map
    (decodeItem fmt plan.kind
      (memory.answer plan.unitId plan.kind plan.startOffset plan.quantity) order)

/-- A plan that the protocol allows. -/
structure ReadPlan.Allowed (plan : ReadPlan) : Prop where
  some_asked : 1 ≤ plan.quantity
  small : plan.quantity ≤ readLimit plan.kind
  inside : plan.startOffset + plan.quantity ≤ 65536

section

variable {peer : Peer} {config : ModbusConfig} {memory : Memory} {idle : Session Own → Prop}
  (serves : Serves peer config memory idle)

include serves

/-- The results of all plans, in their order. -/
theorem readPlans_returns (allowed : ∀ plan ∈ plans, plan.Allowed) (results : List RawReadResult)
    (quiet : idle s) :
    Returns (readPlans peer fmt config plans results)
      (fun r _ => r = results ++ plans.flatMap (ReadPlan.results memory fmt config.wordOrder))
        s := by
  induction plans generalizing results s with
  | nil => exact (List.append_nil results).symm
  | cons plan plans ih =>
    obtain ⟨some_asked, small, inside⟩ := allowed plan List.mem_cons_self
    unfold readPlans
    refine .bind (serves.connects s quiet) ?_
    rintro _ t ⟨quiet, connected⟩
    refine .bind (R := fun r u => r = .ok (memory.answer plan.unitId plan.kind plan.startOffset
      plan.quantity) ∧ idle u) ?_ ?_
    · refine (wp_attempt _).mpr ?_
      unfold requestPlan
      refine (wp_bind _ _).mpr ((wp_attempt _).mpr ?_)
      refine wp_mono
        (serves.reads t plan.unitId plan.kind _ _ quiet connected some_asked small inside) ?_ ?_
      · rintro _ u ⟨rfl, quiet⟩
        exact ⟨rfl, quiet⟩
      · exact fun _ _ stopped => stopped.elim
    · rintro _ u ⟨rfl, quiet⟩
      refine (ih (fun p later => allowed p (List.mem_cons_of_mem _ later)) _ quiet).mono ?_
      rintro _ _ rfl
      rw [List.flatMap_cons, List.append_assoc]
      rfl

theorem readBatch_returns {items : List DriverReadItem}
    (admitted : planBatch fmt items config.unitId = .ok plans)
    (allowed : ∀ plan ∈ plans, plan.Allowed) (quiet : idle s) :
    ∃ t, readBatch peer fmt config items s =
      .ok (sortByKey RawReadResult.itemId
        (plans.flatMap (ReadPlan.results memory fmt config.wordOrder))) t := by
  refine Returns.run ?_
  unfold readBatch
  rw [admitted]
  refine .bind (readPlans_returns serves allowed [] quiet) ?_
  rintro _ t rfl
  rfl

end

/-! ## Items and entries -/

variable {entries frame : List GroupEntry} {unit : UInt8} {item : DriverReadItem} {e : GroupEntry}
  {items : List DriverReadItem} {key : GroupKey}

theorem parseItem_eq_ok (parsed : parseItem fmt unit item = .ok e) :
    ∃ a, parseAddress fmt item.address unit = .ok a ∧ e = ⟨item.id, a, item.expectedType⟩ ∧
      e.address.offset + e.width ≤ 65536 := by
  unfold parseItem at parsed
  cases address : parseAddress fmt item.address unit with
  | error err => simp [address] at parsed
  | ok a =>
    simp only [address] at parsed
    split at parsed
    next => cases parsed
    next inside =>
      cases parsed
      exact ⟨a, rfl, rfl, Nat.le_of_not_lt inside⟩

/-- The frames that a batch is cut into; none if an item has no address. -/
def frames (fmt : DebugFmt) (unit : UInt8) (items : List DriverReadItem) :
    List (GroupKey × List GroupEntry) :=
  match items.mapM (parseItem fmt unit) with
  | .ok entries => framesOf entries
  | .error _ => []

theorem planBatch_eq_ok (admitted : planBatch fmt items unit = .ok plans) :
    ∃ entries, List.Forall₂ (fun item e => parseItem fmt unit item = .ok e) items entries ∧
      frames fmt unit items = framesOf entries ∧
      plans = (framesOf entries).map fun f => emitPlan f.1 f.2 := by
  obtain ⟨entries, parsed, admitted⟩ := bind_eq_ok.mp admitted
  cases admitted
  exact ⟨entries, forall₂_of_mapM parsed, by rw [frames, parsed], rfl⟩

theorem emitPlan_allowed (inside : ∀ e ∈ entries, e.address.offset + e.width ≤ 65536)
    (h : IsFrame entries key frame) : (emitPlan key frame).Allowed where
  some_asked := h.quantity_pos
  small := h.quantity_le
  inside := h.start_add_quantity_le inside

theorem framesOf_singleton (e : GroupEntry) : framesOf [e] = [(e.key, [e])] := by
  simp [framesOf, batches, groups, sortByKey, cutGroup, runs, runsFrom]

theorem planBatch_singleton (parsed : parseItem fmt unit item = .ok e) :
    planBatch fmt [item] unit = .ok [emitPlan e.key [e]] := by
  simp [planBatch, parsed, framesOf_singleton, bind, Except.bind, pure, Except.pure]

/-- The result of an entry that is read alone. -/
def GroupEntry.alone (memory : Memory) (fmt : DebugFmt) (order : WordOrder) (e : GroupEntry) :
    RawReadResult :=
  decodeItem fmt e.address.kind
    (memory.answer e.address.unitId e.address.kind e.address.offset e.width) order
    ⟨e.itemId, 0, e.expectedType, e.width⟩

theorem results_singleton (memory : Memory) (fmt : DebugFmt) (order : WordOrder) (e : GroupEntry) :
    (emitPlan e.key [e]).results memory fmt order = [e.alone memory fmt order] := by
  rw [emitPlan_cons e.key (show [e].getLast? = some e from rfl), ReadPlan.results]
  simp [GroupEntry.planned, GroupEntry.alone, GroupEntry.key]

/-- In a frame that covers its items, every item has the result it has alone. -/
theorem results_frame (memory : Memory) (fmt : DebugFmt) (order : WordOrder)
    (h : IsFrame entries key frame) (covered : endsShort frame = false) :
    (emitPlan key frame).results memory fmt order = frame.map
      (GroupEntry.alone memory fmt order) := by
  have covers := h.covers_iff.mpr covered
  obtain ⟨first, rest, last, eq, ends⟩ := h.exists_last
  rw [eq, emitPlan_cons key ends, ← eq] at covers ⊢
  rw [ReadPlan.results, List.map_map]
  refine List.map_congr_left fun e here => ?_
  obtain ⟨front, back, split⟩ := List.append_of_mem here
  have start := h.offset_eq eq split
  have sum : first.address.offset + (e.address.offset - first.address.offset) =
      e.address.offset := by omega
  have inside := covers _ (List.mem_map_of_mem here)
  have kind := h.kind_eq here
  have unit : e.address.unitId = key.1 := congrArg Prod.fst (h.entry e here).2
  simp only [Function.comp, GroupEntry.planned, decodeItem, GroupEntry.alone,
    GroupEntry.width, kind,
    unit] at inside ⊢
  rw [decode_answer memory key.1 key.2 _ fmt order inside, sum]

/-! ## The theorem -/

/-- Where an item is read. -/
structure Place where
  unitId : UInt8
  kind : RegisterKind
  offset : Nat
  itemId : Nat
  expectedType : Option DataType

/-- The places of the items of a plan. -/
def ReadPlan.places (plan : ReadPlan) : List Place :=
  plan.items.map fun i =>
    ⟨plan.unitId, plan.kind, plan.startOffset + i.offsetInFrame, i.itemId, i.expectedType⟩

/-- The place of an item, from its address. -/
def place (fmt : DebugFmt) (unit : UInt8) (item : DriverReadItem) : Option Place :=
  (parseAddress fmt item.address unit).toOption.map fun a =>
    ⟨a.unitId, a.kind, a.offset, item.id, item.expectedType⟩

/-- The place of an entry. -/
def GroupEntry.place (e : GroupEntry) : Place :=
  ⟨e.address.unitId, e.address.kind, e.address.offset, e.itemId, e.expectedType⟩

theorem places_frame (h : IsFrame entries key frame) :
    (emitPlan key frame).places = frame.map GroupEntry.place := by
  obtain ⟨first, rest, last, eq, ends⟩ := h.exists_last
  rw [eq, emitPlan_cons key ends, ← eq, ReadPlan.places, List.map_map]
  refine List.map_congr_left fun e here => ?_
  obtain ⟨front, back, split⟩ := List.append_of_mem here
  have start := h.offset_eq eq split
  have sum : first.address.offset + (e.address.offset - first.address.offset) =
      e.address.offset := by omega
  have kind := h.kind_eq here
  have unit : e.address.unitId = key.1 := congrArg Prod.fst (h.entry e here).2
  simp only [Function.comp, GroupEntry.planned, GroupEntry.place, sum, kind, unit]

theorem map_place
    (parsed : List.Forall₂ (fun item e => parseItem fmt unit item = .ok e) items entries) :
    items.map (place fmt unit) = (entries.map GroupEntry.place).map some := by
  refine map_of_forall₂ parsed fun item e parsed => ?_
  obtain ⟨a, address, rfl, _⟩ := parseItem_eq_ok parsed
  simp only [place, address, Except.toOption, Option.map_some, GroupEntry.place]

/-- All the plans of a batch together hold every item once, at its own address. -/
theorem places_perm
    (parsed : List.Forall₂ (fun item e => parseItem fmt unit item = .ok e) items entries) :
    ((((framesOf entries).map fun f => emitPlan f.1 f.2).flatMap ReadPlan.places).map some).Perm
      (items.map (place fmt unit)) := by
  rw [map_place parsed, List.flatMap_map]
  exact (flatMap_perm_map (framesOf_perm entries) fun f here => places_frame (isFrame here)).map _

/-- The results of all the plans, if no frame ends short. -/
theorem results_perm (memory : Memory) (fmt : DebugFmt) (order : WordOrder)
    (long : ∀ f ∈ framesOf entries, endsShort f.2 = false) :
    (((framesOf entries).map fun f => emitPlan f.1 f.2).flatMap
      (ReadPlan.results memory fmt order)).Perm
        (entries.map (GroupEntry.alone memory fmt order)) := by
  rw [List.flatMap_map]
  exact flatMap_perm_map (framesOf_perm entries) fun f here =>
    results_frame memory fmt order (isFrame here) (long f here)

/-- What reading one item returns. -/
theorem readBatch_singleton {peer : Peer} {config : ModbusConfig} {memory : Memory}
    {idle : Session Own → Prop} (serves : Serves peer config memory idle)
    (parsed : parseItem fmt config.unitId item = .ok e) (quiet : idle s) :
    ∃ t, readBatch peer fmt config [item] s = .ok [e.alone memory fmt config.wordOrder] t := by
  obtain ⟨_, _, _, le⟩ := parseItem_eq_ok parsed
  have frame : IsFrame [e] e.key [e] :=
    isFrame (by rw [framesOf_singleton]; exact List.mem_singleton_self _)
  have allowed : (emitPlan e.key [e]).Allowed := emitPlan_allowed (by simpa using le) frame
  obtain ⟨t, run⟩ := readBatch_returns serves (planBatch_singleton parsed) (by simpa using allowed)
    quiet
  refine ⟨t, run.trans ?_⟩
  simp [results_singleton, sortByKey]

/-- A batch read returns for every item what reading it alone returns, for every memory;
every item is in one plan; and every plan keeps to the limit and asks for all of its
items: all this holds just if no frame of the batch ends short. -/
theorem readBatch_alone_iff (fmt : DebugFmt) (config : ModbusConfig) (items : List DriverReadItem)
    (plans : List ReadPlan) (admitted : planBatch fmt items config.unitId = .ok plans) :
    ((∀ peer memory idle s, Serves peer config memory idle → idle s →
        ∃ results alone t, readBatch peer fmt config items s = .ok results t ∧
          List.Forall₂ (fun item r => ∃ t, readBatch peer fmt config [item] s = .ok [r] t)
            items alone ∧
          results.Perm alone) ∧
      ((plans.flatMap ReadPlan.places).map some).Perm (items.map (place fmt config.unitId)) ∧
      ∀ plan ∈ plans, plan.quantity ≤ readLimit plan.kind ∧
        ∀ i ∈ plan.items, i.offsetInFrame + i.width ≤ plan.quantity) ↔
    ∀ f ∈ frames fmt config.unitId items, endsShort f.2 = false := by
  obtain ⟨entries, parsed, frames_eq, rfl⟩ := planBatch_eq_ok admitted
  have inside : ∀ e ∈ entries, e.address.offset + e.width ≤ 65536 := by
    intro e here
    obtain ⟨item, _, eq⟩ := exists_left_of_forall₂ parsed here
    obtain ⟨_, _, _, le⟩ := parseItem_eq_ok eq
    exact le
  rw [frames_eq]
  constructor
  · rintro ⟨_, _, covered⟩ ⟨key, frame⟩ here
    exact (isFrame here).covers_iff.mp
      (covered _ (List.mem_map_of_mem (f := fun f => emitPlan f.1 f.2) here)).2
  · intro long
    refine ⟨?_, places_perm parsed, ?_⟩
    · intro peer memory idle s serves quiet
      have allowed : ∀ plan ∈ (framesOf entries).map fun f => emitPlan f.1 f.2, plan.Allowed := by
        intro _ planned
        obtain ⟨⟨key, frame⟩, here, rfl⟩ := List.mem_map.mp planned
        exact emitPlan_allowed inside (isFrame here)
      obtain ⟨t, run⟩ := readBatch_returns serves admitted allowed quiet
      refine ⟨_, entries.map (GroupEntry.alone memory fmt config.wordOrder), t, run, ?_, ?_⟩
      · rw [List.forall₂_map_right_iff]
        exact parsed.imp fun item e eq => readBatch_singleton serves eq quiet
      · exact (sortByKey_perm _ _).trans (results_perm memory fmt config.wordOrder long)
    · intro _ planned
      obtain ⟨⟨key, frame⟩, here, rfl⟩ := List.mem_map.mp planned
      exact ⟨(isFrame here).quantity_le, (isFrame here).covers_iff.mpr (long _ here)⟩

/-- A driver for unit 1 over TCP. -/
def tcpConfig : ModbusConfig where
  line := .tcp "plc" 502
  unitId := 1
  wordOrder := .abcd
  reconnect := false
  reconnectMaxAttempts := 0

/-- One register, then four: the frame covers both. -/
theorem readBatch_alone_narrow_first :
    ∃ plans, planBatch plainDebug [⟨1, "1!40001", some .u16⟩, ⟨2, "1!40002", some .u64⟩] 1 =
        .ok plans ∧
      ∀ plan ∈ plans, plan.quantity ≤ readLimit plan.kind ∧
        ∀ i ∈ plan.items, i.offsetInFrame + i.width ≤ plan.quantity :=
  ⟨_, rfl, ((readBatch_alone_iff plainDebug tcpConfig
    [⟨1, "1!40001", some .u16⟩, ⟨2, "1!40002", some .u64⟩] _ rfl).mpr (by decide +kernel)).2.2⟩

/-- Four registers, then one: the frame asks for two registers, and the first item, which
has a value when it is read alone, has none. -/
theorem readBatch_loses_wide :
    let memory : Memory := ⟨fun _ _ _ => false, fun _ _ offset => UInt16.ofNat offset⟩
    let peer := replying (memory.device tcpConfig.line)
    let start : Session Own := ⟨false, [], ⟨0⟩⟩
    Serves peer tcpConfig memory (Idle (memory.device tcpConfig.line)) ∧
      Idle (memory.device tcpConfig.line) start ∧
      valued (readBatch peer plainDebug tcpConfig
        [⟨1, "1!40001", some .u64⟩, ⟨2, "1!40002", some .u16⟩] start) = [(1, false), (2, true)] ∧
      valued (readBatch peer plainDebug tcpConfig [⟨1, "1!40001", some .u64⟩] start) =
        [(1, true)] :=
  ⟨device_serves _ tcpConfig, rfl, by decide +kernel, by decide +kernel⟩

end ForgeLink.Drivers.Modbus
