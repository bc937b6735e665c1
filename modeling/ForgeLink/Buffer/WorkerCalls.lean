import ForgeLink.Buffer.WorkerRecords

/-!
# Every call is answered once

A call that was sent and not dropped by its caller is *held*, in the channel or
by one waiting record, or it has been answered once (`Books`).  A step takes some
of the held calls and replies to each of them; the held calls before it are, up
to order, those calls and the held calls after it.
-/

namespace ForgeLink.Buffer

open Lib

namespace State

variable {config : LocalBufferConfig} {serde : Serde} {s s' s'' : State} {call : CallId}
  {calls held held' : List CallId} {replies replies' : List (CallId × Answer)} {localSeq : Int}
variable {request : Request} {label : Label}

/-! ## Lists of replies -/

/-- A list of replies, with the calls they are for. -/
inductive Replies : State → List (CallId × Answer) → State → Prop where
  | nil {s : State} : Replies s [] s
  | cons {s s' : State} {call : CallId} {answer} {replies : List (CallId × Answer)} :
      Replies (s.reply call answer) replies s' → Replies s ((call, answer) :: replies) s'

theorem Replies.append (h : Replies s replies s') (h' : Replies s' replies' s'') :
    Replies s (replies ++ replies') s'' := by
  induction h with
  | nil => exact h'
  | cons _ ih => exact .cons (ih h')

theorem Replies.one (s : State) (call : CallId) (answer : Answer) :
    Replies s [(call, answer)] (s.reply call answer) := .cons .nil

/-- The same answer for all the callers of a record. -/
def toAll (calls : List CallId) (result : Except LocalBufferError Unit) :
    List (CallId × Answer) :=
  calls.map fun call => (call, .done result)

theorem replies_replyAll (s : State) (calls : List CallId)
    (result : Except LocalBufferError Unit) :
    Replies s (toAll calls result) (s.replyAll calls result) := by
  induction calls generalizing s with
  | nil => exact .nil
  | cons call calls ih => exact .cons (ih _)

theorem replies_foldl {α : Type} {f : State → α → State} {of : α → List (CallId × Answer)}
    (each : ∀ s a, Replies s (of a) (f s a)) (s : State) (items : List α) :
    Replies s (items.flatMap of) (items.foldl f s) := by
  induction items generalizing s with
  | nil => exact .nil
  | cons a items ih => exact (each s a).append (ih _)

/-- The answer of `reject_cmd`. -/
def rejection : Request → Answer
  | .push _ => .done (.error .closed)
  | .next => .taken (.error .closed)
  | .ack _ => .done (.error .closed)
  | .requeue _ => .done (.error .closed)
  | .shutdown => .done (.ok ())

theorem replies_rejectCmd (s : State) (cmd : Cmd) :
    Replies s [(cmd.call, rejection cmd.request)] (s.rejectCmd cmd) := by
  obtain ⟨call, request⟩ := cmd
  cases request <;> exact .one ..

theorem Replies.answered (h : Replies s replies s') : Answered s s' := by
  induction h with
  | nil => exact .refl _
  | cons _ ih => exact (answered_reply ..).trans ih

/-- The answers that a call gets, if its caller is there. -/
def answersTo (replies : List (CallId × Answer)) (call : CallId) : List Answer :=
  (replies.filter fun reply => reply.1 = call).map Prod.snd

theorem Replies.answers (h : Replies s replies s') (call : CallId) :
    s'.answers call = s.answers call ++ if s.gone call then [] else answersTo replies call := by
  induction h with
  | nil => simp [answersTo]
  | @cons s s' call' answer replies _ ih =>
    rw [ih, reply_gone, reply]
    by_cases eq : call' = call
    · subst eq
      cases gone : s.gone call' <;> simp [answersTo]
    · cases gone : s.gone call <;> split <;> simp [answersTo, eq,
        Function.update_of_ne (Ne.symm eq)]

/-- What a call is answered is one of the replies. -/
theorem Replies.mem_of_answers {answer : Answer} (h : Replies s replies s')
    (eq : s'.answers call = s.answers call ++ [answer]) : (call, answer) ∈ replies := by
  rw [h.answers call] at eq
  have new := List.append_cancel_left eq
  split at new
  · cases new
  · have inside : answer ∈ answersTo replies call := by rw [new]; exact List.mem_cons_self
    obtain ⟨⟨call', answer'⟩, here, rfl⟩ := List.mem_map.mp inside
    obtain ⟨here, same⟩ := List.mem_filter.mp here
    rw [← show call' = call from of_decide_eq_true same]
    exact here

theorem Replies.answers_of_not_mem (h : Replies s replies s')
    (other : call ∉ replies.map Prod.fst) : s'.answers call = s.answers call := by
  have none : answersTo replies call = [] := by
    rw [answersTo, List.map_eq_nil_iff, List.filter_eq_nil_iff]
    exact fun reply inside same => other (List.mem_map.mpr ⟨reply, inside, of_decide_eq_true same⟩)
  rw [h.answers call, none, ite_self, List.append_nil]

/-- A call that is replied to once gets one answer. -/
theorem Replies.length_answers (h : Replies s replies s') (nodup : (replies.map Prod.fst).Nodup)
    (inside : call ∈ replies.map Prod.fst) (here : s.gone call = false) :
    (s'.answers call).length = (s.answers call).length + 1 := by
  have count : (answersTo replies call).length = (replies.map Prod.fst).count call := by
    rw [answersTo, List.length_map, List.count_eq_countP, List.countP_map,
      List.countP_eq_length_filter]
    rfl
  rw [h.answers call, here, List.length_append, if_neg Bool.false_ne_true, count,
    List.count_eq_one_of_mem nodup inside]

/-! ## The books -/

/-- What is known of the calls, if those in `held` are not answered yet. -/
structure Books (s : State) (held : List CallId) : Prop where
  made : ∀ call ∈ held, (s.sent call).isSome
  distinct : held.Nodup
  silent : ∀ call ∈ held, s.answers call = []
  settled : ∀ call, (s.sent call).isSome → s.gone call = false →
    call ∈ held ∨ (s.answers call).length = 1
  unsent : ∀ call, s.sent call = none → s.answers call = []
  taken : ∀ call, s.extracted call = true → (s.answers call).length = 1

theorem Books.perm (h : Books s held) (perm : held.Perm held') : Books s held' where
  made call inside := h.made call (perm.mem_iff.mpr inside)
  distinct := perm.nodup_iff.mp h.distinct
  silent call inside := h.silent call (perm.mem_iff.mpr inside)
  settled call made here := (h.settled call made here).imp perm.mem_iff.mp id
  unsent := h.unsent
  taken := h.taken

theorem Books.congr (h : Books s held) (sent : s'.sent = s.sent)
    (answers : s'.answers = s.answers) (gone : s'.gone = s.gone)
    (extracted : s'.extracted = s.extracted) : Books s' held :=
  ⟨sent ▸ h.made, h.distinct, answers ▸ h.silent, sent ▸ answers ▸ gone ▸ h.settled,
    sent ▸ answers ▸ h.unsent, answers ▸ extracted ▸ h.taken⟩

theorem Books.quiet (h : Books s held) (silent : Silent s s') : Books s' held :=
  h.congr silent.sent silent.answers silent.gone silent.extracted

/-- The calls that are replied to are held no longer. -/
theorem Books.replied (h : Books s (replies.map Prod.fst ++ held))
    (done : Replies s replies s') : Books s' held := by
  have same := done.answered
  obtain ⟨nodup, distinct, apart⟩ := List.nodup_append.mp h.distinct
  have other : ∀ call, call ∉ replies.map Prod.fst → s'.answers call = s.answers call :=
    fun call => done.answers_of_not_mem
  have early : ∀ call ∈ replies.map Prod.fst, s.answers call = [] := fun call inside =>
    h.silent call (List.mem_append_left _ inside)
  refine ⟨fun call inside => ?_, distinct, fun call inside => ?_, fun call made here => ?_,
    fun call unsent => ?_, fun call taken => ?_⟩
  · rw [same.sent]
    exact h.made call (List.mem_append_right _ inside)
  · rw [other call fun replied => apart call replied call inside rfl]
    exact h.silent call (List.mem_append_right _ inside)
  · rw [same.sent] at made
    rw [same.gone] at here
    by_cases replied : call ∈ replies.map Prod.fst
    · exact .inr (by rw [done.length_answers nodup replied here, early call replied]; rfl)
    · rw [other call replied]
      refine (h.settled call made here).imp_left fun inside => ?_
      exact (List.mem_append.mp inside).resolve_left replied
  · rw [same.sent] at unsent
    by_cases replied : call ∈ replies.map Prod.fst
    · exact absurd (h.made call (List.mem_append_left _ replied)) (by simp [unsent])
    · rw [other call replied, h.unsent call unsent]
  · rw [same.extracted] at taken
    by_cases replied : call ∈ replies.map Prod.fst
    · exact absurd (h.taken call taken) (by simp [early call replied])
    · rw [other call replied, h.taken call taken]

/-- Calls whose callers are gone need not be held. -/
theorem Books.dropped (h : Books s (calls ++ held)) (gone : ∀ call ∈ calls, s.gone call = true) :
    Books s held where
  made call inside := h.made call (List.mem_append_right _ inside)
  distinct := (List.nodup_append.mp h.distinct).2.1
  silent call inside := h.silent call (List.mem_append_right _ inside)
  settled call made here := by
    refine (h.settled call made here).imp_left fun inside => ?_
    refine (List.mem_append.mp inside).resolve_left fun dropped => ?_
    rw [gone call dropped] at here
    cases here
  unsent := h.unsent
  taken := h.taken

/-- A call that is sent is held. -/
theorem Books.sent (h : Books s held) (fresh : s.sent call = none) :
    Books { s with sent := Function.update s.sent call (some request) } (call :: held) := by
  have made : ∀ call', (Function.update s.sent call (some request) call').isSome ↔
      call' = call ∨ (s.sent call').isSome := by
    intro call'
    by_cases eq : call' = call
    · simp [eq]
    · simp [eq]
  have new : call ∉ held := fun inside => by
    have := h.made call inside
    simp [fresh] at this
  refine ⟨fun call' inside => ?_, List.nodup_cons.mpr ⟨new, h.distinct⟩, fun call' inside => ?_,
    fun call' made' here => ?_, fun call' unsent => ?_, h.taken⟩
  · exact (made call').mpr ((List.mem_cons.mp inside).imp_right (h.made call'))
  · rcases List.mem_cons.mp inside with rfl | before
    · exact h.unsent _ fresh
    · exact h.silent call' before
  · rcases (made call').mp made' with rfl | before
    · exact .inl List.mem_cons_self
    · exact (h.settled call' before here).imp_left (List.mem_cons_of_mem _)
  · refine h.unsent call' (Option.not_isSome_iff_eq_none.mp fun before => ?_)
    have := (made call').mpr (.inr before)
    rw [show Function.update s.sent call (some request) call' = none from unsent] at this
    cases this

/-! ## Held calls -/

/-- The calls that waiting records hold. -/
def waiters (s : State) : List CallId := s.pendingPush.flatMap PendingPush.replies

/-- The calls that are not answered yet. -/
def holds (s : State) : List CallId := s.waiters ++ s.queue.map Cmd.call

theorem waiters_pruneCancelledWaiters (s : State) :
    s.pruneCancelledWaiters.waiters = s.waiters.filter fun call => !s.gone call := by
  rw [waiters, waiters, pruneCancelledWaiters]
  induction s.pendingPush with
  | nil => rfl
  | cons p pending ih =>
    simp only [List.map_cons, List.flatMap_cons, List.filter_append]
    rw [List.filter_cons]
    split
    · rw [List.flatMap_cons, ih]
    next empty =>
      have none : p.replies.filter (fun call => !s.gone call) = [] := by simpa using empty
      rw [ih, none, List.nil_append]

theorem perm_addWaiter {messageId : String} {pending : List PendingPush} {waiting : PendingPush}
    (found : pending.find? (fun p => p.record.messageId = messageId) = some waiting) :
    ((addWaiter messageId call pending).flatMap PendingPush.replies).Perm
      (call :: pending.flatMap PendingPush.replies) := by
  induction pending with
  | nil => cases found
  | cons p pending ih =>
    rw [addWaiter]
    split
    · simp only [List.flatMap_cons, List.append_assoc]
      exact List.perm_middle
    next other =>
      rw [List.find?_cons_of_neg (by simpa using other)] at found
      simp only [List.flatMap_cons]
      exact ((ih found).append_left p.replies).trans List.perm_middle

theorem Answered.holds (h : Answered s s') : s'.holds = s.holds := by
  rw [State.holds, State.holds, waiters, waiters, h.worker, h.queue]

theorem Silent.holds (h : Silent s s') : s'.holds = s.holds := by
  rw [State.holds, State.holds, waiters, waiters, h.pendingPush, h.queue]

/-! ## The parts of a step -/

/-- One call is answered and the records stay. -/
theorem Books.one {answer : Answer} (h : Books s (call :: s.holds)) :
    Books (s.reply call answer) (s.reply call answer).holds := by
  rw [(answered_reply s call answer).holds]
  exact Books.replied h (.one ..)

theorem books_pushes {batch : ObservationBatch} (h : Books s (call :: s.holds))
    (pushes : Pushes config serde s call batch s') : Books s' s'.holds := by
  cases pushes with
  | known => exact h.one
  | @refused metrics e =>
    exact Books.one (s := { s with metrics }) (h.congr rfl rfl rfl rfl)
  | joins found =>
    refine Books.congr (h.perm ?_) rfl rfl rfl rfl
    exact (perm_addWaiter found).symm.append_right (s.queue.map Cmd.call)
  | waits =>
    refine Books.congr (h.perm ?_) rfl rfl rfl rfl
    simp only [State.holds, waiters, List.flatMap_append, List.flatMap_singleton,
      List.append_assoc]
    exact List.perm_middle.symm
  | @stores record outcome n table =>
    exact Books.one (s := s.store config call false { record with localSeq := n } table)
      (h.congr rfl rfl rfl rfl)

theorem books_pruneCancelledWaiters (h : Books s (call :: s.holds)) :
    Books s.pruneCancelledWaiters (call :: s.pruneCancelledWaiters.holds) := by
  have perm : (call :: s.holds).Perm ((s.waiters.filter fun call => !!s.gone call) ++
      (call :: s.pruneCancelledWaiters.holds)) := by
    rw [holds, holds, waiters_pruneCancelledWaiters]
    refine List.Perm.trans ?_ List.perm_middle.symm
    refine List.Perm.cons call ?_
    rw [← List.append_assoc]
    refine List.Perm.append_right _ ?_
    exact (List.perm_append_comm.trans (List.filter_append_perm _ _)).symm
  refine Books.congr ((h.perm perm).dropped fun call' inside => ?_) rfl rfl rfl rfl
  simpa using (List.mem_filter.mp inside).2

theorem books_takes {result : Except LocalBufferError (Option StoredBatch)} (h : Books s held)
    (takes : Takes serde s s' result) : Books s' held ∧ s'.holds = s.holds := by
  cases takes with
  | none => exact ⟨h, rfl⟩
  | fails | takes => exact ⟨h.congr rfl rfl rfl rfl, rfl⟩

theorem books_acks {result : Except LocalBufferError Unit} (h : Books s held)
    (acks : Acks s localSeq s' result) : Books s' held ∧ s'.holds = s.holds := by
  cases acks with
  | fails => exact ⟨h, rfl⟩
  | absent | removes | strays => exact ⟨h.congr rfl rfl rfl rfl, rfl⟩

/-- The replies of a shutdown. -/
def farewells (s : State) (call : CallId) : List (CallId × Answer) :=
  (s.pendingPush.flatMap fun p => toAll p.replies (.error .closed)) ++
    (s.queue.map fun cmd => (cmd.call, rejection cmd.request)) ++ [(call, .done (.ok ()))]

theorem map_farewells (s : State) (call : CallId) :
    (s.farewells call).map Prod.fst = s.holds ++ [call] := by
  simp only [farewells, toAll, holds, waiters, List.map_append, List.map_flatMap, List.map_map,
    Function.comp_def, List.map_id', List.map_cons, List.map_nil]

theorem replies_shutdown (s : State) (call : CallId) :
    Replies s.shut (s.farewells call) (s.shutdown call) := by
  have commands := replies_foldl replies_rejectCmd
    (s.pendingPush.foldl (fun s p => s.replyAll p.replies (.error .closed)) s.shut) s.queue
  rw [← List.map_eq_flatMap] at commands
  exact ((replies_foldl (fun s p => replies_replyAll s p.replies _) s.shut
    s.pendingPush).append commands).append (.one ..)

/-- A command answers its call or keeps it. -/
theorem books_commands {cmd : Cmd} (h : Books s (cmd.call :: s.holds))
    (commands : Commands config serde s cmd s') : Books s' s'.holds := by
  cases commands with
  | push pushes => exact books_pushes (books_pruneCancelledWaiters h) pushes
  | next takes =>
    obtain ⟨books, same⟩ := books_takes h takes
    exact (same ▸ books).one
  | @delivers call s₁ result localSeq takes =>
    obtain ⟨books, same⟩ := books_takes h takes
    exact Books.congr (s := s₁.reply call (.taken result)) (same ▸ books).one rfl rfl rfl rfl
  | @returns call s₁ result localSeq takes _ gone =>
    obtain ⟨books, same⟩ := books_takes h takes
    have requeued := (requeued_handleRequeue s₁ localSeq).silent
    rw [requeued.holds, same]
    have books : Books s₁ ([call] ++ s.holds) := books
    refine (books.dropped fun call' inside => ?_).quiet requeued
    rw [List.mem_singleton.mp inside]
    exact gone
  | ack acks =>
    obtain ⟨books, same⟩ := books_acks h acks
    exact (same ▸ books).one
  | @requeue call localSeq =>
    have requeued := (requeued_handleRequeue s localSeq).silent
    refine Books.one ?_
    rw [requeued.holds]
    exact h.quiet requeued
  | @shutdown call =>
    have same := answered_shutdown s call
    rw [same.holds]
    have books : Books s.shut ((s.farewells call).map Prod.fst ++ []) := by
      rw [List.append_nil, map_farewells]
      exact (h.perm (List.perm_append_singleton call s.holds).symm).congr rfl rfl rfl rfl
    exact books.replied (replies_shutdown s call)

/-- The callers of the first waiting record are answered. -/
theorem Books.popped {front : PendingPush} {rest : List PendingPush} (h : Books s s.holds)
    (eq : s.pendingPush = front :: rest) (silent : Silent { s with pendingPush := rest } s')
    {result : Except LocalBufferError Unit} (done : Replies s' (toAll front.replies result) s'') :
    Books s'' s''.holds := by
  have held : s.holds = (toAll front.replies result).map Prod.fst ++
      { s with pendingPush := rest }.holds := by
    simp [State.holds, waiters, eq, toAll, Function.comp_def]
  rw [held, ← silent.holds] at h
  rw [done.answered.holds]
  exact (h.congr silent.sent silent.answers silent.gone silent.extracted).replied done

theorem books_flushes {progress : Bool} {outcome : Except String Nat} (h : Books s s.holds)
    (flushes : Flushes config s progress outcome s') : Books s' s'.holds := by
  cases flushes with
  | leaves => exact h.congr rfl rfl rfl rfl
  | @stores front rest n table eq =>
    have silent : Silent { s with pendingPush := rest }
      ({ s with pendingPush := rest }.store config
        front.first true { front.record with localSeq := n } table) :=
      ⟨rfl, rfl, rfl, rfl, rfl, rfl⟩
    have books := h.popped eq silent (replies_replyAll _ front.replies (.ok ()))
    exact books.congr rfl rfl rfl rfl
  | @fails front rest e eq =>
    exact h.popped eq ⟨rfl, rfl, rfl, rfl, rfl, rfl⟩ (replies_replyAll _ front.replies (.error e))

/-! ## All steps -/

/-- The books of the worker; once it is gone, it holds no call of a caller that
is there. -/
structure Kept (s : State) : Prop where
  books : Books s s.holds
  closed : s.pc = .closed → ∀ call ∈ s.holds, s.gone call = true

/-- No step loses a call or answers it again. -/
theorem Kept.step (h : s.Kept) (move : Move config serde s label s') : s'.Kept := by
  cases move with
  | @send call request fresh live room =>
    refine ⟨?_, fun closed => absurd closed live⟩
    refine Books.congr ((h.books.sent fresh).perm ?_) rfl rfl rfl rfl
    simp only [holds, List.map_append, List.map_cons, List.map_nil]
    rw [← List.append_assoc]
    exact (List.perm_append_singleton _ _).symm
  | @refused call request fresh closed =>
    have same := answered_reply
      { s with sent := Function.update s.sent call (some request) } call (refusal request)
    refine ⟨Books.one (h.books.sent fresh), fun _ => ?_⟩
    rw [same.holds, same.gone]
    exact h.closed closed
  | @giveUp call made =>
    have later : ∀ call', s.gone call' = true →
      Function.update s.gone call true call' = true := by
      intro call' gone
      by_cases eq : call' = call <;> simp [eq, gone]
    refine ⟨⟨h.books.made, h.books.distinct, h.books.silent, fun call' made here => ?_,
      h.books.unsent, h.books.taken⟩, fun closed call' inside => ?_⟩
    · refine h.books.settled call' made (Bool.eq_false_iff.mpr fun gone => ?_)
      exact Bool.eq_false_iff.mp here (later call' gone)
    · exact later call' (h.closed closed call' inside)
  | @extract call answered _ here =>
    refine ⟨⟨h.books.made, h.books.distinct, h.books.silent, h.books.settled, h.books.unsent,
      fun call' taken => ?_⟩, h.closed⟩
    by_cases eq : call' = call
    · subst eq
      have made : (s.sent call').isSome := by
        refine Option.isSome_iff_ne_none.mpr fun unsent => ?_
        exact answered (h.books.unsent call' unsent)
      exact (h.books.settled call' made here).resolve_left fun inside =>
        answered (h.books.silent call' inside)
    · exact h.books.taken call' (extract_extracted eq ▸ taken)
  | @round cutoffNs cleanup load _ =>
    have silent := silent_round config s cutoffNs cleanup load
    refine ⟨?_, nofun⟩
    rw [silent.holds]
    exact h.books.quiet silent
  | flush at' flushes =>
    refine ⟨books_flushes h.books flushes, fun closed => ?_⟩
    exact absurd closed (flushes.alive at')
  | timeout at' => exact ⟨h.books.congr rfl rfl rfl rfl, nofun⟩
  | @receive cmd queue _ _ _ _ _ eq commands =>
    have silent := silent_handling s queue
    have books : Books (s.handling queue) (cmd.call :: (s.handling queue).holds) := by
      rw [silent.holds]
      refine Books.congr (h.books.perm ?_) silent.sent silent.answers silent.gone silent.extracted
      simp only [holds, waiters, eq, List.map_cons]
      exact List.perm_middle
    refine ⟨books_commands books commands, fun closed => ?_⟩
    rcases commands.ends with ⟨pc, _⟩ | ⟨_, queue, pending⟩
    · rw [pc, handling_pc] at closed
      cases closed
    · simp [holds, waiters, queue, pending]
  | hangUp at' empty gone =>
    refine ⟨h.books.congr rfl rfl rfl rfl, fun _ call inside => ?_⟩
    have inside : call ∈ s.pendingPush.flatMap PendingPush.replies := by
      simpa [holds, waiters, empty] using inside
    obtain ⟨p, here, waits⟩ := List.mem_flatMap.mp inside
    exact gone p here call waits
  | restart =>
    refine ⟨⟨nofun, List.nodup_nil, nofun, fun call made here => .inr ?_, h.books.unsent,
      h.books.taken⟩, nofun⟩
    -- The callers that are left have taken their answers.
    have gone : (s.gone call || ((s.sent call).isSome && !s.extracted call)) = false := here
    rw [Bool.or_eq_false_iff, show (s.sent call).isSome = true from made, Bool.true_and,
      Bool.not_eq_false'] at gone
    exact h.books.taken call gone.2

theorem Kept.opened (config : LocalBufferConfig) (table : Batches) :
    (State.opened config table).Kept :=
  ⟨⟨nofun, List.nodup_nil, nofun, nofun, fun _ _ => rfl, nofun⟩, nofun⟩

/-- No call of any kind is lost or answered twice: at every point of a run it is held in one
place and has no answer, or is held nowhere and has one. -/
theorem call_answered_once {table : Batches} {labels : List Label}
    (run : (bufferMachine config serde).Run Machine.Always (.opened config table) labels s)
    (made : (s.sent call).isSome) (here : s.gone call = false) :
    s.holds.count call = 1 ∧ s.answers call = [] ∨
      call ∉ s.holds ∧ (s.answers call).length = 1 := by
  have kept : s.Kept := run.invariant (Kept.opened config table) fun _ _ _ kept _ taken =>
    kept.step (step_move taken)
  by_cases held : call ∈ s.holds
  · exact .inl ⟨List.count_eq_one_of_mem kept.books.distinct held, kept.books.silent call held⟩
  · exact .inr ⟨held, (kept.books.settled call made here).resolve_left held⟩

/-- One call is answered, the next still waits. -/
theorem call_answered_once_sample :
    ∃ s, (bufferMachine sampleConfig sampleSerde).Run Machine.Always (.opened sampleConfig .empty)
        (served 0 .next ++ [.send 1 .shutdown]) s ∧
      ((s.sent 0).isSome ∧ s.gone 0 = false ∧ s.holds = [1]) ∧
      (s.holds.count 0 = 1 ∧ s.answers 0 = [] ∨ 0 ∉ s.holds ∧ (s.answers 0).length = 1) :=
  Machine.Run.find (by decide) fun s run seen => call_answered_once run seen.1 seen.2.1

/-! ## What was asked -/

theorem Commands.sent {cmd : Cmd} (commands : Commands config serde s cmd s') :
    s'.sent = s.sent := by
  cases commands with
  | push pushes => cases pushes <;> simp [pruneCancelledWaiters, store]
  | next takes => cases takes <;> simp
  | delivers takes => cases takes <;> simp [awaitConfirm]
  | returns takes =>
    rw [(requeued_handleRequeue _ _).sent]
    cases takes <;> rfl
  | ack acks => cases acks <;> simp
  | requeue => simp [(requeued_handleRequeue _ _).sent]
  | shutdown => exact (answered_shutdown s ‹_›).sent

theorem Flushes.sent {progress : Bool} {outcome : Except String Nat}
    (flushes : Flushes config s progress outcome s') : s'.sent = s.sent := by
  cases flushes with
  | leaves => rfl
  | stores | fails => exact (answered_replyAll ..).sent

/-- A request stays what it was. -/
theorem Move.sent (move : Move config serde s label s') (made : s.sent call = some request) :
    s'.sent call = some request := by
  have other : ∀ {call' request'}, s.sent call' = none →
      Function.update s.sent call' (some request') call = some request := by
    intro call' request' fresh
    rw [Function.update_of_ne, made]
    rintro rfl
    rw [fresh] at made
    cases made
  cases move with
  | send fresh => exact other fresh
  | refused fresh =>
    rw [reply_sent]
    exact other fresh
  | giveUp | extract | timeout | hangUp | restart => exact made
  | round => rwa [(silent_round ..).sent]
  | flush _ flushes => rwa [flushes.sent]
  | receive _ _ commands => rwa [commands.sent, (silent_handling ..).sent]

theorem Move.sends (move : Move config serde s (.send call request) s') :
    s'.sent call = some request := by
  cases move with
  | send => exact Function.update_self ..
  | refused =>
    rw [reply_sent]
    exact Function.update_self ..

/-- The calls in the channel and of the waiting records asked for what the
worker takes them for. -/
structure Named (serde : Serde) (s : State) : Prop where
  queue : ∀ cmd ∈ s.queue, s.sent cmd.call = some cmd.request
  waits : ∀ p ∈ s.pendingPush, ∀ call ∈ p.replies,
    ∃ batch, s.sent call = some (.push batch) ∧ batch.messageId = p.record.messageId
  first : ∀ p ∈ s.pendingPush, ∃ batch, s.sent p.first = some (.push batch) ∧
    IsRecord serde batch p.record

theorem Named.opened (config : LocalBufferConfig) (table : Batches) :
    (State.opened config table).Named serde :=
  ⟨nofun, nofun, nofun⟩

/-- A waiting record is what its calls asked for. -/
theorem Named.step (h : s.Named serde) (move : Move config serde s label s') : s'.Named serde := by
  obtain ⟨asked, new, effect, asks⟩ := move.effect
  have asked_sent : ∀ {call batch}, asked = some (call, batch) →
      s'.sent call = some (.push batch) := fun eq => move.sent (h.queue _ (asks _ _ eq))
  refine ⟨fun cmd inside => ?_, fun p inside call waits => ?_, fun p inside => ?_⟩
  · rcases move.queue cmd inside with before | rfl
    · exact move.sent (h.queue cmd before)
    · exact move.sends
  · cases effect.pending p inside with
    | @kept p₀ inside₀ continues _ =>
      rw [continues.record]
      rcases continues.replies call waits with before | ⟨batch, eq, same⟩
      · obtain ⟨batch, made, same⟩ := h.waits p₀ inside₀ call before
        exact ⟨batch, move.sent made, same⟩
      · exact ⟨batch, asked_sent eq, same⟩
    | @pushed batch eq of alone _ =>
      rw [alone, List.mem_singleton] at waits
      exact ⟨batch, waits ▸ asked_sent eq, of.messageId.symm⟩
  · cases effect.pending p inside with
    | @kept p₀ inside₀ continues _ =>
      obtain ⟨batch, made, of⟩ := h.first p₀ inside₀
      rw [continues.record, continues.first]
      exact ⟨batch, move.sent made, of⟩
    | @pushed batch eq of alone _ => exact ⟨batch, asked_sent eq, of⟩

end State

end ForgeLink.Buffer
