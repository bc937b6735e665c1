import ForgeLink.Drivers.Replies

/-!
# What a failed call does with the stream

A stream on which an answer was not understood must not be used again.  The
functions that read and write the stream drop it when they fail; `Hung` says
this of an end.
-/

namespace ForgeLink.Drivers

open Lib

variable {κ : Type}

/-- A driver error leaves no stream. -/
def Hung (stop : Stop) (t : Session κ) : Prop := ∀ e, stop = .error e → t.stream = false

/-- An end without a stream is fine. -/
def Closes (E : Stop → Session κ → Prop) : Prop := ∀ stop t, t.stream = false → E stop t

theorem hung_closes : Closes (Hung (κ := κ)) := fun _ _ closed _ _ => closed

/-! ## The session layer -/

section

variable (peer : Peer) {s : Session κ} {E : Stop → Session κ → Prop}

theorem wp_dialAll (targets : List Nat) (last : Option IoError) :
    wp (dialAll peer targets last)
      (fun result t => t.stream = s.stream ∧
        (result = .ok () → ∀ answer, unread answer t.log = [])) E s := by
  induction targets generalizing s last with
  | nil => exact ⟨rfl, nofun⟩
  | cons target targets ih =>
    rw [dialAll, wp_bind, wp_ask]
    cases peer.dial s.log target with
    | ok _ => exact ⟨rfl, fun _ _ => rfl⟩
    | error e => exact ih (some e)

/-- Connecting does not touch the old stream, and nothing lies unread on the new one. -/
theorem wp_tcpConnect (host : String) (port : UInt16) :
    wp (tcpConnect peer host port)
      (fun _ t => t.stream = s.stream ∧ ∀ answer, unread answer t.log = [])
      (fun _ t => t.stream = s.stream) s := by
  rw [tcpConnect, wp_bind, wp_ask]
  cases peer.resolve s.log with
  | error e => rfl
  | ok targets =>
    refine wp_seq (wp_dialAll peer (E := fun _ _ => False) (List.range targets) none)
      (fun result t dialled => ?_) fun _ _ => False.elim
    obtain ⟨stream, fresh⟩ := dialled
    cases result with
    | ok _ =>
      simp only [wp_bind, wp_ask]
      exact ⟨stream, fun answer => fresh rfl answer⟩
    | error last => exact stream

theorem wp_retry (closes : Closes E) (hangs : ∀ stop t, E stop t → Hung stop t)
    {connect : DriverM κ Unit} {Q : Unit → Session κ → Prop}
    (once : ∀ s, s.stream = false → wp connect Q E s) (attempts : Nat)
    (closed : s.stream = false) : wp (retry connect attempts) Q E s := by
  induction attempts generalizing s with
  | zero => exact closes _ s closed
  | succ attempts ih =>
    rw [retry, wp_bind, wp_attempt]
    refine wp_mono (once s closed) (fun _ _ connected => connected) fun stop t ended => ?_
    cases stop with
    | panic => exact ended
    | error e =>
      have closed := hangs _ t ended e rfl
      simp only [wp_ite, wp_fail]
      exact ⟨fun _ => closes _ t closed, fun _ => ih closed⟩

/-- A `disconnect` before an error. -/
def Drops (disconnect : DriverM κ Unit) : Prop :=
  ∀ s, wp disconnect (fun _ t => t.stream = false) (fun _ _ => False) s

theorem Drops.fail {disconnect : DriverM κ Unit} (drops : Drops disconnect) (closes : Closes E)
    {α : Type} {Q : α → Session κ → Prop} (e : DriverErrorInfo) :
    wp (do disconnect; Drivers.fail e) Q E s := by
  exact wp_seq (drops s) (fun _ t closed => closes _ t closed) fun _ _ => False.elim

variable {disconnect : DriverM κ Unit}

theorem wp_sendStream (drops : Drops disconnect) (closes : Closes E) (kind : FrameKind)
    (frame : Bytes) :
    wp (sendStream peer disconnect kind frame)
      (fun _ t => s.stream = true ∧ t = { s with log := .sent kind frame :: s.log }) E s := by
  rw [sendStream, wp_bind, wp_isConnected, wp_ite]
  refine ⟨fun connected => ?_, fun closed => closes _ s (by simpa using closed)⟩
  rw [wp_bind, writeAll, wp_ask]
  cases peer.writeAll s.log frame with
  | ok _ => exact ⟨connected, rfl⟩
  | error e => exact drops.fail closes _

theorem wp_readStream (drops : Drops disconnect) (closes : Closes E) (len : Nat) :
    wp (readStream peer disconnect len)
      (fun bytes t => t = { s with log := .awaited len :: s.log } ∧
        ∃ answer, peer.readExact s.log len = .ok answer ∧ bytes = List.ofFn answer) E s := by
  rw [readStream, wp_bind, readExact, wp_ask]
  cases peer.readExact s.log len with
  | ok answer => exact ⟨rfl, answer, rfl, rfl⟩
  | error e => exact drops.fail closes _

theorem drops_dropStream : Drops (dropStream : DriverM κ Unit) := fun _ => rfl

end

end ForgeLink.Drivers
