import Znet.Lib.Machine
import Znet.Tcp

/-!
# The stream under a failing socket

`WriteAll` hands a frame to the socket in as many pieces as the socket takes it in, under
`write_mutex_`.  The socket may take any part of what is left, be full, or fail, and waiting for
it may fail; the application may close from its own thread between any two of these.

* `spared`, `stream_unbroken` — **no byte follows a frame that was cut short**, as long as no
  failure hits a frame of which a part is out.
-/

namespace Znet
namespace Tcp

/-! ## Writes -/

/-- A frame, and how much of it the socket has taken. -/
structure Write where
  frame : List UInt8
  taken : Nat := 0
  deriving DecidableEq

/-- The bytes of a list of writes. -/
def pieces (writes : List Write) : List UInt8 := writes.flatMap fun w => w.frame.take w.taken

/-- After a frame that was written only in part, nothing is written. -/
def Unbroken (writes : List Write) : Prop :=
  writes.Pairwise fun a b => 0 < a.taken → a.taken < a.frame.length → b.taken = 0

instance decidableUnbroken (writes : List Write) : Decidable (Unbroken writes) :=
  inferInstanceAs (Decidable (List.Pairwise _ _))

/-- The frames of which something was written. -/
def startedFrames (writes : List Write) : List (List UInt8) :=
  (writes.filter fun w => 0 < w.taken).map Write.frame

@[simp] theorem pieces_nil : pieces [] = [] := rfl

@[simp] theorem pieces_cons (w : Write) (writes : List Write) :
    pieces (w :: writes) = w.frame.take w.taken ++ pieces writes := rfl

@[simp] theorem pieces_append (writes writes' : List Write) :
    pieces (writes ++ writes') = pieces writes ++ pieces writes' :=
  List.flatMap_append

theorem pieces_eq_nil {writes : List Write} (h : ∀ w ∈ writes, w.taken = 0) :
    pieces writes = [] := by
  induction writes with
  | nil => rfl
  | cons w writes ih =>
    have hw := h w List.mem_cons_self
    simp [hw, ih fun w' hw' => h w' (List.mem_cons_of_mem _ hw')]

/-- **What the peer sees** of an unbroken list of writes is a prefix of whole frames. -/
theorem pieces_isPrefix {writes : List Write} (h : Unbroken writes) :
    pieces writes <+: (startedFrames writes).flatten := by
  induction writes with
  | nil => exact List.nil_prefix
  | cons w writes ih =>
    obtain ⟨hafter, hrest⟩ := List.pairwise_cons.1 h
    rcases Nat.eq_zero_or_pos w.taken with hzero | hpos
    · simpa [startedFrames, hzero] using ih hrest
    · have hstarted : (startedFrames (w :: writes)).flatten =
          w.frame ++ (startedFrames writes).flatten := by
        simp [startedFrames, hpos]
      rw [hstarted, pieces_cons]
      by_cases hpart : w.taken < w.frame.length
      · rw [pieces_eq_nil fun w' hw' => hafter w' hw' hpos hpart, List.append_nil]
        have htaken := List.take_prefix w.taken w.frame
        exact htaken.trans (List.prefix_append _ _)
      · rw [List.take_of_length_le (not_lt.1 hpart)]
        exact (List.prefix_append_right_inj _).2 (ih hrest)

/-- A write that ended took all of its frame, or nothing. -/
def Write.Whole (w : Write) : Prop := w.taken = 0 ∨ w.taken = w.frame.length

theorem unbroken_of_whole {writes : List Write} (h : ∀ w ∈ writes, w.Whole) (last : Option Write) :
    Unbroken (writes ++ last.toList) := by
  have hno : ∀ w ∈ writes, 0 < w.taken → ¬w.taken < w.frame.length := by
    intro w hw hpos
    rcases h w hw with hzero | hall <;> omega
  refine List.pairwise_append.2 ⟨?_, by cases last <;> simp, ?_⟩
  · apply List.pairwise_of_forall_mem_list
    intro w hw w' _ hpos hpart
    exact absurd hpart (hno w hw hpos)
  · intro w hw w' _ hpos hpart
    exact absurd hpart (hno w hw hpos)

/-! ## `Send`, `SendControl` and `WriteAll` -/

/-- A buffer as the pipeline hands it over. -/
structure Message where
  buffer : Buffer
  within : buffer.Within
  stored : buffer.storage ≠ none

/-- What an open transport's `Send` gives to `WriteAll`. -/
def framed (b : Buffer) : Option Buffer :=
  let payloadSize := b.readableBytes
  if payloadSize = 0 then none
  else if TcpTransport.sendLimit ≤ payloadSize + 2 ∨ 0xFFFF < payloadSize then none
  else
    let high := UInt8.ofNat (payloadSize >>> 8)
    let low := UInt8.ofNat (payloadSize &&& 0xFF)
    if 2 ≤ b.readCursor then some (TcpTransport.frameInPlace b high low)
    else some (TcpTransport.frameCopied b payloadSize high low)

/-- What `SendControl` gives to it. -/
def controlFrame (type : UInt8) : Buffer :=
  (((Buffer.reserveExact {} 3).writeNumber 1 0).writeNumber 1 0).writeNumber 1 type.toNat

/-- The writer that holds `write_mutex_`; `checked` between its look at `IsClosed` and the call of
`SocketSend`. -/
structure Writer extends Write where
  checked : Bool := false
  deriving DecidableEq

structure TcpStream where
  isClosed : Bool := false
  /-- Callers that wait for the lock, with their frames. -/
  waiting : List (List UInt8) := []
  writer : Option Writer := none
  /-- The bytes the socket took. -/
  stream : List UInt8 := []
  /-- History: the writes that have ended. -/
  ended : List Write := []
  deriving DecidableEq

variable (s : TcpStream)

/-- All writes, in the order of the lock. -/
def TcpStream.writes : List Write :=
  s.ended ++ (s.writer.map Writer.toWrite).toList

/-- A call passes its check of `IsClosed` and brings its frame. -/
def TcpStream.call (frame : Option Buffer) : TcpStream :=
  if s.isClosed then s
  else { s with waiting := s.waiting ++ (frame.map Buffer.readableData).toList }

/-- `WriteAll` returns. -/
def TcpStream.leave (w : Writer) : TcpStream :=
  { s with writer := none, ended := s.ended ++ [w.toWrite] }

inductive StreamEvent where
  | send (message : Message)
  | sendControl (type : UInt8)
  /-- A waiting caller gets the lock. -/
  | lock (i : Nat)
  /-- The check of `IsClosed` at the head of the loop. -/
  | check
  /-- `SocketSend` takes this many bytes. -/
  | take (n : Nat)
  /-- `SocketSend` would block, and the wait succeeds. -/
  | stall
  /-- `SocketSend` would block, and the wait fails. -/
  | stallFails
  /-- `SocketSend` fails, or takes nothing. -/
  | fail
  /-- The loop ends. -/
  | finish
  | close

/-- The writer stands where `SocketSend` returns. -/
def TcpStream.sending (next : Writer → TcpStream) : Option TcpStream :=
  s.writer.bind fun w => if w.checked then some (next w) else none

/-- The stream under any callers and any socket. -/
def tcpStream : Machine TcpStream StreamEvent where
  step s
    | .send message => some (s.call (framed message.buffer))
    | .sendControl type => some (s.call (some (controlFrame type)))
    | .lock i =>
      if s.writer.isNone then
        s.waiting[i]?.map fun frame =>
          { s with waiting := s.waiting.eraseIdx i, writer := some { frame } }
      else none
    | .check =>
      s.writer.bind fun w =>
        if w.checked = false ∧ w.taken < w.frame.length then
          some (if s.isClosed then s.leave w
            else { s with writer := some { w with checked := true } })
        else none
    | .take n =>
      s.writer.bind fun w =>
        if w.checked ∧ 0 < n ∧ w.taken + n ≤ w.frame.length then
          some { s with
            stream := s.stream ++ (w.frame.drop w.taken).take n
            writer := some { w with taken := w.taken + n, checked := false } }
        else none
    | .stall => s.sending fun w => { s with writer := some { w with checked := false } }
    | .stallFails => s.sending s.leave
    | .fail => s.sending s.leave
    | .finish =>
      s.writer.bind fun w => if w.taken = w.frame.length then some (s.leave w) else none
    | .close => some { s with isClosed := true }

/-! ## Complete frames -/

/-- The bytes of one frame, from the length to the end of the body. -/
def Complete (frame : List UInt8) : Prop := ∃ item : Item, item.Ok ∧ frame = item.bytes

theorem readableData_controlFrame (type : UInt8) :
    (controlFrame type).readableData = (Item.control type).bytes := by
  have hempty : Carries (Buffer.reserveExact {} 3) [] := (Carries.headroom 0).reserveExact 3
  have hframe := ((hempty.writeNumber 1 0).writeNumber 1 0).writeNumber 1 type.toNat
  have hzero : Bytes.le 1 0 = [0] := by decide
  have htype : Bytes.le 1 type.toNat = [type] := by simp [Bytes.le]
  rw [hzero, htype] at hframe
  exact hframe.readableData

/-- `Send` gives to `WriteAll` what the transport's own `send` writes. -/
theorem send_eq_framed (t : TcpTransport) (b : Buffer) (hopen : t.isClosed = false) :
    t.send b = match framed b with
      | none => (false, t)
      | some frame => (true, t.writeAll frame) := by
  unfold TcpTransport.send framed
  dsimp only
  rw [if_neg (by simp [hopen])]
  split
  · rfl
  · split
    · rfl
    · split <;> rfl

theorem complete_framed {message : Message} {frame : Buffer}
    (h : framed message.buffer = some frame) : Complete frame.readableData := by
  obtain ⟨b, hwithin, hstored⟩ := message
  have hsize : Sendable b.readableBytes := by
    by_contra hsize
    have hnone : framed b = none := by
      unfold framed Sendable at *
      dsimp only
      split
      · rfl
      · rw [if_pos (by omega)]
    cases hnone.symm.trans h
  have hsend := send_eq_framed {} b rfl
  rw [h, send_eq {} rfl hwithin hstored hsize] at hsend
  have hsent : [frameBytes b.readableData] = [frame.readableData] :=
    congrArg (fun r => r.2.sent) hsend
  refine ⟨.message b.readableData, ?_, (List.singleton_inj.1 hsent).symm⟩
  show Sendable b.readableData.length
  rwa [Buffer.length_readableData]

/-! ## What every step keeps -/

/-- The stream is what the writes took, every frame is complete, and on an open transport no write
has ended in the middle of its frame. -/
structure Sound : Prop where
  stream : s.stream = pieces s.writes
  waiting : ∀ frame ∈ s.waiting, Complete frame
  writes : ∀ w ∈ s.writes, Complete w.frame
  ended : s.isClosed = false → ∀ w ∈ s.ended, w.Whole

/-- No failure hits a frame of which a part is out, unless the transport is closed. -/
def spared : StreamEvent → Bool
  | .stallFails | .fail => s.isClosed || s.writer.all fun w => w.taken == 0
  | _ => true

variable {s s' : TcpStream} {w : Writer}

theorem writes_of_writer (hw : s.writer = some w) : s.writes = s.ended ++ [w.toWrite] := by
  simp [TcpStream.writes, hw]

theorem Sound.call (h : Sound s) {frame : Option Buffer}
    (hframe : ∀ f, frame = some f → Complete f.readableData) : Sound (s.call frame) := by
  unfold TcpStream.call
  split
  · exact h
  · refine { h with waiting := fun f hf => ?_ }
    rcases List.mem_append.1 hf with hf | hf
    · exact h.waiting f hf
    · obtain ⟨b, hb, rfl⟩ : ∃ b, frame = some b ∧ b.readableData = f := by simpa using hf
      exact hframe b hb

theorem Sound.lock (h : Sound s) (hnone : s.writer = none) {i : Nat} {frame : List UInt8}
    (hi : s.waiting[i]? = some frame) :
    Sound { s with waiting := s.waiting.eraseIdx i, writer := some { frame } } := by
  have hwrites : s.writes = s.ended := by simp [TcpStream.writes, hnone]
  refine ⟨?_, fun f hf => h.waiting f (List.mem_of_mem_eraseIdx hf), fun w' hw' => ?_, h.ended⟩
  · rw [writes_of_writer rfl, pieces_append, ← hwrites, ← h.stream]
    simp
  · rcases List.mem_append.1 hw' with hw' | hw'
    · exact h.writes w' (hwrites ▸ hw')
    · obtain rfl := List.mem_singleton.1 hw'
      exact h.waiting frame (List.mem_of_getElem? hi)

/-- Only the flag of the writer changes. -/
theorem Sound.reflag (h : Sound s) (hw : s.writer = some w) (checked : Bool) :
    Sound { s with writer := some { w with checked } } := by
  have hwrites := writes_of_writer hw
  refine ⟨?_, h.waiting, ?_, h.ended⟩
  · rw [writes_of_writer rfl, h.stream, hwrites]
  · rw [writes_of_writer rfl, ← hwrites]
    exact h.writes

theorem Sound.take (h : Sound s) (hw : s.writer = some w) {n : Nat} :
    Sound { s with
      stream := s.stream ++ (w.frame.drop w.taken).take n
      writer := some { w with taken := w.taken + n, checked := false } } := by
  have hwrites := writes_of_writer hw
  refine ⟨?_, h.waiting, fun w' hw' => ?_, h.ended⟩
  · have htaken : w.frame.take (w.taken + n) = w.frame.take w.taken ++
        (w.frame.drop w.taken).take n :=
      List.take_add
    rw [writes_of_writer rfl, h.stream, hwrites]
    simp [htaken]
  · rcases List.mem_append.1 hw' with hw' | hw'
    · exact h.writes w' (hwrites ▸ List.mem_append_left _ hw')
    · obtain rfl := List.mem_singleton.1 hw'
      exact h.writes w.toWrite (hwrites ▸ List.mem_append_right _ List.mem_cons_self)

/-- A write ends with its frame out, or with nothing of it, or on a closed transport. -/
theorem Sound.leave (h : Sound s) (hw : s.writer = some w)
    (hend : s.isClosed = true ∨ w.toWrite.Whole) : Sound (s.leave w) := by
  have hwrites : (s.leave w).writes = s.writes := by
    simp [TcpStream.writes, TcpStream.leave, hw]
  refine ⟨?_, h.waiting, ?_, fun hopen w' hw' => ?_⟩
  · rw [hwrites]
    exact h.stream
  · rw [hwrites]
    exact h.writes
  · rcases List.mem_append.1 hw' with hw' | hw'
    · exact h.ended hopen w' hw'
    · obtain rfl := List.mem_singleton.1 hw'
      have hopen' : s.isClosed = false := hopen
      exact hend.resolve_left (by simp [hopen'])

theorem Sound.fail (h : Sound s) (hspared : s.isClosed || s.writer.all fun w => w.taken == 0)
    (hstep : s.sending s.leave = some s') : Sound s' := by
  obtain ⟨w, hw, hnext⟩ := Option.bind_eq_some_iff.1 hstep
  obtain ⟨-, hnext⟩ := Option.ite_none_right_eq_some.1 hnext
  cases hnext
  refine h.leave hw ?_
  rcases Bool.or_eq_true_iff.1 hspared with hclosed | hzero
  · exact .inl hclosed
  · exact .inr (.inl (by simpa [hw] using hzero))

theorem sound_step {e : StreamEvent} (h : Sound s) (hspared : spared s e)
    (hstep : tcpStream.step s e = some s') : Sound s' := by
  cases e with
  | send message =>
    cases hstep
    exact h.call fun f hf => complete_framed hf
  | sendControl type =>
    cases hstep
    apply h.call
    rintro f ⟨⟩
    exact ⟨.control type, trivial, readableData_controlFrame type⟩
  | lock i =>
    obtain ⟨hnone, hsome⟩ := Option.ite_none_right_eq_some.1 hstep
    obtain ⟨frame, hi, rfl⟩ := Option.map_eq_some_iff.1 hsome
    exact h.lock (by simpa using hnone) hi
  | check =>
    obtain ⟨w, hw, hnext⟩ := Option.bind_eq_some_iff.1 hstep
    obtain ⟨-, hnext⟩ := Option.ite_none_right_eq_some.1 hnext
    cases hnext
    split
    · next hclosed => exact h.leave hw (.inl hclosed)
    · exact h.reflag hw true
  | take n =>
    obtain ⟨w, hw, hnext⟩ := Option.bind_eq_some_iff.1 hstep
    obtain ⟨-, hnext⟩ := Option.ite_none_right_eq_some.1 hnext
    cases hnext
    exact h.take hw
  | stall =>
    obtain ⟨w, hw, hnext⟩ := Option.bind_eq_some_iff.1 hstep
    obtain ⟨-, hnext⟩ := Option.ite_none_right_eq_some.1 hnext
    cases hnext
    exact h.reflag hw false
  | stallFails | fail => exact h.fail hspared hstep
  | finish =>
    obtain ⟨w, hw, hnext⟩ := Option.bind_eq_some_iff.1 hstep
    obtain ⟨hall, hnext⟩ := Option.ite_none_right_eq_some.1 hnext
    cases hnext
    exact h.leave hw (.inr (.inr hall))
  | close =>
    cases hstep
    exact { h with ended := by simp }

theorem sound_of_run {es : List StreamEvent}
    (hrun : GuardedRun tcpStream (fun s e => spared s e) {} es s) : Sound s := by
  refine hrun.invariant (I := Sound) (fun _ _ _ h hspared hstep => sound_step h hspared hstep) ?_
  exact ⟨rfl, by simp, by simp [TcpStream.writes], by simp⟩

/-- **No byte follows a frame that was cut short.**  In every run in which no failure hits a frame
of which a part is out, as long as the transport is open: once a frame was written only in part
nothing is written of a later one, and the bytes the socket took are a prefix of complete frames
one after the other. -/
theorem stream_unbroken {es : List StreamEvent} {s : TcpStream}
    (hrun : GuardedRun tcpStream (fun s e => spared s e) {} es s) (hopen : s.isClosed = false) :
    Unbroken s.writes ∧ s.stream = pieces s.writes ∧
      ∃ frames : List (List UInt8), (∀ frame ∈ frames, Complete frame) ∧
        s.stream <+: frames.flatten := by
  have h := sound_of_run hrun
  have hunbroken : Unbroken s.writes := unbroken_of_whole (h.ended hopen) _
  refine ⟨hunbroken, h.stream, startedFrames s.writes, fun frame hframe => ?_, ?_⟩
  · obtain ⟨w, hw, rfl⟩ := List.mem_map.1 hframe
    exact h.writes w (List.mem_of_mem_filter hw)
  · rw [h.stream]
    exact pieces_isPrefix hunbroken

/-- A ping of which the socket takes two bytes, and a pong that waits behind it. -/
def pingInParts : List StreamEvent :=
  [.sendControl 1, .sendControl 2, .lock 0, .check, .take 2, .check]

/-- The rest of the ping goes out before the pong. -/
theorem stream_unbroken_ping :
    ∃ s, GuardedRun tcpStream (fun s e => spared s e) {}
        (pingInParts ++ [.stall, .check, .take 1, .finish, .lock 0, .check, .take 1]) s ∧
      s.stream = [0, 0, 1, 0] ∧ Unbroken s.writes := by
  apply GuardedRun.exists_run (P := fun s => s.isClosed = false ∧ s.stream = [0, 0, 1, 0])
    (by decide +kernel)
  rintro s hrun ⟨hopen, hstream⟩
  exact ⟨hstream, (stream_unbroken hrun hopen).1⟩

/-- **A frame cut short.**  The socket fails with one byte of the ping left; the transport stays
open, and the pong goes out behind the two bytes. -/
theorem failed_frame_is_followed :
    (tcpStream.exec {} (pingInParts ++ [.fail, .lock 0, .check, .take 3, .finish])).map
      (fun s => (s.isClosed, s.stream, s.writes, decide (Unbroken s.writes))) =
      some (false, [0, 0, 0, 0, 2], [⟨[0, 0, 1], 2⟩, ⟨[0, 0, 2], 3⟩], false) := by
  decide +kernel

end Tcp
end Znet
