import Znet.Zdt.Offline

/-!
# The handshake of a client

`ZDTClientBackend::Handshake`: a Request1 on every rung of the MTU ladder until a Reply1 comes
back, then a Request2 until a Reply2 does.  The socket is polled; what a poll gives, and when a
deadline passes, is the environment's, and where it gives nothing more every deadline passes.

* `handshake_silenced` — **what is no answer makes no difference.**
* `handshake_indifferent_iff` — **and what is an answer does**: nobody looks at the source.
-/

namespace Znet
namespace Zdt

/-! ## The function -/

/-- What a poll of the socket gives, or that the deadline has passed before it. -/
inductive Poll where
  | wouldBlock
  | error
  | received (source : Endpoint) (bytes : List UInt8)
  | deadline
  deriving DecidableEq

structure ClientOptions where
  mtuLadder : MTULadder := .standard
  handshakeRetriesPerRung : Int := 4
  maxRetries : Int := 10
  enableConnectionMigration : Bool := false

deriving instance DecidableEq for ZDTConnection

/-- `ZDTConnection` as a handshake leaves it. -/
structure Connected extends ZDTConnection where
  remoteGuid : BitVec 64 := 0
  deriving DecidableEq

/-- What `Handshake` returns, with the connection it fills in. -/
inductive Handshaken where
  | success (connection : Connected)
  | incompatibleVersion
  | serverFull
  | timeout
  deriving DecidableEq

/-- The locals of `Handshake`. -/
structure Negotiation where
  cookie : ZDTCookie := Vector.replicate 16 0
  epoch : BitVec 32 := 0
  negotiatedMtu : BitVec 16 := 0
  serverGuid : BitVec 64 := 0
  serverCap : BitVec 8 := 0
  gotReply1 : Bool := false
  /-- History: the requests that were handed to the socket. -/
  sent : List (List UInt8) := []

/-- The fields of a Reply1.  The guid and the MTU are taken before the cookie is looked at. -/
def readReply1 (n : Negotiation) : Reading Negotiation := do
  let serverGuid ← Reading.readNumber 8
  let mtu ← Reading.readNumber 2
  let cookieLen ← Reading.readNumber 1
  let n := { n with serverGuid := BitVec.ofNat 64 serverGuid, negotiatedMtu := BitVec.ofNat 16 mtu }
  if cookieLen ≠ kZDTCookieLen then pure n
  else
    let cookie ← Reading.readArray n.cookie
    let epoch ← Reading.readNumber 4
    let serverCap ← Reading.readNumber 1
    pure { n with
      cookie := cookie
      epoch := BitVec.ofNat 32 epoch
      serverCap := BitVec.ofNat 8 serverCap
      gotReply1 := true }

/-- An offline message in the first phase. -/
def readAnswer1 (n : Negotiation) : Reading (Except Handshaken Negotiation) := do
  let id ← readOfflineHeader
  match id with
  | some .openConnectionReply1 => do
      let n ← readReply1 n
      pure (.ok n)
  | some .incompatibleProtocolVersion => pure (.error .incompatibleVersion)
  | some .noFreeConnections => pure (.error .serverFull)
  | _ => pure (.ok n)

/-- Whether a datagram is left alone before it is parsed. -/
def skipped (bytes : List UInt8) : Bool :=
  decide (bytes.length = 0) || hasFlag (bytes.headD 0).toBitVec kFlagOnline

/-- A datagram in the first phase. -/
def onDatagram1 (n : Negotiation) (bytes : List UInt8) : Except Handshaken Negotiation :=
  if skipped bytes then .ok n else (readAnswer1 n).parse bytes

/-- The wait for a Reply1. -/
def wait1 : List Poll → Negotiation → Except Handshaken Negotiation × List Poll
  | [], n => (.ok n, [])
  | .deadline :: polls, n => (.ok n, polls)
  | .wouldBlock :: polls, n => wait1 polls n
  | .error :: polls, n => (.ok n, polls)
  | .received _ bytes :: polls, n =>
    match onDatagram1 n bytes with
    | .error result => (.error result, polls)
    | .ok n => if n.gotReply1 then (.ok n, polls) else wait1 polls n

section Phases

variable (options : ClientOptions) (server : Endpoint) (guid : BitVec 64)
  (sendTo : Nat → List UInt8 → Bool)

/-- The attempts on one rung.  A datagram the socket does not take ends them. -/
def attempts1 (rung : BitVec 16) :
    Nat → List Poll → Negotiation → Except Handshaken Negotiation × List Poll
  | 0, polls, n => (.ok n, polls)
  | attempts + 1, polls, n =>
    if n.gotReply1 then (.ok n, polls)
    else
      let request := request1 (zdtPayloadForLinkMTU rung server.ipv)
      if !sendTo n.sent.length request then (.ok n, polls)
      else
        match wait1 polls { n with sent := request :: n.sent } with
        | (.error result, polls) => (.error result, polls)
        | (.ok n, polls) => attempts1 rung attempts polls n

/-- The first phase: the rungs of the ladder. -/
def phase1 : List (BitVec 16) → List Poll → Negotiation → Except Handshaken Negotiation × List Poll
  | [], polls, n => (.ok n, polls)
  | rung :: rungs, polls, n =>
    match attempts1 server sendTo rung options.handshakeRetriesPerRung.toNat polls n with
    | (.error result, polls) => (.error result, polls)
    | (.ok n, polls) => if n.gotReply1 then (.ok n, polls) else phase1 rungs polls n

variable (n : Negotiation)

/-- The fields of a Reply2. -/
def readReply2 : Reading Connected := do
  let replyServerGuid ← Reading.readNumber 8
  let _ ← readInetAddress
  let mtu ← Reading.readNumber 2
  let mtu := BitVec.ofNat 16 mtu
  let replyServerGuid := BitVec.ofNat 64 replyServerGuid
  pure
    { mtu := if mtu ≠ 0 then mtu else n.negotiatedMtu
      localGuid := guid
      remoteGuid := if replyServerGuid ≠ 0 then replyServerGuid else n.serverGuid
      migrationEnabled :=
        options.enableConnectionMigration && hasFlag n.serverCap kZDTCapMigration }

/-- An offline message in the second phase. -/
def readAnswer2 : Reading (Option Handshaken) := do
  let id ← readOfflineHeader
  match id with
  | some .openConnectionReply2 => do
      let connection ← readReply2 options guid n
      pure (some (.success connection))
  | some .incompatibleProtocolVersion => pure (some .incompatibleVersion)
  | some .noFreeConnections => pure (some .serverFull)
  | _ => pure none

/-- A datagram in the second phase. -/
def onDatagram2 (bytes : List UInt8) : Option Handshaken :=
  if skipped bytes then none else (readAnswer2 options guid n).parse bytes

/-- The wait for a Reply2. -/
def wait2 (n : Negotiation) : List Poll → Option Handshaken × List Poll
  | [] => (none, [])
  | .deadline :: polls => (none, polls)
  | .wouldBlock :: polls => wait2 n polls
  | .error :: polls => (none, polls)
  | .received _ bytes :: polls =>
    match onDatagram2 options guid n bytes with
    | some result => (some result, polls)
    | none => wait2 n polls

/-- The request of the second phase. -/
def Negotiation.request : List UInt8 :=
  request2 server
    { cookie := n.cookie
      epoch := n.epoch
      mtu := n.negotiatedMtu
      clientGuid := guid
      clientCap := if options.enableConnectionMigration then kZDTCapMigration else 0 }

/-- The second phase. -/
def phase2 : Nat → List Poll → Negotiation → Handshaken
  | 0, _, _ => .timeout
  | attempts + 1, polls, n =>
    let n := { n with sent := n.request options server guid :: n.sent }
    match wait2 options guid n polls with
    | (some result, _) => result
    | (none, polls) => phase2 attempts polls n

/-- `ZDTClientBackend::Handshake`. -/
def handshake (polls : List Poll) : Handshaken :=
  match phase1 options server sendTo options.mtuLadder.toList polls {} with
  | (.error result, _) => result
  | (.ok n, polls) =>
    if !n.gotReply1 then .timeout else phase2 options server guid options.maxRetries.toNat polls n

end Phases

/-! ## What the handshake acts on -/

/-- The length of the cookie in a Reply1, as it is read. -/
def readCookieLen : Reading Nat := do
  let _ ← Reading.readNumber 8
  let _ ← Reading.readNumber 2
  Reading.readNumber 1

/-- A datagram the handshake acts on in one phase or the other. -/
def isAnswer (bytes : List UInt8) : Bool :=
  match peekOfflineHeader bytes with
  | some .openConnectionReply1 =>
    readCookieLen.parse (bytes.drop kZDTOfflineHeaderSize) == kZDTCookieLen
  | some .openConnectionReply2 => true
  | some .incompatibleProtocolVersion => true
  | some .noFreeConnections => true
  | _ => false

/-- A poll with what comes from elsewhere than the server taken out. -/
def silence (server : Endpoint) : Poll → Poll
  | .received source bytes => if source = server then .received source bytes else .wouldBlock
  | poll => poll

/-- What comes from elsewhere than the server is of a given kind. -/
def Foreign (server : Endpoint) (kind : List UInt8 → Prop) (polls : List Poll) : Prop :=
  ∀ source bytes, Poll.received source bytes ∈ polls → source ≠ server → kind bytes

/-- `ReadOfflineHeader` finds what `PeekOfflineHeader` finds, and stands behind it. -/
theorem scan_peekOfflineHeader (bytes : List UInt8) :
    (readOfflineHeader.scan .bigEndian ⟨bytes, .none⟩).1 = peekOfflineHeader bytes ∧
      ((peekOfflineHeader bytes).isSome →
        (readOfflineHeader.scan .bigEndian ⟨bytes, .none⟩).2 = ⟨bytes.drop 9, .none⟩) := by
  by_cases hshort : bytes.length < kZDTOfflineHeaderSize
  · simp [readOfflineHeader, peekOfflineHeader, hshort]
  · obtain ⟨x, rest, rfl⟩ : ∃ x rest, bytes = x :: rest := by
      cases bytes with
      | nil => exact absurd (by decide) hshort
      | cons x rest => exact ⟨x, rest, rfl⟩
    have hrest : 8 ≤ rest.length := by
      have : kZDTOfflineHeaderSize = 9 := rfl
      rw [List.length_cons] at hshort
      omega
    have hid : (Reading.readNumber 1).scan .bigEndian ⟨x :: rest, .none⟩ =
        (x.toBitVec.toNat, ⟨rest, .none⟩) := by
      have := scan_readByte .bigEndian x.toBitVec rest .none
      rwa [show Endianness.bigEndian.bytes 1 x.toBitVec.toNat = [x] by
        simp [Endianness.bytes, Bytes.be, Bytes.le]] at this
    have hmagic : ∃ magic : Vector UInt8 8, rest = magic.toList ++ rest.drop 8 ∧
        magic.toList = rest.take 8 :=
      ⟨⟨(rest.take 8).toArray, by simp [hrest]⟩, (List.take_append_drop 8 rest).symm, rfl⟩
    obtain ⟨magic, hmagic, htake⟩ := hmagic
    have hread : (Reading.readArray (Vector.replicate 8 0)).scan .bigEndian ⟨rest, .none⟩ =
        (magic, ⟨rest.drop 8, .none⟩) := by
      have := scan_readArray (Vector.replicate 8 0) magic (rest.drop 8) .none
      rwa [← hmagic] at this
    simp only [readOfflineHeader, peekOfflineHeader, Reading.scan_bind', Reading.scan_readableBytes,
      hshort, if_false, hid, BitVec.ofNat_toNat, BitVec.setWidth_eq, List.headD_cons, false_or]
    by_cases honline : hasFlag x.toBitVec kFlagOnline = true
    · simp [honline]
    · have height : kZDTMagic.length = 8 := rfl
      simp only [honline, Bool.false_eq_true, if_false, Reading.scan_bind', hread, htake, height,
        List.drop_succ_cons, List.drop_zero]
      split
      · simp
      · exact ⟨rfl, fun _ => rfl⟩

variable {bytes : List UInt8} {kind : List UInt8 → Prop} {poll : Poll} {polls : List Poll}

/-- What is skipped has no header. -/
theorem peekOfflineHeader_of_skipped (h : skipped bytes = true) :
    peekOfflineHeader bytes = none := by
  rw [skipped, Bool.or_eq_true, decide_eq_true_eq] at h
  rw [peekOfflineHeader, if_pos]
  rcases h with h | h
  · exact .inl (by rw [h]; decide)
  · exact .inr h

/-- A Reply1, read behind its header. -/
def reply1On (n : Negotiation) (bytes : List UInt8) : Negotiation :=
  ((readReply1 n).scan .bigEndian ⟨bytes.drop kZDTOfflineHeaderSize, .none⟩).1

variable (n : Negotiation)

theorem onDatagram1_eq (bytes : List UInt8) : onDatagram1 n bytes =
      match peekOfflineHeader bytes with
      | some .openConnectionReply1 => .ok (reply1On n bytes)
      | some .incompatibleProtocolVersion => .error .incompatibleVersion
      | some .noFreeConnections => .error .serverFull
      | _ => .ok n := by
  by_cases hskipped : skipped bytes = true
  · rw [onDatagram1, if_pos hskipped, peekOfflineHeader_of_skipped hskipped]
  · obtain ⟨hid, hrest⟩ := scan_peekOfflineHeader bytes
    rw [onDatagram1, if_neg hskipped, Reading.parse_eq, readAnswer1, Reading.scan_bind', hid]
    cases hpeek : peekOfflineHeader bytes with
    | none => rfl
    | some id =>
      rw [hpeek] at hrest
      cases id with
      | openConnectionReply1 =>
        rw [hrest rfl]
        simp only [Reading.scan_bind', Reading.scan_pure]
        rfl
      | _ => rfl

/-- What the second phase makes of a datagram. -/
theorem onDatagram2_eq (options : ClientOptions) (guid : BitVec 64) (n : Negotiation)
    (bytes : List UInt8) :
    onDatagram2 options guid n bytes =
      match peekOfflineHeader bytes with
      | some .openConnectionReply2 =>
        some (.success ((readReply2 options guid n).scan .bigEndian
          ⟨bytes.drop kZDTOfflineHeaderSize, .none⟩).1)
      | some .incompatibleProtocolVersion => some .incompatibleVersion
      | some .noFreeConnections => some .serverFull
      | _ => none := by
  by_cases hskipped : skipped bytes = true
  · rw [onDatagram2, if_pos hskipped, peekOfflineHeader_of_skipped hskipped]
  · obtain ⟨hid, hrest⟩ := scan_peekOfflineHeader bytes
    rw [onDatagram2, if_neg hskipped, Reading.parse_eq, readAnswer2, Reading.scan_bind', hid]
    cases hpeek : peekOfflineHeader bytes with
    | none => rfl
    | some id =>
      rw [hpeek] at hrest
      cases id with
      | openConnectionReply2 =>
        rw [hrest rfl]
        simp only [Reading.scan_bind', Reading.scan_pure]
        rfl
      | _ => rfl

/-- A Reply1 whose cookie has the right length is taken, and what it overwrites was not read. -/
theorem reply1On_taken
    (h : readCookieLen.parse (bytes.drop kZDTOfflineHeaderSize) = kZDTCookieLen) :
    (reply1On n bytes).gotReply1 = true ∧
      ∀ serverGuid mtu, reply1On { n with serverGuid, negotiatedMtu := mtu } bytes =
        reply1On n bytes := by
  simp only [Reading.parse_eq, readCookieLen, Reading.scan_bind'] at h
  simp only [reply1On, readReply1, Reading.scan_bind', h, ne_eq, not_true_eq_false, if_false,
    Reading.scan_pure, implies_true, and_self]

/-- Another Reply1 is not taken, but its guid and its MTU are. -/
theorem reply1On_ignored
    (h : readCookieLen.parse (bytes.drop kZDTOfflineHeaderSize) ≠ kZDTCookieLen) :
    ∃ serverGuid mtu, ∀ n : Negotiation,
      reply1On n bytes = { n with serverGuid, negotiatedMtu := mtu } := by
  simp only [Reading.parse_eq, readCookieLen, Reading.scan_bind'] at h
  simp only [reply1On, readReply1, Reading.scan_bind', ne_eq, h, not_false_eq_true, if_true,
    Reading.scan_pure]
  exact ⟨_, _, fun n => rfl⟩

/-! ## Two runs side by side -/

/-- Two negotiations that differ at most in what a Reply1 overwrites, and not at all once one
was taken. -/
inductive Alike : Negotiation → Negotiation → Prop
  | waiting (n : Negotiation) (serverGuid : BitVec 64) (mtu : BitVec 16) (h : n.gotReply1 = false) :
      Alike n { n with serverGuid, negotiatedMtu := mtu }
  | taken (n : Negotiation) (h : n.gotReply1 = true) : Alike n n

namespace Alike

variable {n m : Negotiation}

theorem gotReply1 (h : Alike n m) : n.gotReply1 = m.gotReply1 := by
  cases h with
  | waiting => rfl
  | taken => rfl

theorem send (h : Alike n m) (hwaits : n.gotReply1 = false) (request : List UInt8) :
    Alike { n with sent := request :: n.sent } { m with sent := request :: m.sent } := by
  cases h with
  | waiting serverGuid mtu h => exact .waiting _ _ _ h
  | taken h => exact absurd hwaits (by simp [h])

theorem sent (h : Alike n m) : n.sent = m.sent := by
  cases h with
  | waiting => rfl
  | taken => rfl

end Alike

/-- Two outcomes of a wait: the same failure, or negotiations that are alike. -/
inductive AlikeResult : Except Handshaken Negotiation → Except Handshaken Negotiation → Prop
  | error (result : Handshaken) : AlikeResult (.error result) (.error result)
  | ok {n m : Negotiation} (h : Alike n m) : AlikeResult (.ok n) (.ok m)

/-- A datagram that both runs receive keeps them alike. -/
theorem onDatagram1_alike {n m : Negotiation} (h : Alike n m) (hwaits : n.gotReply1 = false)
    (bytes : List UInt8) : AlikeResult (onDatagram1 n bytes) (onDatagram1 m bytes) := by
  cases h with
  | taken h => exact absurd hwaits (by simp [h])
  | waiting serverGuid mtu h =>
    rw [onDatagram1_eq, onDatagram1_eq]
    split
    · refine .ok ?_
      by_cases hlen : readCookieLen.parse (bytes.drop kZDTOfflineHeaderSize) = kZDTCookieLen
      · obtain ⟨htaken, hsame⟩ := reply1On_taken n hlen
        rw [hsame]
        exact .taken _ htaken
      · obtain ⟨guid', mtu', hignored⟩ := reply1On_ignored hlen
        rw [hignored, hignored]
        exact .waiting _ guid' mtu' h
    · exact .error _
    · exact .error _
    · exact .ok (.waiting _ _ _ h)

/-- A datagram that is no answer, received by one run only, keeps them alike. -/
theorem onDatagram1_inert {n m : Negotiation} (h : Alike n m) (hwaits : n.gotReply1 = false)
    (hinert : isAnswer bytes = false) :
    ∃ n', onDatagram1 n bytes = .ok n' ∧ n'.gotReply1 = false ∧ Alike n' m := by
  cases h with
  | taken h => exact absurd hwaits (by simp [h])
  | waiting serverGuid mtu h =>
    rw [onDatagram1_eq]
    rw [isAnswer] at hinert
    split at hinert
    · obtain ⟨guid', mtu', hignored⟩ := reply1On_ignored (by simpa using hinert)
      rename_i hpeek
      rw [hpeek]
      refine ⟨_, congrArg Except.ok (hignored n), h, .waiting _ _ _ h⟩
    · cases hinert
    · cases hinert
    · cases hinert
    · rename_i hreply1 hreply2 hversion hfull
      split
      · exact absurd ‹_› hreply1
      · exact absurd ‹_› hversion
      · exact absurd ‹_› hfull
      · exact ⟨n, rfl, h, .waiting _ _ _ h⟩

/-- A datagram that is no answer does nothing in the second phase. -/
theorem onDatagram2_inert (options : ClientOptions) (guid : BitVec 64) (n : Negotiation)
    (hinert : isAnswer bytes = false) :
    onDatagram2 options guid n bytes = none := by
  rw [onDatagram2_eq]
  rw [isAnswer] at hinert
  split
  · simp [*] at hinert
  · simp [*] at hinert
  · simp [*] at hinert
  · rfl

/-- What comes from elsewhere than the server is no answer. -/
abbrev Harmless (server : Endpoint) (polls : List Poll) : Prop :=
  Foreign server (fun bytes => isAnswer bytes = false) polls

theorem Foreign.tail {server : Endpoint} (h : Foreign server kind (poll :: polls)) :
    Foreign server kind polls :=
  fun source bytes hmem => h source bytes (List.mem_cons_of_mem _ hmem)

/-- The outcome of one run with all its polls, and of another with the silenced ones. -/
structure Matched (server : Endpoint) (p q : Except Handshaken Negotiation × List Poll) : Prop where
  result : AlikeResult p.1 q.1
  polls : q.2 = p.2.map (silence server)
  harmless : Harmless server p.2

theorem wait1_matched {server : Endpoint} (hpolls : Harmless server polls) {n m : Negotiation}
    (h : Alike n m) (hwaits : n.gotReply1 = false) :
    Matched server (wait1 polls n) (wait1 (polls.map (silence server)) m) := by
  induction polls generalizing n m with
  | nil => exact ⟨.ok h, rfl, hpolls⟩
  | cons poll polls ih =>
    cases poll with
    | deadline | error => exact ⟨.ok h, rfl, hpolls.tail⟩
    | wouldBlock => exact ih hpolls.tail h hwaits
    | received source bytes =>
      by_cases hsource : source = server
      · simp only [List.map_cons, silence, hsource, if_true, wait1]
        have hsame := onDatagram1_alike h hwaits bytes
        generalize onDatagram1 n bytes = p, onDatagram1 m bytes = q at hsame
        cases hsame with
        | error result => exact ⟨.error result, rfl, hpolls.tail⟩
        | ok h =>
          simp only [← h.gotReply1]
          split
          · exact ⟨.ok h, rfl, hpolls.tail⟩
          · rename_i hwaits
            exact ih hpolls.tail h (by simpa using hwaits)
      · -- the other run sees a poll that would block
        obtain ⟨n', hn', hwaits', h'⟩ :=
          onDatagram1_inert h hwaits (hpolls source bytes List.mem_cons_self hsource)
        simp only [List.map_cons, silence, hsource, if_false, wait1, hn', hwaits',
          Bool.false_eq_true]
        exact ih hpolls.tail h' hwaits'

section Phases

variable (options : ClientOptions) (server : Endpoint) (guid : BitVec 64)
  (sendTo : Nat → List UInt8 → Bool)

variable {polls : List Poll}

theorem attempts1_matched (rung : BitVec 16) (attempts : Nat) (hpolls : Harmless server polls)
    {n m : Negotiation} (h : Alike n m) :
    Matched server (attempts1 server sendTo rung attempts polls n)
      (attempts1 server sendTo rung attempts (polls.map (silence server)) m) := by
  induction attempts generalizing polls n m with
  | zero => exact ⟨.ok h, rfl, hpolls⟩
  | succ attempts ih =>
    simp only [attempts1, ← h.gotReply1, ← h.sent]
    split
    · exact ⟨.ok h, rfl, hpolls⟩
    · rename_i hwaits
      split
      · exact ⟨.ok h, rfl, hpolls⟩
      · have hwaits : n.gotReply1 = false := by simpa using hwaits
        have hwait := wait1_matched hpolls
          (h.send hwaits (request1 (zdtPayloadForLinkMTU rung server.ipv))) hwaits
        simp only [← h.gotReply1, ← h.sent] at hwait
        obtain ⟨hresult, hleft, hharmless⟩ := hwait
        generalize wait1 polls _ = p, wait1 (polls.map _) _ = q at hresult hleft hharmless
        obtain ⟨p, ps⟩ := p
        obtain ⟨q, qs⟩ := q
        cases hresult with
        | error result => exact ⟨.error result, hleft, hharmless⟩
        | ok h =>
          simp only at hleft
          rw [hleft]
          exact ih hharmless h

theorem phase1_matched (rungs : List (BitVec 16)) (hpolls : Harmless server polls)
    {n m : Negotiation} (h : Alike n m) :
    Matched server (phase1 options server sendTo rungs polls n)
      (phase1 options server sendTo rungs (polls.map (silence server)) m) := by
  induction rungs generalizing polls n m with
  | nil => exact ⟨.ok h, rfl, hpolls⟩
  | cons rung rungs ih =>
    simp only [phase1]
    obtain ⟨hresult, hleft, hharmless⟩ :=
      attempts1_matched server sendTo rung options.handshakeRetriesPerRung.toNat hpolls h
    generalize attempts1 server sendTo rung _ polls n = p,
      attempts1 server sendTo rung _ (polls.map _) m = q at hresult hleft hharmless
    obtain ⟨p, ps⟩ := p
    obtain ⟨q, qs⟩ := q
    cases hresult with
    | error result => exact ⟨.error result, hleft, hharmless⟩
    | ok h =>
      simp only [← h.gotReply1] at hleft ⊢
      split
      · exact ⟨.ok h, hleft, hharmless⟩
      · rw [hleft]
        exact ih hharmless h

theorem wait2_silenced (n : Negotiation) (hpolls : Harmless server polls) :
    wait2 options guid n (polls.map (silence server)) =
        ((wait2 options guid n polls).1, (wait2 options guid n polls).2.map (silence server)) ∧
      Harmless server (wait2 options guid n polls).2 := by
  induction polls with
  | nil => exact ⟨rfl, hpolls⟩
  | cons poll polls ih =>
    cases poll with
    | deadline | error => exact ⟨rfl, hpolls.tail⟩
    | wouldBlock => exact ih hpolls.tail
    | received source bytes =>
      by_cases hsource : source = server
      · simp only [List.map_cons, silence, hsource, if_true, wait2]
        split
        · exact ⟨rfl, hpolls.tail⟩
        · exact ih hpolls.tail
      · have hnone := onDatagram2_inert options guid n
          (hpolls source bytes List.mem_cons_self hsource)
        simp only [List.map_cons, silence, hsource, if_false, wait2, hnone]
        exact ih hpolls.tail

theorem phase2_silenced (attempts : Nat) (n : Negotiation) (hpolls : Harmless server polls) :
    phase2 options server guid attempts (polls.map (silence server)) n =
      phase2 options server guid attempts polls n := by
  induction attempts generalizing polls n with
  | zero => rfl
  | succ attempts ih =>
    simp only [phase2]
    obtain ⟨hwait, hharmless⟩ := wait2_silenced options server guid
      { n with sent := n.request options server guid :: n.sent } hpolls
    rw [hwait]
    generalize wait2 options guid _ polls = p at hharmless
    obtain ⟨result, left⟩ := p
    cases result with
    | some result => rfl
    | none => exact ih _ hharmless

/-- **What is no answer makes no difference.**  A handshake in which everything from elsewhere
than the server is no answer ends as it would have without it. -/
theorem handshake_silenced (hpolls : Harmless server polls) :
    handshake options server guid sendTo (polls.map (silence server)) =
      handshake options server guid sendTo polls := by
  obtain ⟨hresult, hleft, hharmless⟩ :=
    phase1_matched options server sendTo options.mtuLadder.toList hpolls
      (.waiting {} 0 0 rfl)
  rw [handshake, handshake]
  generalize phase1 options server sendTo _ polls _ = p,
    phase1 options server sendTo _ (polls.map _) _ = q at hresult hleft hharmless
  obtain ⟨p, ps⟩ := p
  obtain ⟨q, qs⟩ := q
  cases hresult with
  | error result => rfl
  | ok h =>
    simp only at hleft ⊢
    cases h with
    | waiting serverGuid mtu h => simp [h]
    | taken h =>
      rw [hleft]
      simp only [h, Bool.not_true, Bool.false_eq_true, if_false]
      exact phase2_silenced options server guid _ _ hharmless

end Phases

/-! ## Nobody looks at the source -/

/-- An address that is not the server's. -/
def elsewhere (server : Endpoint) : Endpoint := { server with port := server.port + 1 }

variable (server : Endpoint)

theorem elsewhere_ne : elsewhere server ≠ server := by
  intro h
  have hport := congrArg Endpoint.port h
  simp [elsewhere] at hport

theorem foreign_cons {server : Endpoint} :
    Foreign server kind (poll :: polls) ↔
      (∀ source bytes, poll = .received source bytes → source ≠ server → kind bytes) ∧
        Foreign server kind polls := by
  constructor
  · intro h
    exact ⟨fun source bytes hpoll => h source bytes (hpoll ▸ List.mem_cons_self), h.tail⟩
  · rintro ⟨hpoll, hpolls⟩ source bytes hmem
    rcases List.mem_cons.mp hmem with hmem | hmem
    · exact hpoll source bytes hmem.symm
    · exact hpolls source bytes hmem

theorem foreign_nil (kind : List UInt8 → Prop) : Foreign server kind [] := by
  intro source bytes hmem
  cases hmem

/-- One rung, one attempt on it, and one attempt in the second phase. -/
def brief : ClientOptions :=
  { mtuLadder := .single, handshakeRetriesPerRung := 1, maxRetries := 1 }

/-- What a brief handshake comes to, on a socket that takes everything. -/
theorem handshake_brief (guid : BitVec 64) (polls : List Poll) :
    handshake brief server guid (fun _ _ => true) polls =
      match wait1 polls { sent := [request1 (zdtPayloadForLinkMTU 1492 server.ipv)] } with
      | (.error result, _) => result
      | (.ok n, polls) =>
        if !n.gotReply1 then .timeout
        else
          (wait2 brief guid { n with sent := n.request brief server guid :: n.sent } polls).1.getD
            .timeout := by
  rw [handshake, show brief.mtuLadder.toList = [1492] from rfl]
  simp only [phase1, show brief.handshakeRetriesPerRung.toNat = 1 from rfl, attempts1,
    Bool.false_eq_true, if_false, Bool.not_true]
  generalize wait1 polls _ = p
  obtain ⟨result, left⟩ := p
  cases result with
  | error result => rfl
  | ok n =>
    simp only [ite_self, show brief.maxRetries.toNat = 1 from rfl, phase2]
    split
    · rfl
    · generalize wait2 brief guid _ left = p
      obtain ⟨result, left⟩ := p
      cases result with
      | some result => rfl
      | none => rfl

/-- A Reply1 and a Reply2 such as the server sends. -/
def someReply1 : List UInt8 := (Reply.reply1 1 1464 (Vector.replicate 16 0) 0 0).bytes

def someReply2 : List UInt8 := (Reply.reply2 1 ⟨.ipv4 (Vector.replicate 4 0), 0⟩ 1464).bytes

theorem peekOfflineHeader_nil : peekOfflineHeader [] = none := rfl

theorem peekOfflineHeader_someReply1 :
    peekOfflineHeader someReply1 = some .openConnectionReply1 := by decide +kernel

theorem peekOfflineHeader_someReply2 :
    peekOfflineHeader someReply2 = some .openConnectionReply2 := by decide +kernel

theorem gotReply1_someReply1 (n : Negotiation) : (reply1On n someReply1).gotReply1 = true :=
  (reply1On_taken n (by decide +kernel)).1

/-- **And what is an answer does.**  A handshake is indifferent to third parties' datagrams of a
kind, whatever its options, its guid, the socket and the server's own datagrams, exactly if no
datagram of that kind is an answer: where one is, there are two sequences of polls that agree on
everything the server sent and end differently. -/
theorem handshake_indifferent_iff (server : Endpoint) (kind : List UInt8 → Prop) :
    (∀ (options : ClientOptions) (guid : BitVec 64) (sendTo : Nat → List UInt8 → Bool)
        (polls polls' : List Poll),
        Foreign server kind polls → Foreign server kind polls' →
        polls.map (silence server) = polls'.map (silence server) →
          handshake options server guid sendTo polls =
            handshake options server guid sendTo polls') ↔
      ∀ bytes, kind bytes → isAnswer bytes = false := by
  constructor
  · intro h bytes hkind
    by_contra hanswer
    -- the third party's datagram against silence, between two of the server's
    have hdiffers : ∀ before after : List UInt8,
        handshake brief server 0 (fun _ _ => true)
            [.received server before, .received (elsewhere server) bytes, .received server after] =
          handshake brief server 0 (fun _ _ => true)
            [.received server before, .wouldBlock, .received server after] := by
      intro before after
      refine h _ _ _ _ _ ?_ ?_ ?_
      · simp [foreign_cons, foreign_nil, hkind]
      · simp [foreign_cons, foreign_nil]
      · simp [silence, elsewhere_ne]
    rw [isAnswer] at hanswer
    split at hanswer
    · rename_i hpeek
      have hlen : readCookieLen.parse (bytes.drop kZDTOfflineHeaderSize) = kZDTCookieLen := by
        simpa using hanswer
      have htaken := fun n => (reply1On_taken n hlen).1
      have hsame := hdiffers [] someReply2
      rw [handshake_brief, handshake_brief] at hsame
      simp [wait1, wait2, onDatagram1_eq, onDatagram2_eq, hpeek, htaken, peekOfflineHeader_nil,
        peekOfflineHeader_someReply2] at hsame
    · rename_i hpeek
      have hsame := hdiffers someReply1 []
      rw [handshake_brief, handshake_brief] at hsame
      simp [wait1, wait2, onDatagram1_eq, onDatagram2_eq, hpeek, peekOfflineHeader_nil,
        peekOfflineHeader_someReply1, gotReply1_someReply1] at hsame
    · rename_i hpeek
      have hsame := hdiffers [] []
      rw [handshake_brief, handshake_brief] at hsame
      simp [wait1, onDatagram1_eq, hpeek, peekOfflineHeader_nil] at hsame
    · rename_i hpeek
      have hsame := hdiffers [] []
      rw [handshake_brief, handshake_brief] at hsame
      simp [wait1, onDatagram1_eq, hpeek, peekOfflineHeader_nil] at hsame
    · exact hanswer rfl
  · intro h options guid sendTo polls polls' hpolls hpolls' hsame
    have hharmless : ∀ {polls : List Poll}, Foreign server kind polls → Harmless server polls :=
      fun hpolls source bytes hmem hne => h bytes (hpolls source bytes hmem hne)
    rw [← handshake_silenced options server guid sendTo (hharmless hpolls), hsame,
      handshake_silenced options server guid sendTo (hharmless hpolls')]

/-- A third party that knows nothing but the magic ends an attempt that the server would have
answered: its refusal arrives first. -/
theorem third_party_refusal_aborts :
    [Poll.received ⟨.ipv4 #v[192, 0, 2, 66], 4242⟩ (Reply.incompatibleProtocolVersion 0).bytes,
        .received ⟨.ipv4 #v[10, 0, 0, 1], 5000⟩ someReply1,
        .received ⟨.ipv4 #v[10, 0, 0, 1], 5000⟩ someReply2].map
          (silence ⟨.ipv4 #v[10, 0, 0, 1], 5000⟩) =
      [Poll.wouldBlock, .received ⟨.ipv4 #v[10, 0, 0, 1], 5000⟩ someReply1,
        .received ⟨.ipv4 #v[10, 0, 0, 1], 5000⟩ someReply2].map
          (silence ⟨.ipv4 #v[10, 0, 0, 1], 5000⟩) ∧
    handshake {} ⟨.ipv4 #v[10, 0, 0, 1], 5000⟩ 7 (fun _ _ => true)
        [.received ⟨.ipv4 #v[192, 0, 2, 66], 4242⟩ (Reply.incompatibleProtocolVersion 0).bytes,
          .received ⟨.ipv4 #v[10, 0, 0, 1], 5000⟩ someReply1,
          .received ⟨.ipv4 #v[10, 0, 0, 1], 5000⟩ someReply2] = .incompatibleVersion ∧
    handshake {} ⟨.ipv4 #v[10, 0, 0, 1], 5000⟩ 7 (fun _ _ => true)
        [.wouldBlock, .received ⟨.ipv4 #v[10, 0, 0, 1], 5000⟩ someReply1,
          .received ⟨.ipv4 #v[10, 0, 0, 1], 5000⟩ someReply2] =
      .success { mtu := 1464, localGuid := 7, remoteGuid := 1 } := by
  decide +kernel

end Zdt
end Znet
