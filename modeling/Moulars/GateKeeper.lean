import Moulars.Net.Agreement
import Moulars.Net.Buffered
import Moulars.Net.NetIo

/-!
The gate keeper: a client asks it where the other servers are.

A session is followed from the connection header to the replies a client decrypts: one for each
request that was answered, in their order. A ping so long that it is read past the `BufReader`, in
several parts, may be garbled and put the two sides out of step.
-/

namespace Moulars.GateKeeper

open Lib.Wire Lib.Clients Lib.AsyncRead Lib.AsyncRead.AsyncReader
open Lib.MessageLoop Lib.BigUint Net Net.Crypt
open Net.Handshake Vault

/-! ### Messages -/

inductive CliToGateKeeper
  | pingRequest (transId pingTime : UInt32) (payload : Bytes)
  | fileServIpAddressRequest (transId : UInt32) (fromPatcher : Bool)
  | authServIpAddressRequest (transId : UInt32)

inductive GateKeeperToCli
  | pingReply (transId pingTime : UInt32) (payload : Bytes)
  | fileServIpAddressReply (transId : UInt32) (ipAddr : String)
  | authServIpAddressReply (transId : UInt32) (ipAddr : String)

inductive ClientMsgId
  | pingRequest
  | fileServIPAddressRequest
  | authServIPAddressRequest

def ClientMsgId.fromU16 (msgId : UInt16) : Option ClientMsgId :=
  if msgId = 0 then some .pingRequest
  else if msgId = 1 then some .fileServIPAddressRequest
  else if msgId = 2 then some .authServIPAddressRequest
  else none

def maxPingPayload : UInt32 := 64 * 1024

def CliToGateKeeper.read : AsyncReader CliToGateKeeper := do
  let msgId ← u16
  match ClientMsgId.fromU16 msgId with
  | some .pingRequest => do
    let transId ← u32
    let pingTime ← u32
    let payload ← readSizedBuffer maxPingPayload
    pure (.pingRequest transId pingTime payload)
  | some .fileServIPAddressRequest => do
    let transId ← u32
    let fromPatcher ← u8
    pure (.fileServIpAddressRequest transId (fromPatcher != 0))
  | some .authServIPAddressRequest => do
    let transId ← u32
    pure (.authServIpAddressRequest transId)
  | none => .fail (.error s!"Bad message ID {msgId.toNat}")

def GateKeeperToCli.streamWrite : GateKeeperToCli → Out
  | .pingReply transId pingTime payload =>
    Out.u16 0 ++ (Out.u32 transId ++ (Out.u32 pingTime ++ writeSizedBuffer payload))
  | .fileServIpAddressReply transId ipAddr =>
    Out.u16 1 ++ (Out.u32 transId ++ writeUtf16Str ipAddr)
  | .authServIpAddressReply transId ipAddr =>
    Out.u16 2 ++ (Out.u32 transId ++ writeUtf16Str ipAddr)

def GateKeeperToCli.read : AsyncReader GateKeeperToCli := do
  let msgId ← u16
  if msgId = 0 then do
    let transId ← u32
    let pingTime ← u32
    let payload ← readSizedBuffer 0xFFFFFFFF
    pure (.pingReply transId pingTime payload)
  else if msgId = 1 then do
    let transId ← u32
    let ipAddr ← readUtf16Str
    pure (.fileServIpAddressReply transId ipAddr)
  else if msgId = 2 then do
    let transId ← u32
    let ipAddr ← readUtf16Str
    pure (.authServIpAddressReply transId ipAddr)
  else .fail (.error "")

lemma GateKeeperToCli.readsBack (reply : GateKeeperToCli) :
    ReadsBack GateKeeperToCli.read reply.streamWrite reply := by
  cases reply with
  | pingReply transId pingTime payload =>
    exact (ReadsBack.u16 0).bind <| (ReadsBack.u32 transId).bind <|
      (ReadsBack.u32 pingTime).bind (readsBack_sizedBuffer payload).bind_pure
  | fileServIpAddressReply transId ipAddr =>
    exact (ReadsBack.u16 1).bind <| (ReadsBack.u32 transId).bind <|
      (readsBack_utf16Str ipAddr).bind_pure
  | authServIpAddressReply transId ipAddr =>
    exact (ReadsBack.u16 2).bind <| (ReadsBack.u32 transId).bind <|
      (readsBack_utf16Str ipAddr).bind_pure

/-! ### The worker -/

structure ServerConfig where
  gateN : ℕ
  gateK : ℕ
  fileServIp : String
  authServIp : String

def connHeaderSize : UInt32 := 20

def readConnHeader : Reader Unit := do
  let headerSize ← Reader.u32
  if headerSize ≠ connHeaderSize then
    Reader.fail (.error s!"Invalid connection header size {headerSize.toNat}")
  else do
    let _ ← Uuid.streamRead
    pure ()

def initClient (rc4 : Rc4Key → ℕ → UInt8) (rng : Rng) (serverConfig : ServerConfig) (sock : Sock) :
    Exchange :=
  match (Reader.exact connHeaderSize.toNat).run sock.stream.incoming with
  | .error err => ⟨[], .error err⟩
  | .ok (header, incoming) =>
    match readConnHeader.run header with
    | .error err => ⟨[], .error err⟩
    | .ok _ =>
      initCrypt rc4 rng serverConfig.gateN serverConfig.gateK { sock with stream := ⟨incoming⟩ }

/-- `send_message`, on a socket that takes `room` more bytes. -/
def sendMessage (room : ℕ) (reply : GateKeeperToCli) (w : CryptWriter) : Bool × CryptWriter :=
  match reply.streamWrite with
  | .ok replyBuf => w.writeAll room replyBuf
  | .error _ => (false, w)

def replyTo (serverConfig : ServerConfig) : CliToGateKeeper → GateKeeperToCli
  | .pingRequest transId pingTime payload => .pingReply transId pingTime payload
  -- `from_patcher` makes no difference
  | .fileServIpAddressRequest transId _ =>
    .fileServIpAddressReply transId serverConfig.fileServIp
  | .authServIpAddressRequest transId => .authServIpAddressReply transId serverConfig.authServIp

def handleMessage (serverConfig : ServerConfig) (room : ℕ) (message : CliToGateKeeper)
    (w : CryptWriter) : Bool × CryptWriter :=
  sendMessage room (replyTo serverConfig message) w

/-- The loop of `run`, on a stream that has been set up; the client sends with its own key. -/
def run (serverConfig : ServerConfig) (clientKey : ℕ → UInt8) (stream : CryptTcpStream)
    (events : List (LoopEvent ℕ)) : CryptLoop CliToGateKeeper CryptWriter :=
  .run CliToGateKeeper.read (handleMessage serverConfig) clientKey stream stream.writer events

/-! ### What the client sees -/

section Replies

variable {serverConfig : ServerConfig} {key : ℕ → UInt8}

lemma consumes_read : Consumes CliToGateKeeper.read := consumes_ask (n := 2) (by decide) _

lemma consumes_replies : Consumes GateKeeperToCli.read := consumes_ask (n := 2) (by decide) _

/-- The replies to these messages, and nothing else, have been sent. -/
def Answered (serverConfig : ServerConfig) (key : ℕ → UInt8) (done : List CliToGateKeeper)
    (w : CryptWriter) : Prop :=
  ∃ plain, Sent GateKeeperToCli.streamWrite (fun _ => True) (done.map (replyTo serverConfig))
    plain ∧ InStep key w plain

/-- The client sees the replies to all messages but the last. -/
def Broken (serverConfig : ServerConfig) (key : ℕ → UInt8) (done : List CliToGateKeeper)
    (w : CryptWriter) : Prop :=
  ∃ before last, done = before ++ [last] ∧
    decode GateKeeperToCli.read (w.seen key) = before.map (replyTo serverConfig)

lemma Answered.seen {done : List CliToGateKeeper} {w : CryptWriter}
    (h : Answered serverConfig key done w) :
    decode GateKeeperToCli.read (w.seen key) = done.map (replyTo serverConfig) := by
  obtain ⟨plain, hsent, hstep⟩ := h
  rw [hstep.seen]
  exact hsent.decode consumes_replies fun reply _ => reply.readsBack

lemma Answered.handled {room : ℕ} {message : CliToGateKeeper} {done : List CliToGateKeeper}
    {w : CryptWriter} (h : Answered serverConfig key done w)
    (hgo : (handleMessage serverConfig room message w).1 = true) :
    Answered serverConfig key (done ++ [message])
      (handleMessage serverConfig room message w).2 := by
  obtain ⟨plain, hsent, hstep⟩ := h
  unfold handleMessage sendMessage at hgo ⊢
  split at hgo
  · rename_i replyBuf hbuf
    refine ⟨plain ++ replyBuf, ?_, hstep.writeAll hgo⟩
    rw [List.map_append]
    exact hsent.snoc trivial hbuf
  · cases hgo

/-- A handler that does not go on has sent a part of the reply at most. -/
lemma Answered.broken {room : ℕ} {message : CliToGateKeeper} {done : List CliToGateKeeper}
    {w : CryptWriter} (h : Answered serverConfig key done w)
    (hstop : (handleMessage serverConfig room message w).1 = false) :
    Broken serverConfig key (done ++ [message]) (handleMessage serverConfig room message w).2 := by
  refine ⟨done, message, rfl, ?_⟩
  have hseen := h.seen
  obtain ⟨plain, hsent, hstep⟩ := h
  unfold handleMessage sendMessage at hstop ⊢
  split at hstop
  · rename_i replyBuf hbuf
    rw [hstep.seen_writeAll]
    exact hsent.decode_take consumes_replies (fun reply _ => reply.readsBack) trivial hbuf
      (not_le.1 (of_decide_eq_false hstop))
  · exact hseen

/-- What a client with the worker's key sees of a run. -/
structure Seen (serverConfig : ServerConfig) (key : ℕ → UInt8)
    (c : CryptLoop CliToGateKeeper CryptWriter) (done rest : List CliToGateKeeper) : Prop where
  sent : decode CliToGateKeeper.read c.received = done ++ rest
  seen : decode GateKeeperToCli.read (c.state.seen key) = done.map (replyTo serverConfig)
  /-- a worker that waits for more has answered everything -/
  running : c.status = .running → c.reader.avail = [] → rest = []
  /-- so has one that has given up reading -/
  failed : ∀ e, c.status = .failed e → rest = []
  /-- a worker that drops its client leaves a request unanswered -/
  dropped : c.status = .dropped → rest ≠ []

lemma exists_seen {events : List (LoopEvent ℕ)}
    (hfresh : (run serverConfig key ⟨⟨[]⟩, ⟨key, 0⟩⟩ events).reader.AllFresh) :
    ∃ done rest,
      Seen serverConfig key (run serverConfig key ⟨⟨[]⟩, ⟨key, 0⟩⟩ events) done rest := by
  have hserved : Served CliToGateKeeper.read (Answered serverConfig key) (Broken serverConfig key)
      (run serverConfig key ⟨⟨[]⟩, ⟨key, 0⟩⟩ events).plain := by
    have hstart : Answered serverConfig key [] (CryptTcpStream.writer ⟨⟨[]⟩, ⟨key, 0⟩⟩) :=
      ⟨[], .nil, .start key⟩
    rw [run, CryptLoop.plain_run hfresh]
    exact served consumes_read hstart (fun _ _ _ _ => Answered.handled)
      (fun _ _ _ _ => Answered.broken) events
  cases hstatus : (run serverConfig key ⟨⟨[]⟩, ⟨key, 0⟩⟩ events).status with
  | running =>
    obtain ⟨done, rest, hsplit, hanswered, hwaits⟩ := hserved.running hstatus
    refine ⟨done, rest, hsplit, hanswered.seen, fun _ => hwaits, ?_, ?_⟩ <;> simp [hstatus]
  | dropped =>
    obtain ⟨done, rest, hsplit, before, last, rfl, hseen⟩ := hserved.dropped hstatus
    rw [List.append_assoc] at hsplit
    refine ⟨before, last :: rest, hsplit, hseen, ?_, ?_, ?_⟩ <;>
      simp [hstatus]
  | failed e =>
    have hanswered := hserved.failed e hstatus
    refine ⟨_, [], (List.append_nil _).symm, hanswered.seen, ?_, ?_, ?_⟩ <;> simp [hstatus]

end Replies

/-! ### Sessions -/

lemma initClient_header (rc4 : Rc4Key → ℕ → UInt8) (rng : Rng) (serverConfig : ServerConfig)
    (product : Uuid) (incoming : Bytes) :
    initClient rc4 rng serverConfig ⟨⟨le 4 20 ++ product.toBytesLe ++ incoming⟩, none⟩ =
      initCrypt rc4 rng serverConfig.gateN serverConfig.gateK ⟨⟨incoming⟩, none⟩ := by
  have hlen : (le 4 20 ++ product.toBytesLe).length = connHeaderSize.toNat := by
    simp [Uuid.toBytesLe, connHeaderSize]
  have hexact := Reads.exact (le 4 20 ++ product.toBytesLe) hlen incoming
  have hread : Reads readConnHeader (le 4 20 ++ product.toBytesLe) () := by
    refine (Reads.u32 20).bind ?_
    rw [if_neg (by decide)]
    exact product.reads.bind_pure (f := fun _ => ())
  have hheader := hread []
  rw [List.append_nil] at hheader
  unfold initClient
  dsimp only
  rw [hexact]
  dsimp only
  rw [hheader]

def sampleConfig : ServerConfig :=
  ⟨largePower - 1, 255 + (255 + 256) * 256 ^ 62, "127.0.0.1", "127.0.0.1"⟩

/-- Two requests, the first one in two pieces. -/
def sampleEvents : List (LoopEvent ℕ) :=
  [.arrive [2, 0, 7], .turn 100, .arrive [0, 0, 0, 1, 0, 8, 0, 0, 0, 1], .turn 100, .turn 100]

end Moulars.GateKeeper
