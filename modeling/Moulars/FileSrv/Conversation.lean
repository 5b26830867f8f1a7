import Moulars.FileSrv.Frames

/-!
Whole sessions of the file server: what its client reads, against what the client asked.

What a worker may say to a message is a `Conversation`. A worker's program is checked once against
a contract that records what it has said (`Talk`); the loop then has, in every run, one
conversation for each message handled. Replies with the same reader id belong together.
-/

namespace Moulars.FileSrv

open Lib.Wire Lib.Clients Lib.AsyncRead Lib.MessageLoop
open Lib.Paths Vault
open Auth (ServerConfig)

/-! ### Conversations -/

def chunkReplies (transId readerId totalSize : UInt32) (chunks : List Bytes) (failed : Bool) :
    List FileToCli :=
  chunks.map (.fileDownloadReply transId NetResultCode.netSuccess.code readerId totalSize) ++
    if failed then [.downloadError transId .netInternalError] else []

/-- The build id of the client is another one, or there is nothing under the name. -/
def Refusal (config : ServerConfig) (buildId : UInt32) : NetResultCode → Prop
  | .netOldBuildId => ¬ (buildId = 0 ∨ buildId = config.buildId)
  | .netFileNotFound => buildId = 0 ∨ buildId = config.buildId
  | _ => False

/-- The replies to one message, from a worker whose `client_reader_id` is `id` before and `id'`
after it. -/
inductive Conversation (config : ServerConfig) (id : UInt32) :
    CliToFile → List FileToCli → UInt32 → Prop
  | ping (pingTime : UInt32) :
    Conversation config id (.pingRequest pingTime) [.pingReply pingTime] id
  | buildId (transId : UInt32) : Conversation config id (.buildIdRequest transId)
      [.buildIdReply transId NetResultCode.netSuccess.code config.buildId] id
  | manifest (transId : UInt32) (name : String) {buildId : UInt32} (manifest : Manifest)
      (hbuild : buildId = 0 ∨ buildId = config.buildId) :
    Conversation config id (.manifestRequest transId name buildId)
      [.manifestReply transId NetResultCode.netSuccess.code (id + 1) manifest] (id + 1)
  | noManifest (transId : UInt32) (name : String) {buildId : UInt32} {result : NetResultCode}
      (hresult : Refusal config buildId result) :
    Conversation config id (.manifestRequest transId name buildId)
      [.manifestError transId result] id
  | download (transId : UInt32) (filename : String) {buildId : UInt32} (totalSize : UInt32)
      {chunks : List Bytes} (failed : Bool) (hbuild : buildId = 0 ∨ buildId = config.buildId)
      (hchunks : ∀ chunk ∈ chunks, chunk ≠ []) :
    Conversation config id (.downloadRequest transId filename buildId)
      (chunkReplies transId (id + 1) totalSize chunks failed) (id + 1)
  | noDownload (transId : UInt32) (filename : String) {buildId : UInt32}
      {result : NetResultCode} (hresult : Refusal config buildId result ∨
        (buildId = 0 ∨ buildId = config.buildId) ∧ result = .netInternalError) :
    Conversation config id (.downloadRequest transId filename buildId)
      [.downloadError transId result] id
  | manifestEntryAck (transId readerId : UInt32) :
    Conversation config id (.manifestEntryAck transId readerId) [] id
  | downloadChunkAck (transId readerId : UInt32) :
    Conversation config id (.downloadChunkAck transId readerId) [] id

/-- What a worker has said to the message it handles. -/
structure Talk where
  readerId : UInt32
  sent : List FileToCli
  broken : Bool

/-- A worker says nothing after a message that could not be sent. -/
def talkContract : Contract FileCall.Reply Talk where
  may l
    | .send reply => l.broken = false ∧ reply.Plain
    | _ => True
  gives l
    | .send reply, sent, l' =>
      l' = if sent then { l with sent := l.sent ++ [reply] } else { l with broken := true }
    | .nextReaderId, id, l' => id = l.readerId + 1 ∧ l' = { l with readerId := l.readerId + 1 }
    | .fromCache _, manifest, l' => l' = l ∧ ∀ m, manifest = some m →
      ∀ transId result readerId, (FileToCli.manifestReply transId result readerId m).Plain
    | .pathExists _, _, l' => l' = l
    | .openFile _, _, l' => l' = l

/-- The worker has said all of `replies` and goes on, or it had to stop before the end. -/
def Says (replies : List FileToCli) (readerId : UInt32) (l : Talk) (r : Result Empty Bool) : Prop :=
  r = .ok true ∧ l = ⟨readerId, replies, false⟩ ∨
    r = .ok false ∧ l.broken = true ∧ ∃ more, more ≠ [] ∧ l.sent ++ more = replies

section Keeps

variable {config : ServerConfig}

lemma keeps_sendMessage (id : UInt32) (sent : List FileToCli) {reply : FileToCli}
    (h : reply.Plain) :
    (sendMessage reply).Keeps talkContract (Says (sent ++ [reply]) id) ⟨id, sent, false⟩ := by
  refine ⟨⟨rfl, h⟩, fun ok l' hl' => ?_⟩
  obtain rfl := hl'
  cases ok with
  | true => exact .inl ⟨rfl, rfl⟩
  | false => exact .inr ⟨rfl, rfl, [reply], by simp, rfl⟩

lemma keeps_sendChunks (transId id totalSize : UInt32) (reads : List (Option Bytes))
    (sent : List FileToCli) :
    (sendChunks transId id totalSize reads).Keeps talkContract (fun l r =>
      ∃ chunks failed, (∀ chunk ∈ chunks, chunk ≠ []) ∧
        Says (sent ++ chunkReplies transId id totalSize chunks failed) id l r)
      ⟨id, sent, false⟩ := by
  have hend : Says (sent ++ chunkReplies transId id totalSize [] false) id ⟨id, sent, false⟩
      (.ok true) := .inl ⟨rfl, by simp [chunkReplies]⟩
  induction reads generalizing sent with
  | nil => exact ⟨[], false, nofun, hend⟩
  | cons read reads ih =>
    match read with
    | none =>
      have herror : (FileToCli.downloadError transId .netInternalError).Plain := trivial
      exact (keeps_sendMessage id sent herror).imp fun l r h => ⟨[], true, nofun, h⟩
    | some [] => exact ⟨[], false, nofun, hend⟩
    | some (b :: bs) =>
      refine ⟨⟨rfl, trivial⟩, fun ok l hl => ?_⟩
      obtain rfl := hl
      cases ok with
      | true =>
        -- one part has been sent, and the rest is sent like a file of its own
        refine (ih (sent ++ [_]) (.inl ⟨rfl, by simp [chunkReplies]⟩)).imp fun l r h => ?_
        obtain ⟨chunks, failed, hne, hsays⟩ := h
        refine ⟨(b :: bs) :: chunks, failed, List.forall_mem_cons.2 ⟨by simp, hne⟩, ?_⟩
        simpa [chunkReplies] using hsays
      | false =>
        refine ⟨[b :: bs], false, by simp, .inr ⟨rfl, rfl, _, ?_, rfl⟩⟩
        simp [chunkReplies]

/-- The program ends with the replies of a conversation. -/
def Converses (config : ServerConfig) (id : UInt32) (message : CliToFile) (l : Talk)
    (r : Result Empty Bool) : Prop :=
  ∃ replies id', Conversation config id message replies id' ∧ Says replies id' l r

lemma plain_manifestError (transId : UInt32) (result : NetResultCode) :
    (FileToCli.manifestError transId result).Plain := ⟨rfl, nofun⟩

lemma keeps_doManifest (transId : UInt32) (name : String) {buildId : UInt32}
    (hbuild : buildId = 0 ∨ buildId = config.buildId) (id : UInt32) :
    (doManifest config.dataRoot transId name).Keeps talkContract
      (Converses config id (.manifestRequest transId name buildId)) ⟨id, [], false⟩ := by
  have hrefusal : Refusal config buildId .netFileNotFound := hbuild
  have hnone : (sendMessage (.manifestError transId .netFileNotFound)).Keeps talkContract
      (Converses config id (.manifestRequest transId name buildId)) ⟨id, [], false⟩ :=
    (keeps_sendMessage id [] (plain_manifestError _ _)).imp fun l r h =>
      ⟨_, _, .noManifest _ _ hrefusal, h⟩
  have hsome (m : Manifest) (hm : ∀ transId result readerId,
      (FileToCli.manifestReply transId result readerId m).Plain) :
      (do
        let readerId ← call .nextReaderId
        sendMessage (.manifestReply transId NetResultCode.netSuccess.code readerId m)).Keeps
          talkContract (Converses config id (.manifestRequest transId name buildId))
            ⟨id, [], false⟩ := by
    refine ⟨trivial, fun readerId l hl => ?_⟩
    obtain ⟨rfl, rfl⟩ := hl
    exact (keeps_sendMessage (id + 1) [] (hm _ _ _)).imp fun l r h =>
      ⟨_, _, .manifest _ _ m hbuild, h⟩
  unfold doManifest fetchManifest
  split
  · exact hnone
  · refine ⟨trivial, fun found l hl => ?_⟩
    obtain rfl := hl
    cases found with
    | false => exact hnone
    | true =>
      refine ⟨trivial, fun manifest l hl => ?_⟩
      obtain ⟨rfl, hplain⟩ := hl
      cases manifest with
      | none => exact hnone
      | some m => exact hsome m (hplain m rfl)

lemma keeps_openServerFile (filename : String) (dataRoot : Path) (l : Talk) :
    (openServerFile filename dataRoot).Keeps talkContract
      (fun l' r => l' = l ∧ ∃ opened, r = .ok opened) l := by
  unfold openServerFile
  dsimp only
  split
  · exact ⟨rfl, _, rfl⟩
  · refine Prog.Keeps.bind ⟨trivial, fun found l' hl' => ?_⟩
    obtain rfl := hl'
    dsimp only [Prog.Keeps]
    split
    · exact ⟨rfl, _, rfl⟩
    · exact ⟨trivial, fun opened l' hl' => ⟨hl', opened, rfl⟩⟩

lemma keeps_doDownload (transId : UInt32) (filename : String) {buildId : UInt32}
    (hbuild : buildId = 0 ∨ buildId = config.buildId) (id : UInt32) :
    (doDownload config.dataRoot transId filename).Keeps talkContract
      (Converses config id (.downloadRequest transId filename buildId)) ⟨id, [], false⟩ := by
  have herror {result : NetResultCode} (hresult : Refusal config buildId result ∨
      (buildId = 0 ∨ buildId = config.buildId) ∧ result = .netInternalError) :
      (sendMessage (.downloadError transId result)).Keeps talkContract
        (Converses config id (.downloadRequest transId filename buildId)) ⟨id, [], false⟩ := by
    have hplain : (FileToCli.downloadError transId result).Plain := trivial
    exact (keeps_sendMessage id [] hplain).imp fun l r h => ⟨_, _, .noDownload _ _ hresult, h⟩
  refine Prog.Keeps.bind ((keeps_openServerFile filename config.dataRoot _).imp fun l r h => ?_)
  obtain ⟨rfl, opened, rfl⟩ := h
  match opened with
  | none => exact herror (.inl hbuild)
  | some (size, reads) =>
    dsimp only
    split
    · refine ⟨trivial, fun readerId l hl => ?_⟩
      obtain ⟨rfl, rfl⟩ := hl
      refine (keeps_sendChunks transId (id + 1) _ reads []).imp fun l r h => ?_
      obtain ⟨chunks, failed, hne, hsays⟩ := h
      exact ⟨_, _, .download _ _ _ failed hbuild hne, hsays⟩
    · exact herror (.inr ⟨hbuild, rfl⟩)

lemma keeps_handleMessage (config : ServerConfig) (message : CliToFile) (id : UInt32) :
    (handleMessage config message).Keeps talkContract (Converses config id message)
      ⟨id, [], false⟩ := by
  have hold {buildId : UInt32} (h : buildId ≠ 0 ∧ buildId ≠ config.buildId) :
      Refusal config buildId .netOldBuildId := not_or.2 h
  have hnew {buildId : UInt32} (h : ¬ (buildId ≠ 0 ∧ buildId ≠ config.buildId)) :
      buildId = 0 ∨ buildId = config.buildId := by
    rwa [not_and_or, not_not, not_not] at h
  cases message with
  | pingRequest pingTime =>
    have hplain : (FileToCli.pingReply pingTime).Plain := trivial
    exact (keeps_sendMessage id [] hplain).imp fun l r h => ⟨_, _, .ping _, h⟩
  | buildIdRequest transId =>
    have hplain : (FileToCli.buildIdReply transId NetResultCode.netSuccess.code
        config.buildId).Plain := trivial
    exact (keeps_sendMessage id [] hplain).imp fun l r h => ⟨_, _, .buildId _, h⟩
  | manifestRequest transId manifestName buildId =>
    rw [handleMessage]
    split
    · rename_i hbuild
      exact (keeps_sendMessage id [] (plain_manifestError _ _)).imp fun l r h =>
        ⟨_, _, .noManifest _ _ (hold hbuild), h⟩
    · rename_i hbuild
      exact keeps_doManifest transId manifestName (hnew hbuild) id
  | downloadRequest transId filename buildId =>
    rw [handleMessage]
    split
    · rename_i hbuild
      have hplain : (FileToCli.downloadError transId .netOldBuildId).Plain := trivial
      exact (keeps_sendMessage id [] hplain).imp fun l r h =>
        ⟨_, _, .noDownload _ _ (.inl (hold hbuild)), h⟩
    · rename_i hbuild
      exact keeps_doDownload transId filename (hnew hbuild) id
  | manifestEntryAck transId readerId =>
    exact ⟨_, _, .manifestEntryAck _ _, .inl ⟨rfl, rfl⟩⟩
  | downloadChunkAck transId readerId =>
    exact ⟨_, _, .downloadChunkAck _ _, .inl ⟨rfl, rfl⟩⟩

end Keeps

/-! ### The worker on its socket -/

/-- What a worker meets while it handles one message: the file system, and the number of bytes
that its connection takes before it breaks. -/
structure FileEnv where
  pathExists : Path → Bool
  /-- the bytes of a cached manifest -/
  cacheFile : Path → Option Bytes
  openFile : Path → Option (UInt64 × List (Option Bytes))
  capacity : ℕ

structure FileSocket where
  clientReaderId : UInt32
  outgoing : Bytes

section Worker

variable (config : ServerConfig) (hex : HexPermissive)

def fromCache (env : FileEnv) (path : Path) : Option Manifest :=
  match env.cacheFile path with
  | some bytes => match (Manifest.streamRead hex).run bytes with
    | .ok (manifest, _) => some manifest
    | .error _ => none
  | none => none

def FileEnv.send (env : FileEnv) (reply : FileToCli) (s : FileSocket) : Bool × FileSocket :=
  match reply.write with
  | .ok b => (decide (b.length ≤ env.capacity - s.outgoing.length),
      { s with outgoing := s.outgoing ++ b.take (env.capacity - s.outgoing.length) })
  | .error _ => (false, s)

def FileEnv.handle (env : FileEnv) : (c : FileCall) → FileSocket → c.Reply × FileSocket
  | .send reply, s => env.send reply s
  | .nextReaderId, s => (s.clientReaderId + 1, { s with clientReaderId := s.clientReaderId + 1 })
  | .pathExists path, s => (env.pathExists path, s)
  | .fromCache path, s => (fromCache hex env path, s)
  | .openFile path, s => (env.openFile path, s)

def serveMessage (env : FileEnv) (message : CliToFile) (s : FileSocket) : Bool × FileSocket :=
  match (handleMessage config message).exec (env.handle hex) s with
  | (.ok goOn, s') => (goOn, s')
  | (_, s') => (false, s')

/-- The loop of `run`, with the bytes both ways. -/
def runSocket (events : List (LoopEvent FileEnv)) : Loop CliToFile FileSocket :=
  Loop.run CliToFile.read (serveMessage config hex) ⟨0, []⟩ events

end Worker

section Sessions

variable {config : ServerConfig} {hex : HexPermissive}

/-- The client has been sent `before`, and what has been said since. -/
structure Stands (hex : HexPermissive) (before : List FileToCli) (s : FileSocket) (l : Talk) :
    Prop where
  readerId : s.clientReaderId = l.readerId
  sent : l.broken = false → Sent FileToCli.write FileToCli.Plain (before ++ l.sent) s.outgoing
  broken : l.broken = true → decode (FileToCli.read hex) s.outgoing = before ++ l.sent

lemma fromCache_plain {env : FileEnv} {path : Path} {m : Manifest}
    (h : fromCache hex env path = some m) (transId readerId : UInt32) (result : Int32) :
    (FileToCli.manifestReply transId result readerId m).Plain := by
  unfold fromCache at h
  split at h
  · split at h
    · rename_i manifest rest hrun
      cases h
      exact FileToCli.plain_manifestReply hrun transId readerId result
    · cases h
  · cases h

lemma Stands.send {env : FileEnv} {before : List FileToCli} {s : FileSocket} {l : Talk}
    (h : Stands hex before s l) (hopen : l.broken = false) {reply : FileToCli}
    (hplain : reply.Plain) : Stands hex before (env.send reply s).2
      (if (env.send reply s).1 then { l with sent := l.sent ++ [reply] }
        else { l with broken := true }) := by
  have hsent := h.sent hopen
  have hread (r : FileToCli) (hr : r.Plain) := FileToCli.readsBack hex hr
  unfold FileEnv.send
  cases hwrite : reply.write with
  | error e =>
    show Stands hex before s { l with broken := true }
    exact ⟨h.readerId, nofun, fun _ => hsent.decode (FileToCli.consumes_read hex) hread⟩
  | ok b =>
    dsimp only
    by_cases hroom : b.length ≤ env.capacity - s.outgoing.length
    · rw [if_pos (decide_eq_true hroom), List.take_of_length_le hroom]
      refine ⟨h.readerId, fun _ => ?_, fun hb => absurd (hopen.symm.trans hb) (by simp)⟩
      simpa only [List.append_assoc] using hsent.snoc hplain hwrite
    · rw [if_neg (by simpa using hroom)]
      refine ⟨h.readerId, nofun, fun _ => ?_⟩
      exact hsent.decode_take (FileToCli.consumes_read hex) hread hplain hwrite (not_le.1 hroom)

lemma Stands.serve (env : FileEnv) {before : List FileToCli} (c : FileCall) (s : FileSocket)
    (l : Talk) (h : Stands hex before s l) (hmay : talkContract.may l c) :
    ∃ l', talkContract.gives l c (env.handle hex c s).1 l' ∧
      Stands hex before (env.handle hex c s).2 l' := by
  cases c with
  | send reply => exact ⟨_, rfl, h.send hmay.1 hmay.2⟩
  | nextReaderId =>
    have hid : s.clientReaderId + 1 = l.readerId + 1 := by rw [h.readerId]
    exact ⟨_, ⟨hid, rfl⟩, hid, h.sent, h.broken⟩
  | pathExists path => exact ⟨l, rfl, h⟩
  | fromCache path =>
    exact ⟨l, ⟨rfl, fun m hm transId result readerId =>
      fromCache_plain hm transId readerId result⟩, h⟩
  | openFile path => exact ⟨l, rfl, h⟩

/-- The conversations about these messages, with the reader id they leave behind. -/
inductive Conversations (config : ServerConfig) :
    List CliToFile → List (List FileToCli) → UInt32 → Prop
  | nil : Conversations config [] [] 0
  | snoc {messages : List CliToFile} {groups : List (List FileToCli)} {id id' : UInt32}
      {message : CliToFile} {replies : List FileToCli} (h : Conversations config messages groups id)
      (hlast : Conversation config id message replies id') :
    Conversations config (messages ++ [message]) (groups ++ [replies]) id'

/-- The client has been sent the conversations about the messages handled. -/
def Conversed (config : ServerConfig) (done : List CliToFile) (s : FileSocket) : Prop :=
  ∃ groups, Conversations config done groups s.clientReaderId ∧
    Sent FileToCli.write FileToCli.Plain groups.flatten s.outgoing

/-- The client has been sent less than the conversation about the last message. -/
def BrokenOff (config : ServerConfig) (hex : HexPermissive) (done : List CliToFile)
    (s : FileSocket) : Prop :=
  ∃ before last groups id part more id', done = before ++ [last] ∧
    Conversations config before groups id ∧ Conversation config id last (part ++ more) id' ∧
    more ≠ [] ∧ decode (FileToCli.read hex) s.outgoing = groups.flatten ++ part

lemma serveMessage_spec {env : FileEnv} {message : CliToFile} {done : List CliToFile}
    {s : FileSocket} (h : Conversed config done s) :
    ((serveMessage config hex env message s).1 = true →
      Conversed config (done ++ [message]) (serveMessage config hex env message s).2) ∧
    ((serveMessage config hex env message s).1 = false →
      BrokenOff config hex (done ++ [message]) (serveMessage config hex env message s).2) := by
  obtain ⟨groups, hgroups, hsent⟩ := h
  have hstart : Stands hex groups.flatten s ⟨s.clientReaderId, [], false⟩ := by
    refine ⟨rfl, fun _ => ?_, nofun⟩
    rw [List.append_nil]
    exact hsent
  obtain ⟨l, hstands, replies, id', hconv, hsays⟩ :=
    (keeps_handleMessage config message s.clientReaderId).exec (Stands.serve env) hstart
  unfold serveMessage
  generalize (handleMessage config message).exec (env.handle hex) s = out at hstands hsays ⊢
  obtain ⟨r, s'⟩ := out
  rcases hsays with ⟨hr, rfl⟩ | ⟨hr, hbroken, more, hmore, hreplies⟩
  · obtain rfl : r = .ok true := hr
    refine ⟨fun _ => ⟨groups ++ [replies], ?_, ?_⟩, nofun⟩
    · rw [show s'.clientReaderId = id' from hstands.readerId]
      exact .snoc hgroups hconv
    · rw [List.flatten_append, List.flatten_singleton]
      exact hstands.sent rfl
  · obtain rfl : r = .ok false := hr
    subst hreplies
    exact ⟨nofun, fun _ => ⟨done, message, groups, _, l.sent, more, id', rfl, hgroups, hconv, hmore,
      hstands.broken hbroken⟩⟩

/-! ### Reader ids -/

/-- The reader id of a reply, zero where there is none. -/
def FileToCli.readerId : FileToCli → UInt32
  | .manifestReply _ _ readerId _ => readerId
  | .fileDownloadReply _ _ readerId _ _ => readerId
  | _ => 0

lemma Conversation.readerIds {id id' : UInt32} {message : CliToFile} {replies : List FileToCli}
    (h : Conversation config id message replies id') :
    (id' = id ∨ id' = id + 1) ∧
      ∀ reply ∈ replies, reply.readerId = 0 ∨ reply.readerId = id + 1 ∧ id' = id + 1 := by
  cases h with
  | ping => exact ⟨.inl rfl, by simp [FileToCli.readerId]⟩
  | buildId => exact ⟨.inl rfl, by simp [FileToCli.readerId]⟩
  | manifest => exact ⟨.inr rfl, by simp [FileToCli.readerId]⟩
  | noManifest => exact ⟨.inl rfl, by simp [FileToCli.readerId, FileToCli.manifestError]⟩
  | noDownload => exact ⟨.inl rfl, by simp [FileToCli.readerId, FileToCli.downloadError]⟩
  | manifestEntryAck => exact ⟨.inl rfl, by simp⟩
  | downloadChunkAck => exact ⟨.inl rfl, by simp⟩
  | download transId filename totalSize failed hbuild hchunks =>
    refine ⟨.inr rfl, fun reply hreply => ?_⟩
    rcases List.mem_append.1 hreply with hreply | hreply
    · obtain ⟨chunk, -, rfl⟩ := List.mem_map.1 hreply
      exact .inr ⟨rfl, rfl⟩
    · left
      cases failed with
      | true =>
        rw [List.mem_singleton.1 hreply]
        rfl
      | false => cases hreply

/-- Replies to two messages do not share a reader id; 0, which error replies carry, is none. -/
def Distinct (replies replies' : List FileToCli) : Prop :=
  ∀ reply ∈ replies, ∀ reply' ∈ replies', reply.readerId ≠ 0 → reply.readerId ≠ reply'.readerId

lemma Conversations.distinct {done : List CliToFile} {groups : List (List FileToCli)} {id : UInt32}
    (h : Conversations config done groups id) (hdone : done.length < 2 ^ 32) :
    id.toNat ≤ done.length ∧ groups.Pairwise Distinct ∧
      ∀ replies ∈ groups, ∀ reply ∈ replies, reply.readerId.toNat ≤ id.toNat := by
  induction h with
  | nil => exact ⟨Nat.zero_le _, .nil, nofun⟩
  | @snoc messages groups id id' message replies _ hlast ih =>
    rw [List.length_append, List.length_singleton] at hdone
    obtain ⟨hid, hpair, hold⟩ := ih (by omega)
    obtain ⟨hid', hnew⟩ := hlast.readerIds
    have hsucc : (id + 1).toNat = id.toNat + 1 := by
      rw [UInt32.toNat_add, UInt32.toNat_one, Nat.mod_eq_of_lt (by omega)]
    have hle : id.toNat ≤ id'.toNat ∧ id'.toNat ≤ id.toNat + 1 := by
      rcases hid' with rfl | rfl
      · exact ⟨Nat.le_refl _, Nat.le_succ _⟩
      · omega
    refine ⟨by rw [List.length_append, List.length_singleton]; omega, ?_, ?_⟩
    · refine List.pairwise_append.2 ⟨hpair, List.pairwise_singleton _ _, ?_⟩
      intro replies' hmem last hlast' reply hreply reply' hreply' hne heq
      rw [List.mem_singleton.1 hlast'] at hreply'
      have hbound := hold replies' hmem reply hreply
      rcases hnew reply' hreply' with h0 | ⟨h1, -⟩
      · exact hne (heq.trans h0)
      · rw [heq, h1, hsucc] at hbound
        omega
    · intro replies' hmem reply hreply
      rcases List.mem_append.1 hmem with hmem | hmem
      · exact (hold replies' hmem reply hreply).trans hle.1
      · rw [List.mem_singleton.1 hmem] at hreply
        rcases hnew reply hreply with h0 | ⟨h1, h2⟩
        · rw [h0]
          exact Nat.zero_le _
        · rw [h1, h2]

/-- **A session of the file server**: in whatever pieces the requests arrive, whatever happens to
the files in the meantime and wherever the connection breaks, the client reads one conversation for
each of the first requests, in their order, and of the next one a part at most; that only if the
worker has dropped it. A worker that waits for more, or has given up reading, has answered all
requests. Replies to different requests do not share a reader id, as long as there are fewer than `2
^ 32` of them. -/
theorem fileSession_conversations (config : ServerConfig) (hex : HexPermissive)
    (events : List (LoopEvent FileEnv)) :
    let c := runSocket config hex events
    ∃ done rest groups id part,
      decode CliToFile.read c.received = done ++ rest ∧
      (∀ requests : List Request, c.received = requests.flatMap Request.bytes →
        done ++ rest = requests.map Request.message) ∧
      Conversations config done groups id ∧
      decode (FileToCli.read hex) c.state.outgoing = groups.flatten ++ part ∧
      (part ≠ [] → c.status = .dropped) ∧
      (c.status = .running → c.avail = [] → rest = []) ∧
      (∀ e, c.status = .failed e → rest = []) ∧
      (c.status = .dropped → ∃ last later more id', rest = last :: later ∧ more ≠ [] ∧
        Conversation config id last (part ++ more) id') ∧
      (done.length < 2 ^ 32 → groups.Pairwise Distinct) := by
  have hstart : Conversed config [] ⟨0, []⟩ := ⟨[], .nil, .nil⟩
  have hserved : Served CliToFile.read (Conversed config) (BrokenOff config hex)
      (Loop.run CliToFile.read (serveMessage config hex) ⟨0, []⟩ events) :=
    served (consumes_frame _) hstart (fun env message done s h => (serveMessage_spec h).1)
      (fun env message done s h => (serveMessage_spec h).2) events
  rw [← runSocket] at hserved
  have hseen {replies : List FileToCli} {out : Bytes}
      (h : Sent FileToCli.write FileToCli.Plain replies out) :
      decode (FileToCli.read hex) out = replies ++ [] := by
    rw [List.append_nil]
    exact h.decode (FileToCli.consumes_read hex) fun r hr => FileToCli.readsBack hex hr
  have hrequests {messages : List CliToFile}
      (h : decode CliToFile.read (runSocket config hex events).received = messages)
      (requests : List Request)
      (hsent : (runSocket config hex events).received = requests.flatMap Request.bytes) :
      messages = requests.map Request.message := by
    rw [← h, hsent, decode_requests]
  dsimp only
  cases hstatus : (runSocket config hex events).status with
  | running =>
    obtain ⟨done, rest, hsplit, ⟨groups, hgroups, hsent⟩, hwaits⟩ := hserved.running hstatus
    exact ⟨done, rest, groups, _, [], hsplit, hrequests hsplit, hgroups, hseen hsent, nofun,
      fun _ => hwaits, nofun, nofun, fun hlen => (hgroups.distinct hlen).2.1⟩
  | dropped =>
    obtain ⟨done, rest, hsplit, before, last, groups, id, part, more, id', rfl, hgroups, hlast,
      hmore, hread⟩ := hserved.dropped hstatus
    rw [List.append_assoc, List.singleton_append] at hsplit
    exact ⟨before, last :: rest, groups, id, part, hsplit, hrequests hsplit, hgroups, hread,
      fun _ => rfl, nofun, nofun, fun _ => ⟨last, rest, more, id', rfl, hmore, hlast⟩,
      fun hlen => (hgroups.distinct hlen).2.1⟩
  | failed e =>
    obtain ⟨groups, hgroups, hsent⟩ := hserved.failed e hstatus
    have hall := List.append_nil (decode CliToFile.read (runSocket config hex events).received)
    exact ⟨_, [], groups, _, [], hall.symm, hrequests hall.symm, hgroups, hseen hsent, nofun, nofun,
      fun _ _ => rfl, nofun, fun hlen => (hgroups.distinct hlen).2.1⟩

end Sessions

end Moulars.FileSrv
