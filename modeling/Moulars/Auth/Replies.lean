import Moulars.Auth.Manifest
import Moulars.Lib.MessageLoop

/-!
The auth server's messages on the wire.

A message starts with its id and has no length of its own, so a client has to know every part of
it. What the server writes is read back part by part.
-/

namespace Moulars.Auth

open Lib.Wire Lib.Text Lib.Clients Lib.AsyncRead
open Lib.AsyncRead.AsyncReader Net Vault

/-! ### Message ids -/

inductive ServerMsgId
  | pingReply | serverAddr | notifyNewBuild | clientRegisterReply | acctLoginReply | acctData
  | acctPlayerInfo | acctSetPlayerReply | acctCreateReply | acctChangePasswordReply
  | acctSetRolesReply | acctSetBillingTypeReply | acctActivateReply | acctCreateFromKeyReply
  | playerList | playerChat | playerCreateReply | playerDeleteReply | upgradeVisitorReply
  | setPlayerBanStatusReply | changePlayerNameReply | sendFriendInviteReply | friendNotify
  | vaultNodeCreated | vaultNodeFetched | vaultNodeChanged | vaultNodeDeleted | vaultNodeAdded
  | vaultNodeRemoved | vaultNodeRefsFetched | vaultInitAgeReply | vaultNodeFindReply
  | vaultSaveNodeReply | vaultAddNodeReply | vaultRemoveNodeReply | ageReply | fileListReply
  | fileDownloadChunk | propagateBuffer | kickedOff | publicAgeList | scoreCreateReply
  | scoreDeleteReply | scoreGetScoresReply | scoreAddPointsReply | scoreTransferPointsReply
  | scoreSetPointsReply | scoreGetRanksReply | accountExistsReply | ageReplyEx
  | scoreGetHighScoresReply | serverCaps
  deriving DecidableEq

namespace ServerMsgId

/-- The ids are consecutive, and those of the extended messages start over at `0x1000`. -/
def code (m : ServerMsgId) : ℕ := if m.ctorIdx < 49 then m.ctorIdx else 0x1000 + (m.ctorIdx - 49)

def sent : List ServerMsgId :=
  [pingReply, clientRegisterReply, acctLoginReply, acctPlayerInfo, acctSetPlayerReply,
    acctCreateReply, acctChangePasswordReply, acctSetRolesReply, acctSetBillingTypeReply,
    acctActivateReply, acctCreateFromKeyReply, playerCreateReply, upgradeVisitorReply,
    setPlayerBanStatusReply, vaultNodeCreated, vaultNodeFetched, vaultNodeChanged, vaultNodeAdded,
    vaultNodeRefsFetched, vaultInitAgeReply, vaultNodeFindReply, vaultAddNodeReply, fileListReply,
    fileDownloadChunk, serverCaps]

/-- How a client tells messages apart. -/
def fromU16 (msgId : UInt16) : Option ServerMsgId := sent.find? fun m => m.code = msgId.toNat

def write (m : ServerMsgId) : Out := Out.u16 (UInt16.ofNat m.code)

end ServerMsgId

/-! ### Writing -/

def NodeRef.streamWrite (r : NodeRef) : Out :=
  Out.u32 r.parent ++ (Out.u32 r.child ++ (Out.u32 r.owner ++ Out.u8 0))

/-- A list with its length; `text` is the error for a list that is too long. -/
def writeList {α : Type} (text : String) (w : α → Out) (as : List α) : Out :=
  if as.length < 2 ^ 32 then Out.u32 (UInt32.ofNat as.length) ++ Out.each w as
  else Out.fail (.error text)

def writeResult (m : ServerMsgId) (transId : UInt32) (result : Int32) : Out :=
  m.write ++ (Out.u32 transId ++ Out.i32 result)

def AuthToCli.streamWrite : AuthToCli → Out
  | .pingReply pingTime transId payload => ServerMsgId.pingReply.write ++
      (Out.u32 pingTime ++ (Out.u32 transId ++ writeSizedBuffer payload))
  | .clientRegisterReply serverChallenge =>
    ServerMsgId.clientRegisterReply.write ++ Out.u32 serverChallenge
  | .acctLoginReply transId result accountId accountFlags billingType encryptionKey =>
    ServerMsgId.acctLoginReply.write ++ (Out.u32 transId ++ (Out.i32 result ++
      (accountId.streamWrite ++ (Out.u32 accountFlags ++ (Out.u32 billingType ++
        Out.each Out.u32 encryptionKey)))))
  | .acctPlayerInfo transId playerId playerName avatarShape explorer =>
    ServerMsgId.acctPlayerInfo.write ++ (Out.u32 transId ++ (Out.u32 playerId ++
      (writeUtf16Str playerName ++ (writeUtf16Str avatarShape ++ Out.i32 explorer))))
  | .acctSetPlayerReply transId result => writeResult .acctSetPlayerReply transId result
  | .acctCreateReply transId result accountId => ServerMsgId.acctCreateReply.write ++
      (Out.u32 transId ++ (Out.i32 result ++ accountId.streamWrite))
  | .acctChangePasswordReply transId result => writeResult .acctChangePasswordReply transId result
  | .acctSetRolesReply transId result => writeResult .acctSetRolesReply transId result
  | .acctSetBillingTypeReply transId result => writeResult .acctSetBillingTypeReply transId result
  | .acctActivateReply transId result => writeResult .acctActivateReply transId result
  | .acctCreateFromKeyReply transId result accountId activationKey =>
    ServerMsgId.acctCreateFromKeyReply.write ++ (Out.u32 transId ++ (Out.i32 result ++
      (accountId.streamWrite ++ activationKey.streamWrite)))
  | .playerCreateReply transId result playerId explorer playerName avatarShape =>
    ServerMsgId.playerCreateReply.write ++ (Out.u32 transId ++ (Out.i32 result ++
      (Out.u32 playerId ++ (Out.i32 explorer ++ (writeUtf16Str playerName ++
        writeUtf16Str avatarShape)))))
  | .upgradeVisitorReply transId result => writeResult .upgradeVisitorReply transId result
  | .setPlayerBanStatusReply transId result => writeResult .setPlayerBanStatusReply transId result
  | .vaultNodeCreated transId result nodeId => ServerMsgId.vaultNodeCreated.write ++
      (Out.u32 transId ++ (Out.i32 result ++ Out.u32 nodeId))
  | .vaultNodeFetched transId result nodeBuffer => ServerMsgId.vaultNodeFetched.write ++
      (Out.u32 transId ++ (Out.i32 result ++ writeSizedBuffer nodeBuffer))
  | .vaultNodeChanged nodeId revisionId => ServerMsgId.vaultNodeChanged.write ++
      (Out.u32 nodeId ++ revisionId.streamWrite)
  | .vaultNodeAdded parentId childId ownerId => ServerMsgId.vaultNodeAdded.write ++
      (Out.u32 parentId ++ (Out.u32 childId ++ Out.u32 ownerId))
  | .vaultNodeRefsFetched transId result refs => ServerMsgId.vaultNodeRefsFetched.write ++
      (Out.u32 transId ++ (Out.i32 result ++
        writeList "Too many refs for stream" NodeRef.streamWrite refs))
  | .vaultInitAgeReply transId result ageVaultId ageInfoVaultId =>
    ServerMsgId.vaultInitAgeReply.write ++ (Out.u32 transId ++ (Out.i32 result ++
      (Out.u32 ageVaultId ++ Out.u32 ageInfoVaultId)))
  | .vaultNodeFindReply transId result nodeIds => ServerMsgId.vaultNodeFindReply.write ++
      (Out.u32 transId ++ (Out.i32 result ++
        writeList "Too many nodes for stream" Out.u32 nodeIds))
  | .vaultAddNodeReply transId result => writeResult .vaultAddNodeReply transId result
  | .fileListReply transId result manifest => ServerMsgId.fileListReply.write ++
      (Out.u32 transId ++ (Out.i32 result ++ manifest.streamWrite))
  | .fileDownloadChunk transId result totalSize offset fileData =>
    ServerMsgId.fileDownloadChunk.write ++ (Out.u32 transId ++ (Out.i32 result ++
      (Out.u32 totalSize ++ (Out.u32 offset ++ writeSizedBuffer fileData))))
  | .serverCaps capsBuffer => ServerMsgId.serverCaps.write ++ writeSizedBuffer capsBuffer

/-! ### How a client reads -/

def readBuffer : AsyncReader Bytes := readSizedBuffer 0xFFFFFFFF

def readNodeRef : AsyncReader NodeRef := do
  let parent ← u32
  let child ← u32
  let owner ← u32
  let _ ← u8
  pure ⟨parent, child, owner⟩

def readList {α : Type} (p : AsyncReader α) : AsyncReader (List α) := do
  let n ← u32
  times p n.toNat

def readManifest : AsyncReader Manifest := do
  let charCount ← u32
  let fileBuffer ← exact (charCount.toNat * 2)
  match Manifest.streamRead.run (le 4 charCount.toNat ++ fileBuffer.1) with
  | .ok (manifest, _) => pure manifest
  | .error e => .fail e

def readResult (f : UInt32 → Int32 → AuthToCli) : AsyncReader AuthToCli := do
  let transId ← u32
  let result ← i32
  pure (f transId result)

def AuthToCli.readBody : ServerMsgId → AsyncReader AuthToCli
  | .pingReply => do
    let pingTime ← u32
    let transId ← u32
    let payload ← readBuffer
    pure (.pingReply pingTime transId payload)
  | .clientRegisterReply => do
    let serverChallenge ← u32
    pure (.clientRegisterReply serverChallenge)
  | .acctLoginReply => do
    let transId ← u32
    let result ← i32
    let accountId ← readUuid
    let accountFlags ← u32
    let billingType ← u32
    let encryptionKey ← times u32 4
    pure (.acctLoginReply transId result accountId accountFlags billingType encryptionKey)
  | .acctPlayerInfo => do
    let transId ← u32
    let playerId ← u32
    let playerName ← readUtf16Str
    let avatarShape ← readUtf16Str
    let explorer ← i32
    pure (.acctPlayerInfo transId playerId playerName avatarShape explorer)
  | .acctSetPlayerReply => readResult .acctSetPlayerReply
  | .acctCreateReply => do
    let transId ← u32
    let result ← i32
    let accountId ← readUuid
    pure (.acctCreateReply transId result accountId)
  | .acctChangePasswordReply => readResult .acctChangePasswordReply
  | .acctSetRolesReply => readResult .acctSetRolesReply
  | .acctSetBillingTypeReply => readResult .acctSetBillingTypeReply
  | .acctActivateReply => readResult .acctActivateReply
  | .acctCreateFromKeyReply => do
    let transId ← u32
    let result ← i32
    let accountId ← readUuid
    let activationKey ← readUuid
    pure (.acctCreateFromKeyReply transId result accountId activationKey)
  | .playerCreateReply => do
    let transId ← u32
    let result ← i32
    let playerId ← u32
    let explorer ← i32
    let playerName ← readUtf16Str
    let avatarShape ← readUtf16Str
    pure (.playerCreateReply transId result playerId explorer playerName avatarShape)
  | .upgradeVisitorReply => readResult .upgradeVisitorReply
  | .setPlayerBanStatusReply => readResult .setPlayerBanStatusReply
  | .vaultNodeCreated => do
    let transId ← u32
    let result ← i32
    let nodeId ← u32
    pure (.vaultNodeCreated transId result nodeId)
  | .vaultNodeFetched => do
    let transId ← u32
    let result ← i32
    let nodeBuffer ← readBuffer
    pure (.vaultNodeFetched transId result nodeBuffer)
  | .vaultNodeChanged => do
    let nodeId ← u32
    let revisionId ← readUuid
    pure (.vaultNodeChanged nodeId revisionId)
  | .vaultNodeAdded => do
    let parentId ← u32
    let childId ← u32
    let ownerId ← u32
    pure (.vaultNodeAdded parentId childId ownerId)
  | .vaultNodeRefsFetched => do
    let transId ← u32
    let result ← i32
    let refs ← readList readNodeRef
    pure (.vaultNodeRefsFetched transId result refs)
  | .vaultInitAgeReply => do
    let transId ← u32
    let result ← i32
    let ageVaultId ← u32
    let ageInfoVaultId ← u32
    pure (.vaultInitAgeReply transId result ageVaultId ageInfoVaultId)
  | .vaultNodeFindReply => do
    let transId ← u32
    let result ← i32
    let nodeIds ← readList u32
    pure (.vaultNodeFindReply transId result nodeIds)
  | .vaultAddNodeReply => readResult .vaultAddNodeReply
  | .fileListReply => do
    let transId ← u32
    let result ← i32
    let manifest ← readManifest
    pure (.fileListReply transId result manifest)
  | .fileDownloadChunk => do
    let transId ← u32
    let result ← i32
    let totalSize ← u32
    let offset ← u32
    let fileData ← readBuffer
    pure (.fileDownloadChunk transId result totalSize offset fileData)
  | .serverCaps => do
    let capsBuffer ← readBuffer
    pure (.serverCaps capsBuffer)
  | _ => .fail (.error "")

def AuthToCli.read : AsyncReader AuthToCli := do
  let msgId ← u16
  match ServerMsgId.fromU16 msgId with
  | some m => AuthToCli.readBody m
  | none => .fail (.error "")

lemma AuthToCli.consumes_read : Consumes AuthToCli.read := consumes_ask (n := 2) (by decide) _

/-! ### What is written is read back -/

lemma readsBack_nodeRef (r : NodeRef) : ReadsBack readNodeRef (NodeRef.streamWrite r) r :=
  (ReadsBack.u32 r.parent).bind <| (ReadsBack.u32 r.child).bind <|
    (ReadsBack.u32 r.owner).bind (ReadsBack.u8 0).bind_pure

lemma readsBack_list {α : Type} {p : AsyncReader α} {w : α → Out} (text : String) (as : List α)
    (h : ∀ a, ReadsBack p (w a) a) : ReadsBack (readList p) (writeList text w as) as := by
  unfold writeList
  split
  · rename_i hlen
    have hn : (UInt32.ofNat as.length).toNat = as.length := UInt32.toNat_ofNat_of_lt' hlen
    refine (ReadsBack.u32 _).bind ?_
    rw [hn]
    exact ReadsBack.times as fun a _ => h a
  · intro b hb
    cases hb

lemma readsBack_manifest {m : Manifest} (h : ∀ f ∈ m.files, NulFree f.path) :
    ReadsBack readManifest m.streamWrite m := by
  intro b hb
  have hread := Manifest.reads h b hb []
  obtain ⟨buffer, -, hlen, heven, rfl⟩ := FileSrv.writeBuffer_eq_ok hb
  have hn : (UInt32.ofNat (buffer.length / 2)).toNat = buffer.length / 2 :=
    UInt32.toNat_ofNat_of_lt' hlen
  have hcount := reads_u32 (UInt32.ofNat (buffer.length / 2))
  rw [hn] at hcount
  refine reads_bind hcount ?_
  rw [hn]
  refine reads_bind_nil (reads_exact ⟨buffer, heven.symm⟩) ?_
  rw [List.append_nil] at hread
  dsimp only
  rw [hread]
  exact reads_pure m

/-- Everything in the message is also on the wire. -/
def AuthToCli.Plain : AuthToCli → Prop
  | .acctLoginReply _ _ _ _ _ encryptionKey => encryptionKey.length = 4
  | .fileListReply _ _ manifest => ∀ f ∈ manifest.files, NulFree f.path
  | _ => True

lemma readsBack_result (f : UInt32 → Int32 → AuthToCli) (transId : UInt32) (result : Int32) :
    ReadsBack (readResult f) (Out.u32 transId ++ Out.i32 result) (f transId result) :=
  (ReadsBack.u32 transId).bind (ReadsBack.i32 result).bind_pure

lemma readsBack_id {m : ServerMsgId} (hm : m ∈ ServerMsgId.sent) {w : Out} {reply : AuthToCli}
    (h : ReadsBack (AuthToCli.readBody m) w reply) :
    ReadsBack AuthToCli.read (m.write ++ w) reply := by
  have hid : ∀ m ∈ ServerMsgId.sent, ServerMsgId.fromU16 (UInt16.ofNat m.code) = some m := by
    decide
  refine (ReadsBack.u16 _).bind ?_
  rw [hid m hm]
  exact h

lemma readsBack_reply {m : ServerMsgId} (hm : m ∈ ServerMsgId.sent) {transId : UInt32}
    {result : Int32} {k : UInt32 → Int32 → AsyncReader AuthToCli}
    (hk : AuthToCli.readBody m = u32 >>= fun t => i32 >>= fun r => k t r) {w : Out}
    {reply : AuthToCli} (h : ReadsBack (k transId result) w reply) :
    ReadsBack AuthToCli.read (m.write ++ (Out.u32 transId ++ (Out.i32 result ++ w))) reply := by
  refine readsBack_id hm ?_
  rw [hk]
  exact (ReadsBack.u32 transId).bind ((ReadsBack.i32 result).bind h)

/-- **What the auth server writes, a client reads back.** -/
lemma AuthToCli.readsBack {reply : AuthToCli} (h : reply.Plain) :
    ReadsBack AuthToCli.read reply.streamWrite reply := by
  cases reply with
  | pingReply pingTime transId payload =>
    exact readsBack_id (by decide) <| (ReadsBack.u32 pingTime).bind <|
      (ReadsBack.u32 transId).bind (readsBack_sizedBuffer payload).bind_pure
  | clientRegisterReply serverChallenge =>
    exact readsBack_id (by decide) (ReadsBack.u32 serverChallenge).bind_pure
  | acctLoginReply transId result accountId accountFlags billingType encryptionKey =>
    have hkey := ReadsBack.times encryptionKey fun v _ => ReadsBack.u32 v
    rw [show encryptionKey.length = 4 from h] at hkey
    exact readsBack_reply (by decide) rfl <| (readsBack_uuid accountId).bind <|
      (ReadsBack.u32 accountFlags).bind <| (ReadsBack.u32 billingType).bind hkey.bind_pure
  | acctPlayerInfo transId playerId playerName avatarShape explorer =>
    exact readsBack_id (by decide) <| (ReadsBack.u32 transId).bind <|
      (ReadsBack.u32 playerId).bind <| (readsBack_utf16Str playerName).bind <|
        (readsBack_utf16Str avatarShape).bind (ReadsBack.i32 explorer).bind_pure
  | acctCreateReply transId result accountId =>
    exact readsBack_reply (by decide) rfl (readsBack_uuid accountId).bind_pure
  | acctCreateFromKeyReply transId result accountId activationKey =>
    exact readsBack_reply (by decide) rfl <| (readsBack_uuid accountId).bind <|
      (readsBack_uuid activationKey).bind_pure
  | playerCreateReply transId result playerId explorer playerName avatarShape =>
    exact readsBack_reply (by decide) rfl <| (ReadsBack.u32 playerId).bind <|
      (ReadsBack.i32 explorer).bind <| (readsBack_utf16Str playerName).bind <|
        (readsBack_utf16Str avatarShape).bind_pure
  | vaultNodeCreated transId result nodeId =>
    exact readsBack_reply (by decide) rfl (ReadsBack.u32 nodeId).bind_pure
  | vaultNodeFetched transId result nodeBuffer =>
    exact readsBack_reply (by decide) rfl (readsBack_sizedBuffer nodeBuffer).bind_pure
  | vaultNodeChanged nodeId revisionId =>
    exact readsBack_id (by decide) <|
      (ReadsBack.u32 nodeId).bind (readsBack_uuid revisionId).bind_pure
  | vaultNodeAdded parentId childId ownerId =>
    exact readsBack_id (by decide) <| (ReadsBack.u32 parentId).bind <|
      (ReadsBack.u32 childId).bind (ReadsBack.u32 ownerId).bind_pure
  | vaultNodeRefsFetched transId result refs =>
    exact readsBack_reply (by decide) rfl (readsBack_list _ refs readsBack_nodeRef).bind_pure
  | vaultInitAgeReply transId result ageVaultId ageInfoVaultId =>
    exact readsBack_reply (by decide) rfl <| (ReadsBack.u32 ageVaultId).bind <|
      (ReadsBack.u32 ageInfoVaultId).bind_pure
  | vaultNodeFindReply transId result nodeIds =>
    exact readsBack_reply (by decide) rfl (readsBack_list _ nodeIds ReadsBack.u32).bind_pure
  | fileListReply transId result manifest =>
    exact readsBack_reply (by decide) rfl (readsBack_manifest h).bind_pure
  | fileDownloadChunk transId result totalSize offset fileData =>
    exact readsBack_reply (by decide) rfl <| (ReadsBack.u32 totalSize).bind <|
      (ReadsBack.u32 offset).bind (readsBack_sizedBuffer fileData).bind_pure
  | serverCaps capsBuffer =>
    exact readsBack_id (by decide) (readsBack_sizedBuffer capsBuffer).bind_pure
  | acctSetPlayerReply | acctChangePasswordReply | acctSetRolesReply | acctSetBillingTypeReply
  | acctActivateReply | upgradeVisitorReply | setPlayerBanStatusReply | vaultAddNodeReply =>
    exact readsBack_id (by decide) (readsBack_result _ _ _)

end Moulars.Auth
