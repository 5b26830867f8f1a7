import Moulars.Net.NetIo
import Moulars.Vault.Interface

/-!
The messages between a client and the auth server: what a client can send, the reader for it,
and what the auth server sends.
-/

namespace Moulars.Auth

open Lib.Wire Lib.Clients Lib.AsyncRead Lib.AsyncRead.AsyncReader
open Hashes Net Vault

inductive CliToAuth
  | pingRequest (pingTime transId : UInt32) (payload : Bytes)
  | clientRegisterRequest (buildId : UInt32)
  | clientSetCCRLevel (ccrLevel : UInt32)
  | acctLoginRequest (transId clientChallenge : UInt32) (accountName : String)
      (passHash : ShaDigest) (authToken os : String)
  | acctSetPlayerRequest (transId playerId : UInt32)
  | acctCreateRequest (transId : UInt32) (accountName : String) (authHash : ShaDigest)
      (accountFlags billingType : UInt32)
  | acctChangePasswordRequest (transId : UInt32) (accountName : String) (authHash : ShaDigest)
  | acctSetRolesRequest (transId : UInt32) (accountName : String) (accountFlags : UInt32)
  | acctSetBillingTypeRequest (transId : UInt32) (accountName : String) (billingType : UInt32)
  | acctActivateRequest (transId : UInt32) (activationKey : Uuid)
  | acctCreateFromKeyRequest (transId : UInt32) (accountName : String) (authHash : ShaDigest)
      (key : Uuid) (billingType : UInt32)
  | playerDeleteRequest (transId playerId : UInt32)
  | playerCreateRequest (transId : UInt32) (playerName avatarShape friendInvite : String)
  | upgradeVisitorRequest (transId playerId : UInt32)
  | setPlayerBanStatusRequest (transId playerId banned : UInt32)
  | kickPlayer (playerId : UInt32)
  | changePlayerNameRequest (transId playerId : UInt32) (newName : String)
  | sendFriendInviteRequest (transId : UInt32) (inviteId : Uuid) (emailAddress toPlayer : String)
  | vaultNodeCreate (transId : UInt32) (nodeBuffer : Bytes)
  | vaultNodeFetch (transId nodeId : UInt32)
  | vaultNodeSave (transId nodeId : UInt32) (revision : Uuid) (nodeBuffer : Bytes)
  | vaultNodeDelete (nodeId : UInt32)
  | vaultNodeAdd (transId parentId childId ownerId : UInt32)
  | vaultNodeRemove (transId parentId childId : UInt32)
  | vaultFetchNodeRefs (transId nodeId : UInt32)
  | vaultInitAgeRequest (transId : UInt32) (ageInstanceId parentAgeInstanceId : Uuid)
      (ageFilename ageInstanceName ageUserName ageDescription : String)
      (ageSequence ageLanguage : Int32)
  | vaultNodeFind (transId : UInt32) (nodeBuffer : Bytes)
  | vaultSetSeen (parentId childId : UInt32) (seen : UInt8)
  | vaultSendNode (srcNodeId destPlayerId : UInt32)
  | ageRequest (transId : UInt32) (ageName : String) (ageInstanceId : Uuid)
  | fileListRequest (transId : UInt32) (directory ext : String)
  | fileDownloadRequest (transId : UInt32) (filename : String)
  | fileDownloadChunkAck (transId : UInt32)
  | propagateBuffer (typeId : UInt32) (buffer : Bytes)
  | getPublicAgeList (transId : UInt32) (ageFilename : String)
  | setAgePublic (ageInfoId : UInt32) (isPublic : UInt8)
  | logPythonTraceback (traceback : String)
  | logStackDump (stackdump : String)
  | logClientDebuggerConnect (dummy : UInt32)
  | scoreCreate (transId ownerId : UInt32) (gameName : String) (gameType value : UInt32)
  | scoreDelete (transId scoreId : UInt32)
  | scoreGetScores (transId ownerId : UInt32) (gameName : String)
  | scoreAddPoints (transId scoreId points : UInt32)
  | scoreTransferPoints (transId srcScoreId destScoreId points : UInt32)
  | scoreSetPoints (transId scoreId points : UInt32)
  | scoreGetRanks (transId ownerId scoreGroup parentFolderId : UInt32) (gameName : String)
      (timePeriod numResults pageNumber sortDesc : UInt32)
  | accountExistsRequest (transId : UInt32) (accountName : String)
  | scoreGetHighScores (transId ageId maxScores : UInt32) (gameName : String)

/-! ### Replies -/

structure FileInfo where
  path : String
  fileSize : UInt32

structure Manifest where
  files : List FileInfo

/-- The messages the auth server sends; those it never sends are left out. -/
inductive AuthToCli
  | pingReply (pingTime transId : UInt32) (payload : Bytes)
  | clientRegisterReply (serverChallenge : UInt32)
  | acctLoginReply (transId : UInt32) (result : Int32) (accountId : Uuid)
      (accountFlags billingType : UInt32) (encryptionKey : List UInt32)
  | acctPlayerInfo (transId playerId : UInt32) (playerName avatarShape : String) (explorer : Int32)
  | acctSetPlayerReply (transId : UInt32) (result : Int32)
  | acctCreateReply (transId : UInt32) (result : Int32) (accountId : Uuid)
  | acctChangePasswordReply (transId : UInt32) (result : Int32)
  | acctSetRolesReply (transId : UInt32) (result : Int32)
  | acctSetBillingTypeReply (transId : UInt32) (result : Int32)
  | acctActivateReply (transId : UInt32) (result : Int32)
  | acctCreateFromKeyReply (transId : UInt32) (result : Int32) (accountId activationKey : Uuid)
  | playerCreateReply (transId : UInt32) (result : Int32) (playerId : UInt32) (explorer : Int32)
      (playerName avatarShape : String)
  | upgradeVisitorReply (transId : UInt32) (result : Int32)
  | setPlayerBanStatusReply (transId : UInt32) (result : Int32)
  | vaultNodeCreated (transId : UInt32) (result : Int32) (nodeId : UInt32)
  | vaultNodeFetched (transId : UInt32) (result : Int32) (nodeBuffer : Bytes)
  | vaultNodeChanged (nodeId : UInt32) (revisionId : Uuid)
  | vaultNodeAdded (parentId childId ownerId : UInt32)
  | vaultNodeRefsFetched (transId : UInt32) (result : Int32) (refs : List NodeRef)
  | vaultInitAgeReply (transId : UInt32) (result : Int32) (ageVaultId ageInfoVaultId : UInt32)
  | vaultNodeFindReply (transId : UInt32) (result : Int32) (nodeIds : List UInt32)
  | vaultAddNodeReply (transId : UInt32) (result : Int32)
  | fileListReply (transId : UInt32) (result : Int32) (manifest : Manifest)
  | fileDownloadChunk (transId : UInt32) (result : Int32) (totalSize offset : UInt32)
      (fileData : Bytes)
  | serverCaps (capsBuffer : Bytes)

def AuthToCli.downloadError (transId : UInt32) (result : NetResultCode) : AuthToCli :=
  .fileDownloadChunk transId result.code 0 0 []

def AuthToCli.loginError (transId : UInt32) (result : NetResultCode) : AuthToCli :=
  .acctLoginReply transId result.code .nil 0 0 [0, 0, 0, 0]

def AuthToCli.playerCreateError (transId : UInt32) (result : NetResultCode) : AuthToCli :=
  .playerCreateReply transId result.code 0 0 "" ""

/-! ### Reading client messages -/

inductive ClientMsgId
  | pingRequest | clientRegisterRequest | clientSetCCRLevel | acctLoginRequest
  | acctSetEulaVersion | acctSetDataRequest | acctSetPlayerRequest | acctCreateRequest
  | acctChangePasswordRequest | acctSetRolesRequest | acctSetBillingTypeRequest
  | acctActivateRequest | acctCreateFromKeyRequest | playerDeleteRequest | playerUndeleteRequest
  | playerSelectRequest | playerRenameRequest | playerCreateRequest | playerSetStatus | playerChat
  | upgradeVisitorRequest | setPlayerBanStatusRequest | kickPlayer | changePlayerNameRequest
  | sendFriendInviteRequest | vaultNodeCreate | vaultNodeFetch | vaultNodeSave | vaultNodeDelete
  | vaultNodeAdd | vaultNodeRemove | vaultFetchNodeRefs | vaultInitAgeRequest | vaultNodeFind
  | vaultSetSeen | vaultSendNode | ageRequest | fileListRequest | fileDownloadRequest
  | fileDownloadChunkAck | propagateBuffer | getPublicAgeList | setAgePublic | logPythonTraceback
  | logStackDump | logClientDebuggerConnect | scoreCreate | scoreDelete | scoreGetScores
  | scoreAddPoints | scoreTransferPoints | scoreSetPoints | scoreGetRanks | accountExistsRequest
  | ageRequestEx | scoreGetHighScores
  deriving DecidableEq

def ClientMsgId.all : List ClientMsgId :=
  [.pingRequest, .clientRegisterRequest, .clientSetCCRLevel, .acctLoginRequest, .acctSetEulaVersion,
    .acctSetDataRequest, .acctSetPlayerRequest, .acctCreateRequest, .acctChangePasswordRequest,
    .acctSetRolesRequest, .acctSetBillingTypeRequest, .acctActivateRequest,
    .acctCreateFromKeyRequest, .playerDeleteRequest, .playerUndeleteRequest, .playerSelectRequest,
    .playerRenameRequest, .playerCreateRequest, .playerSetStatus, .playerChat,
    .upgradeVisitorRequest, .setPlayerBanStatusRequest, .kickPlayer, .changePlayerNameRequest,
    .sendFriendInviteRequest, .vaultNodeCreate, .vaultNodeFetch, .vaultNodeSave, .vaultNodeDelete,
    .vaultNodeAdd, .vaultNodeRemove, .vaultFetchNodeRefs, .vaultInitAgeRequest, .vaultNodeFind,
    .vaultSetSeen, .vaultSendNode, .ageRequest, .fileListRequest, .fileDownloadRequest,
    .fileDownloadChunkAck, .propagateBuffer, .getPublicAgeList, .setAgePublic, .logPythonTraceback,
    .logStackDump, .logClientDebuggerConnect, .scoreCreate, .scoreDelete, .scoreGetScores,
    .scoreAddPoints, .scoreTransferPoints, .scoreSetPoints, .scoreGetRanks, .accountExistsRequest,
    .ageRequestEx, .scoreGetHighScores]

/-- The number of a message: its place in the list, and those of the two extensions from
`0x1000` on. -/
def ClientMsgId.code (m : ClientMsgId) : ℕ :=
  if m.ctorIdx < 54 then m.ctorIdx else 0x1000 + (m.ctorIdx - 54)

def ClientMsgId.fromU16 (msgId : UInt16) : Option ClientMsgId :=
  ClientMsgId.all.find? fun m => m.code = msgId.toNat

def maxNodeBufferSize : UInt32 := 1024 * 1024
def maxPingPayload : UInt32 := 64 * 1024
def maxPropagateBufferSize : UInt32 := 1024 * 1024

/-- A message after its id. -/
def CliToAuth.readBody : ClientMsgId → AsyncReader CliToAuth
  | .pingRequest => do
    let pingTime ← u32
    let transId ← u32
    let payload ← readSizedBuffer maxPingPayload
    pure (.pingRequest pingTime transId payload)
  | .clientRegisterRequest => do
    let buildId ← u32
    pure (.clientRegisterRequest buildId)
  | .clientSetCCRLevel => do
    let ccrLevel ← u32
    pure (.clientSetCCRLevel ccrLevel)
  | .acctLoginRequest => do
    let transId ← u32
    let clientChallenge ← u32
    let accountName ← readUtf16Str
    let passHash ← readShaDigest
    let authToken ← readUtf16Str
    let os ← readUtf16Str
    pure (.acctLoginRequest transId clientChallenge accountName passHash authToken os)
  | .acctSetEulaVersion => .fail (.error "Unsupported message AcctSetEulaVersion")
  | .acctSetDataRequest => .fail (.error "Unsupported message AcctSetDataRequest")
  | .acctSetPlayerRequest => do
    let transId ← u32
    let playerId ← u32
    pure (.acctSetPlayerRequest transId playerId)
  | .acctCreateRequest => do
    let transId ← u32
    let accountName ← readUtf16Str
    let authHash ← readShaDigest
    let accountFlags ← u32
    let billingType ← u32
    pure (.acctCreateRequest transId accountName authHash accountFlags billingType)
  | .acctChangePasswordRequest => do
    let transId ← u32
    let accountName ← readUtf16Str
    let authHash ← readShaDigest
    pure (.acctChangePasswordRequest transId accountName authHash)
  | .acctSetRolesRequest => do
    let transId ← u32
    let accountName ← readUtf16Str
    let accountFlags ← u32
    pure (.acctSetRolesRequest transId accountName accountFlags)
  | .acctSetBillingTypeRequest => do
    let transId ← u32
    let accountName ← readUtf16Str
    let billingType ← u32
    pure (.acctSetBillingTypeRequest transId accountName billingType)
  | .acctActivateRequest => do
    let transId ← u32
    let activationKey ← readUuid
    pure (.acctActivateRequest transId activationKey)
  | .acctCreateFromKeyRequest => do
    let transId ← u32
    let accountName ← readUtf16Str
    let authHash ← readShaDigest
    let key ← readUuid
    let billingType ← u32
    pure (.acctCreateFromKeyRequest transId accountName authHash key billingType)
  | .playerDeleteRequest => do
    let transId ← u32
    let playerId ← u32
    pure (.playerDeleteRequest transId playerId)
  | .playerUndeleteRequest => .fail (.error "Unsupported message PlayerUndeleteRequest")
  | .playerSelectRequest => .fail (.error "Unsupported message PlayerSelectRequest")
  | .playerRenameRequest => .fail (.error "Unsupported message PlayerRenameRequest")
  | .playerCreateRequest => do
    let transId ← u32
    let playerName ← readUtf16Str
    let avatarShape ← readUtf16Str
    let friendInvite ← readUtf16Str
    pure (.playerCreateRequest transId playerName avatarShape friendInvite)
  | .playerSetStatus => .fail (.error "Unsupported message PlayerSetStatus")
  | .playerChat => .fail (.error "Unsupported message PlayerChat")
  | .upgradeVisitorRequest => do
    let transId ← u32
    let playerId ← u32
    pure (.upgradeVisitorRequest transId playerId)
  | .setPlayerBanStatusRequest => do
    let transId ← u32
    let playerId ← u32
    let banned ← u32
    pure (.setPlayerBanStatusRequest transId playerId banned)
  | .kickPlayer => do
    let playerId ← u32
    pure (.kickPlayer playerId)
  | .changePlayerNameRequest => do
    let transId ← u32
    let playerId ← u32
    let newName ← readUtf16Str
    pure (.changePlayerNameRequest transId playerId newName)
  | .sendFriendInviteRequest => do
    let transId ← u32
    let inviteId ← readUuid
    let emailAddress ← readUtf16Str
    let toPlayer ← readUtf16Str
    pure (.sendFriendInviteRequest transId inviteId emailAddress toPlayer)
  | .vaultNodeCreate => do
    let transId ← u32
    let nodeBuffer ← readSizedBuffer maxNodeBufferSize
    pure (.vaultNodeCreate transId nodeBuffer)
  | .vaultNodeFetch => do
    let transId ← u32
    let nodeId ← u32
    pure (.vaultNodeFetch transId nodeId)
  | .vaultNodeSave => do
    let transId ← u32
    let nodeId ← u32
    let revision ← readUuid
    let nodeBuffer ← readSizedBuffer maxNodeBufferSize
    pure (.vaultNodeSave transId nodeId revision nodeBuffer)
  | .vaultNodeDelete => do
    let nodeId ← u32
    pure (.vaultNodeDelete nodeId)
  | .vaultNodeAdd => do
    let transId ← u32
    let parentId ← u32
    let childId ← u32
    let ownerId ← u32
    pure (.vaultNodeAdd transId parentId childId ownerId)
  | .vaultNodeRemove => do
    let transId ← u32
    let parentId ← u32
    let childId ← u32
    pure (.vaultNodeRemove transId parentId childId)
  | .vaultFetchNodeRefs => do
    let transId ← u32
    let nodeId ← u32
    pure (.vaultFetchNodeRefs transId nodeId)
  | .vaultInitAgeRequest => do
    let transId ← u32
    let ageInstanceId ← readUuid
    let parentAgeInstanceId ← readUuid
    let ageFilename ← readUtf16Str
    let ageInstanceName ← readUtf16Str
    let ageUserName ← readUtf16Str
    let ageDescription ← readUtf16Str
    let ageSequence ← i32
    let ageLanguage ← i32
    pure (.vaultInitAgeRequest transId ageInstanceId parentAgeInstanceId ageFilename
      ageInstanceName ageUserName ageDescription ageSequence ageLanguage)
  | .vaultNodeFind => do
    let transId ← u32
    let nodeBuffer ← readSizedBuffer maxNodeBufferSize
    pure (.vaultNodeFind transId nodeBuffer)
  | .vaultSetSeen => do
    let parentId ← u32
    let childId ← u32
    let seen ← u8
    pure (.vaultSetSeen parentId childId seen)
  | .vaultSendNode => do
    let srcNodeId ← u32
    let destPlayerId ← u32
    pure (.vaultSendNode srcNodeId destPlayerId)
  | .ageRequest => do
    let transId ← u32
    let ageName ← readUtf16Str
    let ageInstanceId ← readUuid
    pure (.ageRequest transId ageName ageInstanceId)
  | .fileListRequest => do
    let transId ← u32
    let directory ← readUtf16Str
    let ext ← readUtf16Str
    pure (.fileListRequest transId directory ext)
  | .fileDownloadRequest => do
    let transId ← u32
    let filename ← readUtf16Str
    pure (.fileDownloadRequest transId filename)
  | .fileDownloadChunkAck => do
    let transId ← u32
    pure (.fileDownloadChunkAck transId)
  | .propagateBuffer => do
    let typeId ← u32
    let buffer ← readSizedBuffer maxPropagateBufferSize
    pure (.propagateBuffer typeId buffer)
  | .getPublicAgeList => do
    let transId ← u32
    let ageFilename ← readUtf16Str
    pure (.getPublicAgeList transId ageFilename)
  | .setAgePublic => do
    let ageInfoId ← u32
    let isPublic ← u8
    pure (.setAgePublic ageInfoId isPublic)
  | .logPythonTraceback => do
    let traceback ← readUtf16Str
    pure (.logPythonTraceback traceback)
  | .logStackDump => do
    let stackdump ← readUtf16Str
    pure (.logStackDump stackdump)
  | .logClientDebuggerConnect => do
    let dummy ← u32
    pure (.logClientDebuggerConnect dummy)
  | .scoreCreate => do
    let transId ← u32
    let ownerId ← u32
    let gameName ← readUtf16Str
    let gameType ← u32
    let value ← u32
    pure (.scoreCreate transId ownerId gameName gameType value)
  | .scoreDelete => do
    let transId ← u32
    let scoreId ← u32
    pure (.scoreDelete transId scoreId)
  | .scoreGetScores => do
    let transId ← u32
    let ownerId ← u32
    let gameName ← readUtf16Str
    pure (.scoreGetScores transId ownerId gameName)
  | .scoreAddPoints => do
    let transId ← u32
    let scoreId ← u32
    let points ← u32
    pure (.scoreAddPoints transId scoreId points)
  | .scoreTransferPoints => do
    let transId ← u32
    let srcScoreId ← u32
    let destScoreId ← u32
    let points ← u32
    pure (.scoreTransferPoints transId srcScoreId destScoreId points)
  | .scoreSetPoints => do
    let transId ← u32
    let scoreId ← u32
    let points ← u32
    pure (.scoreSetPoints transId scoreId points)
  | .scoreGetRanks => do
    let transId ← u32
    let ownerId ← u32
    let scoreGroup ← u32
    let parentFolderId ← u32
    let gameName ← readUtf16Str
    let timePeriod ← u32
    let numResults ← u32
    let pageNumber ← u32
    let sortDesc ← u32
    pure (.scoreGetRanks transId ownerId scoreGroup parentFolderId gameName timePeriod numResults
      pageNumber sortDesc)
  | .accountExistsRequest => do
    let transId ← u32
    let accountName ← readUtf16Str
    pure (.accountExistsRequest transId accountName)
  | .ageRequestEx => .fail (.error "Unsupported message AgeRequestEx")
  | .scoreGetHighScores => do
    let transId ← u32
    let ageId ← u32
    let maxScores ← u32
    let gameName ← readUtf16Str
    pure (.scoreGetHighScores transId ageId maxScores gameName)

def CliToAuth.read : AsyncReader CliToAuth := do
  let msgId ← u16
  match ClientMsgId.fromU16 msgId with
  | some m => CliToAuth.readBody m
  | none => .fail (.error s!"Bad message ID {msgId.toNat}")

end Moulars.Auth
