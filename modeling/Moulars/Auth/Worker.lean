import Moulars.Auth.FileRequest
import Moulars.Auth.Messages
import Moulars.Auth.VaultHelpers
import Moulars.Vault.NodeBlob

/-!
The auth server's worker for one client, as a program over `WorkerCall`: requests to the vault, and
what it does with its own fields, its client and the file system.

What has happened on its connection is a list of events. Log messages are left out, and a `todo!()`
is a crash. The arguments of log messages panic when the socket is no longer connected
(`peer_addr().unwrap()`); a task that ends so makes none of the calls that follow.
-/

namespace Moulars.Auth

open Lib.Wire Lib.Clients Lib.Paths
open Hashes Plasma Vault

/-- The part of the configuration the workers read. -/
structure ServerConfig where
  buildId : UInt32
  dataRoot : Path
  restrictLogins : Bool

/-- The fields of a worker beside those it shares with all others. -/
structure AuthServerWorker where
  serverChallenge : UInt32
  accountId : Option Uuid
  playerId : Option UInt32

inductive OwnCall
  /-- the loop waits for what comes next -/
  | wait
  /-- a message has been read -/
  | receive (message : CliToAuth)
  /-- the loop has ended -/
  | drop
  /-- the task ends -/
  | exit
  /-- the fields are read -/
  | self
  | setAccountId (accountId : Uuid)
  | setPlayerId (playerId : UInt32)
  /-- `send_message`: whether it succeeded -/
  | send (reply : AuthToCli)
  /-- `Uuid::new_v4` -/
  | newV4
  /-- `get_ntd_key`, or none if that fails -/
  | getNtdKey
  /-- `Manifest::from_dir`, or none if that fails -/
  | fromDir (dirName ext : String)
  /-- the size of a file and what reading it returns read by read, a failure as none; none if
  the file cannot be opened -/
  | openFile (path : Path)

@[reducible] def OwnCall.Reply : OwnCall → Type
  | .wait => Unit
  | .receive _ => Unit
  | .drop => Unit
  | .exit => Unit
  | .self => AuthServerWorker
  | .setAccountId _ => Unit
  | .setPlayerId _ => Unit
  | .send _ => Bool
  | .newV4 => Uuid
  | .getNtdKey => Option (List UInt32)
  | .fromDir .. => Option Manifest
  | .openFile _ => Option (UInt64 × List (Option Bytes))

inductive WorkerCall
  | vault (m : VaultMessage)
  | own (c : OwnCall)

@[reducible] def WorkerReply : WorkerCall → Type
  | .vault m => VaultReply m
  | .own c => c.Reply

/-- A worker never ends with an error of its own. -/
abbrev WorkerProg := Prog WorkerReply Empty

def own (c : OwnCall) : WorkerProg c.Reply := Prog.call (R := WorkerReply) (.own c)

def vault (m : VaultMessage) : WorkerProg (VaultReply m) := Prog.call (R := WorkerReply) (.vault m)

/-- A program of vault requests as part of a worker, with its error as a value. -/
def onVault {α : Type} : VaultProg α → WorkerProg (NetResult α)
  | .done (.ok a) => .done (.ok (.ok a))
  | .done (.error err) => .done (.ok (.error err))
  | .done .crash => .done .crash
  | .ask m k => .ask (.vault m) fun r => onVault (k r)

def sendMessage (reply : AuthToCli) : WorkerProg Bool := own (.send reply)

/-- What a request is answered with, from the vault's answer. -/
def resultOf {α : Type} : NetResult α → Int32
  | .ok _ => NetResultCode.netSuccess.code
  | .error err => err.code

/-! ### Files -/

def fetchList (dirName ext : String) : WorkerProg (Option Manifest) :=
  if !checkFileRequest dirName.toList ext.toList then pure none else own (.fromDir dirName ext)

def doManifest (transId : UInt32) (dirName ext : String) : WorkerProg Bool := do
  match ← fetchList dirName ext with
  | some manifest => sendMessage (.fileListReply transId NetResultCode.netSuccess.code manifest)
  | none => sendMessage (.fileListReply transId NetResultCode.netFileNotFound.code ⟨[]⟩)

/-- The loop of `do_download` over what the reads return; a read of nothing is the end. -/
def sendChunks (transId totalSize : UInt32) : UInt32 → List (Option Bytes) → WorkerProg Bool
  | _, [] => pure true
  | _, some [] :: _ => pure true
  | offset, some chunk :: reads => do
    if ← sendMessage (.fileDownloadChunk transId NetResultCode.netSuccess.code totalSize offset
      chunk) then sendChunks transId totalSize (offset + UInt32.ofNat chunk.length) reads
    else pure false
  | _, none :: _ => sendMessage (.downloadError transId .netInternalError)

def openServerFile (filename : String) (dataRoot : Path) :
    WorkerProg (Option (UInt64 × List (Option Bytes))) :=
  match downloadPath filename.toList dataRoot with
  | some path => own (.openFile path)
  | none => pure none

def doDownload (dataRoot : Path) (transId : UInt32) (filename : String) : WorkerProg Bool := do
  match ← openServerFile filename dataRoot with
  | some (size, reads) =>
    if size.toNat < 2 ^ 32 then sendChunks transId (UInt32.ofNat size.toNat) 0 reads
    else sendMessage (.downloadError transId .netInternalError)
  | none => sendMessage (.downloadError transId .netFileNotFound)

section Handlers

variable {X : Crates} (sdl : SdlHost X) (config : ServerConfig)

/-! ### Logins -/

/-- The loop of `fetch_account_players`. -/
def sendPlayers (transId : UInt32) : List PlayerInfo → WorkerProg (Option NetResultCode)
  | [] => pure (some .netSuccess)
  | player :: players => do
    if ← sendMessage (.acctPlayerInfo transId player.playerId player.playerName player.avatarShape
      player.explorer) then sendPlayers transId players
    else pure none

def fetchAccountPlayers (transId : UInt32) (accountId : Uuid) :
    WorkerProg (Option NetResultCode) := do
  match ← vault (.getPlayers accountId) with
  | .ok players => sendPlayers transId players
  | .error err => pure (some err)

/-- Whether the client knows the password, as far as it can be told. -/
def checkPassword (X : Crates) (accountName : String) (clientChallenge serverChallenge : UInt32)
    (passHash : ShaDigest) (account : AccountInfo) : Bool :=
  if useEmailAuth X accountName then
    hashPasswordChallenge clientChallenge serverChallenge account.passHash = passHash
  else account.passHash = passHash.endianSwap

/-- `do_login_request` once the account may log in. -/
def finishLogin (transId : UInt32) (account : AccountInfo) : WorkerProg Bool := do
  match ← own .getNtdKey with
  | none => sendMessage (.loginError transId .netInternalError)
  | some ntdKey => do
    own (.setAccountId account.accountId)
    match ← fetchAccountPlayers transId account.accountId with
    | some .netSuccess => sendMessage (.acctLoginReply transId NetResultCode.netSuccess.code
        account.accountId account.accountFlags account.billingType ntdKey)
    | some err => sendMessage (.loginError transId err)
    | none => pure false

def doLoginRequest (X : Crates) (transId clientChallenge : UInt32) (accountName : String)
    (passHash : ShaDigest) : WorkerProg Bool := do
  match ← vault (.getAccount accountName) with
  | .error err => sendMessage (.loginError transId err)
  | .ok none => sendMessage (.loginError transId .netAuthenticationFailed)
  | .ok (some account) => do
    let worker ← own .self
    if !checkPassword X accountName clientChallenge worker.serverChallenge passHash account then
      sendMessage (.loginError transId .netAuthenticationFailed)
    else if account.isBanned then sendMessage (.loginError transId .netAccountBanned)
    else if config.restrictLogins && !account.canLoginRestricted then
      sendMessage (.loginError transId .netLoginDenied)
    else finishLogin transId account

/-! ### Players -/

def playerCreate (transId : UInt32) (playerName avatarShape : String) : WorkerProg Bool := do
  let worker ← own .self
  match worker.accountId with
  | none => sendMessage (.playerCreateError transId .netAuthenticationFailed)
  | some accountId =>
    if avatarShape ≠ "male" ∧ avatarShape ≠ "female" then
      sendMessage (.playerCreateError transId .netInvalidParameter)
    else do
      match ← vault (.createPlayer accountId playerName avatarShape) with
      | .error result => sendMessage (.playerCreateError transId result)
      | .ok player => do
        let reltoUuid ← own .newV4
        match ← onVault (createPlayerNodes sdl accountId player reltoUuid) with
        | .error err => sendMessage (.playerCreateError transId err)
        | .ok () => sendMessage (.playerCreateReply transId NetResultCode.netSuccess.code
            player.playerId player.explorer player.playerName player.avatarShape)

def setPlayerReply (transId : UInt32) (result : NetResultCode) : AuthToCli :=
  .acctSetPlayerReply transId result.code

/-- The last part of `do_set_player`: the player is set online and becomes the worker's. -/
def signIn (transId playerId : UInt32) (playerInfo : VaultNode) : WorkerProg Bool := do
  let update := VaultPlayerInfoNode.newUpdate playerInfo.nodeId 1 "Lobby" .nil
  match ← vault (.updateNode update) with
  | .error err => sendMessage (setPlayerReply transId err)
  | .ok () => do
    own (.setPlayerId playerId)
    sendMessage (setPlayerReply transId .netSuccess)

/-- The middle part of `do_set_player`: the player must not be online. -/
def checkOnline (transId playerId : UInt32) : WorkerProg Bool := do
  match ← vault (.getPlayerInfoNode playerId) with
  | .error err => sendMessage (setPlayerReply transId err)
  | .ok node => match node.asPlayerInfoNode with
    | none => .crash
    | some playerInfo =>
      if VaultPlayerInfoNode.online playerInfo ≠ 0 then
        sendMessage (setPlayerReply transId .netLoggedInElsewhere)
      else signIn transId playerId playerInfo

def doSetPlayer (transId playerId : UInt32) : WorkerProg Bool := do
  let worker ← own .self
  match worker.accountId with
  | none => sendMessage (setPlayerReply transId .netAuthenticationFailed)
  | some accountId => do
    match ← vault (.fetchNode playerId) with
    | .error err => sendMessage (setPlayerReply transId err)
    | .ok node => match node.asPlayerNode with
      | none => sendMessage (setPlayerReply transId .netPlayerNotFound)
      | some playerNode =>
        if VaultPlayerNode.accountId playerNode ≠ accountId then
          sendMessage (setPlayerReply transId .netPlayerNotFound)
        else checkOnline transId playerId

def setPlayerOffline (playerId : UInt32) : WorkerProg Unit := do
  match ← vault (.getPlayerInfoNode playerId) with
  | .error _ => pure ()
  | .ok node => match node.asPlayerInfoNode with
    | none => .crash
    | some playerInfo => do
      let update := VaultPlayerInfoNode.newUpdate playerInfo.nodeId 0 "" .nil
      let _ ← vault (.updateNode update)
      pure ()

def handleDisconnect : WorkerProg Unit := do
  let worker ← own .self
  match worker.playerId with
  | some playerId => setPlayerOffline playerId
  | none => pure ()

/-! ### Vault messages -/

def vaultNodeCreate (transId : UInt32) (nodeBuffer : Bytes) : WorkerProg Bool :=
  match VaultNode.fromBlob nodeBuffer with
  | .error _ => sendMessage (.vaultNodeCreated transId NetResultCode.netInternalError.code 0)
  | .ok node => do
    let result ← vault (.createNode node)
    sendMessage (.vaultNodeCreated transId (resultOf result) (result.toOption.getD 0))

def vaultNodeFetch (transId nodeId : UInt32) : WorkerProg Bool := do
  match ← vault (.fetchNode nodeId) with
  | .error err => sendMessage (.vaultNodeFetched transId err.code [])
  | .ok node => match node.toBlob with
    | .ok nodeBuffer =>
      sendMessage (.vaultNodeFetched transId NetResultCode.netSuccess.code nodeBuffer)
    | .error _ => sendMessage (.vaultNodeFetched transId NetResultCode.netInternalError.code [])

def vaultNodeAdd (transId parentId childId ownerId : UInt32) : WorkerProg Bool := do
  let result ← vault (.refNode parentId childId ownerId true)
  sendMessage (.vaultAddNodeReply transId (resultOf result))

def vaultFetchNodeRefs (transId nodeId : UInt32) : WorkerProg Bool := do
  let result ← vault (.fetchRefs nodeId true)
  sendMessage (.vaultNodeRefsFetched transId (resultOf result) (result.toOption.getD []))

def vaultInitAge (transId : UInt32) (age : AgeArgs) : WorkerProg Bool := do
  let result ← onVault (findAgeInstance sdl age)
  let (ageVaultId, ageInfoVaultId) := result.toOption.getD (0, 0)
  sendMessage (.vaultInitAgeReply transId (resultOf result) ageVaultId ageInfoVaultId)

def vaultNodeFind (transId : UInt32) (nodeBuffer : Bytes) : WorkerProg Bool :=
  match VaultNode.fromBlob nodeBuffer with
  | .error _ => sendMessage (.vaultNodeFindReply transId NetResultCode.netInternalError.code [])
  | .ok nodeTemplate => do
    let result ← vault (.findNodes nodeTemplate)
    sendMessage (.vaultNodeFindReply transId (resultOf result) (result.toOption.getD []))

/-! ### The loop -/

def handleMessage : CliToAuth → WorkerProg Bool
  | .pingRequest pingTime transId payload => sendMessage (.pingReply pingTime transId payload)
  | .clientRegisterRequest buildId =>
    if buildId ≠ 0 ∧ buildId ≠ config.buildId then pure false
    else do
      let worker ← own .self
      sendMessage (.clientRegisterReply worker.serverChallenge)
  | .clientSetCCRLevel _ => pure true
  | .acctLoginRequest transId clientChallenge accountName passHash _ _ =>
    doLoginRequest config X transId clientChallenge accountName passHash
  | .acctSetPlayerRequest transId playerId =>
    if playerId = 0 then sendMessage (setPlayerReply transId .netSuccess)
    else doSetPlayer transId playerId
  | .acctCreateRequest transId .. =>
    sendMessage (.acctCreateReply transId NetResultCode.netNotSupported.code .nil)
  | .acctChangePasswordRequest transId .. =>
    sendMessage (.acctChangePasswordReply transId NetResultCode.netNotSupported.code)
  | .acctSetRolesRequest transId .. =>
    sendMessage (.acctSetRolesReply transId NetResultCode.netNotSupported.code)
  | .acctSetBillingTypeRequest transId .. =>
    sendMessage (.acctSetBillingTypeReply transId NetResultCode.netNotSupported.code)
  | .acctActivateRequest transId _ =>
    sendMessage (.acctActivateReply transId NetResultCode.netNotSupported.code)
  | .acctCreateFromKeyRequest transId .. =>
    sendMessage (.acctCreateFromKeyReply transId NetResultCode.netNotSupported.code .nil .nil)
  | .playerDeleteRequest .. => .crash
  | .playerCreateRequest transId playerName avatarShape _ =>
    playerCreate sdl transId playerName avatarShape
  | .upgradeVisitorRequest transId _ =>
    sendMessage (.upgradeVisitorReply transId NetResultCode.netNotSupported.code)
  | .setPlayerBanStatusRequest transId .. =>
    sendMessage (.setPlayerBanStatusReply transId NetResultCode.netServiceForbidden.code)
  | .kickPlayer _ => pure true
  | .changePlayerNameRequest .. => .crash
  | .sendFriendInviteRequest .. => .crash
  | .vaultNodeCreate transId nodeBuffer => vaultNodeCreate transId nodeBuffer
  | .vaultNodeFetch transId nodeId => vaultNodeFetch transId nodeId
  | .vaultNodeSave .. => .crash
  | .vaultNodeDelete _ => .crash
  | .vaultNodeAdd transId parentId childId ownerId =>
    vaultNodeAdd transId parentId childId ownerId
  | .vaultNodeRemove .. => .crash
  | .vaultFetchNodeRefs transId nodeId => vaultFetchNodeRefs transId nodeId
  | .vaultInitAgeRequest transId ageInstanceId parentAgeInstanceId ageFilename ageInstanceName
      ageUserName ageDescription ageSequence ageLanguage =>
    vaultInitAge sdl transId ⟨ageInstanceId, parentAgeInstanceId, ageFilename, ageInstanceName,
      ageUserName, ageDescription, ageSequence, ageLanguage⟩
  | .vaultNodeFind transId nodeBuffer => vaultNodeFind transId nodeBuffer
  | .vaultSetSeen .. => .crash
  | .vaultSendNode .. => .crash
  | .ageRequest .. => .crash
  | .fileListRequest transId directory ext => doManifest transId directory ext
  | .fileDownloadRequest transId filename => doDownload config.dataRoot transId filename
  | .propagateBuffer .. => pure true
  | .getPublicAgeList .. => .crash
  | .setAgePublic .. => .crash
  | .logPythonTraceback _ => pure true
  | .logStackDump _ => pure true
  | .scoreCreate .. => .crash
  | .scoreDelete .. => .crash
  | .scoreGetScores .. => .crash
  | .scoreAddPoints .. => .crash
  | .scoreTransferPoints .. => .crash
  | .scoreSetPoints .. => .crash
  | .scoreGetRanks .. => .crash
  | .accountExistsRequest .. => .crash
  | .scoreGetHighScores .. => .crash
  | .fileDownloadChunkAck _ => pure true
  | .logClientDebuggerConnect _ => pure true

def handleBcastMsg : VaultBroadcast → WorkerProg Bool
  | .nodeChanged nodeId revisionId => sendMessage (.vaultNodeChanged nodeId revisionId)
  | .nodeAdded parentId childId ownerId =>
    sendMessage (.vaultNodeAdded parentId childId ownerId)

/-- `ServerCaps::ScoreLeaderBoards` is the only bit set. -/
def sendCaps : WorkerProg Unit := do
  match (BitVector.mk [1]).streamWrite with
  | .ok capsBuffer => do
    let _ ← sendMessage (.serverCaps capsBuffer)
    pure ()
  | .error _ => pure ()

/-- What comes up while the loop waits. -/
inductive Event
  | message (message : CliToAuth)
  /-- a broadcast, or none when some were missed -/
  | broadcast (msg : Option VaultBroadcast)
  /-- the next message cannot be read -/
  | readError

/-- The loop of `run`, on what has come up so far; whether it has ended. -/
def runLoop : List Event → WorkerProg Bool
  | [] => do
    own .wait
    pure false
  | .message message :: events => do
    own .wait
    own (.receive message)
    if ← handleMessage sdl config message then runLoop events else pure true
  | .broadcast (some msg) :: events => do
    own .wait
    if ← handleBcastMsg msg then runLoop events else pure true
  | .broadcast none :: events => do
    own .wait
    runLoop events
  | .readError :: _ => do
    own .wait
    pure true

def startWorker (events : List Event) : WorkerProg Unit := do
  sendCaps
  if ← runLoop sdl config events then do
    own .drop
    handleDisconnect
    own .exit
  else pure ()

end Handlers

end Moulars.Auth
