import Moulars.Lib.Hash
import Moulars.Hashes
import Moulars.Vault.Access

/-!
The vault's interface: result codes, the records the vault keeps beside its nodes, the
fourteen messages the vault task answers with the type of their replies, and the broadcasts
it sends.
-/

namespace Moulars.Vault

open Lib.Wire Lib.Hash Hashes

inductive NetResultCode
  | netPending | netSuccess | netInternalError | netTimeout | netBadServerData | netAgeNotFound
  | netConnectFailed | netDisconnected | netFileNotFound | netOldBuildId | netRemoteShutdown
  | netTimeoutOdbc | netAccountAlreadyExists | netPlayerAlreadyExists | netAccountNotFound
  | netPlayerNotFound | netInvalidParameter | netNameLookupFailed | netLoggedInElsewhere
  | netVaultNodeNotFound | netMaxPlayersOnAcct | netAuthenticationFailed | netStateObjectNotFound
  | netLoginDenied | netCircularReference | netAccountNotActivated | netKeyAlreadyUsed
  | netKeyNotFound | netActivationCodeNotFound | netPlayerNameInvalid | netNotSupported
  | netServiceForbidden | netAuthTokenTooOld | netMustUseGameTapClient | netTooManyFailedLogins
  | netGameTapConnectionFailed | netGTTooManyAuthOptions | netGTMissingParameter
  | netGTServerError | netAccountBanned | netKickedByCCR | netScoreWrongType
  | netScoreNotEnoughPoints | netScoreAlreadyExists | netScoreNoDataFound
  | netInviteNoMatchingPlayer | netInviteTooManyHoods | netNeedToPay | netServerBusy
  deriving DecidableEq

/-- The `i32` of a result code; the first one, `NetPending`, is `-1`. -/
def NetResultCode.code (c : NetResultCode) : Int32 := Int32.ofInt ((c.ctorIdx : Int) - 1)

abbrev NetResult (α : Type) := Except NetResultCode α

structure AccountInfo where
  accountName : String
  passHash : ShaDigest
  accountId : Uuid
  accountFlags : UInt32
  billingType : UInt32
  apiToken : String
  deriving DecidableEq

namespace AccountInfo

def admin : UInt32 := (1 : UInt32) <<< (0 : UInt32)
def betaTester : UInt32 := (1 : UInt32) <<< (1 : UInt32)
def banned : UInt32 := (1 : UInt32) <<< (16 : UInt32)

def isBanned (a : AccountInfo) : Bool := a.accountFlags &&& banned != 0

def canLoginRestricted (a : AccountInfo) : Bool := a.accountFlags &&& (admin ||| betaTester) != 0

end AccountInfo

structure PlayerInfo where
  playerId : UInt32
  playerName : String
  avatarShape : String
  explorer : Int32
  deriving DecidableEq

structure GameServer where
  instanceId : Uuid
  ageFilename : String
  displayName : String
  ageId : UInt32
  sdlId : UInt32
  temporary : Bool
  deriving DecidableEq

structure NodeRef where
  parent : UInt32
  child : UInt32
  owner : UInt32
  deriving DecidableEq

inductive VaultMessage
  | getAccount (accountName : String)
  | getAccountForToken (apiToken : String)
  | getPlayers (accountId : Uuid)
  | createPlayer (accountId : Uuid) (playerName avatarShape : String)
  | addGameServer (gameServer : GameServer)
  | createNode (node : VaultNode)
  | fetchNode (nodeId : UInt32)
  | updateNode (node : VaultNode)
  | findNodes (template : VaultNode)
  | getSystemNode
  | getAllPlayersNode
  | getPlayerInfoNode (playerId : UInt32)
  | refNode (parentId childId ownerId : UInt32) (broadcast : Bool)
  | fetchRefs (parent : UInt32) (recursive : Bool)

@[reducible] def VaultMessage.Reply : VaultMessage → Type
  | .getAccount _ => Option AccountInfo
  | .getAccountForToken _ => Option AccountInfo
  | .getPlayers _ => List PlayerInfo
  | .createPlayer .. => PlayerInfo
  | .addGameServer _ => Unit
  | .createNode _ => UInt32
  | .fetchNode _ => VaultNode
  | .updateNode _ => Unit
  | .findNodes _ => List UInt32
  | .getSystemNode => UInt32
  | .getAllPlayersNode => UInt32
  | .getPlayerInfoNode _ => VaultNode
  | .refNode .. => Unit
  | .fetchRefs .. => List NodeRef

inductive VaultBroadcast
  | nodeChanged (nodeId : UInt32) (revisionId : Uuid)
  | nodeAdded (parentId childId ownerId : UInt32)
  deriving DecidableEq

/-- What a request meets that no earlier request decides: the orders in which the vault's
tables are iterated, the random uuids drawn, and how many nested calls beyond the first the
stack has room for. -/
structure Env where
  accounts : Order AccountInfo
  nodes : Order (UInt32 × VaultNode)
  refs : Order NodeRef
  newV4 : ℕ → Uuid
  stack : ℕ

/-- Tables iterated as listed, nil uuids, and a stack of depth `stack`. -/
def Env.plain (stack : ℕ) : Env :=
  ⟨.listed _, .listed _, .listed _, fun _ => Uuid.nil, stack⟩

end Moulars.Vault
