import Moulars.Vault.Node

/-!
Typed vault nodes: the node types, the standard node numbers, and for every type the
constructors and accessors the server uses.
-/

namespace Moulars.Vault

open Lib.Wire

inductive NodeType
  | player | age | folder | playerInfo | system | image | textNote | sdl | ageLink | chronicle
  | playerInfoList | ageInfo | ageInfoList | markerGame
  deriving DecidableEq

/-- The `i32` a node type is stored as. -/
def NodeType.code : NodeType → Int32
  | .player => 2
  | .age => 3
  | .folder => 22
  | .playerInfo => 23
  | .system => 24
  | .image => 25
  | .textNote => 26
  | .sdl => 27
  | .ageLink => 28
  | .chronicle => 29
  | .playerInfoList => 30
  | .ageInfo => 33
  | .ageInfoList => 34
  | .markerGame => 35

inductive StandardNode
  | userDefined | inboxFolder | buddyListFolder | ignoreListFolder | peopleIKnowAboutFolder
  | vaultMgrGlobalDataFolder | chronicleFolder | avatarOutfitFolder | ageTypeJournalFolder
  | subAgesFolder | deviceInboxFolder | hoodMembersFolder | allPlayersFolder | ageMembersFolder
  | ageJournalsFolder | ageDevicesFolder | ageInstanceSDLNode | ageGlobalSDLNode | canVisitFolder
  | ageOwnersFolder | allAgeGlobalSDLNodesFolder | playerInfoNode | publicAgesFolder
  | agesIOwnFolder | agesICanVisitFolder | avatarClosetFolder | ageInfoNode | systemNode
  | playerInviteFolder | ccrPlayersFolder | globalInboxFolder | childAgesFolder | gameScoresFolder
  deriving DecidableEq

def StandardNode.code (n : StandardNode) : Int32 := Int32.ofNat n.ctorIdx

namespace VaultNode

def nodeId (n : VaultNode) : UInt32 := n.val .nodeId
def nodeType (n : VaultNode) : Int32 := n.val .nodeType

/-- The nodes the `as_*_node` functions accept for a type. -/
def isOf (n : VaultNode) (t : NodeType) : Bool := n.nodeType == t.code

/-- `as_*_node`: the node itself, when it has the type. -/
def asNode (t : NodeType) (n : VaultNode) : Option VaultNode := if n.isOf t then some n else none

def asPlayerNode (n : VaultNode) : Option VaultNode := n.asNode .player
def asPlayerInfoNode (n : VaultNode) : Option VaultNode := n.asNode .playerInfo

lemma asNode_eq_some {t : NodeType} {n m : VaultNode} :
    n.asNode t = some m ↔ n.isOf t = true ∧ n = m := by
  unfold asNode
  split <;> simp_all

end VaultNode

namespace VaultPlayerNode

def accountId (n : VaultNode) : Uuid := n.val .uuid_1

def new (accountId : Uuid) (playerName avatarShape : String) (explorer : Int32) : VaultNode :=
  VaultNode.default
    |>.set .nodeType NodeType.player.code
    |>.set .creatorUuid accountId
    |>.set .int32_2 explorer
    |>.set .uuid_1 accountId
    |>.set .string64_1 avatarShape
    |>.set .istring64_1 playerName

end VaultPlayerNode

namespace VaultAgeNode

def new (instanceId parentUuid : Uuid) (ageFilename : String) : VaultNode :=
  let node := VaultNode.default
    |>.set .nodeType NodeType.age.code
    |>.set .creatorUuid instanceId
    |>.set .uuid_1 instanceId
  let node := if !parentUuid.isNil then node.set .uuid_2 parentUuid else node
  node.set .string64_1 ageFilename

def newLookup (instanceId : Option Uuid) : VaultNode :=
  let node := VaultNode.default.set .nodeType NodeType.age.code
  match instanceId with
  | some uuid => node.set .uuid_1 uuid
  | none => node

end VaultAgeNode

namespace VaultFolderNode

def new (creatorUuid : Uuid) (creatorId : UInt32) (folderType : StandardNode) : VaultNode :=
  VaultNode.default
    |>.set .nodeType NodeType.folder.code
    |>.set .creatorUuid creatorUuid
    |>.set .creatorId creatorId
    |>.set .int32_1 folderType.code

end VaultFolderNode

namespace VaultPlayerInfoNode

def playerId (n : VaultNode) : UInt32 := n.val .uint32_1
def online (n : VaultNode) : Int32 := n.val .int32_1

def new (creatorUuid : Uuid) (playerId : UInt32) (playerName : String) : VaultNode :=
  VaultNode.default
    |>.set .nodeType NodeType.playerInfo.code
    |>.set .creatorUuid creatorUuid
    |>.set .creatorId playerId
    |>.set .uint32_1 playerId
    |>.set .istring64_1 playerName

def newUpdate (nodeId : UInt32) (online : Int32) (ageInstanceName : String)
    (ageInstanceUuid : Uuid) : VaultNode :=
  VaultNode.default
    |>.set .nodeId nodeId
    |>.set .int32_1 online
    |>.set .string64_1 ageInstanceName
    |>.set .uuid_1 ageInstanceUuid

end VaultPlayerInfoNode

namespace VaultSystemNode

def new : VaultNode := VaultNode.default.set .nodeType NodeType.system.code

end VaultSystemNode

namespace VaultSdlNode

def new (creatorUuid : Uuid) (creatorId : UInt32) (sdlName : String) (sdlBlob : Bytes) :
    VaultNode :=
  VaultNode.default
    |>.set .nodeType NodeType.sdl.code
    |>.set .creatorUuid creatorUuid
    |>.set .creatorId creatorId
    |>.set .string64_1 sdlName
    |>.set .blob_1 sdlBlob

end VaultSdlNode

namespace VaultAgeLinkNode

def new (creatorUuid : Uuid) (creatorId : UInt32) (link : Bytes) : VaultNode :=
  VaultNode.default
    |>.set .nodeType NodeType.ageLink.code
    |>.set .creatorUuid creatorUuid
    |>.set .creatorId creatorId
    |>.set .blob_1 link

end VaultAgeLinkNode

namespace VaultPlayerInfoListNode

def new (creatorUuid : Uuid) (creatorId : UInt32) (folderType : StandardNode) : VaultNode :=
  (VaultFolderNode.new creatorUuid creatorId folderType).set .nodeType
    NodeType.playerInfoList.code

end VaultPlayerInfoListNode

namespace VaultAgeInfoNode

def new (instanceId : Uuid) (ageId : UInt32) (seqNumber : Int32) (isPublic : Bool)
    (language : Int32) (parentUuid : Uuid)
    (ageFilename instanceName userName description : String) : VaultNode :=
  let node := VaultNode.default
    |>.set .nodeType NodeType.ageInfo.code
    |>.set .creatorUuid instanceId
    |>.set .creatorId ageId
    |>.set .int32_1 seqNumber
    |>.set .int32_2 (if isPublic then (1 : Int32) else (0 : Int32))
    |>.set .int32_3 language
    |>.set .uint32_1 ageId
    |>.set .uint32_2 (0 : UInt32)
    |>.set .uint32_3 (0 : UInt32)
    |>.set .uuid_1 instanceId
  let node := if !parentUuid.isNil then node.set .uuid_2 parentUuid else node
  let node := node.set .string64_2 ageFilename
  let node := if !instanceName.isEmpty then node.set .string64_3 instanceName else node
  let node := if !userName.isEmpty then node.set .string64_4 userName else node
  if !description.isEmpty then node.set .text_1 description else node

def newLookup (instanceId : Option Uuid) : VaultNode :=
  let node := VaultNode.default.set .nodeType NodeType.ageInfo.code
  match instanceId with
  | some uuid => node.set .uuid_1 uuid
  | none => node

end VaultAgeInfoNode

namespace VaultAgeInfoListNode

def new (creatorUuid : Uuid) (creatorId : UInt32) (folderType : StandardNode) : VaultNode :=
  (VaultFolderNode.new creatorUuid creatorId folderType).set .nodeType NodeType.ageInfoList.code

end VaultAgeInfoListNode

end Moulars.Vault
