import Moulars.Lib.Clients
import Moulars.Sdl.State
import Moulars.Vault.Server

/-!
The programs with which the auth server builds players and ages in the vault, request by
request.
-/

namespace Moulars.Auth

open Lib.Wire Lib.Clients Hashes Plasma Vault Sdl

@[reducible] def VaultReply (m : VaultMessage) : Type := NetResult m.Reply

abbrev VaultProg := Prog VaultReply NetResultCode

/-- A request whose error ends the program, as `?` does. -/
def request (m : VaultMessage) : VaultProg m.Reply := .ask m fun
  | .ok a => pure a
  | .error err => .fail err

/-- What default SDL states are made from. -/
structure SdlHost (X : Crates) where
  sdlDb : DescriptorDb X
  zlib : Zlib
  depth : ℕ

variable {X : Crates} (sdl : SdlHost X)

/-- The blob of the default state of an age, empty if there is no descriptor for it. -/
def defaultSdl (ageFilename : String) : Result NetResultCode Bytes :=
  match sdl.sdlDb.getLatest ageFilename with
  | some descriptor => match State.fromDefaults sdl.sdlDb sdl.depth descriptor with
    | .ok state => match state.toBlob sdl.zlib with
      | .ok blob => .ok blob
      | .error (.panic _) => .crash
      | .error _ => .error .netInternalError
    | .error _ => .crash
  | none => .ok []

structure AgeArgs where
  ageUuid : Uuid
  parentUuid : Uuid
  ageFilename : String
  instanceName : String
  userName : String
  description : String
  sequenceNumber : Int32
  language : Int32

def AgeArgs.displayName (a : AgeArgs) : String :=
  if !a.description.isEmpty then a.description
  else if !a.instanceName.isEmpty then a.instanceName
  else a.ageFilename

/-- The last part of `create_age_nodes`: the owner and the game server. -/
def finishAge (a : AgeArgs) (addOwner : Option (UInt32 × UInt32))
    (ageId ageInfo ageOwners sdlNode : UInt32) : VaultProg (UInt32 × UInt32) := do
  match addOwner with
  | some (ownerId, ownerInfo) => request (.refNode ageOwners ownerInfo ownerId true)
  | none => pure ()
  request (.addGameServer
    ⟨a.ageUuid, a.ageFilename, a.displayName, ageId, sdlNode, false⟩)
  pure (ageId, ageInfo)

def createAgeNodes (a : AgeArgs) (addOwner : Option (UInt32 × UInt32)) (isPublic : Bool) :
    VaultProg (UInt32 × UInt32) := do
  let u := a.ageUuid
  let ageId ← request (.createNode (VaultAgeNode.new u a.parentUuid a.ageFilename))
  let chronicleFolder ← request (.createNode (VaultFolderNode.new u ageId .chronicleFolder))
  let peopleList ← request (.createNode
    (VaultPlayerInfoListNode.new u ageId .peopleIKnowAboutFolder))
  let subAges ← request (.createNode (VaultAgeInfoListNode.new u ageId .subAgesFolder))
  let ageInfo ← request (.createNode (VaultAgeInfoNode.new u ageId a.sequenceNumber isPublic
    a.language a.parentUuid a.ageFilename a.instanceName a.userName a.description))
  let devicesFolder ← request (.createNode (VaultFolderNode.new u ageId .ageDevicesFolder))
  let canVisit ← request (.createNode (VaultPlayerInfoListNode.new u ageId .canVisitFolder))
  let sdlBlob ← Prog.done (defaultSdl sdl a.ageFilename)
  let sdlNode ← request (.createNode (VaultSdlNode.new u ageId a.ageFilename sdlBlob))
  let ageOwners ← request (.createNode (VaultPlayerInfoListNode.new u ageId .ageOwnersFolder))
  let childAges ← request (.createNode (VaultAgeInfoListNode.new u ageId .childAgesFolder))
  let systemNode ← request .getSystemNode
  request (.refNode ageId systemNode 0 false)
  request (.refNode ageId chronicleFolder 0 false)
  request (.refNode ageId peopleList 0 false)
  request (.refNode ageId subAges 0 false)
  request (.refNode ageId ageInfo 0 false)
  request (.refNode ageId devicesFolder 0 false)
  request (.refNode ageInfo canVisit 0 false)
  request (.refNode ageInfo sdlNode 0 false)
  request (.refNode ageInfo ageOwners 0 false)
  request (.refNode ageInfo childAges 0 false)
  finishAge a addOwner ageId ageInfo ageOwners sdlNode

def findAgeInstance (a : AgeArgs) : VaultProg (UInt32 × UInt32) := do
  let ages ← request (.findNodes (VaultAgeNode.newLookup (some a.ageUuid)))
  match ages with
  | [] => createAgeNodes sdl a none false
  | ageId :: _ => do
    let infos ← request (.findNodes (VaultAgeInfoNode.newLookup (some a.ageUuid)))
    match infos with
    | ageInfo :: _ => pure (ageId, ageInfo)
    | [] => .fail .netInternalError

/-- `create_player_nodes`; `reltoUuid` is the random uuid drawn for the player's Relto. -/
def createPlayerNodes (accountId : Uuid) (player : PlayerInfo) (reltoUuid : Uuid) :
    VaultProg Unit := do
  let p := player.playerId
  let playerInfo ← request (.createNode (VaultPlayerInfoNode.new accountId p player.playerName))
  let buddyList ← request (.createNode (VaultPlayerInfoListNode.new accountId p .buddyListFolder))
  let ignoreList ← request (.createNode
    (VaultPlayerInfoListNode.new accountId p .ignoreListFolder))
  let inviteFolder ← request (.createNode (VaultFolderNode.new accountId p .playerInviteFolder))
  let ownedAges ← request (.createNode (VaultAgeInfoListNode.new accountId p .agesIOwnFolder))
  let journalsFolder ← request (.createNode (VaultFolderNode.new accountId p .ageJournalsFolder))
  let chronicleFolder ← request (.createNode (VaultFolderNode.new accountId p .chronicleFolder))
  let visitAges ← request (.createNode
    (VaultAgeInfoListNode.new accountId p .agesICanVisitFolder))
  let outfitFolder ← request (.createNode (VaultFolderNode.new accountId p .avatarOutfitFolder))
  let closetFolder ← request (.createNode (VaultFolderNode.new accountId p .avatarClosetFolder))
  let inbox ← request (.createNode (VaultFolderNode.new accountId p .inboxFolder))
  let peopleList ← request (.createNode
    (VaultPlayerInfoListNode.new accountId p .peopleIKnowAboutFolder))
  let defaultLink := "Default:LinkInPointDefault:;".toUTF8.data.toList
  let reltoLink ← request (.createNode (VaultAgeLinkNode.new accountId p defaultLink))
  let hoodLink ← request (.createNode (VaultAgeLinkNode.new accountId p defaultLink))
  let cityLink ← request (.createNode (VaultAgeLinkNode.new accountId p
    "Ferry Terminal:LinkInPointFerry:;".toUTF8.data.toList))
  let (reltoId, reltoInfo) ← createAgeNodes sdl
    ⟨reltoUuid, .nil, "Personal", "Relto", s!"{player.playerName}'s",
      s!"{player.playerName}'s Relto", 0, -1⟩ (some (p, playerInfo)) false
  let systemNode ← request .getSystemNode
  request (.refNode p systemNode 0 false)
  request (.refNode p playerInfo 0 false)
  request (.refNode p buddyList 0 false)
  request (.refNode p ignoreList 0 false)
  request (.refNode p inviteFolder 0 false)
  request (.refNode p ownedAges 0 false)
  request (.refNode p journalsFolder 0 false)
  request (.refNode p chronicleFolder 0 false)
  request (.refNode p visitAges 0 false)
  request (.refNode p outfitFolder 0 false)
  request (.refNode p closetFolder 0 false)
  request (.refNode p inbox 0 false)
  request (.refNode p peopleList 0 false)
  request (.refNode ownedAges reltoLink 0 false)
  request (.refNode ownedAges hoodLink 0 false)
  request (.refNode ownedAges cityLink 0 false)
  request (.refNode reltoLink reltoInfo 0 false)
  request (.refNode reltoId ownedAges 0 false)
  let allPlayers ← request .getAllPlayersNode
  request (.refNode allPlayers playerInfo 0 true)

end Moulars.Auth
