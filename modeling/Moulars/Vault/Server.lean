import Moulars.Vault.DbMemory

/-!
The vault task: one message at a time, each answered from the database.

`Graph` is the part of the database that holds nodes and references; `processVaultMessage_graph`
says which of the three things that can happen to it a message does.
-/

namespace Moulars.Vault

open Lib.Hash Hashes

def maxPlayers : ℕ := 5

/-- What handling one message leaves: the reply, the database, and the broadcasts sent. -/
structure Outcome (α : Type) where
  reply : NetResult α
  db : Backend
  bcasts : List VaultBroadcast

variable (X : Crates) (env : Env)

/-- `CreatePlayer`: the checks, the node, and the entry in the account's player list. -/
def createPlayer (accountId : Uuid) (playerName avatarShape : String) (db : Backend) :
    NetResult PlayerInfo × Backend :=
  match DbMemory.playerExists X playerName db with
  | .error err => (.error err, db)
  | .ok true => (.error .netPlayerAlreadyExists, db)
  | .ok false =>
    match DbMemory.countPlayers accountId db with
    | .error err => (.error err, db)
    | .ok count =>
      if count ≥ maxPlayers then (.error .netMaxPlayersOnAcct, db)
      else
        match DbMemory.createNode (VaultPlayerNode.new accountId playerName avatarShape 1) db with
        | (.error err, db) => (.error err, db)
        | (.ok playerId, db) =>
          let player : PlayerInfo := ⟨playerId, playerName, avatarShape, 1⟩
          match DbMemory.createPlayer accountId player db with
          | (.error err, db) => (.error err, db)
          | (.ok (), db) => (.ok player, db)

/-- `UpdateNode`: every updated node is broadcast with a fresh revision. -/
def updateNode (node : VaultNode) (db : Backend) : Outcome Unit :=
  match DbMemory.updateNode node db with
  | (.error err, db) => ⟨.error err, db, []⟩
  | (.ok updated, db) =>
    ⟨.ok (), db, updated.mapIdx fun i nodeId => .nodeChanged nodeId (env.newV4 i)⟩

def refNode (parentId childId ownerId : UInt32) (broadcast : Bool) (db : Backend) : Outcome Unit :=
  match DbMemory.refNode parentId childId ownerId db with
  | (.error err, db) => ⟨.error err, db, []⟩
  | (.ok (), db) =>
    ⟨.ok (), db, if broadcast then [.nodeAdded parentId childId ownerId] else []⟩

/-- One message; `none` when the recursion of `fetch_refs` exhausts the stack. -/
def processVaultMessage : (m : VaultMessage) → Backend → Option (Outcome m.Reply)
  | .getAccount accountName, db =>
    let r := DbMemory.getAccount X env accountName db
    some ⟨r.1, r.2, []⟩
  | .getAccountForToken apiToken, db =>
    some ⟨DbMemory.getAccountForToken env apiToken db, db, []⟩
  | .getPlayers accountId, db => some ⟨DbMemory.getPlayers accountId db, db, []⟩
  | .createPlayer accountId playerName avatarShape, db =>
    let r := createPlayer X accountId playerName avatarShape db
    some ⟨r.1, r.2, []⟩
  | .addGameServer gameServer, db =>
    let r := DbMemory.addGameServer gameServer db
    some ⟨r.1, r.2, []⟩
  | .createNode node, db =>
    let r := DbMemory.createNode node db
    some ⟨r.1, r.2, []⟩
  | .fetchNode nodeId, db => some ⟨DbMemory.fetchNode nodeId db, db, []⟩
  | .updateNode node, db => some (updateNode env node db)
  | .findNodes template, db => some ⟨DbMemory.findNodes X env template db, db, []⟩
  | .getSystemNode, db => some ⟨DbMemory.getSystemNode env db, db, []⟩
  | .getAllPlayersNode, db => some ⟨DbMemory.getAllPlayersNode env db, db, []⟩
  | .getPlayerInfoNode playerId, db =>
    (DbMemory.getPlayerInfoNode env playerId db).map fun reply => ⟨reply, db, []⟩
  | .refNode parentId childId ownerId broadcast, db =>
    some (refNode parentId childId ownerId broadcast db)
  | .fetchRefs parent recursive, db =>
    (DbMemory.fetchRefs (env.refs.run db.nodeRefs.keys) (env.stack + 1) parent recursive).map
      fun refs => ⟨.ok refs, db, []⟩

/-! ### Start-up -/

def initVault (db : Backend) : NetResult Unit × Backend :=
  match DbMemory.getSystemNode env db with
  | .ok _ => (.ok (), db)
  | .error err =>
    if err ≠ .netVaultNodeNotFound then (.error err, db)
    else
      match DbMemory.createNode VaultSystemNode.new db with
      | (.error err, db) => (.error err, db)
      | (.ok systemNode, db) =>
        match DbMemory.createNode (VaultFolderNode.new .nil 0 .globalInboxFolder) db with
        | (.error err, db) => (.error err, db)
        | (.ok globalInbox, db) =>
          match DbMemory.refNode systemNode globalInbox 0 db with
          | (.error err, db) => (.error err, db)
          | (.ok (), db) =>
            match DbMemory.createNode
              (VaultPlayerInfoListNode.new .nil 0 .allPlayersFolder) db with
            | (.error err, db) => (.error err, db)
            | (.ok _, db) => (.ok (), db)

def initial : Backend := (initVault (Env.plain 0) Backend.new).2

/-! ### Nodes and references -/

/-- The part of the database that holds nodes and references. -/
@[ext] structure Graph where
  nodes : HashMap UInt32 VaultNode
  refs : HashSet NodeRef
  next : UInt32

def Backend.graph (db : Backend) : Graph := ⟨db.vault, db.nodeRefs, db.nodeIndex⟩

inductive Action
  | keep
  | create (node : VaultNode)
  | update (node : VaultNode)
  | ref (r : NodeRef)

def Graph.apply (g : Graph) : Action → Graph
  | .keep => g
  | .create node =>
    { g with nodes := g.nodes.insert g.next (node.set .nodeId g.next), next := g.next + 1 }
  | .update node =>
    match g.nodes.lookup node.nodeId with
    | none => g
    | some old => { g with nodes := g.nodes.insert node.nodeId (updateFields old node) }
  | .ref r => { g with refs := g.refs.add r }

lemma Graph.mem_apply {g : Graph} {k : UInt32} (h : k ∈ g.nodes) (a : Action) :
    k ∈ (g.apply a).nodes := by
  cases a with
  | keep => exact h
  | create node => exact (AList.mem_insert _).2 (.inr h)
  | update node =>
    simp only [apply]
    split
    · exact h
    · exact (AList.mem_insert _).2 (.inr h)
  | ref r => exact h

/-- What a message does to the nodes and references. -/
def VaultMessage.action : VaultMessage → Backend → Action
  | .createPlayer accountId playerName avatarShape, db =>
    if db.players.values.any
        (fun l => l.any fun p => X.unicase p.playerName == X.unicase playerName)
      ∨ ((db.players.lookup accountId).getD []).length ≥ maxPlayers then .keep
    else .create (VaultPlayerNode.new accountId playerName avatarShape 1)
  | .createNode node, _ => .create node
  | .updateNode node, _ => .update node
  | .refNode parentId childId ownerId _, _ => .ref ⟨parentId, childId, ownerId⟩
  | _, _ => .keep

/-- The id a reply hands out for a node that was just created. -/
def VaultMessage.createdId : (m : VaultMessage) → NetResult m.Reply → Option UInt32
  | .createNode _, .ok nodeId => some nodeId
  | .createPlayer .., .ok player => some player.playerId
  | _, _ => none

/-- The id `create_node` returns, unless the next id is taken. -/
def Graph.created (g : Graph) : Action → Option UInt32
  | .create _ => if (g.nodes.lookup g.next).isSome then none else some g.next
  | _ => none

lemma createNode_snd (node : VaultNode) (db : Backend) :
    (DbMemory.createNode node db).2 = { db with
      nodeIndex := db.nodeIndex + 1
      vault := db.vault.insert db.nodeIndex (node.set .nodeId db.nodeIndex) } := by
  simp only [DbMemory.createNode]
  split <;> rfl

lemma createNode_fst (node : VaultNode) (db : Backend) :
    (DbMemory.createNode node db).1 =
      match db.graph.created (.create node) with
      | some nodeId => .ok nodeId
      | none => .error .netInternalError := by
  by_cases h : (db.vault.lookup db.nodeIndex).isSome <;>
    simp [DbMemory.createNode, Graph.created, Backend.graph, h]

lemma createNode_graph (node : VaultNode) (db : Backend) :
    (DbMemory.createNode node db).2.graph = db.graph.apply (.create node) := by
  rw [createNode_snd]
  rfl

lemma updateNode_graph (node : VaultNode) (db : Backend) :
    (updateNode env node db).db.graph = db.graph.apply (.update node) := by
  simp only [updateNode, DbMemory.updateNode, Graph.apply, Backend.graph]
  cases db.vault.lookup node.nodeId <;> rfl

lemma createPlayer_spec (accountId : Uuid) (playerName avatarShape : String) (db : Backend) :
    let m := VaultMessage.createPlayer accountId playerName avatarShape
    (createPlayer X accountId playerName avatarShape db).2.graph = db.graph.apply (m.action X db) ∧
    m.createdId (createPlayer X accountId playerName avatarShape db).1 =
      db.graph.created (m.action X db) := by
  simp only [createPlayer, VaultMessage.action, DbMemory.playerExists, DbMemory.countPlayers]
  cases hname : db.players.values.any fun l =>
      l.any fun p => X.unicase p.playerName == X.unicase playerName with
  | true => exact ⟨by simp [Graph.apply], by simp [VaultMessage.createdId, Graph.created]⟩
  | false =>
    by_cases hcount : ((db.players.lookup accountId).getD []).length ≥ maxPlayers
    · simp [hcount, Graph.apply, VaultMessage.createdId, Graph.created]
    · -- only here is a node created, and the player recorded if that succeeded
      generalize hnode : VaultPlayerNode.new accountId playerName avatarShape 1 = node
      have hfst := createNode_fst node db
      have hgraph := createNode_graph node db
      simp only [hcount, Bool.false_eq_true, or_false, if_false]
      generalize hc : DbMemory.createNode node db = c at hfst hgraph
      obtain ⟨reply, db'⟩ := c
      cases hid : db.graph.created (.create node) with
      | none =>
        obtain rfl : reply = .error .netInternalError := by simpa [hid] using hfst
        exact ⟨hgraph, rfl⟩
      | some nodeId =>
        obtain rfl : reply = .ok nodeId := by simpa [hid] using hfst
        exact ⟨hgraph, rfl⟩

/-- **What a message does**: the nodes and references change by the message's action, and a
reply hands out exactly the id of the node created. -/
lemma processVaultMessage_graph {m : VaultMessage} {db : Backend} {o : Outcome m.Reply}
    (h : processVaultMessage X env m db = some o) :
    o.db.graph = db.graph.apply (m.action X db) ∧
    m.createdId o.reply = db.graph.created (m.action X db) := by
  cases m with
  | getAccount accountName =>
    obtain rfl := Option.some.inj h
    refine ⟨?_, rfl⟩
    simp only [DbMemory.getAccount]
    split <;> rfl
  | createPlayer accountId playerName avatarShape =>
    obtain rfl := Option.some.inj h
    exact createPlayer_spec X accountId playerName avatarShape db
  | addGameServer gameServer =>
    obtain rfl := Option.some.inj h
    refine ⟨?_, rfl⟩
    simp only [DbMemory.addGameServer]
    split <;> rfl
  | createNode node =>
    obtain rfl := Option.some.inj h
    refine ⟨createNode_graph node db, ?_⟩
    simp only [createNode_fst, VaultMessage.action]
    cases db.graph.created (.create node) <;> rfl
  | updateNode node =>
    obtain rfl := Option.some.inj h
    exact ⟨updateNode_graph env node db, rfl⟩
  | getPlayerInfoNode playerId =>
    obtain ⟨reply, -, rfl⟩ := Option.map_eq_some_iff.mp h
    exact ⟨rfl, rfl⟩
  | fetchRefs parent recursive =>
    obtain ⟨refs, -, rfl⟩ := Option.map_eq_some_iff.mp h
    exact ⟨rfl, rfl⟩
  | _ =>
    obtain rfl := Option.some.inj h
    exact ⟨rfl, rfl⟩

end Moulars.Vault
