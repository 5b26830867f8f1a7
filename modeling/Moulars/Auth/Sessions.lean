import Moulars.Auth.Worker
import Moulars.Vault.Requests

/-!
Any number of workers on one vault.

What the others can tell of a worker is its `Session`: its fields, and what it is `Doing`, as its
calls and their answers show. `WorkerAsks` says which calls a worker makes at which point, and
`keeps_startWorker` that all workers keep to it.
-/

namespace Moulars.Auth

open Lib.Wire Lib.Clients Hashes Vault

/-! ### Sessions -/

inductive Doing
  /-- it waits for the next message -/
  | idle
  /-- it handles a message -/
  | handling (message : CliToAuth)
  /-- it has found no age, and creates one -/
  | buildingAge
  /-- it has created a player, but not yet the player's info node -/
  | enrolled (playerId : UInt32)
  /-- the info node is there, and the player's other nodes are to follow -/
  | furnishing
  /-- the player to be selected was found offline, with this info node -/
  | cleared (playerId infoId : UInt32)
  /-- that info node was set online -/
  | marked (playerId infoId : UInt32)
  /-- this player was selected, or could not be set online -/
  | answering (playerId : UInt32)
  /-- the client is gone -/
  | leaving
  /-- the client is gone, and this is the info node of its player -/
  | found (infoId : UInt32)
  /-- the client is gone, and its player could not be set offline -/
  | lost
  /-- nothing is left to do -/
  | gone

namespace Doing

def afterOwn (d : Doing) : OwnCall → Doing
  | .wait => .idle
  | .receive message => .handling message
  | .drop => .leaving
  | .exit => .gone
  | .setPlayerId playerId => .answering playerId
  | _ => d

def afterFind (d : Doing) (template : VaultNode) : NetResult (List UInt32) → Doing
  | .ok [] => match d with
    | .handling (.vaultInitAgeRequest ..) =>
      if template.nodeType = NodeType.age.code then .buildingAge else d
    | _ => d
  | _ => d

def afterCreateNode : Doing → NetResult UInt32 → Doing
  | .enrolled _, .ok _ => .furnishing
  | d, _ => d

def afterPlayerInfo (d : Doing) (playerId : UInt32) : NetResult VaultNode → Doing
  | .ok info => match d with
    | .leaving => .found info.nodeId
    | _ => if VaultPlayerInfoNode.online info ≠ 0 then d else .cleared playerId info.nodeId
  | .error _ => match d with
    | .leaving => .lost
    | _ => d

def afterUpdate : Doing → NetResult Unit → Doing
  | .cleared playerId infoId, .ok () => .marked playerId infoId
  | .cleared playerId _, .error _ => .answering playerId
  | .found _, .ok () => .gone
  | .found _, .error _ => .lost
  | d, _ => d

def afterVault (d : Doing) : (m : VaultMessage) → VaultReply m → Doing
  | .findNodes template, r => d.afterFind template r
  | .createPlayer .., .ok player => .enrolled player.playerId
  | .createNode _, r => d.afterCreateNode r
  | .getPlayerInfoNode playerId, r => d.afterPlayerInfo playerId r
  | .updateNode _, r => d.afterUpdate r
  | _, _ => d

lemma afterVault_findAgeInfo (d : Doing) (u : Uuid)
    (r : VaultReply (.findNodes (VaultAgeInfoNode.newLookup (some u)))) :
    d.afterVault (.findNodes (VaultAgeInfoNode.newLookup (some u))) r = d := by
  show d.afterFind _ r = d
  unfold afterFind
  split
  · split
    · refine if_neg ?_
      show ¬ NodeType.ageInfo.code = NodeType.age.code
      decide
    · rfl
  · rfl

end Doing

def AuthServerWorker.after (w : AuthServerWorker) : WorkerCall → AuthServerWorker
  | .own (.setAccountId accountId) => { w with accountId := some accountId }
  | .own (.setPlayerId playerId) => { w with playerId := some playerId }
  | _ => w

structure Session where
  worker : AuthServerWorker
  doing : Doing

def Session.next (l : Session) : (c : WorkerCall) → WorkerReply c → Session
  | .own c, _ => ⟨l.worker.after (.own c), l.doing.afterOwn c⟩
  | .vault m, r => ⟨l.worker, l.doing.afterVault m r⟩

lemma Session.next_findAgeInfo (l : Session) (u : Uuid)
    (r : VaultReply (.findNodes (VaultAgeInfoNode.newLookup (some u)))) :
    l.next (.vault (.findNodes (VaultAgeInfoNode.newLookup (some u)))) r = l :=
  congrArg (Session.mk l.worker) (l.doing.afterVault_findAgeInfo u r)

def Session.start (serverChallenge : UInt32) : Session := ⟨⟨serverChallenge, none, none⟩, .idle⟩

/-! ### The server -/

/-- What is decided outside of the server: how the vault's tables are iterated, whether
sending succeeds, and what is drawn and read. -/
structure World where
  env : Env
  sent : Bool
  newV4 : Uuid
  ntdKey : Option (List UInt32)
  manifest : Option Manifest
  file : Option (UInt64 × List (Option Bytes))

def World.answer (v : World) (l : Session) : (c : OwnCall) → c.Reply
  | .wait => ()
  | .receive _ => ()
  | .drop => ()
  | .exit => ()
  | .self => l.worker
  | .setAccountId _ => ()
  | .setPlayerId _ => ()
  | .send _ => v.sent
  | .newV4 => v.newV4
  | .getNtdKey => v.ntdKey
  | .fromDir .. => v.manifest
  | .openFile _ => v.file

/-- The vault task, and whatever else workers call. -/
def serveWorkers (X : Crates) : Serve World Backend WorkerReply Session := fun v c l db =>
  match c with
  | .own c => some (v.answer l c, l.next (.own c) (v.answer l c), db)
  | .vault m => (processVaultMessage X v.env m db).map fun o =>
    (o.reply, l.next (.vault m) o.reply, o.db)

abbrev WorkerPool (ι : Type) := Pool ι Backend WorkerReply Empty Unit Session

/-- Workers that have just been started, each with a challenge and with what will happen on its
connection. -/
def workerPool {X : Crates} {ι : Type} (sdl : SdlHost X) (config : ServerConfig)
    (challenges : ι → UInt32) (events : ι → List Event) (db : Backend) : WorkerPool ι :=
  ⟨db, fun i => ⟨.start (challenges i), startWorker sdl config (events i)⟩⟩

/-! ### What workers ask -/

/-- Requests that change nothing but the table of accounts, and tell nothing of ages and of
info nodes. -/
def Looks : VaultMessage → Prop
  | .getAccount _ => True
  | .getPlayers _ => True
  | .fetchNode _ => True
  | .getSystemNode => True
  | .getAllPlayersNode => True
  | .fetchRefs .. => True
  | _ => False

/-- Calls that leave the worker's fields alone and begin or end nothing. -/
def Talks : OwnCall → Prop
  | .self => True
  | .send _ => True
  | .newV4 => True
  | .getNtdKey => True
  | .fromDir .. => True
  | .openFile _ => True
  | _ => False

namespace Doing

def Settled : Doing → Prop
  | .idle => True
  | .handling _ => True
  | .buildingAge => True
  | .enrolled _ => True
  | .furnishing => True
  | .answering _ => True
  | _ => False

/-- Nodes of an age or a player are being created. -/
def Builds : Doing → Prop
  | .buildingAge => True
  | .furnishing => True
  | _ => False

end Doing

/-- The calls of a worker with the fields `w`, by what it is doing. -/
inductive WorkerAsks (w : AuthServerWorker) : Doing → WorkerCall → Prop
  | wait {d} (hd : d.Settled) : WorkerAsks w d (.own .wait)
  | receive (message) : WorkerAsks w .idle (.own (.receive message))
  | drop {d} (hd : d.Settled) : WorkerAsks w d (.own .drop)
  | exitNoPlayer (hw : w.playerId = none) : WorkerAsks w .leaving (.own .exit)
  | exitLost : WorkerAsks w .lost (.own .exit)
  | exitGone : WorkerAsks w .gone (.own .exit)
  | setAccountId {message} (accountId) : WorkerAsks w (.handling message)
      (.own (.setAccountId accountId))
  | setPlayerId {playerId infoId} :
      WorkerAsks w (.marked playerId infoId) (.own (.setPlayerId playerId))
  | talk {d c} (hc : Talks c) : WorkerAsks w d (.own c)
  | look {d m} (hm : Looks m) : WorkerAsks w d (.vault m)
  | findNodes {transId nodeBuffer} (template) :
      WorkerAsks w (.handling (.vaultNodeFind transId nodeBuffer)) (.vault (.findNodes template))
  | findAge {transId u parent filename name userName description sequence language} :
      WorkerAsks w (.handling (.vaultInitAgeRequest transId u parent filename name userName
        description
        sequence language)) (.vault (.findNodes (VaultAgeNode.newLookup (some u))))
  | findAgeInfo {transId u parent filename name userName description sequence language} :
      WorkerAsks w (.handling (.vaultInitAgeRequest transId u parent filename name userName
        description
        sequence language)) (.vault (.findNodes (VaultAgeInfoNode.newLookup (some u))))
  | createPlayer {message accountId} (playerName avatarShape) (hw : w.accountId = some accountId) :
      WorkerAsks w (.handling message) (.vault (.createPlayer accountId playerName avatarShape))
  | createInfo {playerId} (accountId playerName) : WorkerAsks w (.enrolled playerId)
      (.vault (.createNode (VaultPlayerInfoNode.new accountId playerId playerName)))
  | createNode {d node} (hd : d.Builds) (hnode : node.isOf .playerInfo = false) :
      WorkerAsks w d (.vault (.createNode node))
  | vaultNodeCreate {transId nodeBuffer node} (hnode : VaultNode.fromBlob nodeBuffer = .ok node) :
      WorkerAsks w (.handling (.vaultNodeCreate transId nodeBuffer)) (.vault (.createNode node))
  | refNode {d} (parent child owner broadcast) (hd : d.Builds) :
      WorkerAsks w d (.vault (.refNode parent child owner broadcast))
  | vaultNodeAdd {transId parent child owner} :
      WorkerAsks w (.handling (.vaultNodeAdd transId parent child owner))
        (.vault (.refNode parent child owner true))
  | addGameServer {d} (server) (hd : d.Builds) : WorkerAsks w d (.vault (.addGameServer server))
  | checkOnline {transId playerId accountId} (hw : w.accountId = some accountId) :
      WorkerAsks w (.handling (.acctSetPlayerRequest transId playerId))
        (.vault (.getPlayerInfoNode playerId))
  | signIn {playerId infoId} : WorkerAsks w (.cleared playerId infoId)
      (.vault (.updateNode (VaultPlayerInfoNode.newUpdate infoId 1 "Lobby" .nil)))
  | findInfo {playerId} (hw : w.playerId = some playerId) :
      WorkerAsks w .leaving (.vault (.getPlayerInfoNode playerId))
  | signOut {infoId} : WorkerAsks w (.found infoId)
      (.vault (.updateNode (VaultPlayerInfoNode.newUpdate infoId 0 "" .nil)))

/-- What a worker knows of the answer to a call: its own fields, and that no error of the vault is
a `NetSuccess`. -/
def Honest (l : Session) : (c : WorkerCall) → WorkerReply c → Prop
  | .own .self, r => r = l.worker
  | .vault (.fetchNode _), r => r ≠ .error .netSuccess
  | .vault (.getPlayerInfoNode _), r => r ≠ .error .netSuccess
  | .vault (.updateNode _), r => r ≠ .error .netSuccess
  | _, _ => True

lemma honest_vault {X : Crates} {env : Env} {m : VaultMessage} {db : Backend}
    {o : Outcome m.Reply} (h : processVaultMessage X env m db = some o) (l : Session) :
    Honest l (.vault m) o.reply := by
  cases m with
  | fetchNode nodeId =>
    cases h
    show DbMemory.fetchNode nodeId db ≠ _
    unfold DbMemory.fetchNode
    split <;> simp
  | getPlayerInfoNode playerId =>
    obtain ⟨reply, hreply, rfl⟩ := Option.map_eq_some_iff.1 h
    obtain ⟨refs, -, hreply⟩ := Option.bind_eq_some_iff.1 hreply
    show reply ≠ _
    dsimp only at hreply
    split at hreply <;> cases hreply <;> simp
  | updateNode node =>
    cases h
    show (updateNode env node db).reply ≠ _
    unfold updateNode
    split
    · rename_i heq
      unfold DbMemory.updateNode at heq
      dsimp only at heq
      split at heq <;> cases heq
      simp
    · simp
  | _ => trivial

/-- The contract all workers keep: they ask what they may, and see their own fields. -/
def workerContract : Contract WorkerReply Session where
  may l c := WorkerAsks l.worker l.doing c
  gives l c r l' := l' = l.next c r ∧ Honest l c r

lemma serveWorkers_gives {X : Crates} {v : World} {c : WorkerCall} {l l' : Session}
    {db db' : Backend} {r : WorkerReply c} (h : serveWorkers X v c l db = some (r, l', db')) :
    workerContract.gives l c r l' := by
  cases c with
  | own c =>
    cases h
    refine ⟨rfl, ?_⟩
    cases c <;> first | exact rfl | exact trivial
  | vault m =>
    obtain ⟨o, ho, heq⟩ := Option.map_eq_some_iff.1 h
    cases heq
    exact ⟨rfl, honest_vault ho l⟩

/-! ### Handlers keep the contract -/

namespace Worker

variable {α β : Type} {Q : Session → Result Empty β → Prop} {l : Session}

/-- If a handler returns, it does so at a point where it may. -/
def Returns (l : Session) (r : Result Empty α) : Prop := ∀ a, r = .ok a → l.doing.Settled

lemma keeps_own {c : OwnCall} {f : c.Reply → WorkerProg β}
    (hc : WorkerAsks l.worker l.doing (.own c))
    (hf : ∀ r, Honest l (.own c) r → (f r).Keeps workerContract Q (l.next (.own c) r)) :
    (own c >>= f).Keeps workerContract Q l := by
  refine ⟨hc, ?_⟩
  rintro r l' ⟨rfl, hr⟩
  exact hf r hr

lemma keeps_vault {m : VaultMessage} {f : VaultReply m → WorkerProg β}
    (hm : WorkerAsks l.worker l.doing (.vault m))
    (hf : ∀ r, (f r).Keeps workerContract Q (l.next (.vault m) r)) :
    (vault m >>= f).Keeps workerContract Q l := by
  refine ⟨hm, ?_⟩
  rintro r l' ⟨rfl, -⟩
  exact hf r

lemma keeps_talk {c : OwnCall} {f : c.Reply → WorkerProg β} (hc : Talks c)
    (hf : ∀ r, Honest l (.own c) r → (f r).Keeps workerContract Q l) :
    (own c >>= f).Keeps workerContract Q l := by
  refine keeps_own (.talk hc) fun r hr => ?_
  cases c <;> first | exact hf r hr | exact hc.elim

lemma keeps_look {m : VaultMessage} {f : VaultReply m → WorkerProg β} (hm : Looks m)
    (hf : ∀ r, (f r).Keeps workerContract Q l) : (vault m >>= f).Keeps workerContract Q l := by
  refine keeps_vault (.look hm) fun r => ?_
  cases m <;> first | exact hf r | exact hm.elim

lemma keeps_pure {a : α} (hl : l.doing.Settled) :
    (pure a : WorkerProg α).Keeps workerContract Returns l := fun _ _ => hl

lemma keeps_crash : (Prog.crash : WorkerProg α).Keeps workerContract Returns l := nofun

lemma keeps_send (reply : AuthToCli) (hl : l.doing.Settled) :
    (sendMessage reply).Keeps workerContract Returns l := by
  refine ⟨.talk trivial, ?_⟩
  rintro r l' ⟨rfl, -⟩ _ _
  exact hl

/-- The contract for the requests of a program on the vault. -/
def vaultContract : Contract VaultReply Session where
  may l m := WorkerAsks l.worker l.doing (.vault m)
  gives l m r l' := l' = l.next (.vault m) r

lemma keeps_onVault {p : VaultProg α} {Q : Session → Result Empty (NetResult α) → Prop}
    (h : p.Keeps vaultContract (fun l r => match r with
      | .ok a => Q l (.ok (.ok a))
      | .error err => Q l (.ok (.error err))
      | .crash => Q l .crash) l) : (onVault p).Keeps workerContract Q l := by
  induction p generalizing l with
  | done r => cases r <;> exact h
  | ask m k ih =>
    refine ⟨h.1, ?_⟩
    rintro r l' ⟨rfl, -⟩
    exact ih r (h.2 r _ rfl)

/-! #### Files and logins -/

lemma keeps_doManifest (transId : UInt32) (dirName ext : String) (hl : l.doing.Settled) :
    (doManifest transId dirName ext).Keeps workerContract Returns l := by
  refine Prog.Keeps.bind ?_
  unfold fetchList
  split
  · exact keeps_send _ hl
  · refine ⟨.talk trivial, ?_⟩
    rintro manifest l' ⟨rfl, -⟩
    cases manifest with
    | none => exact keeps_send _ hl
    | some manifest => exact keeps_send _ hl

lemma keeps_sendChunks (transId totalSize offset : UInt32) (reads : List (Option Bytes))
    (hl : l.doing.Settled) :
    (sendChunks transId totalSize offset reads).Keeps workerContract Returns l := by
  induction reads generalizing offset with
  | nil => exact keeps_pure hl
  | cons read reads ih =>
    match read with
    | none => exact keeps_send _ hl
    | some [] => exact keeps_pure hl
    | some (b :: bs) =>
      refine keeps_talk trivial fun sent _ => ?_
      cases sent with
      | true => exact ih _
      | false => exact keeps_pure hl

lemma keeps_doDownload (dataRoot : Lib.Paths.Path) (transId : UInt32) (filename : String)
    (hl : l.doing.Settled) :
    (doDownload dataRoot transId filename).Keeps workerContract Returns l := by
  refine Prog.Keeps.bind ?_
  unfold openServerFile
  split
  · refine ⟨.talk trivial, ?_⟩
    rintro file l' ⟨rfl, -⟩
    cases file with
    | none => exact keeps_send _ hl
    | some file =>
      show Prog.Keeps workerContract Returns (if _ then _ else _) l
      split
      · exact keeps_sendChunks _ _ _ _ hl
      · exact keeps_send _ hl
  · exact keeps_send _ hl

lemma keeps_sendPlayers {Q : Session → Result Empty (Option NetResultCode) → Prop}
    (transId : UInt32) (players : List PlayerInfo) (hQ : ∀ code, Q l (.ok code)) :
    (sendPlayers transId players).Keeps workerContract Q l := by
  induction players with
  | nil => exact hQ _
  | cons player players ih =>
    refine keeps_talk trivial fun sent _ => ?_
    cases sent with
    | true => exact ih
    | false => exact hQ _

lemma keeps_loginAnswer (transId : UInt32) (account : AccountInfo) (ntdKey : List UInt32)
    (code : Option NetResultCode) (hl : l.doing.Settled) :
    Prog.Keeps workerContract Returns (match code with
      | some .netSuccess => sendMessage (.acctLoginReply transId NetResultCode.netSuccess.code
          account.accountId account.accountFlags account.billingType ntdKey)
      | some err => sendMessage (.loginError transId err)
      | none => pure false) l := by
  split
  · exact keeps_send _ hl
  · exact keeps_send _ hl
  · exact keeps_pure hl

lemma keeps_finishLogin {message : CliToAuth} (transId : UInt32) (account : AccountInfo)
    (hl : l.doing = .handling message) :
    (finishLogin transId account).Keeps workerContract Returns l := by
  have hsettled : l.doing.Settled := by rw [hl]; trivial
  refine keeps_talk trivial fun ntdKey _ => ?_
  cases ntdKey with
  | none => exact keeps_send _ hsettled
  | some ntdKey =>
    refine keeps_own (hl ▸ .setAccountId _) fun _ _ => ?_
    refine Prog.Keeps.bind ?_
    refine keeps_look trivial fun players => ?_
    cases players with
    | ok players => exact keeps_sendPlayers _ _ fun code => keeps_loginAnswer _ _ _ code hsettled
    | error err => exact keeps_loginAnswer _ _ _ (some err) hsettled

lemma keeps_doLoginRequest {config : ServerConfig} {X : Crates} {message : CliToAuth}
    (transId clientChallenge : UInt32) (accountName : String) (passHash : ShaDigest)
    (hl : l.doing = .handling message) :
    (doLoginRequest config X transId clientChallenge accountName passHash).Keeps workerContract
      Returns l := by
  have hsettled : l.doing.Settled := by rw [hl]; trivial
  refine keeps_look trivial fun account => ?_
  match account with
  | .error err => exact keeps_send _ hsettled
  | .ok none => exact keeps_send _ hsettled
  | .ok (some account) =>
    refine keeps_talk trivial fun worker _ => ?_
    split
    · exact keeps_send _ hsettled
    · split
      · exact keeps_send _ hsettled
      · split
        · exact keeps_send _ hsettled
        · exact keeps_finishLogin _ _ hl

/-! #### Ages and players -/

section Vault

variable {X : Crates} {sdl : SdlHost X} {γ : Type} {R : Session → Result NetResultCode γ → Prop}

lemma keeps_request {m : VaultMessage} {f : m.Reply → VaultProg γ}
    (hm : WorkerAsks l.worker l.doing (.vault m))
    (hf : ∀ a, (f a).Keeps vaultContract R (l.next (.vault m) (.ok a)))
    (herr : ∀ err, R (l.next (.vault m) (.error err)) (.error err)) :
    (request m >>= f).Keeps vaultContract R l := by
  refine ⟨hm, ?_⟩
  rintro r l' rfl
  cases r with
  | ok a => exact hf a
  | error err => exact herr err

lemma keeps_quiet {m : VaultMessage} {f : m.Reply → VaultProg γ}
    (hm : WorkerAsks l.worker l.doing (.vault m)) (hnext : ∀ r, l.next (.vault m) r = l)
    (hf : ∀ a, (f a).Keeps vaultContract R l) (herr : ∀ err, R l (.error err)) :
    (request m >>= f).Keeps vaultContract R l :=
  keeps_request hm (fun a => (hnext (.ok a)).symm ▸ hf a)
    fun err => (hnext (.error err)).symm ▸ herr err

/-- The program ends where it began, with any result. -/
def Stays (l₀ : Session) (l : Session) (_ : Result NetResultCode γ) : Prop := l = l₀

variable (hl : l.doing.Builds)
include hl

lemma afterCreateNode_of_builds (r : NetResult UInt32) : l.doing.afterCreateNode r = l.doing := by
  obtain ⟨w, d⟩ := l
  cases d <;> first | rfl | exact hl.elim

lemma keeps_createNode {node : VaultNode} {f : UInt32 → VaultProg γ}
    (hnode : node.isOf .playerInfo = false) (hf : ∀ a, (f a).Keeps vaultContract (Stays l) l) :
    (request (.createNode node) >>= f).Keeps vaultContract (Stays l) l := by
  refine keeps_quiet (.createNode hl hnode) (fun r => ?_) hf fun _ => rfl
  show (⟨l.worker, l.doing.afterCreateNode r⟩ : Session) = l
  rw [afterCreateNode_of_builds hl]

lemma keeps_refNode {parent child owner : UInt32} {broadcast : Bool} {f : Unit → VaultProg γ}
    (hf : (f ()).Keeps vaultContract (Stays l) l) :
    (request (.refNode parent child owner broadcast) >>= f).Keeps vaultContract (Stays l) l :=
  keeps_quiet (.refNode _ _ _ _ hl) (fun _ => rfl) (fun _ => hf) fun _ => rfl

omit hl in
lemma keeps_getSystemNode {f : UInt32 → VaultProg γ}
    (hf : ∀ a, (f a).Keeps vaultContract (Stays l) l) :
    (request .getSystemNode >>= f).Keeps vaultContract (Stays l) l :=
  keeps_quiet (.look trivial) (fun _ => rfl) hf fun _ => rfl

lemma keeps_finishAge (a : AgeArgs) (addOwner : Option (UInt32 × UInt32))
    (ageId ageInfo ageOwners sdlNode : UInt32) :
    (finishAge a addOwner ageId ageInfo ageOwners sdlNode).Keeps vaultContract (Stays l) l := by
  have hserver (server : GameServer) : Prog.Keeps vaultContract (Stays l)
      (request (.addGameServer server) >>= fun _ => pure (ageId, ageInfo)) l :=
    keeps_quiet (.addGameServer _ hl) (fun _ => rfl) (fun _ => rfl) fun _ => rfl
  unfold finishAge
  cases addOwner with
  | none => exact hserver _
  | some owner => exact keeps_refNode hl (hserver _)

lemma keeps_createAgeNodes (a : AgeArgs) (addOwner : Option (UInt32 × UInt32)) (isPublic : Bool) :
    (createAgeNodes sdl a addOwner isPublic).Keeps vaultContract (Stays l) l := by
  unfold createAgeNodes
  refine keeps_createNode hl ?_ fun _ => ?_
  · exact beq_eq_false_iff_ne.2 (by rw [(VaultAgeNode.isFor_new ..).1]; decide)
  refine keeps_createNode hl rfl fun _ => ?_
  refine keeps_createNode hl rfl fun _ => ?_
  refine keeps_createNode hl rfl fun _ => ?_
  refine keeps_createNode hl ?_ fun _ => ?_
  · exact beq_eq_false_iff_ne.2 (by rw [(VaultAgeInfoNode.isFor_new ..).1]; decide)
  refine keeps_createNode hl rfl fun _ => ?_
  refine keeps_createNode hl rfl fun _ => ?_
  -- the default state of the age may not be there
  cases defaultSdl sdl a.ageFilename with
  | crash => exact rfl
  | error err => exact rfl
  | ok sdlBlob =>
    refine keeps_createNode hl rfl fun _ => ?_
    refine keeps_createNode hl rfl fun _ => ?_
    refine keeps_createNode hl rfl fun _ => ?_
    refine keeps_getSystemNode fun _ => ?_
    iterate 10 refine keeps_refNode hl ?_
    exact keeps_finishAge hl ..

omit hl in
lemma keeps_findAgeInstance {transId : UInt32} (a : AgeArgs)
    (hd : l.doing = .handling (.vaultInitAgeRequest transId a.ageUuid a.parentUuid a.ageFilename
      a.instanceName a.userName a.description a.sequenceNumber a.language)) :
    (findAgeInstance sdl a).Keeps vaultContract (fun l _ => l.doing.Settled) l := by
  obtain ⟨w, d⟩ := l
  subst hd
  refine ⟨.findAge, ?_⟩
  rintro r l' rfl
  match r with
  | .error err => exact trivial
  | .ok [] =>
    have hbuilds : (Session.mk w .buildingAge).doing.Builds := trivial
    refine (keeps_createAgeNodes hbuilds a none false).imp ?_
    rintro l' r rfl
    exact trivial
  | .ok (ageId :: _) =>
    refine keeps_quiet .findAgeInfo (Session.next_findAgeInfo _ _) (fun infos => ?_)
      fun _ => trivial
    cases infos <;> exact trivial

omit hl in
lemma keeps_createPlayerNodes (accountId : Uuid) (player : PlayerInfo) (reltoUuid : Uuid)
    (hd : l.doing = .enrolled player.playerId) :
    (createPlayerNodes sdl accountId player reltoUuid).Keeps vaultContract
      (fun l _ => l.doing.Settled) l := by
  obtain ⟨w, d⟩ := l
  subst hd
  have hl : (Session.mk w .furnishing).doing.Builds := trivial
  unfold createPlayerNodes
  refine keeps_request (.createInfo _ _) (fun playerInfo => ?_) fun _ => trivial
  refine Prog.Keeps.imp (Q := Stays ⟨w, .furnishing⟩) (by rintro l' r rfl; exact trivial) ?_
  iterate 14 refine keeps_createNode hl rfl fun _ => ?_
  refine Prog.Keeps.bind ?_
  refine (keeps_createAgeNodes hl _ _ _).imp ?_
  rintro l' r rfl
  match r with
  | .crash => exact rfl
  | .error err => exact rfl
  | .ok (reltoId, reltoInfo) =>
    refine keeps_getSystemNode fun _ => ?_
    iterate 18 refine keeps_refNode hl ?_
    refine keeps_quiet (.look trivial) (fun _ => rfl) (fun _ => ?_) fun _ => rfl
    refine ⟨.refNode _ _ _ _ hl, ?_⟩
    rintro r l' rfl
    cases r <;> exact rfl

end Vault

section Players

variable {X : Crates} {sdl : SdlHost X} {message : CliToAuth}

lemma keeps_playerCreate (transId : UInt32) (playerName avatarShape : String)
    (hd : l.doing = .handling message) :
    (playerCreate sdl transId playerName avatarShape).Keeps workerContract Returns l := by
  have hsettled : l.doing.Settled := by rw [hd]; trivial
  refine keeps_talk trivial fun worker hworker => ?_
  obtain rfl : worker = l.worker := hworker
  cases haccount : l.worker.accountId with
  | none => exact keeps_send _ hsettled
  | some accountId =>
    show Prog.Keeps workerContract Returns (if _ then _ else _) l
    split
    · exact keeps_send _ hsettled
    · refine keeps_vault (hd ▸ .createPlayer _ _ haccount) fun r => ?_
      cases r with
      | error result => exact keeps_send _ hsettled
      | ok player =>
        refine keeps_talk trivial fun reltoUuid _ => ?_
        refine Prog.Keeps.bind (keeps_onVault ?_)
        refine (keeps_createPlayerNodes accountId player reltoUuid rfl).imp fun l r hl => ?_
        match r with
        | .crash => exact nofun
        | .error err => exact keeps_send _ hl
        | .ok () => exact keeps_send _ hl

lemma keeps_signIn (transId playerId : UInt32) (playerInfo : VaultNode)
    (hd : l.doing = .cleared playerId playerInfo.nodeId) :
    (signIn transId playerId playerInfo).Keeps workerContract Returns l := by
  obtain ⟨w, d⟩ := l
  subst hd
  refine keeps_vault .signIn fun r => ?_
  cases r with
  | error err => exact keeps_send _ trivial
  | ok a => exact keeps_own .setPlayerId fun _ _ => keeps_send _ trivial

lemma keeps_checkOnline {accountId : Uuid} (transId playerId : UInt32)
    (hd : l.doing = .handling (.acctSetPlayerRequest transId playerId))
    (haccount : l.worker.accountId = some accountId) :
    (checkOnline transId playerId).Keeps workerContract Returns l := by
  obtain ⟨w, d⟩ := l
  subst hd
  refine keeps_vault (.checkOnline haccount) fun r => ?_
  cases r with
  | error err => exact keeps_send _ trivial
  | ok node =>
    dsimp only
    cases hinfo : node.asPlayerInfoNode with
    | none => exact keeps_crash
    | some playerInfo =>
      obtain ⟨-, rfl⟩ := VaultNode.asNode_eq_some.1 hinfo
      by_cases honline : VaultPlayerInfoNode.online node ≠ 0
      · refine Eq.mpr (congrArg (Prog.Keeps _ _ · _) (if_pos honline)) (keeps_send _ ?_)
        simp [Session.next, Doing.afterVault, Doing.afterPlayerInfo, honline, Doing.Settled]
      · refine Eq.mpr (congrArg (Prog.Keeps _ _ · _) (if_neg honline)) (keeps_signIn _ _ _ ?_)
        simp [Session.next, Doing.afterVault, Doing.afterPlayerInfo, honline]

lemma keeps_doSetPlayer (transId playerId : UInt32)
    (hd : l.doing = .handling (.acctSetPlayerRequest transId playerId)) :
    (doSetPlayer transId playerId).Keeps workerContract Returns l := by
  have hsettled : l.doing.Settled := by rw [hd]; trivial
  refine keeps_talk trivial fun worker hworker => ?_
  obtain rfl : worker = l.worker := hworker
  cases haccount : l.worker.accountId with
  | none => exact keeps_send _ hsettled
  | some accountId =>
    refine keeps_look trivial fun r => ?_
    cases r with
    | error err => exact keeps_send _ hsettled
    | ok node =>
      dsimp only
      cases node.asPlayerNode with
      | none => exact keeps_send _ hsettled
      | some playerNode =>
        show Prog.Keeps workerContract Returns (if _ then _ else _) l
        split
        · exact keeps_send _ hsettled
        · exact keeps_checkOnline _ _ hd haccount

lemma keeps_handleDisconnect (hd : l.doing = .leaving) :
    handleDisconnect.Keeps workerContract
      (fun l r => ∀ a, r = .ok a → WorkerAsks l.worker l.doing (.own .exit)) l := by
  obtain ⟨w, d⟩ := l
  subst hd
  refine keeps_talk trivial fun worker hworker => ?_
  obtain rfl : worker = w := hworker
  cases hplayer : worker.playerId with
  | none => exact fun _ _ => .exitNoPlayer hplayer
  | some playerId =>
    refine keeps_vault (.findInfo hplayer) fun r => ?_
    cases r with
    | error err => exact fun _ _ => .exitLost
    | ok node =>
      dsimp only
      cases hinfo : node.asPlayerInfoNode with
      | none =>
        intro _ hok
        cases hok
      | some playerInfo =>
        obtain ⟨-, rfl⟩ := VaultNode.asNode_eq_some.1 hinfo
        refine keeps_vault .signOut fun r => ?_
        cases r with
        | error err => exact fun _ _ => .exitLost
        | ok a => exact fun _ _ => .exitGone

end Players

/-! #### Vault messages -/

section Messages

variable {X : Crates} {sdl : SdlHost X} {config : ServerConfig} {transId : UInt32}

lemma keeps_vaultNodeCreate {nodeBuffer : Bytes}
    (hd : l.doing = .handling (.vaultNodeCreate transId nodeBuffer)) :
    (vaultNodeCreate transId nodeBuffer).Keeps workerContract Returns l := by
  obtain ⟨w, d⟩ := l
  subst hd
  unfold vaultNodeCreate
  split
  · exact keeps_send _ trivial
  · rename_i node hnode
    exact keeps_vault (.vaultNodeCreate hnode) fun _ => keeps_send _ trivial

lemma keeps_vaultNodeFetch (nodeId : UInt32) (hl : l.doing.Settled) :
    (vaultNodeFetch transId nodeId).Keeps workerContract Returns l := by
  refine keeps_look trivial fun r => ?_
  cases r with
  | error err => exact keeps_send _ hl
  | ok node =>
    dsimp only
    split <;> exact keeps_send _ hl

lemma keeps_vaultNodeAdd {parentId childId ownerId : UInt32}
    (hd : l.doing = .handling (.vaultNodeAdd transId parentId childId ownerId)) :
    (vaultNodeAdd transId parentId childId ownerId).Keeps workerContract Returns l := by
  obtain ⟨w, d⟩ := l
  subst hd
  exact keeps_vault .vaultNodeAdd fun _ => keeps_send _ trivial

lemma keeps_vaultFetchNodeRefs (nodeId : UInt32) (hl : l.doing.Settled) :
    (vaultFetchNodeRefs transId nodeId).Keeps workerContract Returns l :=
  keeps_look trivial fun _ => keeps_send _ hl

lemma keeps_vaultInitAge (a : AgeArgs)
    (hd : l.doing = .handling (.vaultInitAgeRequest transId a.ageUuid a.parentUuid a.ageFilename
      a.instanceName a.userName a.description a.sequenceNumber a.language)) :
    (vaultInitAge sdl transId a).Keeps workerContract Returns l := by
  refine Prog.Keeps.bind (keeps_onVault ?_)
  refine (keeps_findAgeInstance a hd).imp fun l r hl => ?_
  match r with
  | .crash => exact nofun
  | .error err => exact keeps_send _ hl
  | .ok (ageId, ageInfo) => exact keeps_send _ hl

lemma keeps_vaultNodeFind {nodeBuffer : Bytes}
    (hd : l.doing = .handling (.vaultNodeFind transId nodeBuffer)) :
    (vaultNodeFind transId nodeBuffer).Keeps workerContract Returns l := by
  obtain ⟨w, d⟩ := l
  subst hd
  unfold vaultNodeFind
  split
  · exact keeps_send _ trivial
  · refine keeps_vault (.findNodes _) fun r => keeps_send _ ?_
    match r with
    | .error err => exact trivial
    | .ok [] => exact trivial
    | .ok (_ :: _) => exact trivial

/-- **Every handler** keeps the contract. -/
lemma keeps_handleMessage (message : CliToAuth) (hd : l.doing = .handling message) :
    (handleMessage sdl config message).Keeps workerContract Returns l := by
  have hsettled : l.doing.Settled := by rw [hd]; trivial
  cases message with
  | clientRegisterRequest buildId =>
    show Prog.Keeps workerContract Returns (if _ then _ else _) l
    split
    · exact keeps_pure hsettled
    · exact keeps_talk trivial fun _ _ => keeps_send _ hsettled
  | acctLoginRequest => exact keeps_doLoginRequest _ _ _ _ hd
  | acctSetPlayerRequest transId playerId =>
    show Prog.Keeps workerContract Returns (if _ then _ else _) l
    split
    · exact keeps_send _ hsettled
    · exact keeps_doSetPlayer _ _ hd
  | playerCreateRequest => exact keeps_playerCreate _ _ _ hd
  | vaultNodeCreate => exact keeps_vaultNodeCreate hd
  | vaultNodeFetch => exact keeps_vaultNodeFetch _ hsettled
  | vaultNodeAdd => exact keeps_vaultNodeAdd hd
  | vaultFetchNodeRefs => exact keeps_vaultFetchNodeRefs _ hsettled
  | vaultInitAgeRequest => exact keeps_vaultInitAge _ hd
  | vaultNodeFind => exact keeps_vaultNodeFind hd
  | fileListRequest => exact keeps_doManifest _ _ _ hsettled
  | fileDownloadRequest => exact keeps_doDownload _ _ _ hsettled
  | _ => first
    | exact keeps_send _ hsettled
    | exact keeps_pure hsettled
    | exact keeps_crash

/-! #### The loop -/

lemma keeps_runLoop (events : List Event) (hl : l.doing.Settled) :
    (runLoop sdl config events).Keeps workerContract Returns l := by
  induction events generalizing l with
  | nil => exact keeps_own (.wait hl) fun _ _ => keeps_pure trivial
  | cons event events ih =>
    match event with
    | .message message =>
      refine keeps_own (.wait hl) fun _ _ => ?_
      refine keeps_own (.receive message) fun _ _ => ?_
      refine Prog.Keeps.bind ((keeps_handleMessage message rfl).imp fun l r hr => ?_)
      match r with
      | .crash => exact nofun
      | .ok true => exact ih (hr true rfl)
      | .ok false => exact keeps_pure (hr false rfl)
    | .broadcast (some msg) =>
      refine keeps_own (.wait hl) fun _ _ => ?_
      refine Prog.Keeps.bind (Prog.Keeps.imp (Q := Returns) (fun l r hr => ?_) ?_)
      · match r with
        | .crash => exact nofun
        | .ok true => exact ih (hr true rfl)
        | .ok false => exact keeps_pure (hr false rfl)
      · cases msg <;> exact keeps_send _ trivial
    | .broadcast none => exact keeps_own (.wait hl) fun _ _ => ih trivial
    | .readError => exact keeps_own (.wait hl) fun _ _ => keeps_pure trivial

lemma keeps_sendCaps {Q : Session → Result Empty Unit → Prop} (hQ : Q l (.ok ())) :
    sendCaps.Keeps workerContract Q l := by
  refine ⟨.talk trivial, ?_⟩
  rintro r l' ⟨rfl, -⟩
  exact hQ

/-- **Every worker** keeps the contract, whatever happens on its connection. -/
lemma keeps_startWorker (serverChallenge : UInt32) (events : List Event) :
    (startWorker sdl config events).Keeps workerContract (fun _ _ => True)
      (.start serverChallenge) := by
  refine Prog.Keeps.bind (keeps_sendCaps ?_)
  refine Prog.Keeps.bind ((keeps_runLoop (l := .start serverChallenge) events trivial).imp
    fun l r hr => ?_)
  match r with
  | .crash => exact trivial
  | .ok false => exact trivial
  | .ok true =>
    refine keeps_own (.drop (hr true rfl)) fun _ _ => ?_
    refine Prog.Keeps.bind ((keeps_handleDisconnect rfl).imp fun l r hr => ?_)
    match r with
    | .crash => exact trivial
    | .ok () => exact ⟨hr () rfl, fun _ _ _ => trivial⟩

end Messages

end Worker

/-! ### Runs -/

section Runs

variable {ι : Type} [DecidableEq ι] {X : Crates}
  {Fine : Backend → (ι → Session) → ι → WorkerCall → Prop} {I : Backend → (ι → Session) → Prop}
  {p q : WorkerPool ι}

/-- **The rule for runs of the server**: an invariant of the vault and the sessions is kept if
every call that a worker may make keeps it, from any pool of workers that keep the contract. -/
theorem runs_keep_from (h : Runs (serveWorkers X) Fine p q)
    (hC : ∀ i, (p.clients i).prog.Keeps workerContract (fun _ _ => True) (p.owns i))
    (hI : I p.server p.owns)
    (hown : ∀ s ls i c r, I s ls → WorkerAsks (ls i).worker (ls i).doing (.own c) →
      Fine s ls i (.own c) → I s (Function.update ls i ((ls i).next (.own c) r)))
    (hvault : ∀ s ls i env m o, I s ls → WorkerAsks (ls i).worker (ls i).doing (.vault m) →
      Fine s ls i (.vault m) → processVaultMessage X env m s = some o →
        I o.db (Function.update ls i ((ls i).next (.vault m) o.reply))) :
    I q.server q.owns ∧
      ∀ i, (q.clients i).prog.Keeps workerContract (fun _ _ => True) (q.owns i) := by
  refine Runs.keeps (C := workerContract) h hI hC ?_
  intro s ls i v c r l s' hs hc hfine hserve
  refine ⟨serveWorkers_gives hserve, ?_⟩
  cases c with
  | own c =>
    cases hserve
    exact hown s ls i c _ hs hc hfine
  | vault m =>
    obtain ⟨o, ho, heq⟩ := Option.map_eq_some_iff.1 hserve
    cases heq
    exact hvault s ls i v.env m o hs hc hfine ho

theorem runs_keep {sdl : SdlHost X} {config : ServerConfig} {challenges : ι → UInt32}
    {events : ι → List Event} {db : Backend}
    (h : Runs (serveWorkers X) Fine (workerPool sdl config challenges events db) p)
    (hI : I db fun i => .start (challenges i))
    (hown : ∀ s ls i c r, I s ls → WorkerAsks (ls i).worker (ls i).doing (.own c) →
      Fine s ls i (.own c) → I s (Function.update ls i ((ls i).next (.own c) r)))
    (hvault : ∀ s ls i env m o, I s ls → WorkerAsks (ls i).worker (ls i).doing (.vault m) →
      Fine s ls i (.vault m) → processVaultMessage X env m s = some o →
        I o.db (Function.update ls i ((ls i).next (.vault m) o.reply))) :
    I p.server p.owns :=
  (runs_keep_from h (fun _ => Worker.keeps_startWorker _ _) hI hown hvault).1

end Runs

/-! ### A small server -/

lemma Doing.eq_idle {d : Doing} (h : d.ctorIdx = Doing.idle.ctorIdx) : d = .idle := by
  cases d with
  | idle => rfl
  | _ => cases h

lemma Doing.eq_gone {d : Doing} (h : d.ctorIdx = Doing.gone.ctorIdx) : d = .gone := by
  cases d with
  | gone => rfl
  | _ => cases h

/-- Stand-ins with which logins can be evaluated: all digests are zero. -/
def smallCrates : Crates := ⟨id, fun _ => .zero, fun _ => none⟩

def smallSdl : SdlHost smallCrates := ⟨Sdl.DescriptorDb.empty, Plasma.Zlib.stored, 0⟩

/-- Every message is sent, and no file is there. -/
def World.small : World := ⟨Env.plain 0, true, .nil, some [0, 0, 0, 0], none, none⟩

/-- Workers on the vault the server starts with, without any files to serve. -/
def smallPool {ι : Type} (events : ι → List Event) : WorkerPool ι :=
  workerPool smallSdl ⟨0, [], false⟩ (fun _ => 0) events initial

/-- Workers that take turns, each for a number of steps. -/
def steps {ι : Type} (turns : List (ℕ × ι)) : List (ι × World) :=
  turns.flatMap fun turn => List.replicate turn.1 (turn.2, World.small)

def blankLogin : CliToAuth :=
  .acctLoginRequest 1 0 "yeesha" .zero "" ""

end Moulars.Auth
