import Moulars.Auth.ServerNodes

/-!
Whose players the workers play.

`do_set_player` looks whether the node of the player belongs to the account the worker is logged in
to. What it has seen is not in the worker's fields: the workers here take notes of the player nodes
they fetch. A second login replaces the account and leaves the player as it is.
-/

namespace Moulars.Auth

open Lib.Clients Lib.Hash Hashes Vault

/-! ### Notes of players -/

/-- The last player that was fetched, with its account. -/
abbrev Noted := Option (UInt32 × Uuid)

def noteReply (n : Noted) : (c : WorkerCall) → WorkerReply c → Noted
  | .vault (.fetchNode p), .ok node => match node.asPlayerNode with
    | some player => some (p, VaultPlayerNode.accountId player)
    | none => n
  | _, _ => n

/-- The player that the client is about to get, if it is. -/
def Doing.selected : Doing → Option UInt32
  | .handling (.acctSetPlayerRequest _ p) => some p
  | .cleared p _ => some p
  | .marked p _ => some p
  | .answering p => some p
  | _ => none

def Doing.Selects (p : UInt32) (d : Doing) : Prop := d.selected = some p

instance (p : UInt32) (d : Doing) : Decidable (d.Selects p) :=
  inferInstanceAs (Decidable (d.selected = some p))

/-- The worker of a connected client asks for the info node of a player only if it has seen that
the player is one of its account, and grants a request for a player only if it has selected it. -/
def Checked (l : Session) (n : Noted) : WorkerCall → Prop
  | .vault (.getPlayerInfoNode p) =>
    l.doing = .leaving ∨ ∃ a, l.worker.accountId = some a ∧ n = some (p, a)
  | .own (.send (.acctSetPlayerReply _ result)) => result = NetResultCode.netSuccess.code →
    ∃ p, l.doing.Selects p ∧ (p = 0 ∨ l.worker.playerId = some p)
  | _ => True

/-- Calls other than for the info node of a player, and replies to other requests. -/
def AsksElse : WorkerCall → Prop
  | .vault (.getPlayerInfoNode _) => False
  | .own (.send (.acctSetPlayerReply ..)) => False
  | _ => True

namespace Worker

section Only

variable {α : Type} {X : Crates} {sdl : SdlHost X}

lemma only_request {m : VaultMessage} {f : m.Reply → VaultProg α} {F : VaultMessage → Prop}
    (hm : F m) (hf : ∀ a, (f a).Only F) : (request m >>= f).Only F := by
  refine ⟨hm, fun r => ?_⟩
  cases r with
  | ok a => exact hf a
  | error err => trivial

lemma only_onVault {p : VaultProg α} (h : p.Only fun m => AsksElse (.vault m)) :
    (onVault p).Only AsksElse := by
  induction p with
  | done r => cases r <;> trivial
  | ask m k ih => exact ⟨h.1, fun r => ih r (h.2 r)⟩

lemma only_own {c : OwnCall} {f : c.Reply → WorkerProg α} (hc : AsksElse (.own c))
    (hf : ∀ r, (f r).Only AsksElse) : (own c >>= f).Only AsksElse :=
  Prog.Only.call_bind (m := WorkerCall.own c) hc hf

lemma only_vault {m : VaultMessage} {f : VaultReply m → WorkerProg α}
    (hm : AsksElse (.vault m)) (hf : ∀ r, (f r).Only AsksElse) : (vault m >>= f).Only AsksElse :=
  Prog.Only.call_bind (m := WorkerCall.vault m) hm hf

lemma only_send {reply : AuthToCli} (h : AsksElse (.own (.send reply))) :
    (sendMessage reply).Only AsksElse :=
  ⟨h, fun _ => trivial⟩

/-! #### Ages and players -/

lemma only_finishAge (a : AgeArgs) (addOwner : Option (UInt32 × UInt32))
    (ageId ageInfo ageOwners sdlNode : UInt32) :
    (finishAge a addOwner ageId ageInfo ageOwners sdlNode).Only fun m => AsksElse (.vault m) := by
  have hserver (server : GameServer) : Prog.Only (fun m => AsksElse (.vault m))
      (request (.addGameServer server) >>= fun _ => pure (ageId, ageInfo)) :=
    only_request trivial fun _ => trivial
  unfold finishAge
  cases addOwner with
  | none => exact hserver _
  | some owner => exact only_request trivial fun _ => hserver _

lemma only_createAgeNodes (a : AgeArgs) (addOwner : Option (UInt32 × UInt32)) (isPublic : Bool) :
    (createAgeNodes sdl a addOwner isPublic).Only fun m => AsksElse (.vault m) := by
  unfold createAgeNodes
  iterate 7 refine only_request trivial fun _ => ?_
  refine Prog.Only.bind trivial fun sdlBlob => ?_
  iterate 14 refine only_request trivial fun _ => ?_
  exact only_finishAge ..

lemma only_findAgeInstance (a : AgeArgs) :
    (findAgeInstance sdl a).Only fun m => AsksElse (.vault m) := by
  refine only_request trivial fun ages => ?_
  cases ages with
  | nil => exact only_createAgeNodes ..
  | cons ageId ages =>
    refine only_request trivial fun infos => ?_
    cases infos <;> trivial

lemma only_createPlayerNodes (accountId : Uuid) (player : PlayerInfo) (reltoUuid : Uuid) :
    (createPlayerNodes sdl accountId player reltoUuid).Only fun m => AsksElse (.vault m) := by
  unfold createPlayerNodes
  iterate 15 refine only_request trivial fun _ => ?_
  refine Prog.Only.bind (only_createAgeNodes ..) fun relto => ?_
  obtain ⟨reltoId, reltoInfo⟩ := relto
  iterate 20 refine only_request trivial fun _ => ?_
  refine ⟨trivial, fun r => ?_⟩
  cases r <;> trivial

lemma only_playerCreate (transId : UInt32) (playerName avatarShape : String) :
    (playerCreate sdl transId playerName avatarShape).Only AsksElse := by
  refine only_own trivial fun worker => ?_
  cases worker.accountId with
  | none => exact only_send trivial
  | some accountId =>
    show Prog.Only AsksElse (if _ then _ else _)
    split
    · exact only_send trivial
    · refine only_vault trivial fun r => ?_
      cases r with
      | error err => exact only_send trivial
      | ok player =>
        refine only_own trivial fun reltoUuid => ?_
        refine Prog.Only.bind (only_onVault (only_createPlayerNodes accountId player reltoUuid)) ?_
        intro r
        cases r <;> exact only_send trivial

/-! #### Files and logins -/

lemma only_doManifest (transId : UInt32) (dirName ext : String) :
    (doManifest transId dirName ext).Only AsksElse := by
  refine Prog.Only.bind ?_ fun manifest => ?_
  · unfold fetchList
    split
    · trivial
    · exact ⟨trivial, fun _ => trivial⟩
  · cases manifest <;> exact only_send trivial

lemma only_sendChunks (transId totalSize offset : UInt32) (reads : List (Option Lib.Wire.Bytes)) :
    (sendChunks transId totalSize offset reads).Only AsksElse := by
  induction reads generalizing offset with
  | nil => trivial
  | cons read reads ih =>
    match read with
    | none => exact only_send trivial
    | some [] => trivial
    | some (b :: bs) =>
      refine only_own trivial fun sent => ?_
      cases sent with
      | true => exact ih _
      | false => trivial

lemma only_doDownload (dataRoot : Lib.Paths.Path) (transId : UInt32) (filename : String) :
    (doDownload dataRoot transId filename).Only AsksElse := by
  refine Prog.Only.bind ?_ fun file => ?_
  · unfold openServerFile
    split
    · exact ⟨trivial, fun _ => trivial⟩
    · trivial
  · cases file with
    | none => exact only_send trivial
    | some file =>
      show Prog.Only AsksElse (if _ then _ else _)
      split
      · exact only_sendChunks ..
      · exact only_send trivial

lemma only_fetchAccountPlayers (transId : UInt32) (accountId : Uuid) :
    (fetchAccountPlayers transId accountId).Only AsksElse := by
  refine only_vault trivial fun r => ?_
  cases r with
  | error err => trivial
  | ok players =>
    show (sendPlayers transId players).Only AsksElse
    induction players with
    | nil => trivial
    | cons player players ih =>
      refine only_own trivial fun sent => ?_
      cases sent with
      | true => exact ih
      | false => trivial

lemma only_finishLogin (transId : UInt32) (account : AccountInfo) :
    (finishLogin transId account).Only AsksElse := by
  refine only_own trivial fun ntdKey => ?_
  cases ntdKey with
  | none => exact only_send trivial
  | some ntdKey =>
    refine only_own trivial fun _ => Prog.Only.bind (only_fetchAccountPlayers ..) fun code => ?_
    split
    · exact only_send trivial
    · exact only_send trivial
    · trivial

lemma only_doLoginRequest {config : ServerConfig} (transId clientChallenge : UInt32)
    (accountName : String) (passHash : ShaDigest) :
    (doLoginRequest config X transId clientChallenge accountName passHash).Only AsksElse := by
  refine only_vault trivial fun r => ?_
  match r with
  | .error err => exact only_send trivial
  | .ok none => exact only_send trivial
  | .ok (some account) =>
    refine only_own trivial fun worker => ?_
    split
    · exact only_send trivial
    · split
      · exact only_send trivial
      · split
        · exact only_send trivial
        · exact only_finishLogin ..

/-! #### Messages -/

/-- **Only one handler** asks for an info node. -/
lemma only_handleMessage {config : ServerConfig} (message : CliToAuth)
    (hmessage : ∀ transId playerId, message ≠ .acctSetPlayerRequest transId playerId) :
    (handleMessage sdl config message).Only AsksElse := by
  cases message with
  | clientRegisterRequest buildId =>
    show Prog.Only AsksElse (if _ then _ else _)
    split
    · trivial
    · exact only_own trivial fun _ => only_send trivial
  | acctLoginRequest => exact only_doLoginRequest ..
  | acctSetPlayerRequest transId playerId => exact absurd rfl (hmessage transId playerId)
  | playerCreateRequest => exact only_playerCreate ..
  | vaultNodeCreate transId nodeBuffer =>
    show (vaultNodeCreate transId nodeBuffer).Only AsksElse
    unfold vaultNodeCreate
    split
    · exact only_send trivial
    · exact only_vault trivial fun _ => only_send trivial
  | vaultNodeFetch transId nodeId =>
    refine only_vault trivial fun r => ?_
    cases r with
    | error err => exact only_send trivial
    | ok node =>
      dsimp only
      split <;> exact only_send trivial
  | vaultNodeAdd => exact only_vault trivial fun _ => only_send trivial
  | vaultFetchNodeRefs => exact only_vault trivial fun _ => only_send trivial
  | vaultInitAgeRequest =>
    exact Prog.Only.bind (only_onVault (only_findAgeInstance _)) fun _ => only_send trivial
  | vaultNodeFind transId nodeBuffer =>
    show (vaultNodeFind transId nodeBuffer).Only AsksElse
    unfold vaultNodeFind
    split
    · exact only_send trivial
    · exact only_vault trivial fun _ => only_send trivial
  | fileListRequest => exact only_doManifest ..
  | fileDownloadRequest => exact only_doDownload ..
  | _ => first
    | exact only_send trivial
    | trivial

end Only

/-! #### The check of the account -/

abbrev notingContract : Contract WorkerReply (Session × Noted) :=
  workerContract.noting noteReply Checked

section Noting

variable {α β : Type} {X : Crates} {sdl : SdlHost X} {l : Session × Noted}

/-- Nothing is said of how a program ends. -/
def Checks (p : WorkerProg α) (l : Session × Noted) : Prop :=
  p.Keeps notingContract (fun _ _ => True) l

lemma checked_of_asksElse {c : WorkerCall} (hc : AsksElse c) : notingContract.may l c := by
  cases c with
  | own c =>
    cases c with
    | send reply => cases reply <;> trivial
    | _ => trivial
  | vault m => cases m <;> trivial

lemma checks_of_only {p : WorkerProg α} (h : p.Only AsksElse) : Checks p l :=
  Prog.Keeps.of_only (fun _ _ => checked_of_asksElse) h

lemma checks_own {c : OwnCall} {f : c.Reply → WorkerProg β} (hc : AsksElse (.own c))
    (hf : ∀ r, Honest l.1 (.own c) r → Checks (f r) (l.1.next (.own c) r, l.2)) :
    Checks (own c >>= f) l := by
  refine ⟨checked_of_asksElse hc, ?_⟩
  rintro r ⟨l', n'⟩ ⟨⟨rfl, hr⟩, rfl⟩
  exact hf r hr

lemma checks_bind {p : WorkerProg α} {f : α → WorkerProg β} (hp : Checks p l)
    (hf : ∀ a l, Checks (f a) l) : Checks (p >>= f) l := by
  refine Prog.Keeps.bind (hp.imp fun l r _ => ?_)
  cases r with
  | ok a => exact hf a l
  | error e => trivial
  | crash => trivial

lemma checks_refuse (transId : UInt32) {result : NetResultCode} (h : result ≠ .netSuccess) :
    Checks (sendMessage (setPlayerReply transId result)) l := by
  refine ⟨fun hcode => absurd ?_ h, fun _ _ _ => trivial⟩
  revert hcode
  cases result <;> first | exact fun _ => rfl | decide

lemma checks_grant (transId : UInt32) {p : UInt32} (hp : l.1.doing.Selects p)
    (hselected : p = 0 ∨ l.1.worker.playerId = some p) :
    Checks (sendMessage (setPlayerReply transId .netSuccess)) l :=
  ⟨fun _ => ⟨p, hp, hselected⟩, fun _ _ _ => trivial⟩

lemma checks_signIn (transId playerId : UInt32) (playerInfo : VaultNode) :
    Checks (signIn transId playerId playerInfo) l := by
  refine ⟨trivial, ?_⟩
  rintro (r : NetResult Unit) l' ⟨⟨-, hr⟩, -⟩
  cases r with
  | error err => exact checks_refuse _ fun h => hr (congrArg _ h)
  | ok a => exact checks_own trivial fun _ _ => checks_grant (p := playerId) _ rfl (.inr rfl)

lemma checks_checkOnline (transId playerId : UInt32) {accountId : Uuid}
    (haccount : l.1.worker.accountId = some accountId) (hnoted : l.2 = some (playerId, accountId)) :
    Checks (checkOnline transId playerId) l := by
  refine ⟨.inr ⟨accountId, haccount, hnoted⟩, ?_⟩
  rintro (r : NetResult VaultNode) l' ⟨⟨-, hr⟩, -⟩
  cases r with
  | error err => exact checks_refuse _ fun h => hr (congrArg _ h)
  | ok node =>
    dsimp only [Prog.andThen]
    split
    · trivial
    · split
      · exact checks_refuse _ (by decide)
      · exact checks_signIn ..

/-- **The check**: the player that was fetched is one of the account. -/
lemma checks_doSetPlayer (transId playerId : UInt32) : Checks (doSetPlayer transId playerId) l := by
  refine checks_own trivial fun worker hworker => ?_
  obtain rfl : worker = l.1.worker := hworker
  cases haccount : l.1.worker.accountId with
  | none => exact checks_refuse _ (by decide)
  | some accountId =>
    refine ⟨trivial, ?_⟩
    rintro (r : NetResult VaultNode) ⟨l₂, n₂⟩ ⟨⟨rfl, hr⟩, hnote⟩
    cases r with
    | error err => exact checks_refuse _ fun h => hr (congrArg _ h)
    | ok node =>
      dsimp only [Prog.andThen]
      cases hnode : node.asPlayerNode with
      | none => exact checks_refuse _ (by decide)
      | some player =>
        show Checks (if _ then _ else _) _
        split
        · exact checks_refuse _ (by decide)
        · rename_i hsame
          refine checks_checkOnline transId playerId haccount ?_
          have hnoted : n₂ = some (playerId, VaultPlayerNode.accountId player) := by
            have hnote' : n₂ = noteReply l.2 (.vault (.fetchNode playerId)) (.ok node) := hnote
            rw [hnote', noteReply, hnode]
          rw [not_not] at hsame
          rw [hnoted, hsame]

lemma checks_handleDisconnect (hl : l.1.doing = .leaving) : Checks handleDisconnect l := by
  refine checks_own trivial fun worker hworker => ?_
  obtain rfl : worker = l.1.worker := hworker
  cases l.1.worker.playerId with
  | none => trivial
  | some playerId =>
    refine ⟨.inl hl, fun (r : NetResult VaultNode) l' _ => checks_of_only ?_⟩
    cases r with
    | error err => trivial
    | ok node =>
      dsimp only [Prog.andThen]
      split
      · trivial
      · exact only_vault trivial fun _ => trivial

lemma checks_handleMessage {config : ServerConfig} {message : CliToAuth}
    (hd : l.1.doing = .handling message) : Checks (handleMessage sdl config message) l := by
  by_cases hset : ∃ transId playerId, message = .acctSetPlayerRequest transId playerId
  · obtain ⟨transId, playerId, rfl⟩ := hset
    show Checks (if _ then _ else _) l
    split
    · rename_i hzero
      exact checks_grant (p := playerId) _ (hd ▸ rfl) (.inl hzero)
    · exact checks_doSetPlayer ..
  · refine checks_of_only (only_handleMessage message fun transId playerId h => ?_)
    exact hset ⟨transId, playerId, h⟩

lemma checks_runLoop {config : ServerConfig} (events : List Event) :
    Checks (runLoop sdl config events) l := by
  induction events generalizing l with
  | nil => exact checks_of_only (only_own trivial fun _ => trivial)
  | cons event events ih =>
    match event with
    | .message message =>
      refine checks_own trivial fun _ _ => checks_own trivial fun _ _ => ?_
      refine checks_bind (checks_handleMessage rfl) fun goes l => ?_
      cases goes with
      | true => exact ih
      | false => trivial
    | .broadcast (some msg) =>
      refine checks_own trivial fun _ _ => checks_bind (checks_of_only ?_) fun goes l => ?_
      · cases msg <;> exact only_send trivial
      · cases goes with
        | true => exact ih
        | false => trivial
    | .broadcast none => exact checks_own trivial fun _ _ => ih
    | .readError => exact checks_own trivial fun _ _ => trivial

/-- **Every worker** asks for the info node of a player only after the check. -/
lemma checks_startWorker {config : ServerConfig} (events : List Event) :
    Checks (startWorker sdl config events) l := by
  refine checks_bind (checks_of_only ?_) fun _ l => ?_
  · exact only_own trivial fun _ => trivial
  · refine checks_bind (checks_runLoop events) fun ended l => ?_
    cases ended with
    | false => trivial
    | true =>
      refine checks_own trivial fun _ _ => checks_bind (checks_handleDisconnect rfl) fun _ l => ?_
      exact checks_of_only ⟨trivial, fun _ => trivial⟩

end Noting

end Worker

/-! ### Players of an account -/

/-- The node `p` is a player of the account. -/
def PlayerOf (g : Graph) (p : UInt32) (accountId : Uuid) : Prop :=
  ∃ n, g.nodes.lookup p = some n ∧ n.isOf .player = true ∧ VaultPlayerNode.accountId n = accountId

section Players

variable {g : Graph} {p k : UInt32} {a : Uuid}

lemma PlayerOf.create (h : PlayerOf g p a) (node : VaultNode)
    (hfree : g.nodes.lookup g.next = none) : PlayerOf (g.apply (.create node)) p a := by
  obtain ⟨n, hn, hplayer⟩ := h
  refine ⟨n, ?_, hplayer⟩
  show (g.nodes.insert g.next _).lookup p = some n
  rw [AList.lookup_insert_ne, hn]
  rintro rfl
  rw [hfree] at hn
  cases hn

lemma PlayerOf.update (h : PlayerOf g p a) (node : VaultNode)
    (hinfo : (g.infoAt node.nodeId).isSome) : PlayerOf (g.apply (.update node)) p a := by
  obtain ⟨n, hn, hplayer, ha⟩ := h
  refine ⟨n, ?_, hplayer, ha⟩
  have hne : p ≠ node.nodeId := by
    rintro rfl
    rw [Graph.infoAt_of_lookup hn, VaultNode.info_of_not_isOf] at hinfo
    · cases hinfo
    · rw [VaultNode.isOf, eq_of_beq hplayer]
      decide
  simp only [Graph.apply]
  split
  · exact hn
  · show (g.nodes.insert node.nodeId _).lookup p = some n
    rw [AList.lookup_insert_ne hne, hn]

lemma PlayerOf.aside {X : Crates} {env : Env} {db : Backend} {m : VaultMessage}
    {o : Outcome m.Reply} (h : PlayerOf db.graph p a) (hm : Aside m) (hfresh : FreshId db m)
    (ho : processVaultMessage X env m db = some o) : PlayerOf o.db.graph p a := by
  obtain ⟨hgraph, -⟩ := processVaultMessage_graph X env ho
  cases m with
  | createPlayer accountId playerName avatarShape =>
    rcases createPlayer_graph ho with heq | ⟨node, -, heq⟩
    · exact heq ▸ h
    · exact heq ▸ h.create node hfresh
  | createNode node => exact hgraph ▸ h.create node hfresh
  | refNode parent child owner broadcast => exact hgraph ▸ h
  | updateNode => exact hm.elim
  | getPlayerInfoNode => exact hm.elim
  | _ => exact hgraph ▸ h

lemma noteReply_spec {X : Crates} {env : Env} {db : Backend} {m : VaultMessage}
    {o : Outcome m.Reply} {n : Noted} (ho : processVaultMessage X env m db = some o)
    (hnote : noteReply n (.vault m) o.reply = some (p, a)) :
    n = some (p, a) ∨ PlayerOf db.graph p a := by
  cases m with
  | fetchNode q =>
    cases ho
    cases hlookup : db.vault.lookup q with
    | none =>
      simp only [noteReply, DbMemory.fetchNode, hlookup] at hnote
      exact .inl hnote
    | some node =>
      simp only [noteReply, DbMemory.fetchNode, hlookup] at hnote
      split at hnote
      · rename_i player hplayer
        obtain ⟨hof, rfl⟩ := VaultNode.asNode_eq_some.1 hplayer
        cases hnote
        exact .inr ⟨_, hlookup, hof, rfl⟩
      · exact .inl hnote
  | _ => exact .inl hnote

end Players

namespace Session

/-- The player is the worker's, or the worker goes on to make it so. -/
def MayPlay (l : Session) (p : UInt32) : Prop :=
  l.worker.playerId = some p ∨ (∃ k, l.doing = .cleared p k) ∨ ∃ k, l.doing = .marked p k

lemma Weaker.mayPlay {l l' : Session} {p : UInt32} (h : l'.Weaker l)
    (hplayer : l'.worker.playerId = l.worker.playerId ∨ ¬ l'.doing.Released) (hp : l'.MayPlay p) :
    l.MayPlay p := by
  have hhas (hp : l'.Has p) : l.MayPlay p := by
    rcases h.has p hp with ⟨hp, -⟩ | ⟨k, hk⟩
    · exact .inl hp
    · exact .inr (.inr ⟨k, hk⟩)
  rcases hp with hp | ⟨k, hk⟩ | ⟨k, hk⟩
  · rcases hplayer with hsame | hlive
    · exact .inl (hsame.symm.trans hp)
    · exact hhas (.inl ⟨hp, hlive⟩)
  · exact .inr (.inl ⟨k, h.cleared p k hk⟩)
  · exact hhas (.inr ⟨k, hk⟩)

lemma mayPlay_own {l : Session} {c : OwnCall} {p : UInt32} (r : c.Reply)
    (hc : WorkerAsks l.worker l.doing (.own c)) (hp : (l.next (.own c) r).MayPlay p) :
    l.MayPlay p := by
  refine (weaker_own r hc).mayPlay ?_ hp
  cases c with
  | setPlayerId playerId => exact .inr id
  | _ => exact .inl rfl

lemma mayPlay_playerInfo {l : Session} {p q : UInt32} {r : NetResult VaultNode}
    (h : (l.next (.vault (.getPlayerInfoNode p)) r).MayPlay q) :
    l.MayPlay q ∨ q = p ∧ l.doing ≠ .leaving := by
  rcases h with hq | hd
  · exact .inl (.inl hq)
  have hd' : (∃ k, l.doing.afterPlayerInfo p r = .cleared q k) ∨
      ∃ k, l.doing.afterPlayerInfo p r = .marked q k := hd
  unfold Doing.afterPlayerInfo at hd'
  split at hd'
  · split at hd'
    · rcases hd' with ⟨k, hk⟩ | ⟨k, hk⟩ <;> cases hk
    · rename_i hleaving
      split at hd'
      · exact .inl (.inr hd')
      · rcases hd' with ⟨k, hk⟩ | ⟨k, hk⟩
        · exact .inr ⟨(Doing.cleared.inj hk).1.symm, hleaving⟩
        · cases hk
  · split at hd'
    · rcases hd' with ⟨k, hk⟩ | ⟨k, hk⟩ <;> cases hk
    · exact .inl (.inr hd')

lemma mayPlay_update {l : Session} {n : VaultNode} {k q : UInt32} {r : NetResult Unit}
    (hk : l.Holds k) (h : (l.next (.vault (.updateNode n)) r).MayPlay q) : l.MayPlay q := by
  rcases h with hq | hd
  · exact .inl hq
  have hd' : (∃ k, l.doing.afterUpdate r = .cleared q k) ∨
      ∃ k, l.doing.afterUpdate r = .marked q k := hd
  rcases hk with ⟨p, hp⟩ | hp
  · rw [hp] at hd'
    cases r with
    | error err => rcases hd' with ⟨j, hj⟩ | ⟨j, hj⟩ <;> cases hj
    | ok u =>
      rcases hd' with ⟨j, hj⟩ | ⟨j, hj⟩
      · cases hj
      · cases hj
        exact .inr (.inl ⟨k, hp⟩)
  · rw [hp] at hd'
    cases r <;> rcases hd' with ⟨j, hj⟩ | ⟨j, hj⟩ <;> cases hj

end Session

/-! ### Runs -/

section Runs

variable {ι : Type} {X : Crates} {env : Env} {db : Backend}

/-- Whoever has a player logs in to the same account only, and ids are not given out twice. -/
def SameAccount (db : Backend) (ls : ι → Session) (i : ι) : WorkerCall → Prop
  | .own (.setAccountId accountId) =>
    (ls i).worker.playerId = none ∨ (ls i).worker.accountId = some accountId
  | .own _ => True
  | .vault m => FreshId db m

instance {ls : ι → Session} {i : ι} (c : WorkerCall) : Decidable (SameAccount db ls i c) :=
  match c with
  | .vault m => inferInstanceAs (Decidable (FreshId db m))
  | .own c => by
    apply @OwnCall.casesOn (fun c => Decidable (SameAccount db ls i (.own c))) c <;> intros <;>
      first | exact instDecidableTrue | exact instDecidableOr

/-- Workers have noted what is so, and play players of their accounts only. -/
structure Entitled (g : Graph) (ls : ι → Session × Noted) : Prop where
  own : g.Own
  held : ∀ i k, (ls i).1.Holds k → (g.infoAt k).isSome
  noted : ∀ i p a, (ls i).2 = some (p, a) → PlayerOf g p a
  plays : ∀ i p, (ls i).1.MayPlay p → ∃ a, (ls i).1.worker.accountId = some a ∧ PlayerOf g p a

namespace Entitled

variable [DecidableEq ι] {ls : ι → Session × Noted} {i : ι} {g g' : Graph} {l' : Session × Noted}

lemma update (h : Entitled g ls) (hg : g.Keeps g')
    (hplayers : ∀ p a, PlayerOf g p a → PlayerOf g' p a)
    (hheld : ∀ k, l'.1.Holds k → (g'.infoAt k).isSome)
    (hnoted : ∀ p a, l'.2 = some (p, a) → PlayerOf g' p a)
    (hplays : ∀ p, l'.1.MayPlay p → ∃ a, l'.1.worker.accountId = some a ∧ PlayerOf g' p a) :
    Entitled g' (Function.update ls i l') := by
  refine ⟨hg.own h.own, ?_, ?_, ?_⟩
  · refine (Function.forall_update_iff ls fun _ l => ∀ k, l.1.Holds k → (g'.infoAt k).isSome).2
      ⟨hheld, fun j _ k hk => hg.isSome (h.held j k hk)⟩
  · exact (Function.forall_update_iff ls fun _ l => ∀ p a, l.2 = some (p, a) → PlayerOf g' p a).2
      ⟨hnoted, fun j _ p a hj => hplayers p a (h.noted j p a hj)⟩
  · refine (Function.forall_update_iff ls fun _ l => ∀ p, l.1.MayPlay p →
      ∃ a, l.1.worker.accountId = some a ∧ PlayerOf g' p a).2 ⟨hplays, fun j _ p hj => ?_⟩
    obtain ⟨a, ha, hp⟩ := h.plays j p hj
    exact ⟨a, ha, hplayers p a hp⟩

lemma ownCall {c : OwnCall} (r : c.Reply) (h : Entitled db.graph ls)
    (hc : WorkerAsks (ls i).1.worker (ls i).1.doing (.own c))
    (hfine : SameAccount db (fun j => (ls j).1) i (.own c)) :
    Entitled db.graph (Function.update ls i ((ls i).1.next (.own c) r, (ls i).2)) := by
  refine h.update (.refl _) (fun _ _ => id)
    (fun k hk => h.held i k ((Session.weaker_own r hc).holds hk)) (h.noted i) fun p hp => ?_
  have hp' := Session.mayPlay_own r hc hp
  obtain ⟨a, ha, hplayer⟩ := h.plays i p hp'
  cases c with
  | setAccountId accountId =>
    rcases hfine with hnone | hsame
    · -- a handler of a login is not about to select a player
      exfalso
      generalize hd : (ls i).1.doing = d at hc
      cases hc with
      | setAccountId =>
        rcases hp' with hp' | ⟨k, hk⟩ | ⟨k, hk⟩
        · cases hnone.symm.trans hp'
        · cases hd.symm.trans hk
        · cases hd.symm.trans hk
      | talk hc => exact hc
    · exact ⟨accountId, rfl, Option.some.inj (ha.symm.trans hsame) ▸ hplayer⟩
  | _ => exact ⟨a, ha, hplayer⟩

lemma lookup {p : UInt32} {o : Outcome VaultNode} (h : Entitled db.graph ls)
    (hchecked : Checked (ls i).1 (ls i).2 (.vault (.getPlayerInfoNode p)))
    (ho : processVaultMessage X env (.getPlayerInfoNode p) db = some o) :
    Entitled o.db.graph (Function.update ls i
      ((ls i).1.next (.vault (.getPlayerInfoNode p)) o.reply, (ls i).2)) := by
  have hgraph : o.db.graph = db.graph := (processVaultMessage_graph X env ho).1
  rw [hgraph]
  refine h.update (.refl _) (fun _ _ => id)
    (fun k hk => Session.held_of_lookup h.own (h.held i) ho hk) (h.noted i) fun q hq => ?_
  rcases Session.mayPlay_playerInfo hq with hq | ⟨rfl, hconnected⟩
  · exact h.plays i q hq
  · rcases hchecked with hleaving | ⟨a, ha, hn⟩
    · exact absurd hleaving hconnected
    · exact ⟨a, ha, h.noted i q a hn⟩

lemma turn {k : UInt32} {online : Int32} {name : String} {u : Uuid} {o : Outcome Unit}
    (h : Entitled db.graph ls) (hk : (ls i).1.Holds k)
    (ho : processVaultMessage X env
      (.updateNode (VaultPlayerInfoNode.newUpdate k online name u)) db =
      some o) :
    Entitled o.db.graph (Function.update ls i ((ls i).1.next (.vault (.updateNode
      (VaultPlayerInfoNode.newUpdate k online name u))) o.reply, (ls i).2)) := by
  rw [(processVaultMessage_graph X env ho).1]
  have hplayers (p : UInt32) (a : Uuid) (hp : PlayerOf db.graph p a) :=
    hp.update (VaultPlayerInfoNode.newUpdate k online name u) (h.held i k hk)
  refine h.update (Graph.keeps_update ..) hplayers
    (fun j hj => absurd hj (Session.not_holds_update hk _ j))
    (fun p a hp => hplayers p a (h.noted i p a hp)) fun q hq => ?_
  obtain ⟨a, ha, hq⟩ := h.plays i q (Session.mayPlay_update hk hq)
  exact ⟨a, ha, hplayers q a hq⟩

lemma vault {m : VaultMessage} {o : Outcome m.Reply} (h : Entitled db.graph ls)
    (hm : WorkerAsks (ls i).1.worker (ls i).1.doing (.vault m))
    (hchecked : Checked (ls i).1 (ls i).2 (.vault m)) (hfine : FreshId db m)
    (ho : processVaultMessage X env m db = some o) :
    Entitled o.db.graph (Function.update ls i
      ((ls i).1.next (.vault m) o.reply, noteReply (ls i).2 (.vault m) o.reply)) := by
  have haside (hm' : Aside m) : Entitled o.db.graph (Function.update ls i
      ((ls i).1.next (.vault m) o.reply, noteReply (ls i).2 (.vault m) o.reply)) := by
    have hgrows := (grows_of_aside hm' hfine ho).keeps
    have hweaker := Session.weaker_vault o.reply hm' hm
    have hplayers (p : UInt32) (a : Uuid) (hp : PlayerOf db.graph p a) := hp.aside hm' hfine ho
    refine h.update hgrows hplayers (fun k hk => hgrows.isSome (h.held i k (hweaker.holds hk)))
      (fun p a hp => ?_) fun p hp => ?_
    · rcases noteReply_spec ho hp with hp | hp
      · exact hplayers p a (h.noted i p a hp)
      · exact hplayers p a hp
    · obtain ⟨a, ha, hplayer⟩ := h.plays i p (hweaker.mayPlay (.inl rfl) hp)
      exact ⟨a, ha, hplayers p a hplayer⟩
  generalize hd : (ls i).1.doing = d at hm
  cases hm with
  | checkOnline => exact h.lookup hchecked ho
  | findInfo hw => exact h.lookup hchecked ho
  | signIn => exact h.turn (.inl ⟨_, hd⟩) ho
  | signOut => exact h.turn (.inr hd) ho
  | look hm => cases m <;> first | exact haside trivial | exact hm.elim
  | _ => exact haside trivial

end Entitled

lemma entitled_initial (challenges : ι → UInt32) :
    Entitled initial.graph fun i => (Session.start (challenges i), none) := by
  refine ⟨fun k n hk => (sound_initial.own k n hk).1, ?_, nofun, ?_⟩
  · rintro i k (⟨q, hq⟩ | hk)
    · cases hq
    · cases hk
  · rintro i q (hq | ⟨k, hk⟩ | ⟨k, hk⟩)
    · cases hq
    · cases hk
    · cases hk

variable [DecidableEq ι]

lemma Entitled.step {ls : ι → Session × Noted} {i : ι} {v : World} {c : WorkerCall}
    {r : WorkerReply c} {l : Session} {db' : Backend} (h : Entitled db.graph ls)
    (hc : workerContract.may (ls i).1 c) (hchecked : Checked (ls i).1 (ls i).2 c)
    (hfine : SameAccount db (fun j => (ls j).1) i c)
    (hserve : serveWorkers X v c (ls i).1 db = some (r, l, db')) :
    workerContract.gives (ls i).1 c r l ∧
      Entitled db'.graph (Function.update ls i (l, noteReply (ls i).2 c r)) := by
  refine ⟨serveWorkers_gives hserve, ?_⟩
  cases c with
  | own c =>
    cases hserve
    exact h.ownCall _ hc hfine
  | vault m =>
    obtain ⟨o, ho, heq⟩ := Option.map_eq_some_iff.1 hserve
    cases heq
    exact h.vault hc hchecked hfine ho

/-- **Workers play players of their own accounts**, as long as no worker with a player logs in to
another account. -/
theorem player_of_account (sdl : SdlHost X) (config : ServerConfig) (challenges : ι → UInt32)
    (events : ι → List Event) {s : WorkerPool ι}
    (h : Runs (serveWorkers X) SameAccount (workerPool sdl config challenges events initial) s)
    (i : ι) (p : UInt32) (hp : (s.owns i).worker.playerId = some p) :
    ∃ a, (s.owns i).worker.accountId = some a ∧ PlayerOf s.server.graph p a := by
  have hchecks (j : ι) : (startWorker sdl config (events j)).Keeps
      (workerContract.noting noteReply Checked) (fun _ _ => True) (.start (challenges j), none) :=
    Worker.checks_startWorker (events j)
  obtain ⟨n, hn, -⟩ := h.keeps_noting (I := fun db ls => Entitled db.graph ls) (fun _ => none)
    (entitled_initial challenges) (fun _ => Worker.keeps_startWorker _ _) hchecks
    fun db ls i v c r l db' => Entitled.step
  exact hn.plays i p (.inl hp)

end Runs

/-! ### One account and two accounts -/

theorem rivals_player_of_account : ∃ s, Runs (serveWorkers smallCrates) SameAccount rivals s ∧
    (s.owns 0).worker.playerId = some 1003 ∧
    ∃ a, (s.owns 0).worker.accountId = some a ∧ PlayerOf s.server.graph 1003 a := by
  have hrun : ((rivals.replay (serveWorkers smallCrates) SameAccount (steps [(83, 0)])).map
      fun s => (s.owns 0).worker.playerId) = some (some 1003) := by
    decide +kernel
  obtain ⟨s, hs, hplayer⟩ := Option.map_eq_some_iff.1 hrun
  have hruns := Runs.start.replay hs
  exact ⟨s, hruns, hplayer, player_of_account _ _ _ _ hruns 0 1003 hplayer⟩

/-- A client that creates and selects a player, and logs in again with another name. -/
def renegade : WorkerPool Unit := smallPool fun _ =>
  [.message blankLogin, .message (.playerCreateRequest 2 "Yeesha" "female" ""),
    .message (.acctSetPlayerRequest 3 1003),
    .message (.acctLoginRequest 4 0 "esher" .zero "" "")]

/-- The other account gets another id. -/
def World.other : World :=
  { World.small with env := { Env.plain 0 with newV4 := fun _ => ⟨1, 0, 0, 0⟩ } }

theorem renegade_plays_other_account :
    ∃ s, Runs (serveWorkers smallCrates) (fun _ _ _ _ => True) renegade s ∧
      (s.owns ()).doing = .idle ∧ (s.owns ()).worker.playerId = some 1003 ∧
      ¬ ∃ a, (s.owns ()).worker.accountId = some a ∧ PlayerOf s.server.graph 1003 a := by
  have hrun : ((renegade.replay (serveWorkers smallCrates) (fun _ _ _ _ => True)
      (steps [(83, ())] ++ List.replicate 8 ((), World.other))).map fun s =>
        ((s.owns ()).doing.ctorIdx, (s.owns ()).worker.playerId, (s.owns ()).worker.accountId,
          (s.server.vault.lookup 1003).map VaultPlayerNode.accountId)) =
            some (Doing.idle.ctorIdx, some 1003, some ⟨1, 0, 0, 0⟩, some Uuid.nil) := by
    decide +kernel
  obtain ⟨s, hs, heq⟩ := Option.map_eq_some_iff.1 hrun
  obtain ⟨hidle, heq⟩ := Prod.mk.inj heq
  obtain ⟨hplayer, heq⟩ := Prod.mk.inj heq
  obtain ⟨haccount, hnode⟩ := Prod.mk.inj heq
  refine ⟨s, Runs.start.replay hs, Doing.eq_idle hidle, hplayer, ?_⟩
  rintro ⟨a, ha, n, hn, -, hna⟩
  have hlookup : s.server.vault.lookup 1003 = some n := hn
  rw [hlookup, Option.map_some, hna, Option.some.injEq] at hnode
  rw [haccount, Option.some.injEq, hnode] at ha
  revert ha
  decide

end Moulars.Auth
