import Moulars.Auth.Sessions

/-!
Connections on which nobody has logged in.

Creating and selecting players takes a login. Three messages that write to the vault do not:
`VaultNodeCreate`, `VaultNodeAdd` and `VaultInitAgeRequest`. As long as none of them has
anything to write, the vault stays as it is.
-/

namespace Moulars.Auth

open Lib.Clients Lib.Hash Hashes Vault

structure Unchanged (db db' : Backend) : Prop where
  nodes : db'.vault = db.vault
  refs : db'.nodeRefs = db.nodeRefs
  players : db'.players = db.players
  gameServers : db'.gameServers = db.gameServers

lemma Unchanged.refl (db : Backend) : Unchanged db db := ⟨rfl, rfl, rfl, rfl⟩

lemma Unchanged.trans {db db' db'' : Backend} (h : Unchanged db db') (h' : Unchanged db' db'') :
    Unchanged db db'' :=
  ⟨h'.nodes.trans h.nodes, h'.refs.trans h.refs, h'.players.trans h.players,
    h'.gameServers.trans h.gameServers⟩

/-- A message that finds nothing to write: the node cannot be read, the reference or the age is
already there, or it is not one of the three that write without a login. -/
def Harmless (db : Backend) : CliToAuth → Prop
  | .vaultNodeCreate _ nodeBuffer => (VaultNode.fromBlob nodeBuffer).toOption = none
  | .vaultNodeAdd _ parentId childId ownerId =>
      (⟨parentId, childId, ownerId⟩ : NodeRef) ∈ db.nodeRefs
  | .vaultInitAgeRequest _ ageInstanceId .. => db.idsFor .age ageInstanceId ≠ []
  | _ => True

instance (db : Backend) (message : CliToAuth) : Decidable (Harmless db message) := by
  cases message <;> unfold Harmless <;> infer_instance

/-- No login succeeds. -/
def StaysOut {ι : Type} (_ : Backend) (_ : ι → Session) (_ : ι) : WorkerCall → Prop
  | .own (.setAccountId _) => False
  | _ => True

/-- No login succeeds, and only harmless messages are received. -/
def StaysHarmless {ι : Type} (db : Backend) (_ : ι → Session) (_ : ι) : WorkerCall → Prop
  | .own (.setAccountId _) => False
  | .own (.receive message) => Harmless db message
  | _ => True

section Decisions

variable {ι : Type} (db : Backend) (ls : ι → Session) (i : ι) (c : WorkerCall)

instance : Decidable (StaysOut db ls i c) := by
  unfold StaysOut
  split <;> infer_instance

instance : Decidable (StaysHarmless db ls i c) := by
  unfold StaysHarmless
  split <;> infer_instance

end Decisions

section Steps

variable {X : Crates} {env : Env} {db : Backend}

lemma unchanged_of_looks {m : VaultMessage} {o : Outcome m.Reply} (hm : Looks m)
    (h : processVaultMessage X env m db = some o) : Unchanged db o.db := by
  cases m with
  | getAccount accountName =>
    cases h
    simp only [DbMemory.getAccount]
    split <;> exact ⟨rfl, rfl, rfl, rfl⟩
  | fetchRefs parent recursive =>
    obtain ⟨refs, -, rfl⟩ := Option.map_eq_some_iff.1 h
    exact .refl db
  | getPlayers | fetchNode | getSystemNode | getAllPlayersNode =>
    cases h
    exact .refl db
  | _ => exact hm.elim

/-- What a worker without a login can be doing as long as its messages are harmless. -/
def Innocent (db : Backend) : Doing → Prop
  | .idle => True
  | .handling message => Harmless db message
  | .leaving => True
  | .gone => True
  | _ => False

lemma Innocent.not_builds {d : Doing} (h : Innocent db d) : ¬ d.Builds := by
  cases d <;> first | exact id | exact h.elim

lemma innocent_afterOwn {w : AuthServerWorker} {d : Doing} {c : OwnCall} (hd : Innocent db d)
    (hc : WorkerAsks w d (.own c))
    (hreceive : ∀ message, c = .receive message → Harmless db message) :
    Innocent db (d.afterOwn c) := by
  cases hc with
  | receive message => exact hreceive message rfl
  | setAccountId => exact hd
  | setPlayerId => exact hd.elim
  | talk hc => cases c <;> first | exact hd | exact hc.elim
  | _ => exact trivial

lemma findNodes_ne_nil {u : Uuid} {o : Outcome (List UInt32)} (hu : db.idsFor .age u ≠ [])
    (h : processVaultMessage X env (.findNodes (VaultAgeNode.newLookup (some u))) db = some o) :
    ∃ ageId ages, o.reply = .ok (ageId :: ages) := by
  obtain ⟨ids, hids, hperm⟩ := @findNodes_lookupFor X env .age u db
  cases h
  cases ids with
  | nil => exact absurd (List.nil_perm.1 hperm) hu
  | cons ageId ages => exact ⟨ageId, ages, hids⟩

lemma unchanged_vault {w : AuthServerWorker} {d : Doing} {m : VaultMessage} {o : Outcome m.Reply}
    (haccount : w.accountId = none) (hplayer : w.playerId = none) (hd : Innocent db d)
    (hm : WorkerAsks w d (.vault m)) (h : processVaultMessage X env m db = some o) :
    Unchanged db o.db ∧ Innocent db (d.afterVault m o.reply) := by
  cases hm with
  | look hm =>
    refine ⟨unchanged_of_looks hm h, ?_⟩
    cases m <;> first | exact hd | exact hm.elim
  | @findNodes transId nodeBuffer template =>
    cases h
    have hstay (r : NetResult (List UInt32)) :
        Innocent db
          (Doing.afterFind (.handling (.vaultNodeFind transId nodeBuffer)) template r) := by
      match r with
      | .error _ => exact trivial
      | .ok [] => exact trivial
      | .ok (_ :: _) => exact trivial
    exact ⟨.refl db, hstay _⟩
  | findAge =>
    obtain ⟨ageId, ages, hreply⟩ := findNodes_ne_nil hd h
    rw [hreply]
    cases h
    exact ⟨.refl db, hd⟩
  | findAgeInfo =>
    rw [Doing.afterVault_findAgeInfo]
    cases h
    exact ⟨.refl db, hd⟩
  | createPlayer _ _ hw => cases haccount.symm.trans hw
  | createNode hbuilds => exact absurd hbuilds hd.not_builds
  | vaultNodeCreate hnode =>
    have hnone : (VaultNode.fromBlob _).toOption = none := hd
    rw [hnode] at hnone
    cases hnone
  | refNode _ _ _ _ hbuilds => exact absurd hbuilds hd.not_builds
  | @vaultNodeAdd transId parent child owner =>
    have hmem : (⟨parent, child, owner⟩ : NodeRef) ∈ db.nodeRefs := hd
    cases h
    exact ⟨⟨rfl, if_pos hmem, rfl, rfl⟩, hd⟩
  | addGameServer _ hbuilds => exact absurd hbuilds hd.not_builds
  | checkOnline hw => cases haccount.symm.trans hw
  | findInfo hw => cases hplayer.symm.trans hw
  | _ => exact hd.elim

end Steps

structure Session.Outside (db : Backend) (l : Session) : Prop where
  account : l.worker.accountId = none
  player : l.worker.playerId = none
  doing : Innocent db l.doing

lemma Harmless.congr {db db' : Backend} (h : Unchanged db db') {message : CliToAuth} :
    Harmless db' message ↔ Harmless db message := by
  cases message with
  | vaultNodeAdd => simp only [Harmless, h.refs]
  | vaultInitAgeRequest => simp only [Harmless, Backend.idsFor, h.nodes]
  | _ => exact Iff.rfl

lemma Innocent.congr {db db' : Backend} (h : Unchanged db db') {d : Doing} (hd : Innocent db d) :
    Innocent db' d := by
  cases d with
  | handling message => exact (Harmless.congr h).2 hd
  | _ => exact hd

lemma Session.Outside.own {db : Backend} {l : Session} {c : OwnCall} {r : c.Reply}
    (h : l.Outside db) (hc : WorkerAsks l.worker l.doing (.own c))
    (hlogin : ∀ accountId, c ≠ .setAccountId accountId)
    (hreceive : ∀ message, c = .receive message → Harmless db message) :
    (l.next (.own c) r).Outside db := by
  obtain ⟨w, d⟩ := l
  refine ⟨?_, ?_, innocent_afterOwn h.doing hc hreceive⟩
  · cases c with
    | setAccountId accountId => exact absurd rfl (hlogin accountId)
    | _ => exact h.account
  · cases hc with
    | setPlayerId => exact h.doing.elim
    | talk hc => cases c <;> first | exact h.player | exact hc.elim
    | _ => exact h.player

section Runs

variable {ι : Type} [DecidableEq ι]

/-- **Without a login and with harmless messages only, nothing in the vault changes**, however
many connections there are and whatever else they send. -/
theorem loggedOut_unchanged {X : Crates} (sdl : SdlHost X) (config : ServerConfig)
    (challenges : ι → UInt32) (events : ι → List Event) (db : Backend) {p : WorkerPool ι}
    (h : Runs (serveWorkers X) StaysHarmless (workerPool sdl config challenges events db) p) :
    Unchanged db p.server := by
  refine (runs_keep (I := fun db' ls => Unchanged db db' ∧ ∀ i, (ls i).Outside db') h
    ⟨.refl db, fun _ => ⟨rfl, rfl, trivial⟩⟩ ?_ ?_).1
  · rintro s ls i c r ⟨hs, hls⟩ hc hfine
    refine ⟨hs, (Function.forall_update_iff ls _).2 ⟨(hls i).own hc ?_ ?_, fun j _ => hls j⟩⟩
    · rintro accountId rfl
      exact hfine
    · rintro message rfl
      exact hfine
  · rintro s ls i env m o ⟨hs, hls⟩ hm - ho
    obtain ⟨hsame, hdoing⟩ := unchanged_vault (hls i).account (hls i).player (hls i).doing hm ho
    refine ⟨hs.trans hsame, (Function.forall_update_iff ls _).2
      ⟨⟨(hls i).account, (hls i).player, hdoing.congr hsame⟩, fun j _ => ?_⟩⟩
    exact ⟨(hls j).account, (hls j).player, (hls j).doing.congr hsame⟩

end Runs

/-- A vault with an age in it. -/
def ageVault : Backend :=
  (DbMemory.createNode (VaultAgeNode.new .nil .nil "city") initial).2

/-- A client that asks for a player, sends the three messages that write, when there is nothing to
write, and leaves. -/
def visitor : WorkerPool Unit := workerPool smallSdl ⟨0, [], false⟩ (fun _ => 0)
  (fun _ => [.message (.acctSetPlayerRequest 1 1003), .message (.vaultNodeCreate 2 []),
    .message (.vaultNodeAdd 3 1000 1001 0),
    .message (.vaultInitAgeRequest 4 .nil .nil "city" "" "" "" 0 0), .readError]) ageVault

theorem visitor_unchanged : ∃ p, Runs (serveWorkers smallCrates) StaysHarmless visitor p ∧
    (p.owns ()).doing = .gone ∧ Unchanged ageVault p.server := by
  have hrun : ((visitor.replay (serveWorkers smallCrates) StaysHarmless
      (steps [(21, ())])).map fun p => (p.owns ()).doing.ctorIdx) =
        some Doing.gone.ctorIdx := by
    decide +kernel
  obtain ⟨p, hp, hgone⟩ := Option.map_eq_some_iff.1 hrun
  have hruns := Runs.start.replay hp
  exact ⟨p, hruns, Doing.eq_gone hgone, loggedOut_unchanged _ _ _ _ _ hruns⟩

/-- A client that makes the list of all players a child of the system node. -/
def intruder : WorkerPool Unit := smallPool fun _ => [.message (.vaultNodeAdd 1 1000 1002 0)]

theorem intruder_changes_vault : ∃ p, Runs (serveWorkers smallCrates) StaysOut intruder p ∧
    (p.owns ()).worker.accountId = none ∧ ¬ Unchanged initial p.server := by
  have hrun : ((intruder.replay (serveWorkers smallCrates) StaysOut
      (steps [(4, ())])).map fun p =>
        ((p.owns ()).worker.accountId, decide ((⟨1000, 1002, 0⟩ : NodeRef) ∈ p.server.nodeRefs))) =
          some (none, true) := by
    decide +kernel
  obtain ⟨p, hp, heq⟩ := Option.map_eq_some_iff.1 hrun
  obtain ⟨haccount, href⟩ := Prod.mk.inj heq
  refine ⟨p, Runs.start.replay hp, haccount, fun h => ?_⟩
  rw [decide_eq_true_eq, h.refs] at href
  revert href
  decide

end Moulars.Auth
