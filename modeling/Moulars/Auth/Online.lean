import Moulars.Auth.Selection

/-!
Players that are online, and the workers that answer for them.

Selecting a player sets its flag in the vault and a field of its worker; the end of a connection
clears the flag of the player in the field. A worker that selects a second player forgets the first
one, whose flag stays.
-/

namespace Moulars.Auth

open Lib.Clients Lib.Hash Hashes Vault

/-- The messages with which clients come to their players. -/
def PlayerMessage : CliToAuth → Prop
  | .acctLoginRequest .. => True
  | .playerCreateRequest .. => True
  | .acctSetPlayerRequest .. => True
  | _ => False

instance (message : CliToAuth) : Decidable (PlayerMessage message) := by
  apply @CliToAuth.casesOn (fun message => Decidable (PlayerMessage message)) message <;> intros <;>
    first | exact instDecidableTrue | exact instDecidableFalse

section Conditions

variable {ι : Type}

/-- Only these messages are received. -/
def PlayersOnly (_ : Backend) (_ : ι → Session) (_ : ι) : WorkerCall → Prop
  | .own (.receive message) => PlayerMessage message
  | _ => True

/-- Only these messages are received, no worker sets a player online while it has another one,
and ids are not given out twice. -/
def KeepsPlayer (db : Backend) (ls : ι → Session) (i : ι) : WorkerCall → Prop
  | .own (.receive message) => PlayerMessage message
  | .own _ => True
  | .vault (.updateNode _) => match (ls i).doing with
    | .cleared p _ => (ls i).worker.playerId = none ∨ (ls i).worker.playerId = some p
    | _ => True
  | .vault m => FreshId db m

variable (db : Backend) (ls : ι → Session) (i : ι) (c : WorkerCall)

instance : Decidable (PlayersOnly db ls i c) :=
  match c with
  | .vault _ => instDecidableTrue
  | .own c => by
    apply @OwnCall.casesOn (fun c => Decidable (PlayersOnly db ls i (.own c))) c <;> intros <;>
      first | exact instDecidableTrue | exact instDecidablePlayerMessage _

/-- The case of `KeepsPlayer` that looks at what the worker is doing. -/
instance decidableOwnMark (w : AuthServerWorker) (d : Doing) : Decidable (match d with
    | .cleared p _ => w.playerId = none ∨ w.playerId = some p
    | _ => True) := by
  apply @Doing.casesOn (fun d => Decidable (match d with
    | .cleared p _ => w.playerId = none ∨ w.playerId = some p
    | _ => True)) d <;> intros <;> dsimp only <;> infer_instance

instance : Decidable (KeepsPlayer db ls i c) :=
  match c with
  | .own c => by
    apply @OwnCall.casesOn (fun c => Decidable (KeepsPlayer db ls i (.own c))) c <;> intros <;>
      first | exact instDecidableTrue | exact instDecidablePlayerMessage _
  | .vault m => by
    apply @VaultMessage.casesOn (fun m => Decidable (KeepsPlayer db ls i (.vault m))) m <;>
      intros <;> first
        | exact instDecidableTrue
        | exact decidableOwnMark (ls i).worker (ls i).doing
        | exact (inferInstance : Decidable (db.vault.lookup db.nodeIndex = none))

end Conditions

/-! ### The invariant -/

/-- There is no player that the worker is in the course of creating, selecting or leaving. -/
def Doing.Free : Doing → Prop
  | .handling message => PlayerMessage message
  | .enrolled _ => False
  | .cleared .. => False
  | .marked .. => False
  | .found _ => False
  | _ => True

lemma Session.playerId_of_settled {w : AuthServerWorker} {d : Doing} {p : UInt32}
    (hd : d.Settled) (h : Session.Has ⟨w, d⟩ p) : w.playerId = some p := by
  rcases h with ⟨hp, -⟩ | ⟨k, rfl⟩
  · exact hp
  · exact hd.elim

/-- What a worker knows of its players is in the vault. -/
structure Session.Fits (g : Graph) (l : Session) : Prop where
  message : ∀ message, l.doing = .handling message → PlayerMessage message
  enrolled : ∀ p, l.doing = .enrolled p → p ∈ g.nodes ∧ ∀ k b, g.infoAt k ≠ some (p, b)
  cleared : ∀ p k, l.doing = .cleared p k → g.Child p k ∧ ∃ b, g.infoAt k = some (p, b)
  marked : ∀ p k, l.doing = .marked p k → l.worker.playerId = none ∨ l.worker.playerId = some p
  found : ∀ k, l.doing = .found k → ∃ p b, l.worker.playerId = some p ∧ g.infoAt k = some (p, b)
  player : ∀ p, l.Has p → ∃ k b, g.Child p k ∧ g.infoAt k = some (p, b)

/-- Every player has at most one info node, and a player that is online has a worker. -/
structure Tracked {ι : Type} (g : Graph) (ls : ι → Session) : Prop where
  own : g.Own
  known : ∀ k p b, g.infoAt k = some (p, b) → p ∈ g.nodes
  single : ∀ k k' p b b', g.infoAt k = some (p, b) → g.infoAt k' = some (p, b') → k = k'
  online : ∀ k p, g.infoAt k = some (p, true) → g.Child p k ∧ ∃ i, (ls i).Has p
  fits : ∀ i, (ls i).Fits g
  apart : ∀ i j p, (ls i).doing = .enrolled p → (ls j).doing = .enrolled p → i = j

lemma Session.Fits.mono {g g' : Graph} {l : Session} (h : l.Fits g) (hg : g.Keeps g')
    (hnone : ∀ p, l.doing = .enrolled p → ∀ k b, g'.infoAt k ≠ some (p, b)) : l.Fits g' where
  message := h.message
  enrolled p hp := ⟨hg.nodes p (h.enrolled p hp).1, hnone p hp⟩
  cleared p k hk := by
    obtain ⟨hchild, b, hb⟩ := h.cleared p k hk
    exact ⟨hg.child p k hchild, hg.info k p b hb⟩
  marked := h.marked
  found k hk := by
    obtain ⟨p, b, hp, hb⟩ := h.found k hk
    obtain ⟨b', hb'⟩ := hg.info k p b hb
    exact ⟨p, b', hp, hb'⟩
  player p hp := by
    obtain ⟨k, b, hchild, hb⟩ := h.player p hp
    obtain ⟨b', hb'⟩ := hg.info k p b hb
    exact ⟨k, b', hg.child p k hchild, hb'⟩

namespace Tracked

variable {ι : Type} {g g' : Graph} {ls : ι → Session} {i : ι} {p k : UInt32} {l' : Session}

/-! #### Steps of the vault -/

lemma same (h : Tracked g ls) (hg : g.Grows g') (hinfo : ∀ k, g'.infoAt k = g.infoAt k) :
    Tracked g' ls where
  own := hg.own h.own
  known k p b hk := hg.nodes p (h.known k p b (hinfo k ▸ hk))
  single k k' p b b' hk hk' := h.single k k' p b b' (hinfo k ▸ hk) (hinfo k' ▸ hk')
  online k p hk := by
    obtain ⟨hchild, howner⟩ := h.online k p (hinfo k ▸ hk)
    exact ⟨hg.child p k hchild, howner⟩
  fits i := (h.fits i).mono hg.keeps fun p hp k b => hinfo k ▸ ((h.fits i).enrolled p hp).2 k b
  apart := h.apart

lemma addInfo (h : Tracked g ls) {node : VaultNode} (hnode : node.info = some (p, false))
    (hfree : g.nodes.lookup g.next = none) (hp : p ∈ g.nodes)
    (hnone : ∀ k b, g.infoAt k ≠ some (p, b)) (hnobody : ∀ i, (ls i).doing ≠ .enrolled p) :
    Tracked (g.apply (.create node)) ls := by
  have hcases (k q : UInt32) (b : Bool) (hk : (g.apply (.create node)).infoAt k = some (q, b)) :
      (k = g.next ∧ q = p ∧ b = false) ∨ g.infoAt k = some (q, b) := by
    rw [Graph.infoAt_create] at hk
    split at hk
    · rw [hnode] at hk
      cases hk
      exact .inl ⟨‹_›, rfl, rfl⟩
    · exact .inr hk
  have hg := Graph.grows_create node hfree
  refine ⟨hg.own h.own, fun k q b hk => ?_, fun k k' q b b' hk hk' => ?_, fun k q hk => ?_,
    fun i => (h.fits i).mono hg.keeps fun q hq k b hk => ?_, h.apart⟩
  · rcases hcases k q b hk with ⟨-, rfl, -⟩ | hold
    · exact hg.nodes q hp
    · exact hg.nodes q (h.known k q b hold)
  · rcases hcases k q b hk with ⟨rfl, rfl, -⟩ | hold
    · rcases hcases k' q b' hk' with ⟨rfl, -, -⟩ | hold'
      · rfl
      · exact absurd hold' (hnone k' b')
    · rcases hcases k' q b' hk' with ⟨-, rfl, -⟩ | hold'
      · exact absurd hold (hnone k b)
      · exact h.single k k' q b b' hold hold'
  · rcases hcases k q true hk with ⟨-, -, hb⟩ | hold
    · cases hb
    · obtain ⟨hchild, howner⟩ := h.online k q hold
      exact ⟨hg.child q k hchild, howner⟩
  · rcases hcases k q b hk with ⟨-, rfl, -⟩ | hold
    · exact hnobody i hq
    · exact ((h.fits i).enrolled q hq).2 k b hold

lemma flag (h : Tracked g ls) {o : Int32} {name : String} {u : Uuid}
    (howner : ∀ p b, g.infoAt k = some (p, b) → o ≠ 0 → g.Child p k ∧ ∃ i, (ls i).Has p) :
    Tracked (g.apply (.update (VaultPlayerInfoNode.newUpdate k o name u))) ls := by
  have hcases (j q : UInt32) (b : Bool)
      (hj : (g.apply (.update (VaultPlayerInfoNode.newUpdate k o name u))).infoAt j = some (q, b)) :
      ∃ b', g.infoAt j = some (q, b') ∧ (j = k ∧ b = decide (o ≠ 0) ∨ b = b') := by
    rw [Graph.infoAt_update] at hj
    split at hj
    · rename_i hjk
      obtain ⟨⟨q', b'⟩, hk, heq⟩ := Option.map_eq_some_iff.1 hj
      cases heq
      exact ⟨b', hjk ▸ hk, .inl ⟨hjk, rfl⟩⟩
    · exact ⟨b, hj, .inr rfl⟩
  have hg := g.keeps_update k o name u
  refine ⟨hg.own h.own, fun j q b hj => ?_, fun j j' q b b' hj hj' => ?_, fun j q hj => ?_,
    fun i => (h.fits i).mono hg fun q hq j b hj => ?_, h.apart⟩
  · obtain ⟨b', hold, -⟩ := hcases j q b hj
    exact hg.nodes q (h.known j q b' hold)
  · obtain ⟨c, hold, -⟩ := hcases j q b hj
    obtain ⟨c', hold', -⟩ := hcases j' q b' hj'
    exact h.single j j' q c c' hold hold'
  · obtain ⟨b', hold, ⟨rfl, ho⟩ | rfl⟩ := hcases j q true hj
    · obtain ⟨hchild, howner⟩ := howner q b' hold (of_decide_eq_true ho.symm)
      exact ⟨hg.child q j hchild, howner⟩
    · obtain ⟨hchild, howner⟩ := h.online j q hold
      exact ⟨hg.child q j hchild, howner⟩
  · obtain ⟨b', hold, -⟩ := hcases j q b hj
    exact ((h.fits i).enrolled q hq).2 j b' hold

/-! #### Steps of a worker -/

variable [DecidableEq ι]

lemma session (h : Tracked g ls) (hfits : l'.Fits g)
    (hapart : ∀ p j, l'.doing = .enrolled p → (ls j).doing = .enrolled p → j = i)
    (hhas : ∀ p k, (ls i).Has p → g.infoAt k = some (p, true) → l'.Has p) :
    Tracked g (Function.update ls i l') := by
  refine ⟨h.own, h.known, h.single, fun k p hk => ?_,
    (Function.forall_update_iff ls fun _ l => l.Fits g).2 ⟨hfits, fun j _ => h.fits j⟩,
    fun j j' p hj hj' => ?_⟩
  · obtain ⟨hchild, j, hj⟩ := h.online k p hk
    refine ⟨hchild, j, ?_⟩
    by_cases hji : j = i
    · subst hji
      rw [Function.update_self]
      exact hhas p k hj hk
    · rwa [Function.update_of_ne hji]
  · by_cases hji : j = i
    · subst hji
      rw [Function.update_self] at hj
      by_cases hji' : j' = j
      · exact hji'.symm
      · rw [Function.update_of_ne hji'] at hj'
        exact (hapart p j' hj hj').symm
    · rw [Function.update_of_ne hji] at hj
      by_cases hji' : j' = i
      · subst hji'
        rw [Function.update_self] at hj'
        exact hapart p j hj' hj
      · rw [Function.update_of_ne hji'] at hj'
        exact h.apart j j' p hj hj'

lemma goOn (h : Tracked g ls) (hd : l'.doing.Free) (hl : l'.Weaker (ls i))
    (hhas : ∀ p, (ls i).Has p → l'.Has p) : Tracked g (Function.update ls i l') := by
  obtain ⟨w, d⟩ := l'
  refine h.session ⟨?_, ?_, ?_, ?_, ?_, fun p hp => (h.fits i).player p (hl.has p hp)⟩ ?_
    fun p _ hp _ => hhas p hp
  · rintro message rfl
    exact hd
  · rintro p rfl
    exact hd.elim
  · rintro p k rfl
    exact hd.elim
  · rintro p k rfl
    exact hd.elim
  · rintro k rfl
    exact hd.elim
  · rintro p j rfl
    exact hd.elim

lemma ownCall {c : OwnCall} (h : Tracked g ls) (r : c.Reply)
    (hc : WorkerAsks (ls i).worker (ls i).doing (.own c))
    (hreceive : ∀ message, c = .receive message → PlayerMessage message) :
    Tracked g (Function.update ls i ((ls i).next (.own c) r)) := by
  have hweaker := Session.weaker_own r hc
  have hfits := h.fits i
  generalize hl : ls i = l at hc hweaker hfits
  obtain ⟨w, d⟩ := l
  have hgo (hd : (d.afterOwn c).Free)
      (hhas : ∀ p, Session.Has ⟨w, d⟩ p → Session.Has ⟨w.after (.own c), d.afterOwn c⟩ p) :
      Tracked g (Function.update ls i ⟨w.after (.own c), d.afterOwn c⟩) :=
    h.goOn hd (hl ▸ hweaker) (hl ▸ hhas)
  cases hc with
  | wait hd =>
    refine hgo trivial fun p hp => ?_
    exact .inl ⟨Session.playerId_of_settled (w := w) hd hp, id⟩
  | receive message =>
    refine hgo (hreceive message rfl) fun p hp => ?_
    exact .inl ⟨Session.playerId_of_settled (w := w) (d := .idle) trivial hp, id⟩
  | drop hd =>
    refine hgo trivial fun p hp => ?_
    exact .inl ⟨Session.playerId_of_settled (w := w) hd hp, id⟩
  | exitNoPlayer hw =>
    refine hgo trivial fun p hp => ?_
    rcases hp with ⟨hp, -⟩ | ⟨k, hk⟩
    · cases hw.symm.trans hp
    · cases hk
  | exitLost | exitGone =>
    refine hgo trivial fun p hp => ?_
    rcases hp with ⟨-, hp⟩ | ⟨k, hk⟩
    · exact absurd trivial hp
    · cases hk
  | @setAccountId message accountId =>
    refine hgo (hfits.message message rfl) fun p hp => ?_
    exact .inl ⟨Session.playerId_of_settled (w := w) (d := .handling message) trivial hp, id⟩
  | @setPlayerId p k =>
    refine hgo trivial fun q hq => ?_
    rcases hq with ⟨hq, -⟩ | ⟨k', hk'⟩
    · -- the worker had no other player
      have hsame : some p = some q := by
        rcases hfits.marked p k rfl with hnone | hp
        · cases hnone.symm.trans hq
        · exact hp.symm.trans hq
      exact .inl ⟨hsame, id⟩
    · cases hk'
      exact .inl ⟨rfl, id⟩
  | talk hc =>
    have hstays : Session.next ⟨w, d⟩ (.own c) r = ls i := by
      rw [hl]
      cases c <;> first | rfl | exact hc.elim
    rw [hstays, Function.update_eq_self]
    exact h

section Requests

variable {X : Crates} {env : Env} {db : Backend}

lemma stays {m : VaultMessage} {r : VaultReply m} (h : Tracked g ls) (hg : g.Grows g')
    (hinfo : ∀ k, g'.infoAt k = g.infoAt k) (hl : (ls i).next (.vault m) r = ls i) :
    Tracked g' (Function.update ls i ((ls i).next (.vault m) r)) := by
  rw [hl, Function.update_eq_self]
  exact h.same hg hinfo

lemma createPlayer {message : CliToAuth} {accountId : Uuid} {playerName avatarShape : String}
    {o : Outcome PlayerInfo} (h : Tracked db.graph ls) (hd : (ls i).doing = .handling message)
    (hfree : db.vault.lookup db.nodeIndex = none)
    (ho : processVaultMessage X env (.createPlayer accountId playerName avatarShape) db = some o) :
    Tracked o.db.graph (Function.update ls i
      ((ls i).next (.vault (.createPlayer accountId playerName avatarShape)) o.reply)) := by
  cases hreply : o.reply with
  | error err =>
    rcases createPlayer_graph ho with heq | ⟨node, hnode, heq⟩
    · exact heq ▸ h.stays (.refl _) (fun _ => rfl) rfl
    · exact heq ▸ h.stays (Graph.grows_create node hfree)
        (Graph.infoAt_create_of_none hnode hfree) rfl
  | ok player =>
    obtain ⟨hid, hgraph⟩ := createPlayer_ok hreply ho
    have hnext : db.graph.next ∉ db.graph.nodes := AList.lookup_eq_none.1 hfree
    have hinfo := Graph.infoAt_create_of_none (g := db.graph)
      (VaultPlayerNode.info_new accountId playerName avatarShape 1) hfree
    have hsame := h.same (Graph.grows_create _ hfree) hinfo
    rw [hgraph]
    simp only [Session.next, Doing.afterVault, hid]
    refine hsame.session ⟨by simp, ?_, by simp, by simp, by simp, fun p hp => ?_⟩ ?_
      fun p k hp _ => hp.carry rfl (by simp [hd]) id
    · -- the id is new, so that there can be no info node for it
      rintro p ⟨⟩
      refine ⟨(AList.mem_insert _).2 (.inl rfl), fun k b hk => hnext ?_⟩
      exact h.known k _ b (hinfo k ▸ hk)
    · exact (hsame.fits i).player p (hp.carry rfl (by simp) (hd ▸ id))
    · rintro p j ⟨⟩ hj
      exact absurd ((h.fits j).enrolled _ hj).1 hnext

lemma createInfo {accountId : Uuid} {playerName : String} {o : Outcome UInt32}
    (h : Tracked db.graph ls) (hd : (ls i).doing = .enrolled p)
    (hfree : db.vault.lookup db.nodeIndex = none)
    (ho : processVaultMessage X env (.createNode (VaultPlayerInfoNode.new accountId p playerName))
      db = some o) :
    Tracked o.db.graph (Function.update ls i ((ls i).next
      (.vault (.createNode (VaultPlayerInfoNode.new accountId p playerName))) o.reply)) := by
  have hgraph := (processVaultMessage_graph X env ho).1
  obtain ⟨hp, hnone⟩ := (h.fits i).enrolled p hd
  rw [createNode_ok hfree ho, hgraph]
  simp only [Session.next, Doing.afterVault, hd, Doing.afterCreateNode]
  have hsession : Tracked db.graph (Function.update ls i ⟨(ls i).worker, .furnishing⟩) := by
    exact h.goOn trivial (Session.weaker_of_settled rfl (hd ▸ id) trivial)
      fun q hq => hq.carry rfl (by simp [hd]) id
  refine hsession.addInfo (VaultPlayerInfoNode.info_new ..) hfree hp hnone fun j hj => ?_
  by_cases hji : j = i
  · subst hji
    rw [Function.update_self] at hj
    cases hj
  · rw [Function.update_of_ne hji] at hj
    exact hji (h.apart j i p hj hd)

lemma checkOnline {transId : UInt32} {o : Outcome VaultNode} (h : Tracked db.graph ls)
    (hd : (ls i).doing = .handling (.acctSetPlayerRequest transId p))
    (ho : processVaultMessage X env (.getPlayerInfoNode p) db = some o) :
    Tracked o.db.graph
      (Function.update ls i ((ls i).next (.vault (.getPlayerInfoNode p)) o.reply)) := by
  have hspec := getPlayerInfoNode_spec h.own ho
  have hgraph : o.db.graph = db.graph := (processVaultMessage_graph X env ho).1
  have hstays : Tracked db.graph (Function.update ls i ⟨(ls i).worker, (ls i).doing⟩) := by
    rw [Function.update_eq_self]
    exact h
  rw [hgraph]
  simp only [Session.next, Doing.afterVault]
  cases hreply : o.reply with
  | error err =>
    simp only [hd, Doing.afterPlayerInfo] at hstays ⊢
    exact hstays
  | ok n =>
    rw [hreply] at hspec
    obtain ⟨hchild, hinfo⟩ := hspec
    by_cases honline : VaultPlayerInfoNode.online n ≠ 0
    · simp only [hd, Doing.afterPlayerInfo, if_pos honline] at hstays ⊢
      exact hstays
    · simp only [hd, Doing.afterPlayerInfo, if_neg honline]
      refine h.session ⟨by simp, by simp, ?_, by simp, by simp, fun q hq => ?_⟩ (by simp)
        fun q k hq _ => hq.carry rfl (by simp [hd]) id
      · rintro q k ⟨⟩
        exact ⟨hchild, _, hinfo⟩
      · exact (h.fits i).player q (hq.carry rfl (by simp) (hd ▸ id))

lemma signIn {name : String} {u : Uuid} (h : Tracked g ls) (hd : (ls i).doing = .cleared p k)
    (hplayer : (ls i).worker.playerId = none ∨ (ls i).worker.playerId = some p) :
    Tracked (g.apply (.update (VaultPlayerInfoNode.newUpdate k 1 name u)))
      (Function.update ls i ⟨(ls i).worker, .marked p k⟩) := by
  obtain ⟨hchild, b, hk⟩ := (h.fits i).cleared p k hd
  have hsession : Tracked g (Function.update ls i ⟨(ls i).worker, .marked p k⟩) := by
    refine h.session ⟨by simp, by simp, by simp, ?_, by simp, ?_⟩ (by simp)
      fun q k' hq _ => hq.carry rfl (by simp [hd]) id
    · rintro q k' ⟨⟩
      exact hplayer
    · rintro q (⟨hq, -⟩ | ⟨k', hk'⟩)
      · exact (h.fits i).player q (.inl ⟨hq, hd ▸ id⟩)
      · cases hk'
        exact ⟨k, b, hchild, hk⟩
  refine hsession.flag fun q b' hq _ => ?_
  cases hk.symm.trans hq
  refine ⟨hchild, i, ?_⟩
  rw [Function.update_self]
  exact .inr ⟨k, rfl⟩

lemma findInfo {o : Outcome VaultNode} (h : Tracked db.graph ls) (hd : (ls i).doing = .leaving)
    (hp : (ls i).worker.playerId = some p)
    (ho : processVaultMessage X env (.getPlayerInfoNode p) db = some o) :
    Tracked o.db.graph
      (Function.update ls i ((ls i).next (.vault (.getPlayerInfoNode p)) o.reply)) := by
  have hspec := getPlayerInfoNode_spec h.own ho
  have hgraph : o.db.graph = db.graph := (processVaultMessage_graph X env ho).1
  rw [hgraph]
  simp only [Session.next, Doing.afterVault]
  cases hreply : o.reply with
  | error err =>
    rw [hreply] at hspec
    obtain ⟨k, b, hchild, hk⟩ := (h.fits i).player p (.inl ⟨hp, hd ▸ id⟩)
    exact absurd hk (hspec k b hchild)
  | ok n =>
    rw [hreply] at hspec
    obtain ⟨-, hinfo⟩ := hspec
    simp only [hd, Doing.afterPlayerInfo]
    refine h.session ⟨by simp, by simp, by simp, by simp, ?_, fun q hq => ?_⟩ (by simp)
      fun q k hq _ => hq.carry rfl (by simp [hd]) id
    · rintro k ⟨⟩
      exact ⟨p, _, hp, hinfo⟩
    · exact (h.fits i).player q (hq.carry rfl (by simp) (hd ▸ id))

lemma signOut {name : String} {u : Uuid} (h : Tracked g ls) (hd : (ls i).doing = .found k) :
    Tracked (g.apply (.update (VaultPlayerInfoNode.newUpdate k 0 name u)))
      (Function.update ls i ⟨(ls i).worker, .gone⟩) := by
  obtain ⟨p, b, hp, hk⟩ := (h.fits i).found k hd
  have hoffline : (g.apply (.update (VaultPlayerInfoNode.newUpdate k 0 name u))).infoAt k =
      some (p, false) := by
    rw [Graph.infoAt_update, if_pos rfl, hk]
    rfl
  have hflag : Tracked (g.apply (.update (VaultPlayerInfoNode.newUpdate k 0 name u))) ls :=
    h.flag fun _ _ _ hzero => absurd rfl hzero
  refine hflag.session ⟨by simp, by simp, by simp, by simp, by simp, fun q hq => ?_⟩ (by simp) ?_
  · exact absurd hq (Session.not_has_of_released trivial)
  · -- the only player the worker had is offline now
    rintro q k' (⟨hq, -⟩ | ⟨k'', hk''⟩) honline
    · cases hp.symm.trans hq
      cases hflag.single k' k p true false honline hoffline
      cases honline.symm.trans hoffline
    · cases hd.symm.trans hk''

lemma vault {m : VaultMessage} {o : Outcome m.Reply} (h : Tracked db.graph ls)
    (hm : WorkerAsks (ls i).worker (ls i).doing (.vault m))
    (hfine : KeepsPlayer db ls i (.vault m)) (ho : processVaultMessage X env m db = some o) :
    Tracked o.db.graph (Function.update ls i ((ls i).next (.vault m) o.reply)) := by
  have hgraph := (processVaultMessage_graph X env ho).1
  have hmessage := (h.fits i).message
  generalize hd : (ls i).doing = d at hm
  cases hm with
  | look hm =>
    cases m <;> first | exact hgraph ▸ h.stays (.refl _) (fun _ => rfl) rfl | exact hm.elim
  | findNodes => exact (hmessage _ hd).elim
  | findAge => exact (hmessage _ hd).elim
  | findAgeInfo => exact (hmessage _ hd).elim
  | createPlayer => exact h.createPlayer hd hfine ho
  | createInfo => exact h.createInfo hd hfine ho
  | createNode hbuilds hnode =>
    rw [hgraph]
    refine h.stays (Graph.grows_create _ hfine)
      (Graph.infoAt_create_of_none (VaultNode.info_of_not_isOf hnode) hfine) ?_
    exact congrArg (Session.mk _) (Worker.afterCreateNode_of_builds (hd ▸ hbuilds) _)
  | vaultNodeCreate => exact (hmessage _ hd).elim
  | refNode => exact hgraph ▸ h.stays (Graph.grows_ref _) (fun _ => rfl) rfl
  | vaultNodeAdd => exact (hmessage _ hd).elim
  | addGameServer => exact hgraph ▸ h.stays (.refl _) (fun _ => rfl) rfl
  | checkOnline => exact h.checkOnline hd ho
  | signIn =>
    obtain ⟨-, b, hk⟩ := (h.fits i).cleared _ _ hd
    simp only [KeepsPlayer, hd] at hfine
    rw [updateNode_ok rfl hk ho, hgraph]
    simp only [Session.next, Doing.afterVault, hd, Doing.afterUpdate]
    exact h.signIn hd hfine
  | findInfo hw => exact h.findInfo hd hw ho
  | signOut =>
    obtain ⟨q, b, -, hk⟩ := (h.fits i).found _ hd
    rw [updateNode_ok rfl hk ho, hgraph]
    simp only [Session.next, Doing.afterVault, hd, Doing.afterUpdate]
    exact h.signOut hd

end Requests

end Tracked

/-! ### Runs -/

lemma infoAt_initial (k : UInt32) : initial.graph.infoAt k = none := by
  have hkeys : initial.graph.nodes.keys = [1002, 1001, 1000] := rfl
  by_cases hk : k ∈ initial.graph.nodes
  · rw [AList.mem_keys, hkeys] at hk
    simp only [List.mem_cons, List.not_mem_nil, or_false] at hk
    rcases hk with rfl | rfl | rfl <;> rfl
  · rw [Graph.infoAt, AList.lookup_eq_none.2 hk]
    rfl

lemma tracked_initial {ι : Type} (challenges : ι → UInt32) :
    Tracked initial.graph fun i => Session.start (challenges i) := by
  have hnone (k p : UInt32) (b : Bool) : initial.graph.infoAt k ≠ some (p, b) := by
    rw [infoAt_initial]
    exact (Option.some_ne_none _).symm
  refine ⟨fun k n hk => (sound_initial.own k n hk).1, fun k p b hk => absurd hk (hnone k p b),
    fun k _ p b _ hk => absurd hk (hnone k p b), fun k p hk => absurd hk (hnone k p true),
    fun i => ⟨by simp [Session.start], by simp [Session.start], by simp [Session.start],
      by simp [Session.start], by simp [Session.start], ?_⟩, by simp [Session.start]⟩
  rintro p (⟨hp, -⟩ | ⟨k, hk⟩)
  · cases hp
  · cases hk

section Runs

variable {ι : Type}

/-- No handler is in progress. -/
def Quiet (ls : ι → Session) : Prop := ∀ i, (ls i).doing = .idle ∨ (ls i).doing = .gone

/-- Every player that is online is the player of a live worker. -/
def OnlineOwned (db : Backend) (ls : ι → Session) : Prop :=
  ∀ k n, db.vault.lookup k = some n → n.isOf .playerInfo → VaultPlayerInfoNode.online n ≠ 0 →
    ∃ i, (ls i).doing.Live ∧ (ls i).worker.playerId = some (VaultPlayerInfoNode.playerId n)

lemma Tracked.onlineOwned {db : Backend} {ls : ι → Session} (h : Tracked db.graph ls)
    (hquiet : Quiet ls) : OnlineOwned db ls := by
  intro k n hk hn honline
  have hinfo : db.graph.infoAt k = some (VaultPlayerInfoNode.playerId n, true) := by
    have hlookup : db.graph.nodes.lookup k = some n := hk
    rw [Graph.infoAt_of_lookup hlookup, VaultNode.info_of_isOf hn, decide_eq_true honline]
  obtain ⟨-, i, hi⟩ := h.online k _ hinfo
  refine ⟨i, ?_⟩
  rcases hi with ⟨hp, hreleased⟩ | ⟨k', hk'⟩
  · rcases hquiet i with hd | hd
    · exact ⟨hd ▸ trivial, hp⟩
    · exact absurd (hd ▸ trivial) hreleased
  · rcases hquiet i with hd | hd <;> cases hd.symm.trans hk'

/-- **Only players of live workers are online** once all handlers have returned, as long as no
worker sets a player online while it has another one. When all clients are gone, so are all
players. -/
theorem online_owned [DecidableEq ι] {X : Crates} (sdl : SdlHost X) (config : ServerConfig)
    (challenges : ι → UInt32) (events : ι → List Event) {s : WorkerPool ι}
    (h : Runs (serveWorkers X) KeepsPlayer (workerPool sdl config challenges events initial) s) :
    (Quiet s.owns → OnlineOwned s.server s.owns) ∧
      ((∀ i, (s.owns i).doing = .gone) → ∀ k n, s.server.vault.lookup k = some n →
        n.isOf .playerInfo → VaultPlayerInfoNode.online n = 0) := by
  have htracked := runs_keep (I := fun db ls => Tracked db.graph ls) h (tracked_initial challenges)
    (fun db ls i c r hs hc hfine => hs.ownCall r hc fun message hmessage => by
      subst hmessage
      exact hfine)
    (fun db ls i env m o hs hm hfine ho => hs.vault hm hfine ho)
  refine ⟨htracked.onlineOwned, fun hgone k n hk hn => ?_⟩
  by_contra honline
  obtain ⟨i, hlive, -⟩ := htracked.onlineOwned (fun i => .inr (hgone i)) k n hk hn honline
  rw [hgone i] at hlive
  exact hlive

end Runs

/-! ### A client with two players -/

/-- The info nodes that are online, by their players. -/
def playersOnline (db : Backend) : List UInt32 :=
  db.vault.toList.filterMap fun e => e.2.info.bind fun x => if x.2 then some x.1 else none

lemma mem_playersOnline {db : Backend} {p : UInt32} (h : p ∈ playersOnline db) :
    ∃ k n, db.vault.lookup k = some n ∧ n.isOf .playerInfo ∧ VaultPlayerInfoNode.online n ≠ 0 := by
  obtain ⟨⟨k, n⟩, hmem, hinfo⟩ := List.mem_filterMap.1 h
  obtain ⟨⟨q, b⟩, hn, hb⟩ := Option.bind_eq_some_iff.1 hinfo
  refine ⟨k, n, HashMap.mem_toList.1 hmem, ?_⟩
  unfold VaultNode.info infoOf at hn
  split at hn
  · rename_i htype
    cases hn
    split at hb
    · rename_i honline
      exact ⟨beq_iff_eq.2 htype, of_decide_eq_true honline⟩
    · cases hb
  · cases hn

/-- A client that creates a player, selects it, and selects none. -/
def loyalClient : WorkerPool Unit := smallPool fun _ =>
  [.message blankLogin, .message (.playerCreateRequest 2 "Yeesha" "female" ""),
    .message (.acctSetPlayerRequest 3 1003), .message (.acctSetPlayerRequest 4 0)]

theorem loyalClient_online_owned :
    ∃ s, Runs (serveWorkers smallCrates) KeepsPlayer loyalClient s ∧
      playersOnline s.server = [1003] ∧ Quiet s.owns ∧ OnlineOwned s.server s.owns := by
  have hrun : ((loyalClient.replay (serveWorkers smallCrates) KeepsPlayer (steps [(86, ())])).map
      fun s => (playersOnline s.server, (s.owns ()).doing.ctorIdx)) =
        some ([1003], Doing.idle.ctorIdx) := by
    decide +kernel
  obtain ⟨s, hs, heq⟩ := Option.map_eq_some_iff.1 hrun
  obtain ⟨honline, hidle⟩ := Prod.mk.inj heq
  have hquiet : Quiet s.owns := fun _ => .inl (Doing.eq_idle hidle)
  have hruns := Runs.start.replay hs
  exact ⟨s, hruns, honline, hquiet, (online_owned _ _ _ _ hruns).1 hquiet⟩

/-- A client that creates two players, selects one after the other, and disconnects. -/
def fickleClient : WorkerPool Unit := smallPool fun _ =>
  [.message blankLogin, .message (.playerCreateRequest 2 "Yeesha" "female" ""),
    .message (.playerCreateRequest 3 "Atrus" "male" ""), .message (.acctSetPlayerRequest 4 1003),
    .message (.acctSetPlayerRequest 5 1029), .readError]

theorem fickleClient_leaves_player_online :
    ∃ s, Runs (serveWorkers smallCrates) PlayersOnly fickleClient s ∧
      (∀ i, (s.owns i).doing = .gone) ∧ playersOnline s.server = [1003] ∧
      ¬ OnlineOwned s.server s.owns := by
  have hrun : ((fickleClient.replay (serveWorkers smallCrates) PlayersOnly (steps [(161, ())])).map
      fun s => (playersOnline s.server, (s.owns ()).doing.ctorIdx)) =
        some ([1003], Doing.gone.ctorIdx) := by
    decide +kernel
  obtain ⟨s, hs, heq⟩ := Option.map_eq_some_iff.1 hrun
  obtain ⟨honline, hgone⟩ := Prod.mk.inj heq
  refine ⟨s, Runs.start.replay hs, fun _ => Doing.eq_gone hgone, honline, fun h => ?_⟩
  have hmem : 1003 ∈ playersOnline s.server := by
    rw [honline]
    exact List.mem_singleton_self _
  obtain ⟨k, n, hk, hn, hn'⟩ := mem_playersOnline hmem
  obtain ⟨i, hlive, -⟩ := h k n hk hn hn'
  have hdead : (s.owns i).doing = .gone := Doing.eq_gone hgone
  rw [hdead] at hlive
  exact hlive

end Moulars.Auth
