import Mathlib.Data.Fintype.Basic
import Moulars.Auth.Sessions
import Moulars.Vault.PlayerInfo

/-!
Players and the workers that have selected them.

`do_set_player` asks whether a player is online and sets it online in two requests. In between
another worker can ask the same and get the same answer.
-/

namespace Moulars.Auth

open Lib.Clients Lib.Hash Hashes Vault

/-! ### What a worker has -/

namespace Doing

def Live : Doing → Prop
  | .leaving => False
  | .found _ => False
  | .lost => False
  | .gone => False
  | _ => True

def Released : Doing → Prop
  | .lost => True
  | .gone => True
  | _ => False

/-- The player was found offline, and nothing has been done about it yet. -/
def Clears (p : UInt32) : Doing → Prop
  | .cleared q _ => q = p
  | _ => False

instance (p : UInt32) (d : Doing) : Decidable (d.Clears p) := by
  unfold Clears
  split <;> infer_instance

lemma Live.not_released {d : Doing} (h : d.Live) : ¬ d.Released := by
  cases d <;> first | exact id | exact h.elim

lemma Settled.not_released {d : Doing} (h : d.Settled) : ¬ d.Released := by
  cases d <;> first | exact id | exact h.elim

end Doing

namespace Session

/-- The player is the worker's, or will be without another request. -/
def Has (l : Session) (p : UInt32) : Prop :=
  (l.worker.playerId = some p ∧ ¬ l.doing.Released) ∨ ∃ k, l.doing = .marked p k

/-- The player is or may soon be the worker's. -/
def Claims (l : Session) (p : UInt32) : Prop := l.Has p ∨ l.doing.Clears p

/-- The first session has or is about to have nothing that the second has not. -/
structure Weaker (l' l : Session) : Prop where
  has : ∀ p, l'.Has p → l.Has p
  cleared : ∀ p k, l'.doing = .cleared p k → l.doing = .cleared p k
  found : ∀ k, l'.doing = .found k → l.doing = .found k ∧ l'.worker.playerId = l.worker.playerId

lemma Weaker.refl (l : Session) : l.Weaker l := ⟨fun _ => id, fun _ _ => id, fun _ h => ⟨h, rfl⟩⟩

lemma Weaker.claims {l l' : Session} (h : l'.Weaker l) (p : UInt32) (hp : l'.Claims p) :
    l.Claims p := by
  rcases hp with hp | hp
  · exact .inl (h.has p hp)
  · cases hd : l'.doing with
    | cleared q k =>
      rw [hd] at hp
      obtain rfl : q = p := hp
      exact .inr (h.cleared q k hd ▸ rfl)
    | _ =>
      rw [hd] at hp
      exact hp.elim

lemma Has.carry {l l' : Session} {p : UInt32} (h : l'.Has p)
    (hw : l'.worker.playerId = l.worker.playerId) (hd' : ∀ q k, l'.doing ≠ .marked q k)
    (hd : ¬ l.doing.Released) : l.Has p := by
  rcases h with ⟨hp, -⟩ | ⟨k, hk⟩
  · exact .inl ⟨hw.symm.trans hp, hd⟩
  · exact absurd hk (hd' p k)

lemma not_has_of_released {l : Session} {p : UInt32} (hd : l.doing.Released) : ¬ l.Has p := by
  rintro (⟨-, hreleased⟩ | ⟨k, hk⟩)
  · exact hreleased hd
  · rw [hk] at hd
    exact hd

lemma weaker_of_settled {w w' : AuthServerWorker} {d d' : Doing} (hw : w'.playerId = w.playerId)
    (hd : ¬ d.Released) (hd' : d'.Settled) : Weaker ⟨w', d'⟩ ⟨w, d⟩ where
  has p hp := by
    refine hp.carry hw ?_ hd
    rintro q k rfl
    exact hd'
  cleared := by
    rintro p k rfl
    exact hd'.elim
  found := by
    rintro k rfl
    exact hd'.elim

/-- **What workers do on their own** gives them no player that they have not set online. -/
lemma weaker_own {l : Session} {c : OwnCall} (r : c.Reply)
    (hc : WorkerAsks l.worker l.doing (.own c)) : (l.next (.own c) r).Weaker l := by
  obtain ⟨w, d⟩ := l
  cases hc with
  | wait hd => exact weaker_of_settled rfl hd.not_released trivial
  | receive message => exact weaker_of_settled rfl id trivial
  | drop hd => exact ⟨fun p hp => hp.carry rfl nofun hd.not_released, nofun, nofun⟩
  | setAccountId accountId => exact weaker_of_settled rfl id trivial
  | setPlayerId =>
    rename_i p k
    refine ⟨?_, nofun, nofun⟩
    rintro q (⟨hq, -⟩ | ⟨k, hk⟩)
    · cases hq
      exact .inr ⟨k, rfl⟩
    · cases hk
  | talk hc => cases c <;> first | exact .refl _ | exact hc.elim
  | exitNoPlayer | exitLost | exitGone =>
    exact ⟨fun p hp => absurd hp (not_has_of_released trivial), nofun, nofun⟩

end Session

/-- Requests other than those about a player's info node. -/
def Aside : VaultMessage → Prop
  | .getPlayerInfoNode _ => False
  | .updateNode _ => False
  | _ => True

lemma Doing.Builds.settled {d : Doing} (h : d.Builds) : d.Settled := by
  cases d <;> first | exact trivial | exact h.elim

lemma Doing.Settled.afterVault {d : Doing} {m : VaultMessage} (h : d.Settled) (hm : Aside m)
    (r : VaultReply m) : (d.afterVault m r).Settled := by
  cases m with
  | findNodes template =>
    show (d.afterFind template r).Settled
    unfold Doing.afterFind
    split
    · split
      · split <;> exact trivial
      · exact h
    · exact h
  | createPlayer => cases r <;> first | exact trivial | exact h
  | createNode node =>
    show (d.afterCreateNode r).Settled
    unfold Doing.afterCreateNode
    split
    · exact trivial
    · exact h
  | getPlayerInfoNode => exact hm.elim
  | updateNode => exact hm.elim
  | _ => exact h

/-- **Other requests** give them no player either. -/
lemma Session.weaker_vault {l : Session} {m : VaultMessage} (r : VaultReply m) (hm : Aside m)
    (hc : WorkerAsks l.worker l.doing (.vault m)) : (l.next (.vault m) r).Weaker l := by
  obtain ⟨w, d⟩ := l
  have hsettled (hd : d.Settled) : Weaker ⟨w, d.afterVault m r⟩ ⟨w, d⟩ :=
    weaker_of_settled rfl hd.not_released (hd.afterVault hm r)
  cases hc with
  | look hm => cases m <;> first | exact .refl _ | exact hm.elim
  | createNode hd => exact hsettled hd.settled
  | refNode _ _ _ _ hd => exact hsettled hd.settled
  | addGameServer _ hd => exact hsettled hd.settled
  | checkOnline => exact hm.elim
  | signIn => exact hm.elim
  | findInfo => exact hm.elim
  | signOut => exact hm.elim
  | _ => exact hsettled trivial

/-- A node that is created does not replace another one. -/
def FreshId (db : Backend) : VaultMessage → Prop
  | .createPlayer .. => db.vault.lookup db.nodeIndex = none
  | .createNode _ => db.vault.lookup db.nodeIndex = none
  | _ => True

instance (db : Backend) (m : VaultMessage) : Decidable (FreshId db m) := by
  unfold FreshId
  split <;> infer_instance

lemma grows_of_aside {X : Crates} {env : Env} {db : Backend} {m : VaultMessage}
    {o : Outcome m.Reply} (hm : Aside m) (hfresh : FreshId db m)
    (h : processVaultMessage X env m db = some o) : db.graph.Grows o.db.graph := by
  obtain ⟨hgraph, -⟩ := processVaultMessage_graph X env h
  cases m with
  | createPlayer accountId playerName avatarShape =>
    rcases createPlayer_graph h with heq | ⟨node, -, heq⟩
    · exact heq ▸ .refl _
    · exact heq ▸ Graph.grows_create node hfresh
  | createNode node => exact hgraph ▸ Graph.grows_create node hfresh
  | refNode parent child owner broadcast => exact hgraph ▸ Graph.grows_ref _
  | updateNode => exact hm.elim
  | getPlayerInfoNode => exact hm.elim
  | _ => exact hgraph ▸ .refl _

/-! ### One worker for a player -/

section Exclusive

variable {ι : Type} {X : Crates} {env : Env} {db : Backend} {ls : ι → Session} {i : ι} {p : UInt32}

/-- At most one of the children of a player is an info node for it. -/
def OneInfo (g : Graph) (p : UInt32) : Prop :=
  ∀ r ∈ g.refs.keys, ∀ r' ∈ g.refs.keys, r.parent = p → r'.parent = p →
    (g.infoAt r.child).map Prod.fst = some p → (g.infoAt r'.child).map Prod.fst = some p →
      r.child = r'.child

instance (g : Graph) (p : UInt32) : Decidable (OneInfo g p) := by
  unfold OneInfo
  infer_instance

/-- No worker looks whether a player is online while another one is about to set it online or
while there are several info nodes to look at, and ids are not given out twice. -/
def OneAtATime (db : Backend) (ls : ι → Session) (i : ι) : WorkerCall → Prop
  | .vault (.getPlayerInfoNode p) => match (ls i).doing with
    | .leaving => True
    | _ => (∀ j, ¬ (ls j).doing.Clears p) ∧ OneInfo db.graph p
  | .vault m => FreshId db m
  | .own _ => True

instance [Fintype ι] (c : WorkerCall) : Decidable (OneAtATime db ls i c) := by
  unfold OneAtATime
  split
  · split <;> infer_instance
  · infer_instance
  · infer_instance

/-- A player that a worker has is online, and two workers never have it or are about to. -/
structure Exclusive (g : Graph) (ls : ι → Session) : Prop where
  own : g.Own
  cleared : ∀ i p k, (ls i).doing = .cleared p k → g.Child p k ∧ ∃ b, g.infoAt k = some (p, b)
  found : ∀ i k, (ls i).doing = .found k →
    ∃ p b, (ls i).worker.playerId = some p ∧ g.infoAt k = some (p, b)
  online : ∀ i p, (ls i).Has p → ∃ k, g.Child p k ∧ g.infoAt k = some (p, true)
  unique : ∀ i j p, (ls i).Claims p → (ls j).Claims p → i = j

namespace Exclusive

variable [DecidableEq ι] {g g' : Graph} {l' : Session}

/-- **One step of one worker**, from what it changes in the vault and for the worker: the others
keep what they have, and the worker claims nothing that another one does. -/
lemma update (h : Exclusive g ls) (hg : g.Keeps g')
    (hothers : ∀ j p, j ≠ i → (ls j).Has p → ∀ k, g.infoAt k = some (p, true) →
      g'.infoAt k = some (p, true))
    (hcleared : ∀ p k, l'.doing = .cleared p k → g'.Child p k ∧ ∃ b, g'.infoAt k = some (p, b))
    (hfound : ∀ k, l'.doing = .found k →
      ∃ p b, l'.worker.playerId = some p ∧ g'.infoAt k = some (p, b))
    (honline : ∀ p, l'.Has p → ∃ k, g'.Child p k ∧ g'.infoAt k = some (p, true))
    (hunique : ∀ j p, l'.Claims p → (ls j).Claims p → j = i) :
    Exclusive g' (Function.update ls i l') := by
  refine ⟨hg.own h.own, ?_, ?_, ?_, ?_⟩
  · refine (Function.forall_update_iff ls fun _ l => ∀ p k, l.doing = .cleared p k →
      g'.Child p k ∧ ∃ b, g'.infoAt k = some (p, b)).2 ⟨hcleared, fun j _ p k hj => ?_⟩
    obtain ⟨hchild, b, hb⟩ := h.cleared j p k hj
    exact ⟨hg.child p k hchild, hg.info k p b hb⟩
  · refine (Function.forall_update_iff ls fun _ l => ∀ k, l.doing = .found k →
      ∃ p b, l.worker.playerId = some p ∧ g'.infoAt k = some (p, b)).2 ⟨hfound, fun j _ k hj => ?_⟩
    obtain ⟨p, b, hp, hb⟩ := h.found j k hj
    obtain ⟨b', hb'⟩ := hg.info k p b hb
    exact ⟨p, b', hp, hb'⟩
  · refine (Function.forall_update_iff ls fun _ l => ∀ p, l.Has p →
      ∃ k, g'.Child p k ∧ g'.infoAt k = some (p, true)).2 ⟨honline, fun j hne p hj => ?_⟩
    obtain ⟨k, hchild, hk⟩ := h.online j p hj
    exact ⟨k, hg.child p k hchild, hothers j p hne hj k hk⟩
  · intro j j' p hj hj'
    by_cases hji : j = i
    · subst hji
      rw [Function.update_self] at hj
      by_cases hji' : j' = j
      · exact hji'.symm
      · rw [Function.update_of_ne hji'] at hj'
        exact (hunique j' p hj hj').symm
    · rw [Function.update_of_ne hji] at hj
      by_cases hji' : j' = i
      · subst hji'
        rw [Function.update_self] at hj'
        exact hunique j p hj' hj
      · rw [Function.update_of_ne hji'] at hj'
        exact h.unique j j' p hj hj'

lemma weaken (h : Exclusive g ls) (hg : g.Grows g') (hl : l'.Weaker (ls i)) :
    Exclusive g' (Function.update ls i l') := by
  refine h.update hg.keeps (fun j p _ _ k hk => hg.info k _ hk) (fun p k hk => ?_) (fun k hk => ?_)
    (fun p hp => ?_) fun j p hp hj => h.unique j i p hj (hl.claims p hp)
  · obtain ⟨hchild, b, hb⟩ := h.cleared i p k (hl.cleared p k hk)
    exact ⟨hg.child p k hchild, b, hg.info k _ hb⟩
  · obtain ⟨hfound, hplayer⟩ := hl.found k hk
    obtain ⟨p, b, hp, hb⟩ := h.found i k hfound
    exact ⟨p, b, hplayer.trans hp, hg.info k _ hb⟩
  · obtain ⟨k, hchild, hk⟩ := h.online i p (hl.has p hp)
    exact ⟨k, hg.child p k hchild, hg.info k _ hk⟩

/-- **The check**: a worker finds the player offline while no other one does. -/
lemma clear {k : UInt32} (h : Exclusive g ls) (hd : (ls i).doing.Settled) (hchild : g.Child p k)
    (hk : g.infoAt k = some (p, false)) (hothers : ∀ j, ¬ (ls j).doing.Clears p)
    (hone : OneInfo g p) :
    Exclusive g (Function.update ls i ⟨(ls i).worker, .cleared p k⟩) := by
  -- nobody has the player, because then its only info node would be online
  have hnobody (j : ι) : ¬ (ls j).Has p := by
    intro hj
    obtain ⟨k', ⟨owner', hr'⟩, hk'⟩ := h.online j p hj
    obtain ⟨owner, hr⟩ := hchild
    have heq : k = k' := hone ⟨p, k, owner⟩ hr ⟨p, k', owner'⟩ hr' rfl rfl (by rw [hk]; rfl)
      (by rw [hk']; rfl)
    rw [← heq, hk] at hk'
    cases hk'
  have hhas (q : UInt32) (hq : Session.Has ⟨(ls i).worker, .cleared p k⟩ q) : (ls i).Has q :=
    hq.carry rfl (by simp) hd.not_released
  refine h.update (.refl g) (fun _ _ _ _ _ => id) (fun q k' hq => ?_) (by simp)
    (fun q hq => h.online i q (hhas q hq)) fun j q hq hj => ?_
  · cases hq
    exact ⟨hchild, false, hk⟩
  · rcases hq with hq | hq
    · exact h.unique j i q hj (.inl (hhas q hq))
    · obtain rfl : p = q := hq
      rcases hj with hj | hj
      · exact absurd hj (hnobody j)
      · exact absurd hj (hothers j)

/-- **The update**: the worker has the player from now on. -/
lemma mark {k : UInt32} {name : String} {u : Uuid} (h : Exclusive g ls)
    (hd : (ls i).doing = .cleared p k) :
    Exclusive (g.apply (.update (VaultPlayerInfoNode.newUpdate k 1 name u)))
      (Function.update ls i ⟨(ls i).worker, .marked p k⟩) := by
  obtain ⟨hchild, b, hk⟩ := h.cleared i p k hd
  have hturned : (g.apply (.update (VaultPlayerInfoNode.newUpdate k 1 name u))).infoAt k =
      some (p, true) := by
    rw [Graph.infoAt_update, if_pos rfl, hk]
    rfl
  have honline (j q : UInt32) (hj : g.infoAt j = some (q, true)) :
      (g.apply (.update (VaultPlayerInfoNode.newUpdate k 1 name u))).infoAt j = some (q, true) := by
    rw [Graph.infoAt_update]
    split
    · rename_i hjk
      rw [← hjk, hj]
      rfl
    · exact hj
  have hhas (q : UInt32) (hq : Session.Has ⟨(ls i).worker, .marked p k⟩ q) :
      q = p ∨ (ls i).Has q := by
    rcases hq with ⟨hq, -⟩ | ⟨k', hk'⟩
    · exact .inr (.inl ⟨hq, hd ▸ id⟩)
    · cases hk'
      exact .inl rfl
  refine h.update (Graph.keeps_update ..) (fun _ q _ _ j hj => honline j q hj) (by simp) (by simp)
    (fun q hq => ?_) fun j q hq hj => ?_
  · rcases hhas q hq with rfl | hq
    · exact ⟨k, Graph.child_apply hchild _, hturned⟩
    · obtain ⟨k', hchild', hk'⟩ := h.online i q hq
      exact ⟨k', Graph.child_apply hchild' _, honline k' q hk'⟩
  · rcases hq with hq | hq
    · rcases hhas q hq with rfl | hq
      · exact h.unique j i q hj (.inr (hd ▸ rfl))
      · exact h.unique j i q hj (.inl hq)
    · exact hq.elim

lemma find {k : UInt32} {b : Bool} (h : Exclusive g ls) (hd : (ls i).doing = .leaving)
    (hp : (ls i).worker.playerId = some p) (hk : g.infoAt k = some (p, b)) :
    Exclusive g (Function.update ls i ⟨(ls i).worker, .found k⟩) := by
  have hhas (q : UInt32) (hq : Session.Has ⟨(ls i).worker, .found k⟩ q) : (ls i).Has q :=
    hq.carry rfl (by simp) (hd ▸ id)
  refine h.update (.refl g) (fun _ _ _ _ _ => id) (by simp) (fun k' hk' => ?_)
    (fun q hq => h.online i q (hhas q hq)) fun j q hq hj => ?_
  · cases hk'
    exact ⟨p, b, hp, hk⟩
  · rcases hq with hq | hq
    · exact h.unique j i q hj (.inl (hhas q hq))
    · exact hq.elim

/-- **The end**: the player is offline, and nobody else had it. -/
lemma release {k : UInt32} {name : String} {u : Uuid} (h : Exclusive g ls)
    (hd : (ls i).doing = .found k) :
    Exclusive (g.apply (.update (VaultPlayerInfoNode.newUpdate k 0 name u)))
      (Function.update ls i ⟨(ls i).worker, .gone⟩) := by
  obtain ⟨p, b, hp, hk⟩ := h.found i k hd
  have hmine : (ls i).Has p := .inl ⟨hp, hd ▸ id⟩
  have hhas (q : UInt32) : ¬ Session.Has ⟨(ls i).worker, .gone⟩ q :=
    Session.not_has_of_released trivial
  refine h.update (Graph.keeps_update ..) (fun j q hne hj k' hk' => ?_) (by simp) (by simp)
    (fun q hq => absurd hq (hhas q)) fun j q hq _ => ?_
  · rw [Graph.infoAt_update, if_neg, hk']
    rintro rfl
    cases hk.symm.trans hk'
    exact hne (h.unique j i p (.inl hj) (.inl hmine))
  · rcases hq with hq | hq
    · exact absurd hq (hhas q)
    · exact hq.elim

lemma checkOnline {transId : UInt32} {o : Outcome VaultNode} (h : Exclusive db.graph ls)
    (hd : (ls i).doing = .handling (.acctSetPlayerRequest transId p))
    (hfine : OneAtATime db ls i (.vault (.getPlayerInfoNode p)))
    (ho : processVaultMessage X env (.getPlayerInfoNode p) db = some o) :
    Exclusive o.db.graph
      (Function.update ls i ((ls i).next (.vault (.getPlayerInfoNode p)) o.reply)) := by
  have hspec := getPlayerInfoNode_spec h.own ho
  have hgraph : o.db.graph = db.graph := (processVaultMessage_graph X env ho).1
  have hsettled : (ls i).doing.Settled := hd ▸ trivial
  have hstays : Exclusive o.db.graph (Function.update ls i ⟨(ls i).worker, (ls i).doing⟩) :=
    hgraph ▸ h.weaken (.refl _) (.refl _)
  simp only [Session.next, Doing.afterVault]
  cases hreply : o.reply with
  | error err =>
    simp only [hd, Doing.afterPlayerInfo] at hstays ⊢
    exact hstays
  | ok n =>
    rw [hreply] at hspec
    simp only [OneAtATime, hd] at hfine
    by_cases honline : VaultPlayerInfoNode.online n ≠ 0
    · simp only [hd, Doing.afterPlayerInfo, if_pos honline] at hstays ⊢
      exact hstays
    · have hoffline : decide (VaultPlayerInfoNode.online n ≠ 0) = false := decide_eq_false honline
      obtain ⟨hchild, hinfo⟩ := hspec
      rw [hoffline] at hinfo
      simp only [hd, Doing.afterPlayerInfo, if_neg honline]
      exact hgraph ▸ h.clear hsettled hchild hinfo hfine.1 hfine.2

lemma findInfo {o : Outcome VaultNode} (h : Exclusive db.graph ls) (hd : (ls i).doing = .leaving)
    (hp : (ls i).worker.playerId = some p)
    (ho : processVaultMessage X env (.getPlayerInfoNode p) db = some o) :
    Exclusive o.db.graph
      (Function.update ls i ((ls i).next (.vault (.getPlayerInfoNode p)) o.reply)) := by
  have hspec := getPlayerInfoNode_spec h.own ho
  have hgraph : o.db.graph = db.graph := (processVaultMessage_graph X env ho).1
  simp only [Session.next, Doing.afterVault]
  cases hreply : o.reply with
  | error err =>
    simp only [hd, Doing.afterPlayerInfo]
    exact hgraph ▸ h.weaken (.refl _)
      ⟨fun q hq => absurd hq (Session.not_has_of_released trivial), by simp, by simp⟩
  | ok n =>
    rw [hreply] at hspec
    simp only [hd, Doing.afterPlayerInfo]
    exact hgraph ▸ h.find hd hp hspec.2

lemma vault {m : VaultMessage} {o : Outcome m.Reply} (h : Exclusive db.graph ls)
    (hm : WorkerAsks (ls i).worker (ls i).doing (.vault m))
    (hfine : OneAtATime db ls i (.vault m)) (ho : processVaultMessage X env m db = some o) :
    Exclusive o.db.graph (Function.update ls i ((ls i).next (.vault m) o.reply)) := by
  have haside (hm' : Aside m) (hfresh : FreshId db m) :
      Exclusive o.db.graph (Function.update ls i ((ls i).next (.vault m) o.reply)) :=
    h.weaken (grows_of_aside hm' hfresh ho) (Session.weaker_vault o.reply hm' hm)
  have hgraph := (processVaultMessage_graph X env ho).1
  generalize hd : (ls i).doing = d at hm
  cases hm with
  | checkOnline => exact h.checkOnline hd hfine ho
  | findInfo hw => exact h.findInfo hd hw ho
  | signIn =>
    obtain ⟨-, b, hk⟩ := h.cleared i _ _ hd
    rw [updateNode_ok rfl hk ho, hgraph]
    simp only [Session.next, Doing.afterVault, hd, Doing.afterUpdate]
    exact h.mark hd
  | signOut =>
    obtain ⟨q, b, -, hk⟩ := h.found i _ hd
    rw [updateNode_ok rfl hk ho, hgraph]
    simp only [Session.next, Doing.afterVault, hd, Doing.afterUpdate]
    exact h.release hd
  | look hm => cases m <;> first | exact haside trivial hfine | exact hm.elim
  | _ => exact haside trivial hfine

omit [DecidableEq ι] in
lemma initial (challenges : ι → UInt32) :
    Exclusive initial.graph fun i => Session.start (challenges i) := by
  have hnone (i : ι) (q : UInt32) : ¬ (Session.start (challenges i)).Has q := by
    rintro (⟨hq, -⟩ | ⟨k, hk⟩)
    · cases hq
    · cases hk
  refine ⟨fun k n hk => (sound_initial.own k n hk).1, by simp [Session.start],
    by simp [Session.start],
    fun i q hq => absurd hq (hnone i q), fun i j q hq => ?_⟩
  rcases hq with hq | hq
  · exact absurd hq (hnone i q)
  · exact hq.elim

end Exclusive

end Exclusive

/-! ### Two clients of one account -/

/-- One client creates a player and selects it, the other one only selects it. -/
def rivals : WorkerPool (Fin 2) := smallPool fun
  | 0 => [.message blankLogin, .message (.playerCreateRequest 2 "Yeesha" "female" ""),
      .message (.acctSetPlayerRequest 3 1003)]
  | 1 => [.message blankLogin, .message (.acctSetPlayerRequest 2 1003)]

/-- The result that a worker is about to send in reply to an `AcctSetPlayerRequest`. -/
def setPlayerResult : WorkerProg Unit → Option Int32
  | .ask (.own (.send (.acctSetPlayerReply _ result))) _ => some result
  | _ => none

end Moulars.Auth
