import Moulars.Auth.Selection

/-!
The nodes the server itself relies on: the system node, the list of all players, and the info node
of each player.

The vault finds them by what they look like, and takes the first it comes across. So they are always
the same ones as long as nothing else that looks like them is created or put below a player.
-/

namespace Moulars.Auth

open Lib.Clients Lib.Hash Hashes Vault

/-! ### The nodes -/

/-- What `get_system_node` looks for. -/
def isSystem (n : VaultNode) : Bool := n.isOf .system

/-- What `get_all_players_node` looks for. -/
def isAllPlayers (n : VaultNode) : Bool :=
  n.isOf .playerInfoList && n.val .int32_1 == StandardNode.allPlayersFolder.code

/-- `k` is the only node that passes a test. -/
def Only (g : Graph) (test : VaultNode → Bool) (k : UInt32) : Prop :=
  ∀ j, (∃ n, g.nodes.lookup j = some n ∧ test n = true) ↔ j = k

/-- The node `k` is below the player `p` and an info node for it. -/
def InfoOf (g : Graph) (p k : UInt32) : Prop :=
  g.Child p k ∧ (g.infoAt k).map Prod.fst = some p

lemma oneInfo_iff {g : Graph} {p : UInt32} :
    OneInfo g p ↔ ∀ k k', InfoOf g p k → InfoOf g p k' → k = k' := by
  constructor
  · rintro h k k' ⟨⟨owner, hr⟩, hk⟩ ⟨⟨owner', hr'⟩, hk'⟩
    exact h ⟨p, k, owner⟩ hr ⟨p, k', owner'⟩ hr' rfl rfl hk hk'
  · rintro h r hr r' hr' rfl hp hk hk'
    refine h r.child r'.child ⟨⟨r.owner, hr⟩, hk⟩ ⟨⟨r'.owner, ?_⟩, hk'⟩
    rw [← hp]
    exact hr'

/-- The server's nodes are the ones that `init_vault` created, and each player has at most one
info node. -/
structure Steady (g : Graph) : Prop where
  own : g.Own
  system : Only g isSystem 1000
  allPlayers : Only g isAllPlayers 1002
  one : ∀ p, OneInfo g p

/-! ### What can be done to them -/

/-- A node that is created takes a free id, looks like neither of the server's two nodes, and is
no second info node of a player that refers to its id already. A reference from a player to an
info node for it is to the one the player has, if it has one. -/
def Allows (g : Graph) : Action → Prop
  | .create node => g.nodes.lookup g.next = none ∧ isSystem node = false ∧
      isAllPlayers node = false ∧ ∀ p ∈ node.info.map Prod.fst,
        (∃ r ∈ g.refs.keys, r.parent = p ∧ r.child = g.next) →
          ∀ r ∈ g.refs.keys, r.parent = p → (g.infoAt r.child).map Prod.fst ≠ some p
  | .ref r => (g.infoAt r.child).map Prod.fst = some r.parent →
      ∀ r' ∈ g.refs.keys, r'.parent = r.parent →
        (g.infoAt r'.child).map Prod.fst = some r.parent → r'.child = r.child
  | _ => True

instance (g : Graph) (a : Action) : Decidable (Allows g a) := by
  unfold Allows
  split
  · -- one player at most, that of the node, is looked at
    have hplayer (P : UInt32 → Prop) [DecidablePred P] (o : Option UInt32) :
        Decidable (∀ p ∈ o, P p) := o.decidableForallMem
    infer_instance
  all_goals infer_instance

section Actions

variable {g g' : Graph} {test : VaultNode → Bool} {k p : UInt32} {node : VaultNode}

lemma Only.create (h : Only g test k) (hfree : g.nodes.lookup g.next = none)
    (hnode : test (node.set .nodeId g.next) = false) : Only (g.apply (.create node)) test k := by
  intro j
  show (∃ n, (g.nodes.insert g.next (node.set .nodeId g.next)).lookup j = some n ∧ _) ↔ _
  by_cases hj : j = g.next
  · subst hj
    rw [AList.lookup_insert]
    constructor
    · rintro ⟨n, hn, htest⟩
      cases hn
      rw [hnode] at htest
      cases htest
    · intro hk
      obtain ⟨n, hn, -⟩ := (h _).2 hk
      rw [hfree] at hn
      cases hn
  · rw [AList.lookup_insert_ne hj]
    exact h j

lemma Only.update (h : Only g test k) (hold : ∀ old, g.nodes.lookup node.nodeId = some old →
      test old = false ∧ test (updateFields old node) = false) :
    Only (g.apply (.update node)) test k := by
  intro j
  simp only [Graph.apply]
  split
  · exact h j
  · rename_i old hlookup
    obtain ⟨hbefore, hafter⟩ := hold old hlookup
    by_cases hj : j = node.nodeId
    · subst hj
      rw [AList.lookup_insert, ← h, hlookup]
      constructor
      · rintro ⟨n, hn, htest⟩
        cases hn
        rw [hafter] at htest
        cases htest
      · rintro ⟨n, hn, htest⟩
        cases hn
        rw [hbefore] at htest
        cases htest
    · rw [AList.lookup_insert_ne hj]
      exact h j

lemma only_of_keys
    (h : (g.nodes.keys.all fun j => (g.nodes.lookup j).any test == decide (j = k)) = true)
    (hk : k ∈ g.nodes.keys) : Only g test k := by
  have hkey (j : UInt32) (hj : j ∈ g.nodes.keys) :
      (g.nodes.lookup j).any test = decide (j = k) :=
    eq_of_beq (List.all_eq_true.1 h j hj)
  intro j
  constructor
  · rintro ⟨n, hn, htest⟩
    have hj := hkey j (AList.lookup_isSome.1 (by rw [hn]; rfl))
    rw [hn, Option.any_some, htest] at hj
    exact of_decide_eq_true hj.symm
  · rintro rfl
    have hj := hkey j hk
    rw [decide_eq_true rfl, Option.any_eq_true] at hj
    exact hj

lemma isSystem_set_nodeId (n : VaultNode) (k : UInt32) :
    isSystem (n.set .nodeId k) = isSystem n := by
  simp only [isSystem, VaultNode.isOf, VaultNode.nodeType]
  rw [VaultNode.val_set_of_ne _ _ (by decide)]

lemma isAllPlayers_set_nodeId (n : VaultNode) (k : UInt32) :
    isAllPlayers (n.set .nodeId k) = isAllPlayers n := by
  simp only [isAllPlayers, VaultNode.isOf, VaultNode.nodeType]
  rw [VaultNode.val_set_of_ne _ _ (by decide), VaultNode.val_set_of_ne _ _ (by decide)]

lemma not_server_of_info {n : VaultNode} (h : n.info.isSome) :
    isSystem n = false ∧ isAllPlayers n = false := by
  have htype : n.nodeType = NodeType.playerInfo.code := by
    by_contra hne
    rw [VaultNode.info, infoOf, if_neg hne] at h
    cases h
  have hother (t : NodeType) (ht : NodeType.playerInfo.code ≠ t.code) : n.isOf t = false := by
    rw [VaultNode.isOf, htype]
    exact beq_eq_false_iff_ne.2 ht
  refine ⟨hother .system (by decide), ?_⟩
  rw [isAllPlayers, hother .playerInfoList (by decide), Bool.false_and]

lemma OneInfo.add (h : OneInfo g p)
    (hadd : ∀ j, InfoOf g' p j → InfoOf g p j ∨ j = k ∧ ∀ j', InfoOf g p j' → j' = k) :
    OneInfo g' p := by
  rw [oneInfo_iff] at h ⊢
  intro j j' hj hj'
  rcases hadd j hj with hj | ⟨rfl, hall⟩
  · rcases hadd j' hj' with hj' | ⟨rfl, hall⟩
    · exact h j j' hj hj'
    · exact hall j hj
  · rcases hadd j' hj' with hj' | ⟨rfl, -⟩
    · exact (hall j' hj').symm
    · rfl

lemma OneInfo.create (h : OneInfo g p) (ha : Allows g (.create node)) :
    OneInfo (g.apply (.create node)) p := by
  obtain ⟨-, -, -, halone⟩ := ha
  refine h.add (k := g.next) ?_
  rintro j ⟨hchild, hj⟩
  rw [Graph.infoAt_create] at hj
  split at hj
  · rename_i hnext
    subst hnext
    obtain ⟨owner, hr⟩ : g.Child p g.next := hchild
    refine .inr ⟨rfl, ?_⟩
    rintro j' ⟨⟨owner', hr'⟩, hj'⟩
    exact absurd hj' (halone p hj ⟨⟨p, g.next, owner⟩, hr, rfl, rfl⟩ ⟨p, j', owner'⟩ hr' rfl)
  · exact .inl ⟨hchild, hj⟩

lemma OneInfo.ref {r : NodeRef} (h : OneInfo g p) (ha : Allows g (.ref r)) :
    OneInfo (g.apply (.ref r)) p := by
  refine h.add (k := r.child) ?_
  rintro j ⟨⟨owner, hr⟩, hj⟩
  rcases HashSet.mem_add.1 hr with rfl | hr
  · refine .inr ⟨rfl, ?_⟩
    rintro j' ⟨⟨owner', hr'⟩, hj'⟩
    exact ha hj ⟨p, j', owner'⟩ hr' rfl hj'
  · exact .inl ⟨⟨owner, hr⟩, hj⟩

lemma OneInfo.update (h : OneInfo g p) (k o name u) :
    OneInfo (g.apply (.update (VaultPlayerInfoNode.newUpdate k o name u))) p := by
  refine h.add (k := k) ?_
  rintro j ⟨⟨owner, hr⟩, hj⟩
  refine .inl ⟨⟨owner, ?_⟩, ?_⟩
  · simp only [Graph.apply] at hr
    split at hr <;> exact hr
  · rw [Graph.infoAt_update] at hj
    split at hj
    · rename_i hjk
      rw [hjk, ← hj, Option.map_map]
      rfl
    · exact hj

/-- **One action** that is allowed, where updates are made to info nodes only. -/
lemma Steady.apply {a : Action} (h : Steady g) (ha : Allows g a)
    (hupdate : ∀ n, a = .update n → ∃ k o name u,
      n = VaultPlayerInfoNode.newUpdate k o name u ∧ (g.infoAt k).isSome) :
    Steady (g.apply a) ∧ g.Keeps (g.apply a) := by
  cases a with
  | keep => exact ⟨h, .refl g⟩
  | create node =>
    obtain ⟨hfree, hsystem, hall, -⟩ := id ha
    refine ⟨⟨Graph.own_create h.own node, h.system.create hfree ?_, h.allPlayers.create hfree ?_,
      fun p => (h.one p).create ha⟩, (Graph.grows_create node hfree).keeps⟩
    · rw [isSystem_set_nodeId, hsystem]
    · rw [isAllPlayers_set_nodeId, hall]
  | ref r =>
    exact ⟨⟨h.own, h.system, h.allPlayers, fun p => (h.one p).ref ha⟩, (Graph.grows_ref r).keeps⟩
  | update n =>
    obtain ⟨k, o, name, u, rfl, hk⟩ := hupdate n rfl
    have hold : ∀ old, g.nodes.lookup k = some old → old.info.isSome := by
      intro old hlookup
      rwa [Graph.infoAt_of_lookup hlookup] at hk
    have hnew : ∀ old, g.nodes.lookup k = some old →
        (updateFields old (VaultPlayerInfoNode.newUpdate k o name u)).info.isSome := by
      intro old hlookup
      rw [info_updateFields, Option.isSome_map]
      exact hold old hlookup
    refine ⟨⟨Graph.own_update h.own _, h.system.update fun old hlookup => ?_,
      h.allPlayers.update fun old hlookup => ?_, fun p => (h.one p).update k o name u⟩,
      Graph.keeps_update ..⟩
    · exact ⟨(not_server_of_info (hold old hlookup)).1, (not_server_of_info (hnew old hlookup)).1⟩
    · exact ⟨(not_server_of_info (hold old hlookup)).2, (not_server_of_info (hnew old hlookup)).2⟩

end Actions

/-! ### What the vault answers -/

section Answers

variable {db : Backend} {test : VaultNode → Bool} {k p : UInt32}

lemma firstKey_of_only (h : Only db.graph test k) (env : Env) :
    DbMemory.firstKey env test db = .ok k := by
  obtain ⟨n, hn, htest⟩ := (h k).2 rfl
  have hmem : (k, n) ∈ env.nodes.run db.vault.toList := by
    rw [Order.mem_run, HashMap.mem_toList]
    exact hn
  unfold DbMemory.firstKey
  split
  · rename_i e he
    have hlookup : db.vault.lookup e.1 = some e.2 :=
      HashMap.mem_toList.1 ((Order.mem_run _).1 (List.mem_of_find?_eq_some he))
    rw [(h e.1).1 ⟨e.2, hlookup, by simpa using List.find?_some he⟩]
  · rename_i hnone
    exact absurd htest (by simpa using List.find?_eq_none.1 hnone _ hmem)

lemma getPlayerInfoNode_of_infoOf (h : Steady db.graph) (hk : InfoOf db.graph p k) (env : Env) :
    ∃ n, DbMemory.getPlayerInfoNode env p db = some (.ok n) ∧ n.nodeId = k := by
  obtain ⟨reply, hreply⟩ : ∃ reply, DbMemory.getPlayerInfoNode env p db = some reply := by
    unfold DbMemory.getPlayerInfoNode
    rw [fetchRefs_children]
    dsimp only [Option.bind_eq_bind, Option.bind_some]
    split <;> exact ⟨_, rfl⟩
  have hrun : processVaultMessage Crates.plain env (.getPlayerInfoNode p) db =
      some ⟨reply, db, []⟩ := by
    rw [processVaultMessage, hreply]
    rfl
  have hspec := getPlayerInfoNode_spec h.own hrun
  cases reply with
  | error err =>
    obtain ⟨hchild, hinfo⟩ := hk
    obtain ⟨⟨q, b⟩, hkb, rfl⟩ := Option.map_eq_some_iff.1 hinfo
    exact absurd hkb (hspec k b hchild)
  | ok n =>
    refine ⟨n, hreply, oneInfo_iff.1 (h.one p) _ _ ⟨hspec.1, ?_⟩ hk⟩
    rw [hspec.2]
    rfl

lemma infoOf_of_getPlayerInfoNode (h : db.graph.Own) {env : Env} {n : VaultNode}
    (hn : DbMemory.getPlayerInfoNode env p db = some (.ok n)) : InfoOf db.graph p n.nodeId := by
  have hrun : processVaultMessage Crates.plain env (.getPlayerInfoNode p) db =
      some ⟨.ok n, db, []⟩ := by
    rw [processVaultMessage, hn]
    rfl
  have hspec := getPlayerInfoNode_spec h hrun
  refine ⟨hspec.1, ?_⟩
  rw [hspec.2]
  rfl

end Answers

/-! ### Runs -/

section Runs

variable {ι : Type} {X : Crates} {env : Env} {db : Backend} {ls : ι → Session} {i : ι}

/-- The worker is about to update this node. -/
def Session.Holds (l : Session) (k : UInt32) : Prop :=
  (∃ p, l.doing = .cleared p k) ∨ l.doing = .found k

lemma Session.Weaker.holds {l l' : Session} (h : l'.Weaker l) {k : UInt32} (hk : l'.Holds k) :
    l.Holds k := by
  rcases hk with ⟨p, hp⟩ | hk
  · exact .inl ⟨p, h.cleared p k hp⟩
  · exact .inr (h.found k hk).1

lemma Session.holds_playerInfo {l : Session} {p k : UInt32} {r : NetResult VaultNode}
    (h : (l.next (.vault (.getPlayerInfoNode p)) r).Holds k) :
    l.Holds k ∨ ∃ n, r = .ok n ∧ n.nodeId = k := by
  have hd : (∃ q, l.doing.afterPlayerInfo p r = .cleared q k) ∨
      l.doing.afterPlayerInfo p r = .found k := h
  unfold Doing.afterPlayerInfo at hd
  split at hd
  · rename_i n
    split at hd
    · rcases hd with ⟨q, hq⟩ | hk
      · cases hq
      · exact .inr ⟨n, rfl, Doing.found.inj hk⟩
    · split at hd
      · exact .inl hd
      · rcases hd with ⟨q, hq⟩ | hk
        · exact .inr ⟨n, rfl, (Doing.cleared.inj hq).2⟩
        · cases hk
  · split at hd
    · rcases hd with ⟨q, hq⟩ | hk
      · cases hq
      · cases hk
    · exact .inl hd

lemma Session.held_of_lookup {X : Crates} {env : Env} {db : Backend} {l : Session} {p k : UInt32}
    {o : Outcome VaultNode} (hown : db.graph.Own)
    (hheld : ∀ k, l.Holds k → (db.graph.infoAt k).isSome)
    (ho : processVaultMessage X env (.getPlayerInfoNode p) db = some o)
    (hk : (l.next (.vault (.getPlayerInfoNode p)) o.reply).Holds k) :
    (db.graph.infoAt k).isSome := by
  have hspec := getPlayerInfoNode_spec hown ho
  rcases Session.holds_playerInfo hk with hk | ⟨n, hn, rfl⟩
  · exact hheld k hk
  · rw [hn] at hspec
    rw [hspec.2]
    rfl

lemma Session.not_holds_update {l : Session} {n : VaultNode} {k : UInt32} (hk : l.Holds k)
    (r : NetResult Unit) (j : UInt32) : ¬ (l.next (.vault (.updateNode n)) r).Holds j := by
  intro h
  have hd : (∃ q, l.doing.afterUpdate r = .cleared q j) ∨ l.doing.afterUpdate r = .found j := h
  rcases hk with ⟨p, hp⟩ | hp
  · rw [hp] at hd
    cases r <;> rcases hd with ⟨q, hq⟩ | hq <;> cases hq
  · rw [hp] at hd
    cases r <;> rcases hd with ⟨q, hq⟩ | hq <;> cases hq

/-- The server's nodes are steady, and workers update info nodes only. -/
structure Identified (g : Graph) (ls : ι → Session) : Prop where
  steady : Steady g
  held : ∀ i k, (ls i).Holds k → (g.infoAt k).isSome

/-- Every request leaves the server's nodes what they are. -/
def KeepsIdentity (X : Crates) (db : Backend) (_ : ι → Session) (_ : ι) : WorkerCall → Prop
  | .vault m => Allows db.graph (m.action X db)
  | .own _ => True

instance (c : WorkerCall) : Decidable (KeepsIdentity X db ls i c) :=
  match c with
  | .vault m => inferInstanceAs (Decidable (Allows db.graph (m.action X db)))
  | .own _ => instDecidableTrue

namespace Identified

variable [DecidableEq ι] {g g' : Graph} {l' : Session}

lemma update (h : Identified g ls) (hg : Steady g') (hkeeps : g.Keeps g')
    (hl : ∀ k, l'.Holds k → (g'.infoAt k).isSome) : Identified g' (Function.update ls i l') :=
  ⟨hg, (Function.forall_update_iff ls fun _ l => ∀ k, l.Holds k → (g'.infoAt k).isSome).2
    ⟨hl, fun j _ k hk => hkeeps.isSome (h.held j k hk)⟩⟩

lemma weaken (h : Identified g ls) (hg : Steady g') (hkeeps : g.Keeps g')
    (hl : l'.Weaker (ls i)) : Identified g' (Function.update ls i l') :=
  h.update hg hkeeps fun k hk => hkeeps.isSome (h.held i k (hl.holds hk))

end Identified

lemma action_ne_update {m : VaultMessage} (hm : Aside m) (n : VaultNode) :
    m.action X db ≠ .update n := by
  intro h
  cases m with
  | createPlayer =>
    simp only [VaultMessage.action] at h
    split at h <;> cases h
  | updateNode => exact hm.elim
  | _ => cases h

lemma Identified.lookup [DecidableEq ι] {p : UInt32} {o : Outcome VaultNode}
    (h : Identified db.graph ls)
    (ho : processVaultMessage X env (.getPlayerInfoNode p) db = some o) :
    Identified o.db.graph
      (Function.update ls i ((ls i).next (.vault (.getPlayerInfoNode p)) o.reply)) ∧
      db.graph.Keeps o.db.graph := by
  have hgraph : o.db.graph = db.graph := (processVaultMessage_graph X env ho).1
  rw [hgraph]
  exact ⟨h.update h.steady (.refl _) fun k hk =>
    Session.held_of_lookup h.steady.own (h.held i) ho hk, .refl _⟩

lemma Identified.turn [DecidableEq ι] {k : UInt32} {online : Int32} {name : String} {u : Uuid}
    {o : Outcome Unit} (h : Identified db.graph ls) (hk : (ls i).Holds k)
    (ho : processVaultMessage X env
      (.updateNode (VaultPlayerInfoNode.newUpdate k online name u)) db =
      some o) :
    Identified o.db.graph (Function.update ls i ((ls i).next (.vault (.updateNode
      (VaultPlayerInfoNode.newUpdate k online name u))) o.reply)) ∧ db.graph.Keeps o.db.graph := by
  obtain ⟨hsteady, hkeeps⟩ := h.steady.apply
    (a := .update (VaultPlayerInfoNode.newUpdate k online name u)) trivial fun n hn =>
      ⟨k, online, name, u, (Action.update.inj hn).symm, h.held i k hk⟩
  rw [(processVaultMessage_graph X env ho).1]
  exact ⟨h.update hsteady hkeeps fun j hj => absurd hj (Session.not_holds_update hk _ j), hkeeps⟩

lemma Identified.vault [DecidableEq ι] {m : VaultMessage} {o : Outcome m.Reply}
    (h : Identified db.graph ls) (hm : WorkerAsks (ls i).worker (ls i).doing (.vault m))
    (hfine : Allows db.graph (m.action X db)) (ho : processVaultMessage X env m db = some o) :
    Identified o.db.graph (Function.update ls i ((ls i).next (.vault m) o.reply)) ∧
      db.graph.Keeps o.db.graph := by
  have hgraph := (processVaultMessage_graph X env ho).1
  have haside (hm' : Aside m) : Identified o.db.graph
      (Function.update ls i ((ls i).next (.vault m) o.reply)) ∧ db.graph.Keeps o.db.graph := by
    obtain ⟨hsteady, hkeeps⟩ := h.steady.apply hfine fun n hn => absurd hn (action_ne_update hm' n)
    rw [hgraph]
    exact ⟨h.weaken hsteady hkeeps (Session.weaker_vault o.reply hm' hm), hkeeps⟩
  generalize hd : (ls i).doing = d at hm
  cases hm with
  | checkOnline => exact h.lookup ho
  | findInfo hw => exact h.lookup ho
  | signIn => exact h.turn (.inl ⟨_, hd⟩) ho
  | signOut => exact h.turn (.inr hd) ho
  | look hm => cases m <;> first | exact haside trivial | exact hm.elim
  | _ => exact haside trivial

lemma identified_initial (challenges : ι → UInt32) :
    Identified initial.graph fun i => Session.start (challenges i) := by
  have hchild : ∀ r ∈ initial.graph.refs.keys, r.child = 1001 := by decide
  refine ⟨⟨fun k n hk => (sound_initial.own k n hk).1, only_of_keys (by decide) (by decide),
    only_of_keys (by decide) (by decide), fun p r hr r' hr' _ _ _ _ => ?_⟩, ?_⟩
  · rw [hchild r hr, hchild r' hr']
  · rintro i k (⟨p, hp⟩ | hk)
    · cases hp
    · cases hk

variable [DecidableEq ι] {s t : WorkerPool ι}

/-- The rule for the server's nodes, and for the info node of a player that has one. -/
lemma Identified.runs {p k : UInt32} (h : Runs (serveWorkers X) (KeepsIdentity X) s t)
    (hC : ∀ i, (s.clients i).prog.Keeps workerContract (fun _ _ => True) (s.owns i))
    (hs : Identified s.server.graph s.owns) (hk : InfoOf s.server.graph p k) :
    Steady t.server.graph ∧ InfoOf t.server.graph p k := by
  have hinfo {g g' : Graph} (hg : g.Keeps g') (hk : InfoOf g p k) : InfoOf g' p k := by
    obtain ⟨hchild, hk⟩ := hk
    obtain ⟨⟨q, b⟩, hb, rfl⟩ := Option.map_eq_some_iff.1 hk
    obtain ⟨b', hb'⟩ := hg.info k q b hb
    exact ⟨hg.child q k hchild, by rw [hb']; rfl⟩
  have hkeep := runs_keep_from (I := fun db ls => Identified db.graph ls ∧ InfoOf db.graph p k) h hC
    ⟨hs, hk⟩
    (fun db ls i c r hI hc _ => ⟨hI.1.weaken hI.1.steady (.refl _) (Session.weaker_own r hc), hI.2⟩)
    (fun db ls i env m o hI hm hfine ho => by
      obtain ⟨hidentified, hkeeps⟩ := hI.1.vault hm hfine ho
      exact ⟨hidentified, hinfo hkeeps hI.2⟩)
  exact ⟨hkeep.1.1.steady, hkeep.1.2⟩

/-- **The server's nodes stay the same ones**: in every run in which no request creates or refers
to a node that could be taken for one of them, `get_system_node` and `get_all_players_node` return
the nodes of `init_vault`, and a player whose info node was found once keeps that info node,
whatever the iteration orders. -/
theorem server_nodes_stable (sdl : SdlHost X) (config : ServerConfig) (challenges : ι → UInt32)
    (events : ι → List Event)
    (h : Runs (serveWorkers X) (KeepsIdentity X)
      (workerPool sdl config challenges events initial) s) :
    (∀ env, DbMemory.getSystemNode env s.server = .ok 1000) ∧
    (∀ env, DbMemory.getAllPlayersNode env s.server = .ok 1002) ∧
    ∀ t, Runs (serveWorkers X) (KeepsIdentity X) s t → ∀ env p n,
      DbMemory.getPlayerInfoNode env p s.server = some (.ok n) → ∀ env', ∃ n',
        DbMemory.getPlayerInfoNode env' p t.server = some (.ok n') ∧ n'.nodeId = n.nodeId := by
  obtain ⟨hs, hC⟩ := runs_keep_from (I := fun db ls => Identified db.graph ls) h
    (fun _ => Worker.keeps_startWorker _ _) (identified_initial challenges)
    (fun db ls i c r hI hc _ => hI.weaken hI.steady (.refl _) (Session.weaker_own r hc))
    (fun db ls i env m o hI hm hfine ho => (hI.vault hm hfine ho).1)
  refine ⟨firstKey_of_only hs.steady.system, firstKey_of_only hs.steady.allPlayers, ?_⟩
  intro t ht env p n hn env'
  obtain ⟨hsteady, hinfo⟩ := hs.runs ht hC (infoOf_of_getPlayerInfoNode hs.steady.own hn)
  exact getPlayerInfoNode_of_infoOf hsteady hinfo env'

end Runs

/-! ### A player and an impostor -/

/-- The id of the info node that is found for a player. -/
def infoNodeId (db : Backend) (p : UInt32) : Option UInt32 :=
  match DbMemory.getPlayerInfoNode (Env.plain 0) p db with
  | some (.ok n) => some n.nodeId
  | _ => none

theorem rivals_nodes_stable : ∃ s t,
    Runs (serveWorkers smallCrates) (KeepsIdentity smallCrates) rivals s ∧
    Runs (serveWorkers smallCrates) (KeepsIdentity smallCrates) s t ∧
    (t.owns 0).worker.playerId = some 1003 ∧
    DbMemory.getSystemNode (Env.plain 0) s.server = .ok 1000 ∧
    ∃ n, DbMemory.getPlayerInfoNode (Env.plain 0) 1003 t.server = some (.ok n) ∧
      n.nodeId = 1004 := by
  have hrun : ((rivals.replay (serveWorkers smallCrates) (KeepsIdentity smallCrates)
      (steps [(79, 0)])).bind fun s => (s.replay (serveWorkers smallCrates)
        (KeepsIdentity smallCrates) (steps [(4, 0)])).map fun t =>
          (infoNodeId s.server 1003, (t.owns 0).worker.playerId)) =
      some (some 1004, some 1003) := by
    decide +kernel
  obtain ⟨s, hs, hrest⟩ := Option.bind_eq_some_iff.1 hrun
  obtain ⟨t, ht, heq⟩ := Option.map_eq_some_iff.1 hrest
  obtain ⟨hinfo, hplayer⟩ := Prod.mk.inj heq
  have hruns := Runs.start.replay hs
  have hlater := Runs.start.replay ht
  unfold infoNodeId at hinfo
  split at hinfo
  · rename_i n hn
    have hfound : n.nodeId = 1004 := Option.some.inj hinfo
    obtain ⟨hsystem, -, hstays⟩ := server_nodes_stable _ _ _ _ hruns
    obtain ⟨n', hn', hid⟩ := hstays t hlater _ _ _ hn (Env.plain 0)
    exact ⟨s, t, hruns, hlater, hplayer, hsystem _, n', hn', hid.trans hfound⟩
  · cases hinfo

/-- A client that creates a system node of its own. -/
def impostor : WorkerPool Unit := smallPool fun _ =>
  [.message (.vaultNodeCreate 1 [128, 0, 0, 0, 0, 0, 0, 0, 24, 0, 0, 0])]

theorem impostor_replaces_system_node :
    ∃ s, Runs (serveWorkers smallCrates) (fun _ _ _ _ => True) impostor s ∧
      DbMemory.getSystemNode (Env.plain 0) s.server = .ok 1003 := by
  have hrun : ((impostor.replay (serveWorkers smallCrates) (fun _ _ _ _ => True)
      (steps [(4, ())])).map fun s => DbMemory.getSystemNode (Env.plain 0) s.server) =
        some (.ok 1003) := by
    decide +kernel
  obtain ⟨s, hs, heq⟩ := Option.map_eq_some_iff.1 hrun
  exact ⟨s, Runs.start.replay hs, heq⟩

end Moulars.Auth
