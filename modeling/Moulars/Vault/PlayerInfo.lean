import Moulars.Vault.Server

/-!
Players as the vault knows them: which info nodes there are, for which players, which of them
are online, and what requests do to that.

`Graph.infoAt` forgets everything else about a node. An update from `new_update` only turns its
flag, and a node that is created under a free id leaves all others as they are.
-/

namespace Moulars.Vault

open Lib.Hash Hashes

/-! ### Info nodes -/

/-- What there is to know of a node with this type, player and flag: the player and whether it is
online, if the node is an info node. -/
def infoOf (nodeType : Int32) (playerId : UInt32) (online : Int32) : Option (UInt32 × Bool) :=
  if nodeType = NodeType.playerInfo.code then some (playerId, decide (online ≠ 0)) else none

def VaultNode.info (n : VaultNode) : Option (UInt32 × Bool) :=
  infoOf n.nodeType (VaultPlayerInfoNode.playerId n) (VaultPlayerInfoNode.online n)

lemma VaultNode.info_of_isOf {n : VaultNode} (h : n.isOf .playerInfo = true) :
    n.info = some (VaultPlayerInfoNode.playerId n, decide (VaultPlayerInfoNode.online n ≠ 0)) :=
  if_pos (eq_of_beq h)

lemma VaultNode.info_of_not_isOf {n : VaultNode} (h : n.isOf .playerInfo = false) : n.info = none :=
  if_neg (beq_eq_false_iff_ne.1 h)

lemma VaultNode.info_set_nodeId (n : VaultNode) (k : UInt32) : (n.set .nodeId k).info = n.info := by
  show infoOf ((n.set .nodeId k).val .nodeType) ((n.set .nodeId k).val .uint32_1)
    ((n.set .nodeId k).val .int32_1) = _
  rw [val_set_of_ne _ _ (by decide), val_set_of_ne _ _ (by decide), val_set_of_ne _ _ (by decide)]
  rfl

lemma VaultPlayerInfoNode.info_new (creatorUuid : Uuid) (p : UInt32) (playerName : String) :
    (VaultPlayerInfoNode.new creatorUuid p playerName).info = some (p, false) := rfl

lemma VaultPlayerNode.info_new (accountId : Uuid) (playerName avatarShape : String)
    (explorer : Int32) :
    (VaultPlayerNode.new accountId playerName avatarShape explorer).info = none :=
  rfl

lemma info_updateFields (n : VaultNode) (k : UInt32) (o : Int32) (name : String) (u : Uuid) :
    (updateFields n (VaultPlayerInfoNode.newUpdate k o name u)).info =
      n.info.map fun x => (x.1, decide (o ≠ 0)) := by
  have htype : (VaultPlayerInfoNode.newUpdate k o name u).has .nodeType = false := by
    simp only [VaultPlayerInfoNode.newUpdate, VaultNode.has_set, VaultNode.has_default]
    decide
  have hplayer : (VaultPlayerInfoNode.newUpdate k o name u).has .uint32_1 = false := by
    simp only [VaultPlayerInfoNode.newUpdate, VaultNode.has_set, VaultNode.has_default]
    decide
  have honline : (VaultPlayerInfoNode.newUpdate k o name u).has .int32_1 = true := by
    simp only [VaultPlayerInfoNode.newUpdate, VaultNode.has_set, VaultNode.has_default]
    decide
  show infoOf ((updateFields n _).val .nodeType) ((updateFields n _).val .uint32_1)
    ((updateFields n _).val .int32_1) = _
  rw [updateFields_val _ _ (by decide), updateFields_val _ _ (by decide),
    updateFields_val _ _ (by decide), htype, hplayer, honline]
  show infoOf n.nodeType (VaultPlayerInfoNode.playerId n) o = (infoOf _ _ _).map _
  unfold infoOf
  split <;> rfl

namespace Graph

def infoAt (g : Graph) (k : UInt32) : Option (UInt32 × Bool) :=
  (g.nodes.lookup k).bind VaultNode.info

def Child (g : Graph) (p k : UInt32) : Prop := ∃ owner, (⟨p, k, owner⟩ : NodeRef) ∈ g.refs

def Own (g : Graph) : Prop := ∀ k n, g.nodes.lookup k = some n → n.nodeId = k

lemma infoAt_of_lookup {g : Graph} {k : UInt32} {n : VaultNode} (h : g.nodes.lookup k = some n) :
    g.infoAt k = n.info := by
  rw [infoAt, h]
  rfl

/-! ### What actions do to them -/

section Actions

variable {g : Graph}

lemma infoAt_create (node : VaultNode) (k : UInt32) :
    (g.apply (.create node)).infoAt k = if k = g.next then node.info else g.infoAt k := by
  show ((g.nodes.insert g.next (node.set .nodeId g.next)).lookup k).bind _ = _
  split
  · rename_i hk
    subst hk
    rw [AList.lookup_insert]
    exact VaultNode.info_set_nodeId node g.next
  · rename_i hk
    rw [AList.lookup_insert_ne hk]
    rfl

lemma infoAt_create_of_some {node : VaultNode} {k : UInt32} {x : UInt32 × Bool}
    (hfree : g.nodes.lookup g.next = none) (h : g.infoAt k = some x) :
    (g.apply (.create node)).infoAt k = some x := by
  rw [infoAt_create, if_neg, h]
  rintro rfl
  rw [infoAt, hfree] at h
  cases h

lemma infoAt_create_of_none {node : VaultNode} (hnode : node.info = none)
    (hfree : g.nodes.lookup g.next = none) (k : UInt32) :
    (g.apply (.create node)).infoAt k = g.infoAt k := by
  rw [infoAt_create]
  split
  · rename_i hk
    rw [hnode, hk, infoAt, hfree]
    rfl
  · rfl

lemma apply_newUpdate (k o name u) : g.apply (.update (VaultPlayerInfoNode.newUpdate k o name u)) =
    match g.nodes.lookup k with
    | none => g
    | some old => { g with
        nodes := g.nodes.insert k
          (updateFields old (VaultPlayerInfoNode.newUpdate k o name u)) } := rfl

lemma infoAt_update (k o name u) (j : UInt32) :
    (g.apply (.update (VaultPlayerInfoNode.newUpdate k o name u))).infoAt j =
      if j = k then (g.infoAt k).map fun x => (x.1, decide (o ≠ 0)) else g.infoAt j := by
  rw [apply_newUpdate]
  cases hk : g.nodes.lookup k with
  | none =>
    by_cases hj : j = k
    · rw [if_pos hj, hj, infoAt, hk]
      rfl
    · rw [if_neg hj]
  | some old =>
    show ((g.nodes.insert k _).lookup j).bind _ = _
    by_cases hj : j = k
    · rw [if_pos hj, hj, AList.lookup_insert, infoAt_of_lookup hk]
      exact info_updateFields ..
    · rw [if_neg hj, AList.lookup_insert_ne hj]
      rfl

lemma own_create (h : g.Own) (node : VaultNode) : (g.apply (.create node)).Own := by
  intro k n hk
  by_cases hnext : k = g.next
  · subst hnext
    have hn : (g.nodes.insert g.next (node.set .nodeId g.next)).lookup g.next = some n := hk
    rw [AList.lookup_insert] at hn
    cases hn
    exact VaultNode.val_set_self ..
  · have hn : (g.nodes.insert g.next (node.set .nodeId g.next)).lookup k = some n := hk
    rw [AList.lookup_insert_ne hnext] at hn
    exact h k n hn

lemma own_update (h : g.Own) (node : VaultNode) : (g.apply (.update node)).Own := by
  intro k n hk
  simp only [apply] at hk
  split at hk
  · exact h k n hk
  · rename_i old hold
    by_cases hkey : k = node.nodeId
    · subst hkey
      have hn :
          (g.nodes.insert node.nodeId (updateFields old node)).lookup node.nodeId = some n := hk
      rw [AList.lookup_insert] at hn
      cases hn
      rw [updateFields_nodeId]
      exact h _ _ hold
    · have hn : (g.nodes.insert node.nodeId (updateFields old node)).lookup k = some n := hk
      rw [AList.lookup_insert_ne hkey] at hn
      exact h k n hn

lemma child_apply {p k : UInt32} (h : g.Child p k) (a : Action) : (g.apply a).Child p k := by
  obtain ⟨owner, hr⟩ := h
  cases a with
  | keep => exact ⟨owner, hr⟩
  | create node => exact ⟨owner, hr⟩
  | update node =>
    refine ⟨owner, ?_⟩
    simp only [apply]
    split <;> exact hr
  | ref r => exact ⟨owner, HashSet.mem_add.2 (.inr hr)⟩

/-- Nothing is lost: nodes and references stay, and info nodes stay with their players. -/
structure Keeps (g g' : Graph) : Prop where
  own : g.Own → g'.Own
  nodes : ∀ k, k ∈ g.nodes → k ∈ g'.nodes
  child : ∀ p k, g.Child p k → g'.Child p k
  info : ∀ k p b, g.infoAt k = some (p, b) → ∃ b', g'.infoAt k = some (p, b')

/-- Nothing is lost and no flag is turned. -/
structure Grows (g g' : Graph) : Prop where
  own : g.Own → g'.Own
  nodes : ∀ k, k ∈ g.nodes → k ∈ g'.nodes
  child : ∀ p k, g.Child p k → g'.Child p k
  info : ∀ k x, g.infoAt k = some x → g'.infoAt k = some x

lemma Keeps.refl (g : Graph) : g.Keeps g := ⟨id, fun _ => id, fun _ _ => id, fun _ _ b h => ⟨b, h⟩⟩

lemma Keeps.isSome {g g' : Graph} (h : g.Keeps g') {k : UInt32} (hk : (g.infoAt k).isSome) :
    (g'.infoAt k).isSome := by
  obtain ⟨⟨p, b⟩, hb⟩ := Option.isSome_iff_exists.1 hk
  obtain ⟨b', hb'⟩ := h.info k p b hb
  rw [hb']
  rfl

lemma Grows.refl (g : Graph) : g.Grows g := ⟨id, fun _ => id, fun _ _ => id, fun _ _ => id⟩

lemma Grows.keeps {g g' : Graph} (h : g.Grows g') : g.Keeps g' :=
  ⟨h.own, h.nodes, h.child, fun k _ b hk => ⟨b, h.info k _ hk⟩⟩

lemma grows_create (node : VaultNode) (hfree : g.nodes.lookup g.next = none) :
    g.Grows (g.apply (.create node)) :=
  ⟨fun h => own_create h node, fun _ h => mem_apply h _, fun _ _ h => child_apply h _,
    fun _ _ h => infoAt_create_of_some hfree h⟩

lemma grows_ref (r : NodeRef) : g.Grows (g.apply (.ref r)) :=
  ⟨id, fun _ h => mem_apply h _, fun _ _ h => child_apply h _, fun _ _ => id⟩

lemma keeps_update (k o name u) :
    g.Keeps (g.apply (.update (VaultPlayerInfoNode.newUpdate k o name u))) := by
  refine ⟨fun h => own_update h _, fun _ h => mem_apply h _, fun _ _ h => child_apply h _,
    fun j p b hj => ?_⟩
  rw [infoAt_update]
  split
  · rename_i hjk
    rw [← hjk, hj]
    exact ⟨_, rfl⟩
  · exact ⟨b, hj⟩

end Actions

end Graph

/-! ### What requests answer -/

variable {X : Crates} {env : Env} {db : Backend}

lemma fetchRefs_children (order : List NodeRef) (depth : ℕ) (p : UInt32) :
    DbMemory.fetchRefs order (depth + 1) p false = some (order.filter fun r => r.parent = p) := by
  have hfold : ∀ (l acc : List NodeRef), l.foldlM (fun refs nodeRef =>
      if nodeRef.parent = p then some (refs ++ [nodeRef]) else some refs) acc =
        some (acc ++ l.filter fun r => r.parent = p) := by
    intro l
    induction l with
    | nil => simp
    | cons x l ih =>
      intro acc
      by_cases hx : x.parent = p <;> simp [hx, ih]
  simpa [DbMemory.fetchRefs] using hfold order []

lemma mem_fetchRefs {order : List NodeRef} {depth : ℕ} {p : UInt32} {r : NodeRef}
    {refs : List NodeRef} (h : DbMemory.fetchRefs order (depth + 1) p false = some refs) :
    r ∈ refs ↔ r ∈ order ∧ r.parent = p := by
  rw [fetchRefs_children] at h
  cases h
  simp

/-- `get_player_info_node` finds an info node of the player among its children, if there is one. -/
lemma getPlayerInfoNode_spec {p : UInt32} {o : Outcome VaultNode} (hown : db.graph.Own)
    (h : processVaultMessage X env (.getPlayerInfoNode p) db = some o) :
    match o.reply with
    | .ok n => db.graph.Child p n.nodeId ∧
        db.graph.infoAt n.nodeId = some (p, decide (VaultPlayerInfoNode.online n ≠ 0))
    | .error _ => ∀ k b, db.graph.Child p k → db.graph.infoAt k ≠ some (p, b) := by
  obtain ⟨reply, hreply, rfl⟩ := Option.map_eq_some_iff.1 h
  obtain ⟨refs, hrefs, hreply⟩ := Option.bind_eq_some_iff.1 hreply
  have hmem (r : NodeRef) : r ∈ refs ↔ r ∈ db.nodeRefs ∧ r.parent = p := by
    rw [mem_fetchRefs hrefs, Order.mem_run]
    rfl
  dsimp only at hreply
  split at hreply
  · rename_i n hn
    cases hreply
    obtain ⟨r, hr, hfound⟩ := List.exists_of_findSome?_eq_some hn
    obtain ⟨m, hm, hfound⟩ := Option.bind_eq_some_iff.1 hfound
    obtain ⟨info, hinfo, hfound⟩ := Option.bind_eq_some_iff.1 hfound
    obtain ⟨hof, rfl⟩ := VaultNode.asNode_eq_some.1 hinfo
    split at hfound
    · rename_i hplayer
      cases hfound
      obtain ⟨hr, rfl⟩ := (hmem r).1 hr
      have hid : n.nodeId = r.child := hown _ _ hm
      have hinfo : db.graph.infoAt r.child = n.info := Graph.infoAt_of_lookup hm
      dsimp only
      rw [hid, hinfo, VaultNode.info_of_isOf hof, hplayer]
      exact ⟨⟨r.owner, hr⟩, rfl⟩
    · cases hfound
  · rename_i hn
    cases hreply
    rintro k b ⟨owner, hr⟩ hk
    have hnone := List.findSome?_eq_none_iff.1 hn ⟨p, k, owner⟩ ((hmem _).2 ⟨hr, rfl⟩)
    obtain ⟨n, hlookup, hinfo⟩ := Option.bind_eq_some_iff.1 hk
    have hlookup' : db.vault.lookup k = some n := hlookup
    unfold VaultNode.info infoOf at hinfo
    split at hinfo
    · rename_i htype
      cases hinfo
      have hof : n.asPlayerInfoNode = some n :=
        VaultNode.asNode_eq_some.2 ⟨beq_iff_eq.2 htype, rfl⟩
      simp [hlookup', hof] at hnone
    · cases hinfo

lemma updateNode_ok {k : UInt32} {x : UInt32 × Bool} {n : VaultNode} {o : Outcome Unit}
    (hn : n.nodeId = k) (hk : db.graph.infoAt k = some x)
    (h : processVaultMessage X env (.updateNode n) db = some o) : o.reply = .ok () := by
  obtain ⟨old, hold, -⟩ := Option.bind_eq_some_iff.1 hk
  subst hn
  have hold' : db.vault.lookup n.nodeId = some old := hold
  cases h
  simp [updateNode, DbMemory.updateNode, hold']

lemma createNode_ok {node : VaultNode} {o : Outcome UInt32}
    (hfree : db.vault.lookup db.nodeIndex = none)
    (h : processVaultMessage X env (.createNode node) db = some o) :
    o.reply = .ok db.nodeIndex := by
  cases h
  simp [DbMemory.createNode, hfree]

lemma createPlayer_ok {accountId : Uuid} {playerName avatarShape : String} {player : PlayerInfo}
    {o : Outcome PlayerInfo} (hreply : o.reply = .ok player)
    (h : processVaultMessage X env (.createPlayer accountId playerName avatarShape) db = some o) :
    player.playerId = db.graph.next ∧ o.db.graph =
      db.graph.apply (.create (VaultPlayerNode.new accountId playerName avatarShape 1)) := by
  obtain ⟨hgraph, hid⟩ := processVaultMessage_graph X env h
  rw [hreply] at hid
  have hid' : some player.playerId = _ := hid
  simp only [VaultMessage.action] at hgraph hid'
  split at hgraph
  · rename_i hkeep
    rw [if_pos hkeep] at hid'
    cases hid'
  · rename_i hcreate
    rw [if_neg hcreate, Graph.created] at hid'
    split at hid'
    · cases hid'
    · exact ⟨Option.some.inj hid', hgraph⟩

lemma createPlayer_graph {accountId : Uuid} {playerName avatarShape : String}
    {o : Outcome PlayerInfo}
    (h : processVaultMessage X env (.createPlayer accountId playerName avatarShape) db = some o) :
    o.db.graph = db.graph ∨ ∃ node : VaultNode, node.info = none ∧
      o.db.graph = db.graph.apply (.create node) := by
  obtain ⟨hgraph, -⟩ := processVaultMessage_graph X env h
  simp only [VaultMessage.action] at hgraph
  split at hgraph
  · exact .inl hgraph
  · exact .inr ⟨_, VaultPlayerNode.info_new .., hgraph⟩

end Moulars.Vault
