import Moulars.Vault.NodeIds

/-!
What single requests answer, as far as clients rely on it: which nodes a lookup by type and
uuid finds, and what it takes for creations to succeed.
-/

namespace Moulars.Vault

open Lib.Hash Hashes

variable {X : Crates} {env : Env}

/-! ### The types of new nodes -/

section Types

variable (u : Uuid) (i : UInt32) (folderType : StandardNode)

@[simp] lemma VaultFolderNode.nodeType_new :
    (VaultFolderNode.new u i folderType).nodeType = NodeType.folder.code := rfl

@[simp] lemma VaultPlayerInfoListNode.nodeType_new :
    (VaultPlayerInfoListNode.new u i folderType).nodeType = NodeType.playerInfoList.code := rfl

@[simp] lemma VaultAgeInfoListNode.nodeType_new :
    (VaultAgeInfoListNode.new u i folderType).nodeType = NodeType.ageInfoList.code := rfl

@[simp] lemma VaultSdlNode.nodeType_new (name : String) (blob : Lib.Wire.Bytes) :
    (VaultSdlNode.new u i name blob).nodeType = NodeType.sdl.code := rfl

end Types

/-! ### Lookups by type and uuid -/

/-- A node of type `t` for the instance `u`. -/
def VaultNode.IsFor (t : NodeType) (u : Uuid) (n : VaultNode) : Prop :=
  n.nodeType = t.code ∧ n.val .uuid_1 = u

instance (t : NodeType) (u : Uuid) (n : VaultNode) : Decidable (n.IsFor t u) :=
  inferInstanceAs (Decidable (_ ∧ _))

lemma VaultAgeNode.isFor_new (u parent : Uuid) (name : String) :
    (VaultAgeNode.new u parent name).IsFor .age u := by
  unfold VaultAgeNode.new
  dsimp only
  split <;> exact ⟨rfl, rfl⟩

lemma VaultAgeInfoNode.isFor_new (u : Uuid) (ageId : UInt32) (seqNumber : Int32)
    (isPublic : Bool) (language : Int32) (parent : Uuid)
    (ageFilename instanceName userName description : String) :
    (VaultAgeInfoNode.new u ageId seqNumber isPublic language parent ageFilename instanceName
      userName description).IsFor .ageInfo u := by
  unfold VaultAgeInfoNode.new
  dsimp only
  split <;> split <;> split <;> split <;> exact ⟨rfl, rfl⟩

def Backend.idsFor (t : NodeType) (u : Uuid) (db : Backend) : List UInt32 :=
  (db.vault.toList.map Prod.snd).filterMap fun n => if n.IsFor t u then some n.nodeId else none

/-- The template that both kinds of lookup by uuid use. -/
def lookupFor (t : NodeType) (u : Uuid) : VaultNode :=
  (VaultNode.default.set .nodeType t.code).set .uuid_1 u

lemma nodeMatch_lookupFor {t : NodeType} {u : Uuid} {n : VaultNode} :
    nodeMatch X (lookupFor t u) n = true ↔ n.IsFor t u := by
  have htype : (lookupFor t u).val .nodeType = t.code := rfl
  have huuid : (lookupFor t u).val .uuid_1 = u := rfl
  have hhas (f : Field) : (lookupFor t u).has f = true ↔ f = .nodeType ∨ f = .uuid_1 := by
    simp only [lookupFor, VaultNode.has_set, VaultNode.has_default, Bool.false_or,
      Bool.or_eq_true, decide_eq_true_eq]
    exact or_congr eq_comm eq_comm
  rw [nodeMatch_iff]
  constructor
  · intro h
    have h₁ := h .nodeType (by decide) ((hhas _).2 (.inl rfl))
    have h₂ := h .uuid_1 (by decide) ((hhas _).2 (.inr rfl))
    rw [htype] at h₁
    rw [huuid] at h₂
    exact ⟨of_decide_eq_true h₁, of_decide_eq_true h₂⟩
  · rintro ⟨h₁, h₂⟩ f - hf
    rcases (hhas f).1 hf with rfl | rfl
    · exact decide_eq_true (h₁.trans htype.symm)
    · exact decide_eq_true (h₂.trans huuid.symm)

lemma findNodes_lookupFor (t : NodeType) (u : Uuid) (db : Backend) :
    ∃ ids, DbMemory.findNodes X env (lookupFor t u) db = .ok ids ∧ ids.Perm (db.idsFor t u) := by
  refine ⟨_, rfl, ?_⟩
  simp only [nodeMatch_lookupFor]
  exact ((env.nodes.perm _).map _).filterMap _

/-! ### Creations -/

/-- There are `n` more ids for nodes, the next place for a game server is free if `m` is not
zero, and there is a system node. -/
structure Backend.Usable (db : Backend) (n m : ℕ) : Prop where
  free : ∀ k, db.nodeIndex ≤ k → db.vault.lookup k = none
  room : db.nodeIndex.toNat + n < 2 ^ 32
  slot : 0 < m → db.gameServers.lookup db.gameIndex = none
  system : ∃ k node, db.vault.lookup k = some node ∧ node.isOf .system

lemma Reach.usable {l : Log} (h : Reach X l) {n m : ℕ} (hc : l.calls + n < 2 ^ 32 - 1003)
    (hslot : 0 < m → l.db.gameServers.lookup l.db.gameIndex = none)
    (hsystem : ∃ k node, l.db.vault.lookup k = some node ∧ node.isOf .system) :
    l.db.Usable n m := by
  have hs := h.sound (by omega)
  have hnext : l.db.nodeIndex.toNat = 1003 + l.calls := hs.next
  refine ⟨fun k hk => AList.lookup_eq_none.2 fun hm => ?_, by omega, hslot, hsystem⟩
  have hlt : k.toNat < l.db.nodeIndex.toNat := (hs.range k hm).2
  have hle := UInt32.le_iff_toNat_le.1 hk
  omega

namespace Backend.Usable

variable {db : Backend} {n m : ℕ}

lemma lookup_next (h : db.Usable n m) : db.vault.lookup db.nodeIndex = none :=
  h.free _ (UInt32.le_refl _)

lemma createNode (h : db.Usable (n + 1) m) (node : VaultNode) :
    (DbMemory.createNode node db).1 = .ok db.nodeIndex ∧
      (DbMemory.createNode node db).2.Usable n m := by
  have hnext := h.lookup_next
  have hroom := h.room
  have hsucc : (db.nodeIndex + 1).toNat = db.nodeIndex.toNat + 1 := by
    rw [UInt32.toNat_add]
    show (db.nodeIndex.toNat + 1) % 2 ^ 32 = _
    omega
  refine ⟨by simp [DbMemory.createNode, hnext], ?_⟩
  rw [createNode_snd]
  refine ⟨fun k hk => ?_, by show (db.nodeIndex + 1).toNat + n < _; omega, h.slot, ?_⟩
  · have hle : db.nodeIndex.toNat + 1 ≤ k.toNat := hsucc ▸ UInt32.le_iff_toNat_le.1 hk
    have hne : k ≠ db.nodeIndex := fun he => by
      rw [he] at hle
      omega
    rw [AList.lookup_insert_ne hne]
    exact h.free k (UInt32.le_iff_toNat_le.2 (by omega))
  · obtain ⟨k, sys, hk, hsys⟩ := h.system
    have hne : k ≠ db.nodeIndex := by
      rintro rfl
      rw [hnext] at hk
      cases hk
    exact ⟨k, sys, (AList.lookup_insert_ne hne).trans hk, hsys⟩

lemma idsFor_createNode (h : db.Usable n m) (node : VaultNode) (t : NodeType) (u : Uuid) :
    (DbMemory.createNode node db).2.idsFor t u =
      (if node.IsFor t u then [db.nodeIndex] else []) ++ db.idsFor t u := by
  have hfor : (node.set .nodeId db.nodeIndex).IsFor t u ↔ node.IsFor t u := by
    simp only [VaultNode.IsFor, VaultNode.nodeType]
    rw [VaultNode.val_set_of_ne _ _ (by decide), VaultNode.val_set_of_ne _ _ (by decide)]
  have hid : (node.set .nodeId db.nodeIndex).nodeId = db.nodeIndex := VaultNode.val_set_self ..
  have hnot : db.nodeIndex ∉ db.vault := AList.lookup_eq_none.1 h.lookup_next
  rw [createNode_snd, idsFor, idsFor, HashMap.toList, AList.entries_insert_of_notMem hnot]
  by_cases hn : node.IsFor t u
  · rw [List.map_cons, List.map_cons, List.filterMap_cons_some (by rw [if_pos (hfor.2 hn)]), hid,
      if_pos hn]
    rfl
  · rw [List.map_cons, List.map_cons, List.filterMap_cons_none (by rw [if_neg (hfor.not.2 hn)]),
      if_neg hn]
    rfl

lemma getSystemNode (h : db.Usable n m) : ∃ k, DbMemory.getSystemNode env db = .ok k := by
  obtain ⟨k, node, hk, hsys⟩ := h.system
  have hmem : (k, node) ∈ env.nodes.run db.vault.toList := by
    rw [Order.mem_run, HashMap.mem_toList]
    exact hk
  simp only [DbMemory.getSystemNode, DbMemory.firstKey]
  cases hf : (env.nodes.run db.vault.toList).find? fun e => e.2.isOf .system with
  | some e => exact ⟨e.1, rfl⟩
  | none => exact absurd hsys (List.find?_eq_none.1 hf _ hmem)

lemma addGameServer (h : db.Usable n (m + 1)) (server : GameServer) :
    (DbMemory.addGameServer server db).1 = .ok () ∧
      (DbMemory.addGameServer server db).2.Usable n 0 ∧
      (DbMemory.addGameServer server db).2.vault = db.vault := by
  have hslot := h.slot (Nat.succ_pos m)
  simp only [DbMemory.addGameServer, hslot]
  exact ⟨rfl, ⟨h.free, h.room, fun hpos => absurd hpos (Nat.lt_irrefl 0), h.system⟩, rfl⟩

end Backend.Usable

end Moulars.Vault
