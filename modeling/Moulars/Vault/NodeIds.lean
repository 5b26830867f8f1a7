import Moulars.Vault.Server

/-!
Node ids: every node is stored under its own id, ids are handed out in sequence and never
twice, and a node that was created can be fetched ever after.
-/

namespace Moulars.Vault

open Lib.Hash Hashes

/-! ### Start-up -/

lemma initVault_new (env : Env) : initVault env Backend.new = (.ok (), initial) := by
  have hrun : env.nodes.run Backend.new.vault.toList = [] :=
    List.perm_nil.mp (env.nodes.perm _)
  have hsys : DbMemory.getSystemNode env Backend.new = .error .netVaultNodeNotFound := by
    simp [DbMemory.getSystemNode, DbMemory.firstKey, hrun]
  unfold initial initVault
  rw [hsys]
  rfl

/-! ### Runs -/

/-- A database with what has been seen of its node creations: the ids returned, latest first,
and how many creations messages have asked for. -/
structure Log where
  db : Backend
  ids : List UInt32
  calls : ℕ

def Action.creations : Action → ℕ
  | .create _ => 1
  | _ => 0

def Log.next (X : Crates) (l : Log) (m : VaultMessage) (o : Outcome m.Reply) : Log :=
  ⟨o.db, (m.createdId o.reply).toList ++ l.ids, l.calls + (m.action X l.db).creations⟩

/-- The log `init_vault` leaves: its three nodes have the first three ids. -/
def Log.initial : Log := ⟨Vault.initial, [1002, 1001, 1000], 0⟩

inductive Reach (X : Crates) : Log → Prop
  | init : Reach X Log.initial
  | step {l : Log} {env : Env} {m : VaultMessage} {o : Outcome m.Reply} :
      Reach X l → processVaultMessage X env m l.db = some o → Reach X (l.next X m o)

/-! ### The invariant -/

/-- Nodes are stored under their own ids, the ids are those below `next` from 1000 on, and the
ids returned are the ids of the nodes, each returned once. -/
structure Sound (g : Graph) (ids : List UInt32) (calls : ℕ) : Prop where
  next : g.next.toNat = 1003 + calls
  own : ∀ k n, g.nodes.lookup k = some n → n.nodeId = k ∧ n.has .nodeId = true
  range : ∀ k, k ∈ g.nodes → 1000 ≤ k.toNat ∧ k.toNat < g.next.toNat
  mem : ∀ k, k ∈ ids ↔ k ∈ g.nodes
  nodup : ids.Nodup
  count : ids.length = 3 + calls

lemma sound_initial : Sound initial.graph Log.initial.ids 0 := by
  have hkeys : initial.graph.nodes.keys = [1002, 1001, 1000] := rfl
  have hmem : ∀ k : UInt32, k ∈ initial.graph.nodes ↔ k = 1002 ∨ k = 1001 ∨ k = 1000 := by
    intro k
    rw [AList.mem_keys, hkeys]
    simp
  refine ⟨rfl, fun k n h => ?_, fun k h => ?_, fun k => ?_, by decide, rfl⟩
  · have hk := (hmem k).mp (AList.lookup_isSome.mp (by rw [h]; rfl))
    rcases hk with rfl | rfl | rfl
    all_goals
      obtain rfl := Option.some.inj h
      exact ⟨rfl, rfl⟩
  · rcases (hmem k).mp h with rfl | rfl | rfl <;> decide
  · rw [hmem]
    simp [Log.initial]

namespace Sound

variable {g : Graph} {ids : List UInt32} {calls : ℕ} (h : Sound g ids calls)
include h

lemma next_not_mem : g.next ∉ g.nodes := fun hm =>
  absurd (h.range _ hm).2 (lt_irrefl _)

lemma lookup_next : g.nodes.lookup g.next = none :=
  AList.lookup_eq_none.mpr h.next_not_mem

lemma created_create (node : VaultNode) :
    g.created (.create node) = some g.next := by
  simp [Graph.created, h.lookup_next]

lemma create (node : VaultNode) (hc : calls + 1 < 2 ^ 32 - 1003) :
    Sound (g.apply (.create node)) (g.next :: ids) (calls + 1) := by
  have hnext : (g.next + 1).toNat = 1003 + (calls + 1) := by
    rw [UInt32.toNat_add, h.next]
    show (1003 + calls + 1) % 2 ^ 32 = _
    omega
  refine ⟨hnext, fun k n hk => ?_, fun k hk => ?_, fun k => ?_, ?_, ?_⟩
  · by_cases hkn : k = g.next
    · subst hkn
      obtain rfl : node.set .nodeId g.next = n := by simpa [Graph.apply] using hk
      exact ⟨VaultNode.val_set_self .., by simp⟩
    · exact h.own k n (by rwa [Graph.apply, AList.lookup_insert_ne hkn] at hk)
  · have hlt : k.toNat < g.next.toNat + 1 ∧ 1000 ≤ k.toNat := by
      rcases (AList.mem_insert _).mp hk with rfl | hk
      · have := h.next
        omega
      · have := h.range k hk
        omega
    show 1000 ≤ k.toNat ∧ k.toNat < (g.next + 1).toNat
    have := h.next
    omega
  · rw [List.mem_cons, h.mem]
    exact (AList.mem_insert _).symm
  · exact List.nodup_cons.mpr ⟨fun hm => h.next_not_mem ((h.mem _).mp hm), h.nodup⟩
  · rw [List.length_cons, h.count]
    omega

lemma update (node : VaultNode) :
    Sound (g.apply (.update node)) ids calls := by
  rw [Graph.apply]
  cases hl : g.nodes.lookup node.nodeId with
  | none => exact h
  | some old =>
    have hin : node.nodeId ∈ g.nodes := AList.lookup_isSome.mp (by rw [hl]; rfl)
    -- the key was there before, so the set of keys is the same
    have hmem : ∀ k, k ∈ g.nodes.insert node.nodeId (updateFields old node) ↔ k ∈ g.nodes := by
      intro k
      rw [AList.mem_insert]
      exact ⟨fun hk => hk.elim (fun e => e ▸ hin) id, .inr⟩
    refine ⟨h.next, fun k n hk => ?_, fun k hk => h.range k ((hmem k).mp hk),
      fun k => (h.mem k).trans (hmem k).symm, h.nodup, h.count⟩
    by_cases hkn : k = node.nodeId
    · subst hkn
      obtain rfl : updateFields old node = n := by simpa using hk
      obtain ⟨hid, hhas⟩ := h.own _ _ hl
      exact ⟨by rw [updateFields_nodeId, hid], by simp [hhas]⟩
    · exact h.own k n (by rwa [AList.lookup_insert_ne hkn] at hk)

lemma apply (a : Action) (hc : calls + a.creations < 2 ^ 32 - 1003) :
    Sound (g.apply a) ((g.created a).toList ++ ids) (calls + a.creations) := by
  cases a with
  | keep => exact h
  | create node =>
    rw [h.created_create node]
    exact h.create node hc
  | update node => exact h.update node
  | ref r => exact ⟨h.next, h.own, h.range, h.mem, h.nodup, h.count⟩

end Sound

variable {X : Crates}

lemma Reach.sound {l : Log} (h : Reach X l) (hc : l.calls < 2 ^ 32 - 1003) :
    Sound l.db.graph l.ids l.calls := by
  induction h with
  | init => exact sound_initial
  | @step l env m o _ ho ih =>
    obtain ⟨hgraph, hid⟩ := processVaultMessage_graph X env ho
    have hl := ih (lt_of_le_of_lt (Nat.le_add_right _ _) hc)
    simp only [Log.next, hgraph, hid]
    exact hl.apply _ hc

/-- **Node ids**: in every state reached with fewer than `2 ^ 32 - 1003` node creations, every
node is stored under its own id, which lies between 1000 and the next id; no id was returned
twice; a creation returns the next id, which was never returned and holds no node, and
overwrites nothing; and every id ever returned can be fetched. -/
theorem vault_ids_unique_and_fetchable {l : Log} (h : Reach X l)
    (hc : l.calls < 2 ^ 32 - 1003) :
    (∀ k n, l.db.vault.lookup k = some n →
      n.nodeId = k ∧ n.has .nodeId = true ∧ 1000 ≤ k.toNat ∧ k.toNat < l.db.nodeIndex.toNat) ∧
    (l.ids.Nodup ∧ l.ids.length = 3 + l.calls) ∧
    (∀ node, (DbMemory.createNode node l.db).1 = .ok l.db.nodeIndex ∧
      l.db.nodeIndex ∉ l.ids ∧ l.db.vault.lookup l.db.nodeIndex = none ∧
      ∀ k n, l.db.vault.lookup k = some n →
        (DbMemory.createNode node l.db).2.vault.lookup k = some n) ∧
    (∀ nodeId ∈ l.ids, ∀ env, ∃ node,
      processVaultMessage X env (.fetchNode nodeId) l.db = some ⟨.ok node, l.db, []⟩) := by
  have hs := h.sound hc
  have hnone : l.db.vault.lookup l.db.nodeIndex = none := hs.lookup_next
  refine ⟨fun k n hk => ?_, ⟨hs.nodup, hs.count⟩, fun node => ⟨?_, ?_, hnone, fun k n hk => ?_⟩,
    fun nodeId hid env => ?_⟩
  · obtain ⟨hid, hhas⟩ := hs.own k n hk
    exact ⟨hid, hhas, hs.range k (AList.lookup_isSome.mp (Option.isSome_of_mem hk))⟩
  · rw [createNode_fst, hs.created_create node]
    rfl
  · exact fun hm => hs.next_not_mem ((hs.mem _).mp hm)
  · have hne : k ≠ l.db.nodeIndex := by
      rintro rfl
      rw [hnone] at hk
      cases hk
    rw [createNode_snd]
    exact (AList.lookup_insert_ne hne).trans hk
  · obtain ⟨node, hnode⟩ := Option.isSome_iff_exists.mp
      (AList.lookup_isSome.mpr ((hs.mem nodeId).mp hid))
    refine ⟨node, ?_⟩
    have : DbMemory.fetchNode nodeId l.db = .ok node := by
      simp only [DbMemory.fetchNode]
      rw [show l.db.vault.lookup nodeId = some node from hnode]
    rw [processVaultMessage, this]

def presetNode : VaultNode := VaultNode.default.set .nodeId (7 : UInt32)

def presetLog : Log :=
  Log.initial.next Crates.plain (.createNode presetNode)
    ⟨(DbMemory.createNode presetNode initial).1, (DbMemory.createNode presetNode initial).2, []⟩

theorem vault_ids_after_preset_node :
    presetLog.ids = [1003, 1002, 1001, 1000] ∧
    ∃ node, processVaultMessage Crates.plain (Env.plain 0) (.fetchNode 1003) presetLog.db =
      some ⟨.ok node, presetLog.db, []⟩ :=
  ⟨rfl, (vault_ids_unique_and_fetchable
    (@Reach.step _ _ (Env.plain 0) (.createNode presetNode) _ Reach.init rfl)
    (by decide)).2.2.2 1003 (by decide) (Env.plain 0)⟩

end Moulars.Vault
