import Moulars.Vault.Interface

/-!
The in-memory vault database.

Every function takes the database and returns its reply with the database it leaves. Counters
wrap, as they do in a release build. Iterations over the tables follow the orders of the
request's `Env`.
-/

namespace Moulars.Vault

open Lib.Wire Lib.Text Lib.Hash Hashes

structure Backend where
  accounts : HashMap String AccountInfo
  players : HashMap Uuid (List PlayerInfo)
  gameServers : HashMap UInt32 GameServer
  gameIndex : UInt32
  vault : HashMap UInt32 VaultNode
  nodeRefs : HashSet NodeRef
  nodeIndex : UInt32

def Backend.new : Backend := ⟨∅, ∅, ∅, 1, ∅, ∅, 1000⟩

/-! ### Matching and merging nodes -/

/-- The fields `node_match` compares, in the order of its clauses. -/
def matchFields : List Field :=
  [.createTime, .modifyTime, .createAgeName, .createAgeUuid, .creatorUuid, .creatorId,
    .nodeType, .int32_1, .int32_2, .int32_3, .int32_4, .uint32_1, .uint32_2, .uint32_3, .uint32_4,
    .uuid_1, .uuid_2, .uuid_3, .uuid_4, .string64_1, .string64_2, .string64_3, .string64_4,
    .string64_5, .string64_6, .istring64_1, .istring64_2, .text_1, .text_2, .blob_1, .blob_2]

/-- How `node_match` compares two values of a field: `istring64` fields regardless of case. -/
def sameValue (X : Crates) : (f : Field) → f.Val → f.Val → Bool
  | .istring64_1, a, b => X.unicase a == X.unicase b
  | .istring64_2, a, b => X.unicase a == X.unicase b
  | _, a, b => decide (a = b)

def nodeMatch (X : Crates) (template node : VaultNode) : Bool :=
  matchFields.all fun f => !(template.has f && !sameValue X f (node.val f) (template.val f))

/-- The fields `update_node` copies, in the order of its clauses. -/
def mergeFields : List Field :=
  [.createTime, .modifyTime, .createAgeName, .createAgeUuid, .creatorUuid, .creatorId,
    .nodeType, .int32_1, .int32_2, .int32_3, .int32_4, .uint32_1, .uint32_2, .uint32_3, .uint32_4,
    .uuid_1, .uuid_2, .uuid_3, .uuid_4, .string64_1, .string64_2, .string64_3, .string64_4,
    .string64_5, .string64_6, .istring64_1, .istring64_2, .text_1, .text_2, .blob_1, .blob_2]

/-- The nodes after the fields `fs` present in `newNode` have been copied over. -/
def mergeOver (newNode : VaultNode) (fs : List Field) (node : VaultNode) : VaultNode :=
  fs.foldl (fun node f => if newNode.has f then node.set f (newNode.val f) else node) node

/-- The free function `update_node`: `oldNode` with the fields present in `newNode`. -/
def updateFields (oldNode newNode : VaultNode) : VaultNode := mergeOver newNode mergeFields oldNode

lemma mergeOver_cons (n : VaultNode) (f : Field) (fs : List Field) (m : VaultNode) :
    mergeOver n (f :: fs) m = mergeOver n fs (if n.has f then m.set f (n.val f) else m) := rfl

lemma mergeOver_val (n : VaultNode) (fs : List Field) (m : VaultNode) (g : Field) :
    (mergeOver n fs m).val g = if g ∈ fs ∧ n.has g then n.val g else m.val g := by
  induction fs generalizing m with
  | nil => simp [mergeOver]
  | cons f fs ih =>
    rw [mergeOver_cons, ih]
    by_cases hg : g = f
    · subst hg
      by_cases hn : n.has g <;> simp [hn]
    · by_cases hn : n.has f <;> simp [hn, hg, VaultNode.val_set_of_ne]

lemma mergeOver_has (n : VaultNode) (fs : List Field) (m : VaultNode) (g : Field) :
    (mergeOver n fs m).has g = (m.has g || (decide (g ∈ fs) && n.has g)) := by
  induction fs generalizing m with
  | nil => simp [mergeOver]
  | cons f fs ih =>
    rw [mergeOver_cons, ih]
    by_cases hg : g = f
    · subst hg
      by_cases hn : n.has g <;> simp [hn]
    · have hg' : ¬ f = g := fun h => hg h.symm
      by_cases hn : n.has f <;> simp [hn, hg, hg']

lemma mem_matchFields {f : Field} : f ∈ matchFields ↔ f ≠ .nodeId := by
  cases f <;> decide

lemma mem_mergeFields {f : Field} : f ∈ mergeFields ↔ f ≠ .nodeId := by
  cases f <;> decide

@[simp] lemma updateFields_nodeId (m n : VaultNode) : (updateFields m n).nodeId = m.nodeId := by
  show (updateFields m n).val .nodeId = m.val .nodeId
  rw [updateFields, mergeOver_val, if_neg (by simp [mem_mergeFields])]

@[simp] lemma updateFields_has (m n : VaultNode) (f : Field) :
    (updateFields m n).has f = (m.has f || (decide (f ≠ .nodeId) && n.has f)) := by
  simp [updateFields, mergeOver_has, mem_mergeFields]

lemma updateFields_val (m n : VaultNode) {f : Field} (hf : f ≠ .nodeId) :
    (updateFields m n).val f = if n.has f then n.val f else m.val f := by
  simp [updateFields, mergeOver_val, mem_mergeFields, hf]

lemma nodeMatch_iff {X : Crates} {template node : VaultNode} : nodeMatch X template node = true ↔
    ∀ f, f ≠ .nodeId → template.has f = true →
      sameValue X f (node.val f) (template.val f) = true := by
  simp only [nodeMatch, List.all_eq_true, mem_matchFields]
  refine forall_congr' fun f => imp_congr_right fun _ => ?_
  cases template.has f <;> simp

lemma sameValue_self (X : Crates) (f : Field) (v : f.Val) : sameValue X f v v = true := by
  cases f <;> simp [sameValue]

/-! ### Updates as overrides -/

lemma testBit_set (n : VaultNode) (f : Field) (v : f.Val) (i : ℕ) :
    (n.set f v).fields.toNat.testBit i = (n.fields.toNat.testBit i || decide (f.bit = i)) := by
  show (n.fields ||| f.mask).toNat.testBit i = _
  rw [UInt64.toNat_or, Nat.testBit_or, f.toNat_mask, Nat.testBit_two_pow]

lemma mergeOver_high (n : VaultNode) (fs : List Field) (m : VaultNode) {i : ℕ} (hi : 32 ≤ i) :
    (mergeOver n fs m).fields.toNat.testBit i = m.fields.toNat.testBit i := by
  induction fs generalizing m with
  | nil => rfl
  | cons f fs ih =>
    have hf : f.bit ≠ i := by
      have hlt : f.bit < 32 := by cases f <;> decide
      omega
    rw [mergeOver_cons, ih]
    split
    · rw [testBit_set, decide_eq_false hf, Bool.or_false]
    · rfl

lemma VaultNode.ext_of_fields {m n : VaultNode}
    (hhigh : ∀ i, 32 ≤ i → m.fields.toNat.testBit i = n.fields.toNat.testBit i)
    (hhas : ∀ f, m.has f = n.has f) (hval : ∀ f, m.val f = n.val f) : m = n := by
  refine VaultNode.ext (UInt64.toNat_inj.1 (Nat.eq_of_testBit_eq fun i => ?_)) (funext hval)
  by_cases hi : 32 ≤ i
  · exact hhigh i hi
  · -- the lower bits are those of the fields
    obtain ⟨f, rfl⟩ : ∃ f : Field, f.bit = i := by
      have hall : ∀ j < 32, ∃ f : Field, f.bit = j := by decide
      exact hall i (by omega)
    rw [← present_eq_testBit, ← present_eq_testBit]
    exact hhas f

lemma updateFields_high (m n : VaultNode) {i : ℕ} (hi : 32 ≤ i) :
    (updateFields m n).fields.toNat.testBit i = m.fields.toNat.testBit i :=
  mergeOver_high n mergeFields m hi

lemma updateFields_val_eq (m n : VaultNode) (f : Field) :
    (updateFields m n).val f = if f ≠ .nodeId ∧ n.has f then n.val f else m.val f := by
  simp only [updateFields, mergeOver_val, mem_mergeFields]

lemma updateFields_idem (n a : VaultNode) :
    updateFields (updateFields n a) a = updateFields n a := by
  refine VaultNode.ext_of_fields (fun i hi => updateFields_high _ a hi) (fun f => ?_) fun f => ?_
  · rw [updateFields_has, updateFields_has, Bool.or_assoc, Bool.or_self]
  · rw [updateFields_val_eq, updateFields_val_eq]
    split <;> rfl

lemma updateFields_comm (n : VaultNode) {a b : VaultNode}
    (hab : ∀ f, f ≠ .nodeId → a.has f = false ∨ b.has f = false) :
    updateFields (updateFields n a) b = updateFields (updateFields n b) a := by
  refine VaultNode.ext_of_fields (fun i hi => ?_) (fun f => ?_) fun f => ?_
  · rw [updateFields_high _ _ hi, updateFields_high _ _ hi, updateFields_high _ _ hi,
      updateFields_high _ _ hi]
  · simp only [updateFields_has]
    rw [Bool.or_assoc, Bool.or_assoc, Bool.or_comm (_ && a.has f)]
  · simp only [updateFields_val_eq]
    by_cases hf : f = .nodeId
    · simp [hf]
    · rcases hab f hf with ha | hb
      · simp [ha]
      · simp [hb]

lemma updateFields_assoc (n a b : VaultNode) :
    updateFields (updateFields n a) b = updateFields n (updateFields a b) := by
  refine VaultNode.ext_of_fields (fun i hi => ?_) (fun f => ?_) fun f => ?_
  · rw [updateFields_high _ _ hi, updateFields_high _ _ hi, updateFields_high _ _ hi]
  · simp only [updateFields_has]
    by_cases hf : f = .nodeId <;> simp [hf, Bool.or_assoc]
  · simp only [updateFields_val_eq, updateFields_has]
    by_cases hf : f = .nodeId
    · simp [hf]
    · cases ha : a.has f <;> cases hb : b.has f <;> simp [hf]

lemma nodeMatch_updateFields (X : Crates) (n a : VaultNode) :
    nodeMatch X a (updateFields n a) = true := by
  rw [nodeMatch_iff]
  intro f hf ha
  rw [updateFields_val n a hf, if_pos ha]
  exact sameValue_self X f (a.val f)

/-- **Updates override.** `update_node` gives every field present in the update its value there and
makes it present, and keeps the node id and every other field. It is idempotent, updates without a
field in common commute, two updates in a row are one update by their merge, and an updated node
matches the update it was made with. -/
theorem updateFields_overrides (X : Crates) (n a b : VaultNode) :
    (∀ f, f ≠ .nodeId → a.has f = true →
      (updateFields n a).has f = true ∧ (updateFields n a).val f = a.val f) ∧
    (∀ f, f = .nodeId ∨ a.has f = false →
      (updateFields n a).has f = n.has f ∧ (updateFields n a).val f = n.val f) ∧
    updateFields (updateFields n a) a = updateFields n a ∧
    ((∀ f, f ≠ .nodeId → a.has f = false ∨ b.has f = false) →
      updateFields (updateFields n a) b = updateFields (updateFields n b) a) ∧
    updateFields (updateFields n a) b = updateFields n (updateFields a b) ∧
    nodeMatch X a (updateFields n a) = true := by
  refine ⟨fun f hf ha => ?_, fun f hf => ?_, updateFields_idem n a, updateFields_comm n,
    updateFields_assoc n a b, nodeMatch_updateFields X n a⟩
  · rw [updateFields_has, updateFields_val n a hf]
    simp [hf, ha]
  · rw [updateFields_has, updateFields_val_eq]
    rcases hf with rfl | ha
    · simp
    · simp [ha]

/-- A new name and a new description of one node, sent in either order. -/
theorem updateFields_overrides_apart :
    let name := (VaultNode.default.set .string64_1 "Ae'gura")
    let text := (VaultNode.default.set .text_1 "The city")
    updateFields (updateFields VaultNode.default name) text =
      updateFields (updateFields VaultNode.default text) name :=
  (updateFields_overrides Crates.plain _ _ _).2.2.2.1 (by decide)

/-! ### Accounts, players and game servers -/

namespace DbMemory

variable (X : Crates) (env : Env)

def getAccount (accountName : String) (db : Backend) :
    NetResult (Option AccountInfo) × Backend :=
  let passHash := createPassHash X accountName ""
  let apiToken := (X.sha1 (encodeUtf8 accountName.toList)).asHex
  let key := X.unicase accountName
  match db.accounts.lookup key with
  | some account => (.ok (some account), db)
  | none =>
    let account : AccountInfo := ⟨accountName, passHash, env.newV4 0, AccountInfo.admin, 1,
      apiToken⟩
    (.ok (some account), { db with accounts := db.accounts.insert key account })

def getAccountForToken (apiToken : String) (db : Backend) : NetResult (Option AccountInfo) :=
  let apiToken := String.ofList (apiToken.toList.map Char.toLower)
  .ok ((env.accounts.run db.accounts.values).find? fun account => account.apiToken == apiToken)

def getPlayers (accountId : Uuid) (db : Backend) : NetResult (List PlayerInfo) :=
  .ok ((db.players.lookup accountId).getD [])

def countPlayers (accountId : Uuid) (db : Backend) : NetResult ℕ :=
  .ok ((db.players.lookup accountId).getD []).length

def playerExists (playerName : String) (db : Backend) : NetResult Bool :=
  .ok (db.players.values.any fun playerList =>
    playerList.any fun player => X.unicase player.playerName == X.unicase playerName)

def createPlayer (accountId : Uuid) (player : PlayerInfo) (db : Backend) :
    NetResult Unit × Backend :=
  let playerList := (db.players.lookup accountId).getD []
  (.ok (), { db with players := db.players.insert accountId (playerList ++ [player]) })

def addGameServer (server : GameServer) (db : Backend) : NetResult Unit × Backend :=
  let serverId := db.gameIndex
  let db' := { db with
    gameIndex := db.gameIndex + 1
    gameServers := db.gameServers.insert serverId server }
  if (db.gameServers.lookup serverId).isSome then (.error .netInternalError, db') else (.ok (), db')

/-! ### Nodes -/

def createNode (node : VaultNode) (db : Backend) : NetResult UInt32 × Backend :=
  let nodeId := db.nodeIndex
  let db' := { db with
    nodeIndex := db.nodeIndex + 1
    vault := db.vault.insert nodeId (node.set .nodeId nodeId) }
  if (db.vault.lookup nodeId).isSome then (.error .netInternalError, db') else (.ok nodeId, db')

def fetchNode (nodeId : UInt32) (db : Backend) : NetResult VaultNode :=
  match db.vault.lookup nodeId with
  | some node => .ok node
  | none => .error .netVaultNodeNotFound

def updateNode (node : VaultNode) (db : Backend) : NetResult (List UInt32) × Backend :=
  let nodeId := node.nodeId
  match db.vault.lookup nodeId with
  | none => (.error .netVaultNodeNotFound, db)
  | some oldNode =>
    (.ok [nodeId], { db with vault := db.vault.insert nodeId (updateFields oldNode node) })

def findNodes (template : VaultNode) (db : Backend) : NetResult (List UInt32) :=
  .ok (((env.nodes.run db.vault.toList).map Prod.snd).filterMap fun node =>
    if nodeMatch X template node then some node.nodeId else none)

/-- The first key, in iteration order, whose node passes a test. -/
def firstKey (test : VaultNode → Bool) (db : Backend) : NetResult UInt32 :=
  match (env.nodes.run db.vault.toList).find? fun e => test e.2 with
  | some e => .ok e.1
  | none => .error .netVaultNodeNotFound

def getSystemNode (db : Backend) : NetResult UInt32 :=
  firstKey env (fun node => node.isOf .system) db

def getAllPlayersNode (db : Backend) : NetResult UInt32 :=
  firstKey env (fun node => node.isOf .playerInfoList &&
    node.val .int32_1 == StandardNode.allPlayersFolder.code) db

/-! ### References -/

def refNode (parent child owner : UInt32) (db : Backend) : NetResult Unit × Backend :=
  (.ok (), { db with nodeRefs := db.nodeRefs.add ⟨parent, child, owner⟩ })

/-- The loop of `fetch_refs` over the references in iteration order, for calls nested at most
`depth` deep; `none` when the recursion goes deeper. -/
def fetchRefs (order : List NodeRef) : ℕ → UInt32 → Bool → Option (List NodeRef)
  | 0, _, _ => none
  | depth + 1, parent, recursive =>
    order.foldlM (fun refs nodeRef =>
      if nodeRef.parent = parent then
        if recursive then do
          let deeper ← fetchRefs order depth nodeRef.child true
          some (refs ++ [nodeRef] ++ deeper)
        else some (refs ++ [nodeRef])
      else some refs) []

def getPlayerInfoNode (playerId : UInt32) (db : Backend) : Option (NetResult VaultNode) := do
  let refs ← fetchRefs (env.refs.run db.nodeRefs.keys) (env.stack + 1) playerId false
  let found := refs.findSome? fun nodeRef => do
    let node ← db.vault.lookup nodeRef.child
    let info ← node.asPlayerInfoNode
    if VaultPlayerInfoNode.playerId info = playerId then some node else none
  match found with
  | some node => some (.ok node)
  | none => some (.error .netVaultNodeNotFound)

end DbMemory

end Moulars.Vault
