import Moulars.Vault.NodeBlob
import Moulars.Vault.NodeIds
import Moulars.Vault.NodeRefs
import Moulars.Vault.PlayerInfo

/-!
What the vault's queries return.

`find_nodes` compares a template with every stored node, field by field, but leaves out the node
id. So its answer is exact as long as no other node agrees with the template in everything else.
`fetch_refs` finds exactly the references that can be reached.
-/

namespace Moulars.Vault

open Relation Lib.Wire Lib.Hash Lib.Digraph Hashes

variable {X : Crates} {env : Env} {db : Backend}

/-! ### Nodes as the program builds them -/

namespace VaultNode

/-- The nodes there can be: the fields are private, so a node is the default one, one that was
read, or comes from another one by a setter. -/
inductive Built : VaultNode → Prop
  | default : Built default
  | read {blob : Bytes} {n : VaultNode} : fromBlob blob = .ok n → Built n
  | set {n : VaultNode} (f : Field) (v : f.Val) : Built n → Built (n.set f v)

/-- Absent fields have their default values. -/
def Blank (n : VaultNode) : Prop := ∀ f, n.has f = false → n.val f = f.kind.zero

/-- The value of a field, the default if it is absent. -/
def shown (n : VaultNode) (f : Field) : f.Val := if n.has f then n.val f else f.kind.zero

lemma Blank.shown {n : VaultNode} (h : n.Blank) (f : Field) : n.shown f = n.val f := by
  unfold VaultNode.shown
  split
  · rfl
  · rename_i hf
    exact (h f (by simpa using hf)).symm

lemma Blank.set {n : VaultNode} (h : n.Blank) (f : Field) (v : f.Val) : (n.set f v).Blank := by
  intro g hg
  rw [has_set, Bool.or_eq_false_iff] at hg
  have hne : g ≠ f := fun e => of_decide_eq_false hg.2 e.symm
  rw [val_set_of_ne n v hne, h g hg.1]

end VaultNode

lemma readFields_absent {fields : UInt64} (fs : List Field) {vals w : (f : Field) → f.Val}
    {s r : Bytes} (h : (readFields fields fs vals).run s = .ok (w, r)) {g : Field}
    (hg : present fields g = false) (hvals : vals g = g.kind.zero) : w g = g.kind.zero := by
  induction fs generalizing vals s with
  | nil =>
    obtain ⟨rfl, rfl⟩ : vals = w ∧ s = r := by simpa [readFields] using h
    exact hvals
  | cons f fs ih =>
    rw [readFields, Reader.run_bind] at h
    split at h
    · rename_i v t hv
      refine ih h ?_
      by_cases hf : g = f
      · subst hf
        rw [Function.update_self]
        rw [readField, hg, if_neg (by simp)] at hv
        exact (Prod.mk.inj (Except.ok.inj hv)).1.symm
      · rw [Function.update_of_ne hf, hvals]
    · cases h

namespace VaultNode

lemma blank_of_fromBlob {blob : Bytes} {n : VaultNode} (h : fromBlob blob = .ok n) : n.Blank := by
  unfold fromBlob at h
  split at h
  · rename_i n' r hrun
    cases h
    rw [streamRead, Reader.run_bind] at hrun
    split at hrun
    · rw [Reader.run_bind] at hrun
      split at hrun
      · rename_i vals t hvals
        cases hrun
        exact fun f hf => readFields_absent readOrder hvals hf rfl
      · cases hrun
    · cases hrun
  · cases h

lemma Built.blank {n : VaultNode} (h : n.Built) : n.Blank := by
  induction h with
  | default => exact fun f _ => rfl
  | read h => exact blank_of_fromBlob h
  | set f v _ ih => exact ih.set f v

end VaultNode

/-- The nodes that a message carries are built. -/
def VaultMessage.Built : VaultMessage → Prop
  | .createNode node => node.Built
  | .updateNode node => node.Built
  | .findNodes template => template.Built
  | _ => True

/-! ### Stores -/

/-- Nodes are stored under their own ids, and absent fields have their default values. -/
structure Graph.Stored (g : Graph) : Prop where
  own : g.Own
  blank : ∀ k n, g.nodes.lookup k = some n → n.Blank

lemma blank_mergeOver {n m : VaultNode} (fs : List Field) (h : m.Blank) :
    (mergeOver n fs m).Blank := by
  induction fs generalizing m with
  | nil => exact h
  | cons f fs ih =>
    rw [mergeOver_cons]
    split
    · exact ih (h.set f _)
    · exact ih h

lemma Graph.Stored.create {g : Graph} (h : g.Stored) {node : VaultNode} (hnode : node.Blank) :
    (g.apply (.create node)).Stored := by
  refine ⟨own_create h.own node, fun k n hk => ?_⟩
  by_cases hnext : k = g.next
  · subst hnext
    have hn : (g.nodes.insert g.next (node.set .nodeId g.next)).lookup g.next = some n := hk
    rw [AList.lookup_insert] at hn
    cases hn
    exact hnode.set _ _
  · exact h.blank k n (by rwa [Graph.apply, AList.lookup_insert_ne hnext] at hk)

lemma Graph.Stored.update {g : Graph} (h : g.Stored) (node : VaultNode) :
    (g.apply (.update node)).Stored := by
  refine ⟨own_update h.own node, fun k n hk => ?_⟩
  simp only [Graph.apply] at hk
  split at hk
  · exact h.blank k n hk
  · rename_i old hold
    by_cases hkey : k = node.nodeId
    · subst hkey
      have hn : (g.nodes.insert node.nodeId (updateFields old node)).lookup node.nodeId =
        some n := hk
      rw [AList.lookup_insert] at hn
      cases hn
      exact blank_mergeOver mergeFields (h.blank _ _ hold)
    · exact h.blank k n (by rwa [AList.lookup_insert_ne hkey] at hk)

lemma stored_step {m : VaultMessage} {o : Outcome m.Reply} (hm : m.Built)
    (ho : processVaultMessage X env m db = some o) (h : db.graph.Stored) :
    o.db.graph.Stored := by
  rw [(processVaultMessage_graph X env ho).1]
  cases m with
  | createNode node => exact h.create hm.blank
  | updateNode node => exact h.update node
  | refNode p c owner b => exact ⟨h.own, h.blank⟩
  | createPlayer accountId playerName avatarShape =>
    simp only [VaultMessage.action]
    split
    · exact h
    · refine h.create (VaultNode.Built.blank ?_)
      exact .set _ _ <| .set _ _ <| .set _ _ <| .set _ _ <| .set _ _ <| .set _ _ .default
  | _ => exact h

lemma forall_visited {P : Backend → Prop} {M : VaultMessage → Prop}
    (hstep : ∀ {env m db o}, M m → processVaultMessage X env m db = some o → P db → P o.db)
    {steps : List (Env × VaultMessage)} (hsteps : ∀ s ∈ steps, M s.2) (h : P db) :
    ∀ d ∈ visited X db steps, P d := by
  induction steps generalizing db with
  | nil => simpa [visited] using h
  | cons s rest ih =>
    obtain ⟨env, m⟩ := s
    rw [visited, List.forall_mem_cons]
    refine ⟨h, ?_⟩
    cases ho : processVaultMessage X env m db with
    | none => simp
    | some o =>
      exact ih (fun s hs => hsteps s (by simp [hs])) (hstep (hsteps (env, m) (by simp)) ho h)

lemma stored_initial : initial.graph.Stored := by
  have hkeys : initial.graph.nodes.keys = [1002, 1001, 1000] := rfl
  refine ⟨fun k n hk => (sound_initial.own k n hk).1, fun k n hk => ?_⟩
  have hk' : k ∈ initial.graph.nodes.keys := AList.lookup_isSome.1 (by rw [hk]; rfl)
  rw [hkeys] at hk'
  simp only [List.mem_cons, List.not_mem_nil, or_false] at hk'
  apply VaultNode.Built.blank
  rcases hk' with rfl | rfl | rfl
  all_goals
    obtain rfl := Option.some.inj hk
    repeat first | exact .default | refine .set _ _ ?_

/-! ### `find_nodes` -/

/-- The node agrees with the template on those of the fields that the template has. -/
def VaultNode.AgreesOn (X : Crates) (fields : Field → Prop) (template node : VaultNode) : Prop :=
  ∀ f, fields f → template.has f = true →
    sameValue X f (node.shown f) (template.val f) = true

/-- The node agrees with the template on every field that the template has. -/
def VaultNode.Agrees (X : Crates) (template node : VaultNode) : Prop :=
  template.AgreesOn X (fun _ => True) node

lemma nodeMatch_iff_agreesOn {template node : VaultNode} (h : node.Blank) :
    nodeMatch X template node = true ↔ template.AgreesOn X (· ≠ .nodeId) node := by
  rw [nodeMatch_iff]
  simp only [VaultNode.AgreesOn, h.shown]

lemma findNodes_spec (h : db.graph.Stored) (env : Env) (template : VaultNode) :
    ∃ ids, DbMemory.findNodes X env template db = .ok ids ∧ ids.Nodup ∧
      ∀ id, id ∈ ids ↔ ∃ node, db.vault.lookup id = some node ∧
        template.AgreesOn X (· ≠ .nodeId) node := by
  have hentry (e : UInt32 × VaultNode) (he : e ∈ env.nodes.run db.vault.toList) :
      db.vault.lookup e.1 = some e.2 := HashMap.mem_toList.1 (Order.mem_run _ |>.1 he)
  refine ⟨_, rfl, ?_, fun id => ?_⟩
  · -- the keys are distinct, and every node has its key for an id
    have hkeys : ((env.nodes.run db.vault.toList).map Prod.fst).Nodup := by
      refine ((env.nodes.perm _).map _).nodup_iff.2 ?_
      rw [HashMap.toList, List.map_map]
      exact db.vault.nodupKeys
    have hids : (env.nodes.run db.vault.toList).map Prod.fst =
        ((env.nodes.run db.vault.toList).map Prod.snd).map VaultNode.nodeId := by
      rw [List.map_map]
      exact List.map_congr_left fun e he => (h.own _ _ (hentry e he)).symm
    rw [hids] at hkeys
    refine hkeys.sublist ?_
    generalize (env.nodes.run db.vault.toList).map Prod.snd = nodes
    induction nodes with
    | nil => exact .slnil
    | cons n nodes ih =>
      rw [List.filterMap_cons, List.map_cons]
      split
      · exact ih.cons _
      · rename_i id hid
        split at hid
        · cases hid
          exact ih.cons_cons _
        · cases hid
  · simp only [List.mem_filterMap, List.mem_map]
    constructor
    · rintro ⟨node, ⟨e, he, rfl⟩, hid⟩
      split at hid
      · rename_i hmatch
        have hlookup := hentry e he
        cases hid
        rw [show e.2.nodeId = e.1 from h.own _ _ hlookup]
        exact ⟨e.2, hlookup, (nodeMatch_iff_agreesOn (h.blank _ _ hlookup)).1 hmatch⟩
      · cases hid
    · rintro ⟨node, hlookup, hagrees⟩
      refine ⟨node, ⟨(id, node), ?_, rfl⟩, ?_⟩
      · exact (Order.mem_run _).2 (HashMap.mem_toList.2 hlookup)
      · rw [if_pos ((nodeMatch_iff_agreesOn (h.blank _ _ hlookup)).2 hagrees)]
        exact congrArg some (h.own _ _ hlookup)

lemma agrees_iff {template node : VaultNode} (h : node.Blank) : template.Agrees X node ↔
    template.AgreesOn X (· ≠ .nodeId) node ∧
      (template.has .nodeId = true → node.nodeId = template.nodeId) := by
  constructor
  · intro hagrees
    refine ⟨fun f _ hf => hagrees f trivial hf, fun hid => ?_⟩
    have hsame := hagrees .nodeId trivial hid
    rw [h.shown] at hsame
    exact of_decide_eq_true hsame
  · rintro ⟨hothers, hid⟩ f - hf
    by_cases hf' : f = .nodeId
    · subst hf'
      rw [h.shown]
      exact decide_eq_true (hid hf)
    · exact hothers f hf' hf

/-- **What `find_nodes` finds.** In every state of every run the answer to a template is exactly the
ids of the stored nodes that agree with it, each once, if and only if the template has no node id or
no other node agrees with it on the other fields. -/
theorem findNodes_exact_iff {steps : List (Env × VaultMessage)}
    (hsteps : ∀ s ∈ steps, s.2.Built) (hdb : db ∈ visited X initial steps) (env : Env)
    (template : VaultNode) :
    (∃ ids, DbMemory.findNodes X env template db = .ok ids ∧ ids.Nodup ∧
      ∀ id, id ∈ ids ↔ ∃ node, db.vault.lookup id = some node ∧ template.Agrees X node) ↔
    (template.has .nodeId = true → ∀ id node, db.vault.lookup id = some node →
      template.AgreesOn X (· ≠ .nodeId) node → id = template.nodeId) := by
  have h : db.graph.Stored :=
    forall_visited (P := fun d => d.graph.Stored) stored_step hsteps stored_initial db hdb
  obtain ⟨ids, hids, hnodup, hmem⟩ := findNodes_spec (X := X) h env template
  constructor
  · rintro ⟨ids', hids', -, hmem'⟩ hhas id node hlookup hothers
    obtain rfl : ids = ids' := Except.ok.inj (hids.symm.trans hids')
    obtain ⟨node', hlookup', hagrees⟩ := (hmem' id).1 ((hmem id).2 ⟨node, hlookup, hothers⟩)
    rw [← h.own _ _ hlookup']
    exact ((agrees_iff (h.blank _ _ hlookup')).1 hagrees).2 hhas
  · intro halone
    refine ⟨ids, hids, hnodup, fun id => ?_⟩
    rw [hmem]
    refine exists_congr fun node => and_congr_right fun hlookup => ?_
    rw [agrees_iff (h.blank _ _ hlookup)]
    refine ⟨fun hothers => ⟨hothers, fun hhas => ?_⟩, And.left⟩
    exact (h.own _ _ hlookup).trans (halone hhas id node hlookup hothers)

/-- The system node of a new vault is found by its type. -/
theorem findNodes_system : ∃ ids,
    DbMemory.findNodes Crates.plain (Env.plain 0) VaultSystemNode.new initial = .ok ids ∧
    ids.Nodup ∧ ∀ id, id ∈ ids ↔ ∃ node, initial.vault.lookup id = some node ∧
      VaultSystemNode.new.Agrees Crates.plain node :=
  (@findNodes_exact_iff _ _ [] nofun (List.mem_singleton.2 rfl) _ _).2
    fun hid => absurd hid (by decide)

/-- Asked for the node 1002, `find_nodes` returns all three nodes of a new vault. -/
theorem findNodes_by_id_finds_all :
    let template := VaultNode.default.set .nodeId (1002 : UInt32)
    ¬ ∃ ids, DbMemory.findNodes Crates.plain (Env.plain 0) template initial = .ok ids ∧ ids.Nodup ∧
      ∀ id, id ∈ ids ↔ ∃ node, initial.vault.lookup id = some node ∧
        template.Agrees Crates.plain node := by
  rintro template ⟨ids, hids, -, hmem⟩
  have hall : DbMemory.findNodes Crates.plain (Env.plain 0) template initial =
      .ok [1002, 1001, 1000] := by decide +kernel
  obtain rfl := Except.ok.inj (hall.symm.trans hids)
  obtain ⟨node, hlookup, hagrees⟩ := (hmem 1000).1 (by decide)
  cases hlookup
  exact absurd (hagrees .nodeId trivial (by decide)) (by decide)

/-! ### `fetch_refs` -/

lemma step_outgoing (o : Order NodeRef) (db : Backend) :
    Step (outgoing (o.run db.nodeRefs.keys)) = db.graph.Edge := by
  funext a b
  refine propext ⟨?_, ?_⟩
  · rintro ⟨⟨p, c, owner⟩, hr⟩
    obtain ⟨hmem, hp, hc⟩ := mem_outgoing.1 hr
    cases (show p = a from hp)
    cases (show c = b from hc)
    exact ⟨owner, mem_run_refs.1 hmem⟩
  · rintro ⟨owner, hr⟩
    exact ⟨⟨a, b, owner⟩, mem_outgoing.2 ⟨mem_run_refs.2 hr, rfl, rfl⟩⟩

lemma mem_fetchRefs_recursive {o : Order NodeRef} {d : ℕ} {p : UInt32} {refs : List NodeRef}
    (h : DbMemory.fetchRefs (o.run db.nodeRefs.keys) d p true = some refs) {r : NodeRef} :
    r ∈ refs ↔ r ∈ db.nodeRefs ∧ ReflTransGen db.graph.Edge p r.parent := by
  rw [fetchRefs_eq_walk] at h
  rw [mem_walk h, step_outgoing]
  constructor
  · rintro ⟨b, c, hb, hr⟩
    obtain ⟨hmem, hp, -⟩ := mem_outgoing.1 hr
    cases (show r.parent = b from hp)
    exact ⟨mem_run_refs.1 hmem, hb⟩
  · rintro ⟨hr, hb⟩
    exact ⟨r.parent, r.child, hb, mem_outgoing.2 ⟨mem_run_refs.2 hr, rfl, rfl⟩⟩

/-- The references that are found are all different exactly when no node that has references lies
below two references of one node on the way. -/
lemma nodup_fetchRefs_iff {o : Order NodeRef} {d : ℕ} {p : UInt32} {refs : List NodeRef}
    (hacyclic : Acyclic db.graph.Edge)
    (h : DbMemory.fetchRefs (o.run db.nodeRefs.keys) d p true = some refs) :
    refs.Nodup ↔ ∀ r ∈ db.graph.refs, ∀ r' ∈ db.graph.refs, r ≠ r' → r.parent = r'.parent →
      ReflTransGen db.graph.Edge p r.parent → ∀ b c, ReflTransGen db.graph.Edge r.child b →
        ReflTransGen db.graph.Edge r'.child b → ¬ db.graph.Edge b c := by
  have hkeys : (o.run db.nodeRefs.keys).Nodup := (o.perm _).nodup_iff.2 db.nodeRefs.keys_nodup
  have hlabels (a : UInt32) : ((outgoing (o.run db.nodeRefs.keys) a).map Prod.fst).Nodup := by
    rw [outgoing, List.map_map]
    exact (hkeys.filter _).map fun _ _ => id
  have hmem (r : NodeRef) (a : UInt32) (hr : r ∈ db.graph.refs) (ha : r.parent = a) :
      (r, r.child) ∈ outgoing (o.run db.nodeRefs.keys) a :=
    mem_outgoing.2 ⟨mem_run_refs.2 hr, ha, rfl⟩
  rw [fetchRefs_eq_walk] at h
  rw [nodup_walk_iff (fun a e he => (mem_outgoing.1 he).2.1) hlabels
    (by rwa [step_outgoing]) h]
  simp only [fun a => forks_iff (hlabels a).of_map, step_outgoing]
  constructor
  · intro hforks r hr r' hr' hne hparent hp b c hb hb' hc
    obtain ⟨owner, hc⟩ := hc
    have hnil := hforks _ hp _ (hmem r _ hr rfl) _ (hmem r' _ hr' hparent.symm)
      (fun e => hne (Prod.mk.inj e).1) b hb hb'
    have hnext := hmem ⟨b, c, owner⟩ b hc rfl
    rw [hnil] at hnext
    cases hnext
  · rintro hapart a ha ⟨r, c⟩ hr ⟨r', c'⟩ hr' hne b hb hb'
    obtain ⟨hmem, hra, hrc⟩ := mem_outgoing.1 hr
    obtain ⟨hmem', hra', hrc'⟩ := mem_outgoing.1 hr'
    dsimp only at hmem hra hrc hmem' hra' hrc' hb hb'
    subst hra hrc hrc'
    refine List.eq_nil_iff_forall_not_mem.2 fun x hx => ?_
    obtain ⟨hx, hxb, hxc⟩ := mem_outgoing.1 hx
    refine hapart r (mem_run_refs.1 hmem) r' (mem_run_refs.1 hmem') (fun e => hne (by rw [e]))
      hra'.symm ha b x.1.child hb hb' ⟨x.1.owner, ?_⟩
    rw [← hxb]
    exact mem_run_refs.1 hx

/-- **What `fetch_refs` finds.** If the references have no directed cycle, the recursive call ends
and returns the references whose parent can be reached, and the other one returns the references of
the parent, each once; both in whatever order the set is iterated. -/
theorem fetchRefs_exact (db : Backend) (hacyclic : Acyclic db.graph.Edge) (p : UInt32)
    (o : Order NodeRef) :
    (∃ refs depth,
      (∀ d, depth ≤ d → DbMemory.fetchRefs (o.run db.nodeRefs.keys) d p true = some refs) ∧
      ∀ r, r ∈ refs ↔ r ∈ db.nodeRefs ∧ ReflTransGen db.graph.Edge p r.parent) ∧
    ∃ refs, (∀ d, DbMemory.fetchRefs (o.run db.nodeRefs.keys) (d + 1) p false = some refs) ∧
      refs.Nodup ∧ ∀ r, r ∈ refs ↔ r ∈ db.nodeRefs ∧ r.parent = p := by
  refine ⟨?_, _, fun d => fetchRefs_children _ d p, ?_, fun r => ?_⟩
  · obtain ⟨depth, hends⟩ := fetchEnds_of_acyclic hacyclic p o
    obtain ⟨refs, hrefs⟩ := Option.isSome_iff_exists.1 hends
    refine ⟨refs, depth, fun d hd => ?_, fun r => mem_fetchRefs_recursive hrefs⟩
    rw [fetchRefs_eq_walk] at hrefs ⊢
    exact walk_of_le hd hrefs
  · exact ((o.perm _).nodup_iff.2 db.nodeRefs.keys_nodup).filter _
  · rw [List.mem_filter, mem_run_refs, decide_eq_true_eq]
    rfl

/-- A new vault with the references of a Relto, 1019: both the link in its list of ages and the
Relto itself refer to its info node, 1023, which refers on. -/
def reltoVault : Backend :=
  [(1019, 1008), (1008, 1016), (1016, 1023), (1019, 1023), (1023, 1025)].foldl
    (fun db ref => (DbMemory.refNode ref.1 ref.2 0 db).2) initial

def reltoRank (id : UInt32) : ℕ := [1000, 1019, 1008, 1016, 1023].idxOf id

lemma acyclic_reltoVault : Acyclic reltoVault.graph.Edge := by
  have hrank : ∀ r ∈ reltoVault.nodeRefs.keys, reltoRank r.parent < reltoRank r.child := by
    decide
  have hedge (a b : UInt32) (h : reltoVault.graph.Edge a b) : reltoRank a < reltoRank b := by
    obtain ⟨owner, h⟩ := h
    exact hrank ⟨a, b, owner⟩ h
  exact acyclic_of_rank hedge

theorem fetchRefs_exact_relto :
    (∃ refs depth,
      (∀ d, depth ≤ d → DbMemory.fetchRefs reltoVault.nodeRefs.keys d 1019 true = some refs) ∧
      ∀ r, r ∈ refs ↔ r ∈ reltoVault.nodeRefs ∧ ReflTransGen reltoVault.graph.Edge 1019 r.parent) ∧
    ∃ refs, (∀ d, DbMemory.fetchRefs reltoVault.nodeRefs.keys (d + 1) 1019 false = some refs) ∧
      refs.Nodup ∧ ∀ r, r ∈ refs ↔ r ∈ reltoVault.nodeRefs ∧ r.parent = 1019 :=
  fetchRefs_exact reltoVault acyclic_reltoVault 1019 (.listed _)

end Moulars.Vault
