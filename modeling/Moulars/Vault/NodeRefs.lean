import Mathlib.Data.Fintype.EquivFin
import Moulars.Lib.Digraph
import Moulars.Lib.Fallible
import Moulars.Vault.Server

/-!
Node references as a directed graph.

`ref_node` adds whatever edge it is asked for, and `fetch_refs` walks down the edges without a
record of the nodes it has been to.
-/

namespace Moulars.Vault

open Relation Lib.Hash Lib.Digraph Lib.Fallible Hashes

instance finiteUInt32 : Finite UInt32 :=
  Finite.of_injective UInt32.toFin fun _ _ h => UInt32.toFin_inj.mp h

def Graph.Edge (g : Graph) (a b : UInt32) : Prop := ∃ owner, (⟨a, b, owner⟩ : NodeRef) ∈ g.refs

/-! ### `fetch_refs` as a walk -/

/-- The references of a parent in iteration order, each with the node it leads to. -/
def outgoing (order : List NodeRef) (parent : UInt32) : List (NodeRef × UInt32) :=
  (order.filter fun r => r.parent = parent).map fun r => (r, r.child)

lemma mem_outgoing {order : List NodeRef} {parent : UInt32} {e : NodeRef × UInt32} :
    e ∈ outgoing order parent ↔ e.1 ∈ order ∧ e.1.parent = parent ∧ e.1.child = e.2 := by
  obtain ⟨r, b⟩ := e
  constructor
  · intro h
    obtain ⟨s, hs, hsr⟩ := List.mem_map.mp h
    obtain ⟨rfl, rfl⟩ := Prod.mk.inj hsr
    obtain ⟨ho, hp⟩ := List.mem_filter.mp hs
    exact ⟨ho, by simpa using hp, rfl⟩
  · rintro ⟨ho, hp, hb⟩
    obtain rfl : r.child = b := hb
    exact List.mem_map.mpr ⟨r, List.mem_filter.mpr ⟨ho, by simpa using hp⟩, rfl⟩

lemma foldlM_outgoing (f : UInt32 → Option (List NodeRef)) (parent : UInt32)
    (order refs : List NodeRef) :
    order.foldlM (fun refs r =>
      if r.parent = parent then (f r.child).bind fun deeper => some (refs ++ [r] ++ deeper)
      else some refs) refs =
    ((outgoing order parent).mapM fun e => (f e.2).map (e.1 :: ·)).map
      fun found => refs ++ found.flatten := by
  induction order generalizing refs with
  | nil => simp [outgoing]
  | cons r order ih =>
    rw [List.foldlM_cons]
    by_cases hp : r.parent = parent
    · have hout : outgoing (r :: order) parent = (r, r.child) :: outgoing order parent := by
        simp [outgoing, hp]
      rw [hout, List.mapM_cons, if_pos hp]
      cases hf : f r.child with
      | none => rfl
      | some deeper =>
        rw [Option.bind_some, Option.bind_eq_bind, Option.bind_some, ih]
        cases (outgoing order parent).mapM fun e => (f e.2).map (e.1 :: ·) <;> simp
    · have hout : outgoing (r :: order) parent = outgoing order parent := by
        simp [outgoing, hp]
      rw [hout, if_neg hp, Option.bind_eq_bind, Option.bind_some, ih]

lemma fetchRefs_eq_walk (order : List NodeRef) (depth : ℕ) (parent : UInt32) :
    DbMemory.fetchRefs order depth parent true = walk (outgoing order) depth parent := by
  induction depth generalizing parent with
  | zero => rfl
  | succ depth ih =>
    simp only [DbMemory.fetchRefs, if_true, Option.bind_eq_bind, ih, foldlM_outgoing,
      List.nil_append, walk]

/-- `fetch_refs(p, true)` ends, whatever the iteration order. -/
def FetchEnds (db : Backend) (p : UInt32) : Prop :=
  ∀ o : Order NodeRef, ∃ depth,
    (DbMemory.fetchRefs (o.run db.nodeRefs.keys) depth p true).isSome

variable {db : Backend}

lemma mem_run_refs {o : Order NodeRef} {r : NodeRef} :
    r ∈ o.run db.nodeRefs.keys ↔ r ∈ db.graph.refs := by
  rw [Order.mem_run, ← AList.mem_keys]
  rfl

lemma fetchEnds_of_acyclic (h : Acyclic db.graph.Edge) (p : UInt32) :
    FetchEnds db p := by
  intro o
  simp only [fetchRefs_eq_walk]
  refine ends_of_wellFounded (fun a e he => ?_) h.wellFounded p
  obtain ⟨hr, rfl, hc⟩ := mem_outgoing.mp he
  exact ⟨e.1.owner, by rw [← hc]; exact mem_run_refs.mp hr⟩

lemma not_fetchEnds_of_cycle {p : UInt32} (h : TransGen db.graph.Edge p p) :
    ¬ FetchEnds db p := by
  intro hp
  obtain ⟨depth, hd⟩ := hp (.listed _)
  rw [fetchRefs_eq_walk] at hd
  refine not_ends_of_cycle (fun a b hab => ?_) h ⟨depth, hd⟩
  obtain ⟨owner, hr⟩ := hab
  exact ⟨(⟨a, b, owner⟩, b), mem_outgoing.mpr ⟨mem_run_refs.mpr hr, rfl, rfl⟩, rfl⟩

/-! ### Runs -/

variable (X : Crates)

/-- The databases a series of messages goes through, up to the message that exhausts the
stack, if one does. -/
def visited : Backend → List (Env × VaultMessage) → List Backend
  | db, [] => [db]
  | db, (env, m) :: rest =>
    db :: match processVaultMessage X env m db with
      | some o => visited o.db rest
      | none => []

/-- No `RefNode` of the run has a parent that can be reached from its child. -/
def ClosesNoCycle : Backend → List (Env × VaultMessage) → Prop
  | _, [] => True
  | db, (env, m) :: rest =>
    (∀ p c owner b, m = .refNode p c owner b → ¬ ReflTransGen db.graph.Edge c p) ∧
    match processVaultMessage X env m db with
      | some o => ClosesNoCycle o.db rest
      | none => True

/-- Every message of the run meets a condition on it and the database it is handled in. -/
def Each (C : Backend → VaultMessage → Prop) : Backend → List (Env × VaultMessage) → Prop
  | _, [] => True
  | db, (env, m) :: rest =>
    C db m ∧
    match processVaultMessage X env m db with
      | some o => Each C o.db rest
      | none => True

lemma edge_ref (g : Graph) (r : NodeRef) :
    (g.apply (.ref r)).Edge = addEdge g.Edge r.parent r.child := by
  funext a b
  apply propext
  constructor
  · rintro ⟨owner, h⟩
    rcases HashSet.mem_add.mp h with rfl | h
    · exact .inr ⟨rfl, rfl⟩
    · exact .inl ⟨owner, h⟩
  · rintro (⟨owner, h⟩ | ⟨rfl, rfl⟩)
    · exact ⟨owner, HashSet.mem_add.mpr (.inr h)⟩
    · exact ⟨r.owner, HashSet.mem_add.mpr (.inl rfl)⟩

lemma edge_update (g : Graph) (node : VaultNode) : (g.apply (.update node)).Edge = g.Edge := by
  rw [Graph.apply]
  cases g.nodes.lookup node.nodeId <;> rfl

variable {X}

/-- One message keeps the references acyclic exactly when it closes no cycle. -/
lemma acyclic_step {env : Env} {m : VaultMessage} {o : Outcome m.Reply}
    (ho : processVaultMessage X env m db = some o) (h : Acyclic db.graph.Edge) :
    Acyclic o.db.graph.Edge ↔
      ∀ p c owner b, m = .refNode p c owner b → ¬ ReflTransGen db.graph.Edge c p := by
  rw [(processVaultMessage_graph X env ho).1]
  cases ha : m.action X db with
  | ref r =>
    obtain ⟨p, c, owner, b, rfl⟩ : ∃ p c owner b, m = .refNode p c owner b := by
      cases m with
      | refNode p c owner b => exact ⟨p, c, owner, b, rfl⟩
      | createPlayer => simp only [VaultMessage.action] at ha; split at ha <;> cases ha
      | _ => cases ha
    obtain rfl : (⟨p, c, owner⟩ : NodeRef) = r := by simpa [VaultMessage.action] using ha
    rw [edge_ref, acyclic_addEdge_iff h]
    constructor
    · rintro hc _ _ _ _ e
      cases e
      exact hc
    · exact fun hc => hc p c owner b rfl
  | keep =>
    refine iff_of_true h fun p c owner b e => ?_
    subst e
    cases ha
  | create node =>
    refine iff_of_true h fun p c owner b e => ?_
    subst e
    cases ha
  | update node =>
    rw [edge_update]
    refine iff_of_true h fun p c owner b e => ?_
    subst e
    cases ha

/-- What one message keeps under a condition, a run keeps exactly when all its messages meet the
condition. -/
lemma forall_visited_iff {P : Backend → Prop} {C : Backend → VaultMessage → Prop}
    (hstep : ∀ {env m db o}, processVaultMessage X env m db = some o → P db → (P o.db ↔ C db m))
    (hstuck : ∀ {env m db}, processVaultMessage X env m db = none → C db m)
    {db : Backend} (h : P db) (steps : List (Env × VaultMessage)) :
    (∀ d ∈ visited X db steps, P d) ↔ Each X C db steps := by
  induction steps generalizing db with
  | nil => simpa [visited, Each] using h
  | cons s rest ih =>
    obtain ⟨env, m⟩ := s
    simp only [visited, Each, List.forall_mem_cons]
    cases ho : processVaultMessage X env m db with
    | none => exact iff_of_true ⟨h, by simp⟩ ⟨hstuck ho, trivial⟩
    | some o =>
      have hfirst : ∀ rest, o.db ∈ visited X o.db rest := by
        intro rest
        cases rest <;> simp [visited]
      rw [← hstep ho h]
      constructor
      · rintro ⟨-, hall⟩
        have hP := hall o.db (hfirst rest)
        exact ⟨hP, (ih hP).mp hall⟩
      · rintro ⟨hP, hrest⟩
        exact ⟨h, (ih hP).mpr hrest⟩

lemma closesNoCycle_iff_each {steps : List (Env × VaultMessage)} :
    ClosesNoCycle X db steps ↔ Each X (fun db m => ∀ p c owner b, m = .refNode p c owner b →
      ¬ ReflTransGen db.graph.Edge c p) db steps := by
  induction steps generalizing db with
  | nil => rfl
  | cons s rest ih =>
    simp only [ClosesNoCycle, Each]
    refine and_congr_right fun _ => ?_
    cases processVaultMessage X s.1 s.2 db with
    | none => rfl
    | some o => exact ih

lemma ne_refNode_of_stuck {env : Env} {m : VaultMessage} (h : processVaultMessage X env m db = none)
    (p c owner : UInt32) (b : Bool) :
    m ≠ .refNode p c owner b := by
  rintro rfl
  cases h

lemma acyclic_visited_iff (h : Acyclic db.graph.Edge) (steps : List (Env × VaultMessage)) :
    (∀ d ∈ visited X db steps, Acyclic d.graph.Edge) ↔ ClosesNoCycle X db steps := by
  rw [closesNoCycle_iff_each]
  refine forall_visited_iff (P := fun d => Acyclic d.graph.Edge) acyclic_step ?_ h steps
  intro env m db hstuck p c owner b hm
  exact absurd hm (ne_refNode_of_stuck hstuck p c owner b)

lemma mem_refs_initial {r : NodeRef} : r ∈ initial.graph.refs ↔ r = ⟨1000, 1001, 0⟩ := by
  have hkeys : initial.graph.refs.keys = [⟨1000, 1001, 0⟩] := rfl
  rw [AList.mem_keys, hkeys, List.mem_singleton]

lemma acyclic_initial : Acyclic initial.graph.Edge := by
  have hedge : ∀ a b, initial.graph.Edge a b → a = 1000 ∧ b = 1001 := by
    rintro a b ⟨owner, h⟩
    cases mem_refs_initial.mp h
    exact ⟨rfl, rfl⟩
  intro a h
  -- the last edge of a cycle ends in 1001, and the first starts in 1000
  obtain ⟨_, hlast⟩ : ∃ c, initial.graph.Edge c a := by
    cases h with
    | single h => exact ⟨_, h⟩
    | tail _ h => exact ⟨_, h⟩
  obtain ⟨_, hfirst, -⟩ := TransGen.head'_iff.mp h
  have h1 := (hedge _ _ hlast).2
  have h0 := (hedge _ _ hfirst).1
  rw [h0] at h1
  exact absurd h1 (by decide)

variable (X)

/-- **References without cycles**: along a run from `init_vault`, the references have no
directed cycle and every recursive `fetch_refs` ends, in every state, exactly when no
`RefNode` of the run has a parent that can be reached from its child. -/
theorem refs_acyclic_iff_closesNoCycle (steps : List (Env × VaultMessage)) :
    (∀ db ∈ visited X initial steps,
      Acyclic db.graph.Edge ∧ ∀ p, FetchEnds db p) ↔ ClosesNoCycle X initial steps := by
  rw [← acyclic_visited_iff acyclic_initial steps]
  exact ⟨fun h db hdb => (h db hdb).1, fun h db hdb => ⟨h db hdb, fetchEnds_of_acyclic (h db hdb)⟩⟩

/-- A client adds the system node below the global inbox, which `init_vault` put below it. -/
def inboxLoop : List (Env × VaultMessage) := [(Env.plain 64, .refNode 1001 1000 0 true)]

theorem inboxLoop_never_ends :
    ∃ db ∈ visited Crates.plain initial inboxLoop,
      ¬ Acyclic db.graph.Edge ∧ ¬ FetchEnds db 1000 := by
  refine ⟨(refNode 1001 1000 0 true initial).db, List.mem_cons_of_mem _
    (by simp [visited, processVaultMessage]), ?_⟩
  have hdown : (refNode 1001 1000 0 true initial).db.graph.Edge 1000 1001 := ⟨0, by decide⟩
  have hup : (refNode 1001 1000 0 true initial).db.graph.Edge 1001 1000 := ⟨0, by decide⟩
  have hcycle := TransGen.head hdown (TransGen.single hup)
  exact ⟨fun h => h 1000 hcycle, not_fetchEnds_of_cycle hcycle⟩

/-! ### References to nodes that exist -/

/-- Parent and child of a reference exist, and its owner does unless it is 0. -/
def NodeRef.Known (r : NodeRef) (nodes : HashMap UInt32 VaultNode) : Prop :=
  r.parent ∈ nodes ∧ r.child ∈ nodes ∧ (r.owner = 0 ∨ r.owner ∈ nodes)

def Graph.Linked (g : Graph) : Prop := ∀ r ∈ g.refs, r.Known g.nodes

/-- A `RefNode` names nodes that exist, with an owner that is 0 or exists. -/
def NamesKnown (db : Backend) (m : VaultMessage) : Prop :=
  ∀ p c owner b, m = .refNode p c owner b → (⟨p, c, owner⟩ : NodeRef).Known db.vault

lemma NodeRef.Known.mono {r : NodeRef} {nodes nodes' : HashMap UInt32 VaultNode}
    (h : r.Known nodes) (hsub : ∀ k ∈ nodes, k ∈ nodes') : r.Known nodes' :=
  ⟨hsub _ h.1, hsub _ h.2.1, h.2.2.imp_right (hsub _)⟩

lemma Graph.refs_apply (g : Graph) (a : Action) (ha : ∀ r, a ≠ .ref r) :
    (g.apply a).refs = g.refs := by
  cases a with
  | keep => rfl
  | create node => rfl
  | ref r => exact absurd rfl (ha r)
  | update node =>
    rw [Graph.apply]
    cases g.nodes.lookup node.nodeId <;> rfl

variable {X}

lemma linked_step {env : Env} {m : VaultMessage} {o : Outcome m.Reply}
    (ho : processVaultMessage X env m db = some o) (h : db.graph.Linked) :
    o.db.graph.Linked ↔ NamesKnown db m := by
  rw [(processVaultMessage_graph X env ho).1]
  by_cases hm : ∃ p c owner b, m = .refNode p c owner b
  · obtain ⟨p, c, owner, b, rfl⟩ := hm
    constructor
    · rintro hl _ _ _ _ e
      cases e
      exact hl ⟨p, c, owner⟩ (HashSet.mem_add.2 (.inl rfl))
    · rintro hknown r hr
      rcases HashSet.mem_add.1 hr with rfl | hr
      · exact hknown p c owner b rfl
      · exact h r hr
  · refine iff_of_true (fun r hr => ?_) fun p c owner b e => absurd ⟨p, c, owner, b, e⟩ hm
    rw [Graph.refs_apply] at hr
    · exact (h r hr).mono fun k hk => Graph.mem_apply hk _
    · -- only a `RefNode` adds a reference
      intro r' ha
      refine hm ?_
      cases m with
      | refNode p c owner b => exact ⟨p, c, owner, b, rfl⟩
      | createPlayer => simp only [VaultMessage.action] at ha; split at ha <;> cases ha
      | _ => cases ha

lemma fetchRefs_subset {order : List NodeRef} {depth : ℕ} {parent : UInt32} {recursive : Bool}
    {refs : List NodeRef} (h : DbMemory.fetchRefs order depth parent recursive = some refs) :
    refs ⊆ order := by
  induction depth generalizing parent recursive refs with
  | zero => cases h
  | succ depth ih =>
    -- what has been collected so far stays within the set
    refine foldlM_induct_some (I := fun refs => refs ⊆ order) (List.nil_subset _) ?_ h
    intro acc r acc' hr hacc hstep
    have hnext : acc ++ [r] ⊆ order :=
      List.append_subset.2 ⟨hacc, List.cons_subset.2 ⟨hr, List.nil_subset _⟩⟩
    split at hstep
    · split at hstep
      · obtain ⟨deeper, hdeeper, hstep⟩ := Option.bind_eq_some_iff.1 hstep
        cases hstep
        exact List.append_subset.2 ⟨hnext, ih hdeeper⟩
      · cases hstep
        exact hnext
    · cases hstep
      exact hacc

lemma linked_initial : initial.graph.Linked := by
  intro r hr
  obtain rfl := mem_refs_initial.1 hr
  exact ⟨by decide, by decide, .inl rfl⟩

variable (X)

/-- Every child `fetch_refs` returns can be fetched, whatever the iteration order. -/
def ChildrenFetchable (db : Backend) : Prop :=
  ∀ (o : Order NodeRef) (depth : ℕ) (parent : UInt32) (recursive : Bool) (refs : List NodeRef),
    DbMemory.fetchRefs (o.run db.nodeRefs.keys) depth parent recursive = some refs →
      ∀ r ∈ refs, ∃ node, DbMemory.fetchNode r.child db = .ok node

lemma childrenFetchable_of_linked (h : db.graph.Linked) : ChildrenFetchable db := by
  intro o depth parent recursive refs hrefs r hr
  have hchild : r.child ∈ db.vault := (h r (mem_run_refs.1 (fetchRefs_subset hrefs hr))).2.1
  obtain ⟨node, hnode⟩ := Option.isSome_iff_exists.1 (AList.lookup_isSome.2 hchild)
  exact ⟨node, by rw [DbMemory.fetchNode, hnode]⟩

/-- **References to nodes that exist**: in every state of a run from `init_vault`, every reference
has a parent and a child that exist and an owner that is 0 or exists, and every child `fetch_refs`
returns can be fetched, exactly when every `RefNode` of the run names nodes that exist then, with an
owner that is 0 or exists. -/
theorem refs_linked_iff_namesKnown (steps : List (Env × VaultMessage)) :
    (∀ db ∈ visited X initial steps, db.graph.Linked ∧ ChildrenFetchable db) ↔
      Each X NamesKnown initial steps := by
  have hiff := forall_visited_iff (P := fun d => d.graph.Linked) (X := X) linked_step
    (fun hstuck p c owner b hm => absurd hm (ne_refNode_of_stuck hstuck p c owner b))
    linked_initial steps
  rw [← hiff]
  exact ⟨fun h db hdb => (h db hdb).1,
    fun h db hdb => ⟨h db hdb, childrenFetchable_of_linked (h db hdb)⟩⟩

/-- A client adds a node that does not exist below the system node. -/
def strayChild : List (Env × VaultMessage) := [(Env.plain 64, .refNode 1000 5 0 true)]

theorem strayChild_not_fetchable :
    ∃ db ∈ visited Crates.plain initial strayChild,
      ¬ db.graph.Linked ∧
      DbMemory.fetchRefs db.nodeRefs.keys 64 1000 false = some [⟨1000, 5, 0⟩, ⟨1000, 1001, 0⟩] ∧
      DbMemory.fetchNode 5 db = .error .netVaultNodeNotFound := by
  refine ⟨(refNode 1000 5 0 true initial).db, List.mem_cons_of_mem _
    (by simp [visited, processVaultMessage]), fun h => ?_, by decide, rfl⟩
  exact absurd (h ⟨1000, 5, 0⟩ (by decide)).2.1 (by decide)

end Moulars.Vault
