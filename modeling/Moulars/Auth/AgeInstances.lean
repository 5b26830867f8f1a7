import Moulars.Auth.VaultHelpers
import Moulars.Vault.Requests

/-!
Many calls of `find_age_instance` for one age at the same time.

Nothing keeps two calls from finding nothing both, or one from finding an age whose info node
another has yet to create. What a call has seen and done is its `Progress`; as long as no call looks
while another is about to create what it looks for, all calls find the same age.
-/

namespace Moulars.Auth

open Lib.Clients Hashes Vault

/-! ### The progress of a call -/

/-- How far a call has come, as its requests and their answers show. -/
inductive Stage
  /-- nothing was asked yet -/
  | start
  /-- no age was found -/
  | noAge
  /-- the age was created -/
  | madeAge (ageId : UInt32)
  /-- so was its info node -/
  | madeInfo (ageId ageInfo : UInt32)
  /-- an age was found -/
  | foundAge (ageId : UInt32)
  /-- so was its info node -/
  | foundInfo (ageId ageInfo : UInt32)
  deriving DecidableEq

def Stage.next : Stage → (m : VaultMessage) → VaultReply m → Stage
  | .start, .findNodes _, .ok [] => .noAge
  | .start, .findNodes _, .ok (ageId :: _) => .foundAge ageId
  | .foundAge ageId, .findNodes _, .ok (ageInfo :: _) => .foundInfo ageId ageInfo
  | .noAge, .createNode _, .ok ageId => .madeAge ageId
  | .madeAge ageId, .createNode node, .ok nodeId =>
    if node.nodeType = NodeType.ageInfo.code then .madeInfo ageId nodeId else .madeAge ageId
  | stage, _, _ => stage

/-- The stage of a call, and how many nodes, game servers and requests it has asked for. -/
structure Progress where
  stage : Stage
  nodes : ℕ
  servers : ℕ
  asked : ℕ

def Progress.start : Progress := ⟨.start, 0, 0, 0⟩

def Progress.next (l : Progress) (m : VaultMessage) (r : VaultReply m) : Progress where
  stage := l.stage.next m r
  nodes := match m with
    | .createNode _ => l.nodes + 1
    | _ => l.nodes
  servers := match m with
    | .addGameServer _ => l.servers + 1
    | _ => l.servers
  asked := l.asked + 1

def serveAges (X : Crates) : Serve Env Backend VaultReply Progress := fun env m l db =>
  (processVaultMessage X env m db).map fun o => (o.reply, l.next m o.reply, o.db)

/-! ### What a call asks, and what it can count on -/

/-- A node that lookups for ages and their info nodes do not find. -/
def Plain (node : VaultNode) : Prop :=
  node.nodeType ≠ NodeType.age.code ∧ node.nodeType ≠ NodeType.ageInfo.code

/-- The requests of a call for the age `u`, by its stage, the number of nodes it has created
and the number of game servers it has added. -/
inductive MayAsk (u : Uuid) : Stage → ℕ → ℕ → VaultMessage → Prop
  | findAge {nodes servers} : MayAsk u .start nodes servers (.findNodes (lookupFor .age u))
  | findInfo {ageId nodes servers} :
      MayAsk u (.foundAge ageId) nodes servers (.findNodes (lookupFor .ageInfo u))
  | createAge {nodes servers node} (hnodes : nodes < 10) (hnode : node.IsFor .age u) :
      MayAsk u .noAge nodes servers (.createNode node)
  | createInfo {ageId nodes servers node} (hnodes : nodes < 10) (hnode : node.IsFor .ageInfo u) :
      MayAsk u (.madeAge ageId) nodes servers (.createNode node)
  | createOther {ageId nodes servers node} (hnodes : nodes < 10) (hnode : Plain node) :
      MayAsk u (.madeAge ageId) nodes servers (.createNode node)
  | createMore {ageId ageInfo nodes servers node} (hnodes : nodes < 10) (hnode : Plain node) :
      MayAsk u (.madeInfo ageId ageInfo) nodes servers (.createNode node)
  | getSystemNode {ageId ageInfo nodes servers} :
      MayAsk u (.madeInfo ageId ageInfo) nodes servers .getSystemNode
  | refNode {ageId ageInfo nodes servers} (parent child owner : UInt32) (broadcast : Bool) :
      MayAsk u (.madeInfo ageId ageInfo) nodes servers (.refNode parent child owner broadcast)
  | addGameServer {ageId ageInfo nodes} (server : GameServer) :
      MayAsk u (.madeInfo ageId ageInfo) nodes 0 (.addGameServer server)

/-- The contract between the calls and the vault: no request fails, and an age that was found
has an info node. -/
def ageContract (u : Uuid) : Contract VaultReply Progress where
  may l m := l.asked < 23 ∧ MayAsk u l.stage l.nodes l.servers m
  gives l m r l' := l' = l.next m r ∧ (∃ a, r = .ok a) ∧
    ∀ a, l.stage = .foundAge a → ∃ i, l'.stage = .foundInfo a i

/-- The result of a call is what it has made or found, after at most 23 requests. -/
def AgeResult (l : Progress) (r : Result NetResultCode (UInt32 × UInt32)) : Prop :=
  l.asked ≤ 23 ∧ ∃ a i, r = .ok (a, i) ∧ (l.stage = .madeInfo a i ∨ l.stage = .foundInfo a i)

section Calls

variable {X : Crates} {sdl : SdlHost X} {u : Uuid} {β : Type}
  {Q : Progress → Result NetResultCode β → Prop}

lemma keeps_request {m : VaultMessage} {f : m.Reply → VaultProg β} {l : Progress}
    (hm : (ageContract u).may l m)
    (hf : ∀ a, (∀ ageId, l.stage = .foundAge ageId →
      ∃ i, (l.next m (.ok a)).stage = .foundInfo ageId i) →
        (f a).Keeps (ageContract u) Q (l.next m (.ok a))) :
    (request m >>= f).Keeps (ageContract u) Q l := by
  refine ⟨hm, ?_⟩
  rintro r l' ⟨rfl, ⟨a, rfl⟩, hfound⟩
  exact hf a hfound

lemma plain_folder (i : UInt32) (t : StandardNode) : Plain (VaultFolderNode.new u i t) := by
  rw [Plain, VaultFolderNode.nodeType_new]
  decide

lemma plain_playerInfoList (i : UInt32) (t : StandardNode) :
    Plain (VaultPlayerInfoListNode.new u i t) := by
  rw [Plain, VaultPlayerInfoListNode.nodeType_new]
  decide

lemma plain_ageInfoList (i : UInt32) (t : StandardNode) :
    Plain (VaultAgeInfoListNode.new u i t) := by
  rw [Plain, VaultAgeInfoListNode.nodeType_new]
  decide

lemma plain_sdl (i : UInt32) (name : String) (blob : Lib.Wire.Bytes) :
    Plain (VaultSdlNode.new u i name blob) := by
  rw [Plain, VaultSdlNode.nodeType_new]
  decide

section Steps

variable {ageId ageInfo : UInt32} {nodes servers asked : ℕ}

lemma keeps_createAge {node : VaultNode} {f : UInt32 → VaultProg β} (hnode : node.IsFor .age u)
    (hasked : asked < 23) (hnodes : nodes < 10) (hf : ∀ ageId, (f ageId).Keeps (ageContract u) Q
      ⟨.madeAge ageId, nodes + 1, servers, asked + 1⟩) :
    (request (.createNode node) >>= f).Keeps (ageContract u) Q
      ⟨.noAge, nodes, servers, asked⟩ :=
  keeps_request ⟨hasked, .createAge hnodes hnode⟩ fun ageId _ => hf ageId

lemma keeps_createInfo {node : VaultNode} {f : UInt32 → VaultProg β}
    (hnode : node.IsFor .ageInfo u) (hasked : asked < 23) (hnodes : nodes < 10)
    (hf : ∀ ageInfo, (f ageInfo).Keeps (ageContract u) Q
      ⟨.madeInfo ageId ageInfo, nodes + 1, servers, asked + 1⟩) :
    (request (.createNode node) >>= f).Keeps (ageContract u) Q
      ⟨.madeAge ageId, nodes, servers, asked⟩ := by
  refine keeps_request ⟨hasked, .createInfo hnodes hnode⟩ fun ageInfo _ => ?_
  have hnext : Stage.next (.madeAge ageId) (.createNode node) (.ok ageInfo) =
    .madeInfo ageId ageInfo := if_pos hnode.1
  rw [Progress.next, hnext]
  exact hf ageInfo

lemma keeps_createNode_madeAge {node : VaultNode} {f : UInt32 → VaultProg β} (hnode : Plain node)
    (hasked : asked < 23) (hnodes : nodes < 10) (hf : ∀ a, (f a).Keeps (ageContract u) Q
      ⟨.madeAge ageId, nodes + 1, servers, asked + 1⟩) :
    (request (.createNode node) >>= f).Keeps (ageContract u) Q
      ⟨.madeAge ageId, nodes, servers, asked⟩ := by
  refine keeps_request ⟨hasked, .createOther hnodes hnode⟩ fun id _ => ?_
  have hnext : Stage.next (.madeAge ageId) (.createNode node) (.ok id) = .madeAge ageId :=
    if_neg hnode.2
  rw [Progress.next, hnext]
  exact hf id

lemma keeps_createNode_madeInfo {node : VaultNode} {f : UInt32 → VaultProg β} (hnode : Plain node)
    (hasked : asked < 23) (hnodes : nodes < 10) (hf : ∀ a, (f a).Keeps (ageContract u) Q
      ⟨.madeInfo ageId ageInfo, nodes + 1, servers, asked + 1⟩) :
    (request (.createNode node) >>= f).Keeps (ageContract u) Q
      ⟨.madeInfo ageId ageInfo, nodes, servers, asked⟩ :=
  keeps_request ⟨hasked, .createMore hnodes hnode⟩ fun id _ => hf id

lemma keeps_refNode {p c o : UInt32} {b : Bool} {f : Unit → VaultProg β} (hasked : asked < 23)
    (hf : (f ()).Keeps (ageContract u) Q ⟨.madeInfo ageId ageInfo, nodes, servers, asked + 1⟩) :
    (request (.refNode p c o b) >>= f).Keeps (ageContract u) Q
      ⟨.madeInfo ageId ageInfo, nodes, servers, asked⟩ :=
  keeps_request ⟨hasked, .refNode ..⟩ fun _ _ => hf

lemma keeps_getSystemNode {f : UInt32 → VaultProg β} (hasked : asked < 23)
    (hf : ∀ k, (f k).Keeps (ageContract u) Q
      ⟨.madeInfo ageId ageInfo, nodes, servers, asked + 1⟩) :
    (request .getSystemNode >>= f).Keeps (ageContract u) Q
      ⟨.madeInfo ageId ageInfo, nodes, servers, asked⟩ :=
  keeps_request ⟨hasked, .getSystemNode⟩ fun k _ => hf k

end Steps

/-- **A call that creates the age** keeps the contract. -/
lemma keeps_createAgeNodes {a : AgeArgs} {blob : Lib.Wire.Bytes}
    (hsdl : defaultSdl sdl a.ageFilename = .ok blob) :
    (createAgeNodes sdl a none false).Keeps (ageContract a.ageUuid) AgeResult
      ⟨.noAge, 0, 0, 1⟩ := by
  unfold createAgeNodes
  refine keeps_createAge (VaultAgeNode.isFor_new ..) (by decide) (by decide) fun ageId => ?_
  -- three nodes between the age and its info node
  refine keeps_createNode_madeAge (plain_folder ..) (by decide) (by decide) fun _ => ?_
  refine keeps_createNode_madeAge (plain_playerInfoList ..) (by decide) (by decide) fun _ => ?_
  refine keeps_createNode_madeAge (plain_ageInfoList ..) (by decide) (by decide) fun _ => ?_
  refine keeps_createInfo (VaultAgeInfoNode.isFor_new ..) (by decide) (by decide)
    fun ageInfo => ?_
  -- five more nodes, then the references
  refine keeps_createNode_madeInfo (plain_folder ..) (by decide) (by decide) fun _ => ?_
  refine keeps_createNode_madeInfo (plain_playerInfoList ..) (by decide) (by decide) fun _ => ?_
  rw [hsdl]
  refine keeps_createNode_madeInfo (plain_sdl ..) (by decide) (by decide) fun _ => ?_
  refine keeps_createNode_madeInfo (plain_playerInfoList ..) (by decide) (by decide) fun _ => ?_
  refine keeps_createNode_madeInfo (plain_ageInfoList ..) (by decide) (by decide) fun _ => ?_
  refine keeps_getSystemNode (by decide) fun _ => ?_
  iterate 10 refine keeps_refNode (by decide) ?_
  refine keeps_request ⟨by simp, .addGameServer _⟩ fun _ _ => ?_
  exact ⟨by simp [Progress.next], ageId, ageInfo, rfl, .inl rfl⟩

/-- **Every call** keeps the contract, if there is a default state for the age. -/
lemma keeps_findAgeInstance {a : AgeArgs} {blob : Lib.Wire.Bytes}
    (hsdl : defaultSdl sdl a.ageFilename = .ok blob) :
    (findAgeInstance sdl a).Keeps (ageContract a.ageUuid) AgeResult .start := by
  refine keeps_request ⟨by decide, .findAge⟩ fun ages _ => ?_
  cases ages with
  | nil => exact keeps_createAgeNodes hsdl
  | cons ageId _ =>
    refine keeps_request ⟨by simp [Progress.next, Progress.start], .findInfo⟩ fun infos hfound => ?_
    cases infos with
    | nil =>
      obtain ⟨i, hi⟩ := hfound ageId rfl
      cases hi
    | cons ageInfo _ =>
      exact ⟨by simp [Progress.next, Progress.start], ageId, ageInfo, rfl, .inr rfl⟩

end Calls

/-! ### The vault while calls are running -/

section Vault

variable {X : Crates} {ι : Type} [DecidableEq ι] {u : Uuid} {db : Backend} {ls : ι → Progress}

def Stage.Builds : Stage → Prop
  | .noAge => True
  | .madeAge _ => True
  | .madeInfo .. => True
  | _ => False

def Stage.ages : Stage → List UInt32
  | .madeAge ageId => [ageId]
  | .madeInfo ageId _ => [ageId]
  | _ => []

def Stage.infos : Stage → List UInt32
  | .madeInfo _ ageInfo => [ageInfo]
  | _ => []

/-- What others can have found of what a call has made. -/
inductive Stage.Sees : Stage → Stage → Prop
  | age {ageId} : Sees (.foundAge ageId) (.madeAge ageId)
  | ageOnly {ageId ageInfo} : Sees (.foundAge ageId) (.madeInfo ageId ageInfo)
  | both {ageId ageInfo} : Sees (.foundInfo ageId ageInfo) (.madeInfo ageId ageInfo)

lemma Stage.Sees.not_builds {s t : Stage} (h : s.Sees t) : ¬ s.Builds := by
  cases h <;> exact id

/-- The vault and the calls: either nothing has been asked yet, or one call builds the age and
all others have asked nothing or see what it has made. -/
inductive Phase (u : Uuid) (db : Backend) (ls : ι → Progress) : Prop
  | untouched (hdb : db.Usable 10 1) (hage : db.idsFor .age u = [])
      (hinfo : db.idsFor .ageInfo u = []) (hall : ∀ i, ls i = .start)
  | building (c : ι) (hc : (ls c).stage.Builds)
      (hdb : db.Usable (10 - (ls c).nodes) (1 - (ls c).servers))
      (hage : db.idsFor .age u = (ls c).stage.ages)
      (hinfo : db.idsFor .ageInfo u = (ls c).stage.infos)
      (hrest : ∀ i, i ≠ c → ls i = .start ∨ (ls i).stage.Sees (ls c).stage)

/-- No call looks for the age while another is about to create it, and no call looks for the
info node while another is about to create that. -/
def Apart (_ : Backend) (ls : ι → Progress) (i : ι) (_ : VaultMessage) : Prop :=
  match (ls i).stage with
  | .start => ∀ j, (ls j).stage ≠ .noAge
  | .foundAge _ => ∀ j ageId, (ls j).stage ≠ .madeAge ageId
  | _ => True

def Stage.seeksInfo : Stage → Bool
  | .foundAge _ => true
  | _ => false

def Stage.lacksInfo : Stage → Bool
  | .madeAge _ => true
  | _ => false

lemma Stage.lacksInfo_eq_false {s : Stage} :
    s.lacksInfo = false ↔ ∀ ageId, s ≠ .madeAge ageId := by
  cases s <;> simp [Stage.lacksInfo]

section Answers

variable {env : Env} {l l' : Progress} {db' : Backend}

lemma serveAges_eq_some {m : VaultMessage} {r : VaultReply m}
    (h : serveAges X env m l db = some (r, l', db')) :
    ∃ o, processVaultMessage X env m db = some o ∧ r = o.reply ∧ l' = l.next m r ∧
      db' = o.db := by
  obtain ⟨o, ho, heq⟩ := Option.map_eq_some_iff.1 h
  cases heq
  exact ⟨o, ho, rfl, rfl, rfl⟩

lemma serveAges_findNodes {t : NodeType} {r : VaultReply (.findNodes (lookupFor t u))}
    (h : serveAges X env (.findNodes (lookupFor t u)) l db = some (r, l', db')) :
    (∃ ids, r = .ok ids ∧ ids.Perm (db.idsFor t u)) ∧ l' = l.next _ r ∧ db' = db := by
  obtain ⟨o, ho, rfl, rfl, rfl⟩ := serveAges_eq_some h
  cases ho
  exact ⟨findNodes_lookupFor t u db, rfl, rfl⟩

lemma serveAges_createNode {node : VaultNode} {n m : ℕ} (hdb : db.Usable (n + 1) m)
    {r : VaultReply (.createNode node)}
    (h : serveAges X env (.createNode node) l db = some (r, l', db')) :
    r = .ok db.nodeIndex ∧ l' = l.next _ r ∧ db'.Usable n m ∧ ∀ t u, db'.idsFor t u =
      (if node.IsFor t u then [db.nodeIndex] else []) ++ db.idsFor t u := by
  obtain ⟨o, ho, rfl, rfl, rfl⟩ := serveAges_eq_some h
  cases ho
  obtain ⟨hr, hdb'⟩ := hdb.createNode node
  exact ⟨hr, rfl, hdb', hdb.idsFor_createNode node⟩

end Answers

namespace Phase

lemma of_builds {c : ι} {l : Progress} (h : Phase u db ls) (hl : ls c = l) (hc : l.stage.Builds) :
    db.Usable (10 - l.nodes) (1 - l.servers) ∧ db.idsFor .age u = l.stage.ages ∧
      db.idsFor .ageInfo u = l.stage.infos ∧
        ∀ i, i ≠ c → ls i = .start ∨ (ls i).stage.Sees l.stage := by
  subst hl
  cases h with
  | untouched _ _ _ hall =>
    rw [hall c] at hc
    exact hc.elim
  | building c' _ hdb hage hinfo hrest =>
    obtain rfl : c = c' := by
      by_contra hne
      rcases hrest c hne with hs | hs
      · rw [hs] at hc
        exact hc
      · exact hs.not_builds hc
    exact ⟨hdb, hage, hinfo, hrest⟩

lemma build {c : ι} {l : Progress} {db' : Backend} (hc : l.stage.Builds)
    (hdb : db'.Usable (10 - l.nodes) (1 - l.servers)) (hage : db'.idsFor .age u = l.stage.ages)
    (hinfo : db'.idsFor .ageInfo u = l.stage.infos)
    (hrest : ∀ i, i ≠ c → ls i = .start ∨ (ls i).stage.Sees l.stage) :
    Phase u db' (Function.update ls c l) := by
  refine .building c ?_ ?_ ?_ ?_ fun i hi => ?_
  all_goals rw [Function.update_self]
  · exact hc
  · exact hdb
  · exact hage
  · exact hinfo
  · rw [Function.update_of_ne hi]
    exact hrest i hi

lemma see {c i : ι} {l : Progress} (hne : i ≠ c) (hc : (ls c).stage.Builds)
    (hdb : db.Usable (10 - (ls c).nodes) (1 - (ls c).servers))
    (hage : db.idsFor .age u = (ls c).stage.ages)
    (hinfo : db.idsFor .ageInfo u = (ls c).stage.infos)
    (hrest : ∀ i, i ≠ c → ls i = .start ∨ (ls i).stage.Sees (ls c).stage)
    (hl : l.stage.Sees (ls c).stage) : Phase u db (Function.update ls i l) := by
  refine .building c ?_ ?_ ?_ ?_ fun j hj => ?_
  all_goals rw [Function.update_of_ne hne.symm]
  · exact hc
  · exact hdb
  · exact hage
  · exact hinfo
  · by_cases hji : j = i
    · subst hji
      rw [Function.update_self]
      exact .inr hl
    · rw [Function.update_of_ne hji]
      exact hrest j hj

section Steps

variable {i : ι} {env : Env} {nodes servers asked : ℕ} {l : Progress} {db' : Backend}

lemma findAge (h : Phase u db ls) (hi : ls i = ⟨.start, nodes, servers, asked⟩)
    (hapart : ∀ j, (ls j).stage ≠ .noAge) {r : VaultReply (.findNodes (lookupFor .age u))}
    (hserve : serveAges X env (.findNodes (lookupFor .age u)) (ls i) db = some (r, l, db')) :
    (ageContract u).gives (ls i) _ r l ∧ Phase u db' (Function.update ls i l) := by
  obtain ⟨⟨ids, rfl, hids⟩, rfl, rfl⟩ := serveAges_findNodes hserve
  refine ⟨⟨rfl, ⟨_, rfl⟩, by rw [hi]; nofun⟩, ?_⟩
  cases h with
  | untouched hdb hage hinfo hall =>
    rw [hage, List.perm_nil] at hids
    rw [hids, hall i]
    exact .build trivial hdb hage hinfo fun j _ => .inl (hall j)
  | building c hc hdb hage hinfo hrest =>
    have hne : i ≠ c := by
      rintro rfl
      rw [hi] at hc
      exact hc
    refine .see hne hc hdb hage hinfo hrest ?_
    rw [hage] at hids
    cases hs : (ls c).stage with
    | noAge => exact absurd hs (hapart c)
    | madeAge ageId =>
      rw [hs] at hids
      rw [List.perm_singleton.1 hids, hi]
      exact .age
    | madeInfo ageId ageInfo =>
      rw [hs] at hids
      rw [List.perm_singleton.1 hids, hi]
      exact .ageOnly
    | _ =>
      rw [hs] at hc
      exact hc.elim

lemma findInfo {ageId : UInt32} (h : Phase u db ls)
    (hi : ls i = ⟨.foundAge ageId, nodes, servers, asked⟩)
    (hapart : ∀ j a, (ls j).stage ≠ .madeAge a) {r : VaultReply (.findNodes (lookupFor .ageInfo u))}
    (hserve : serveAges X env (.findNodes (lookupFor .ageInfo u)) (ls i) db = some (r, l, db')) :
    (ageContract u).gives (ls i) _ r l ∧ Phase u db' (Function.update ls i l) := by
  obtain ⟨⟨ids, rfl, hids⟩, rfl, rfl⟩ := serveAges_findNodes hserve
  cases h with
  | untouched _ _ _ hall =>
    rw [hall i] at hi
    cases hi
  | building c hc hdb hage hinfo hrest =>
    have hne : i ≠ c := by
      rintro rfl
      rw [hi] at hc
      exact hc
    have hsees : (Stage.foundAge ageId).Sees (ls c).stage := by
      rcases hrest i hne with hs | hs
      · rw [hi] at hs
        cases hs
      · rwa [hi] at hs
    obtain ⟨ageInfo, hs⟩ : ∃ ageInfo, (ls c).stage = .madeInfo ageId ageInfo := by
      generalize hs : (ls c).stage = stage at hsees
      cases hsees with
      | age => exact absurd hs (hapart c ageId)
      | ageOnly => exact ⟨_, rfl⟩
    rw [hinfo, hs] at hids
    obtain rfl := List.perm_singleton.1 hids
    have hl : ((ls i).next (.findNodes (lookupFor .ageInfo u)) (.ok [ageInfo])).stage =
        .foundInfo ageId ageInfo := by
      rw [hi]
      rfl
    refine ⟨⟨rfl, ⟨_, rfl⟩, fun a ha => ?_⟩, .see hne hc hdb hage hinfo hrest ?_⟩
    · rw [hi] at ha
      cases ha
      exact ⟨ageInfo, hl⟩
    · rw [hl, hs]
      exact .both

/-- What a creation has to do with the stage of the builder. -/
structure Advances (u : Uuid) (node : VaultNode) (s s' : Stage) (nodeId : UInt32) : Prop where
  builds : s'.Builds
  ages : s'.ages = (if node.IsFor .age u then [nodeId] else []) ++ s.ages
  infos : s'.infos = (if node.IsFor .ageInfo u then [nodeId] else []) ++ s.infos
  sees : ∀ t, Stage.Sees t s → t.Sees s'

lemma createNode {l₀ : Progress} {node : VaultNode} (h : Phase u db ls) (hi : ls i = l₀)
    (hbuilds : l₀.stage.Builds) (hnodes : l₀.nodes < 10)
    (hstage : ∀ id, Advances u node l₀.stage (l₀.stage.next (.createNode node) (.ok id)) id)
    {r : VaultReply (.createNode node)}
    (hserve : serveAges X env (.createNode node) (ls i) db = some (r, l, db')) :
    (ageContract u).gives (ls i) _ r l ∧ Phase u db' (Function.update ls i l) := by
  obtain ⟨hdb, hage, hinfo, hrest⟩ := h.of_builds hi hbuilds
  obtain ⟨n, hn⟩ : ∃ n, 10 - l₀.nodes = n + 1 := ⟨10 - l₀.nodes - 1, by omega⟩
  rw [hn] at hdb
  obtain ⟨rfl, rfl, hdb', hids⟩ := serveAges_createNode hdb hserve
  obtain ⟨hbuilds', hages, hinfos, hsees⟩ := hstage db.nodeIndex
  rw [hi]
  refine ⟨⟨rfl, ⟨_, rfl⟩, fun a ha => ?_⟩, .build hbuilds' ?_ ?_ ?_ fun j hj => ?_⟩
  · rw [ha] at hbuilds
    exact hbuilds.elim
  · have hleft : 10 - (l₀.nodes + 1) = n := by omega
    exact hleft ▸ hdb'
  · rw [hids, hage]
    exact hages.symm
  · rw [hids, hinfo]
    exact hinfos.symm
  · exact (hrest j hj).imp_right (hsees _)

lemma not_isFor {node : VaultNode} {t t' : NodeType} (h : node.IsFor t u) (hne : t.code ≠ t'.code) :
    ¬ node.IsFor t' u :=
  fun h' => hne (h.1.symm.trans h'.1)

lemma advances_age {node : VaultNode} (hnode : node.IsFor .age u) (nodeId : UInt32) :
    Advances u node .noAge (.madeAge nodeId) nodeId where
  builds := trivial
  ages := by rw [if_pos hnode]; rfl
  infos := by rw [if_neg (not_isFor hnode (by decide))]; rfl
  sees t h := by cases h

lemma advances_info {node : VaultNode} (hnode : node.IsFor .ageInfo u) (ageId nodeId : UInt32) :
    Advances u node (.madeAge ageId) (.madeInfo ageId nodeId) nodeId where
  builds := trivial
  ages := by rw [if_neg (not_isFor hnode (by decide))]; rfl
  infos := by rw [if_pos hnode]; rfl
  sees t h := by
    cases h
    exact .ageOnly

lemma advances_plain {node : VaultNode} (hnode : Plain node) {s : Stage} (hs : s.Builds)
    (nodeId : UInt32) : Advances u node s s nodeId where
  builds := hs
  ages := by rw [if_neg fun h => hnode.1 h.1]; rfl
  infos := by rw [if_neg fun h => hnode.2 h.1]; rfl
  sees _ h := h

lemma other {m : VaultMessage} {r : VaultReply m} {l₀ : Progress} (h : Phase u db ls)
    (hi : ls i = l₀) (hbuilds : l₀.stage.Builds) (hr : ∃ a, r = .ok a)
    (hstage : (l₀.next m r).stage = l₀.stage) (hvault : db'.vault = db.vault)
    (hdb' : db'.Usable (10 - (l₀.next m r).nodes) (1 - (l₀.next m r).servers)) :
    (ageContract u).gives l₀ m r (l₀.next m r) ∧
      Phase u db' (Function.update ls i (l₀.next m r)) := by
  obtain ⟨-, hage, hinfo, hrest⟩ := h.of_builds hi hbuilds
  have hids (t : NodeType) : db'.idsFor t u = db.idsFor t u := by
    rw [Backend.idsFor, hvault, Backend.idsFor]
  refine ⟨⟨rfl, hr, fun a ha => ?_⟩, .build ?_ hdb' ?_ ?_ ?_⟩
  · rw [ha] at hbuilds
    exact hbuilds.elim
  · rwa [hstage]
  · rw [hids, hage, hstage]
  · rw [hids, hinfo, hstage]
  · rwa [hstage]

lemma step {m : VaultMessage} {r : VaultReply m} (h : Phase u db ls)
    (hmay : (ageContract u).may (ls i) m) (hapart : Apart db ls i m)
    (hserve : serveAges X env m (ls i) db = some (r, l, db')) :
    (ageContract u).gives (ls i) m r l ∧ Phase u db' (Function.update ls i l) := by
  obtain ⟨-, hmay⟩ := hmay
  generalize hi : ls i = l₀ at hmay
  obtain ⟨stage, nodes, servers, asked⟩ := l₀
  rw [Apart, hi] at hapart
  cases hmay with
  | findAge =>
    rw [← hi]
    exact h.findAge hi hapart hserve
  | findInfo =>
    rw [← hi]
    exact h.findInfo hi hapart hserve
  | createAge hnodes hnode =>
    rw [← hi]
    exact h.createNode hi trivial hnodes (advances_age hnode) hserve
  | @createInfo ageId _ _ node hnodes hnode =>
    rw [← hi]
    refine h.createNode hi trivial hnodes (fun id => ?_) hserve
    rw [show Stage.next (.madeAge ageId) (.createNode node) (.ok id) = .madeInfo ageId id from
      if_pos hnode.1]
    exact advances_info hnode ageId id
  | @createOther ageId _ _ node hnodes hnode =>
    rw [← hi]
    refine h.createNode hi trivial hnodes (fun id => ?_) hserve
    rw [show Stage.next (.madeAge ageId) (.createNode node) (.ok id) = .madeAge ageId from
      if_neg hnode.2]
    exact advances_plain hnode (s := .madeAge ageId) trivial id
  | createMore hnodes hnode =>
    rw [← hi]
    exact h.createNode hi trivial hnodes
      (fun id => advances_plain hnode (s := .madeInfo _ _) trivial id) hserve
  | getSystemNode =>
    obtain ⟨o, ho, rfl, rfl, rfl⟩ := serveAges_eq_some hserve
    cases ho
    obtain ⟨hdb, -⟩ := h.of_builds hi trivial
    rw [hi]
    exact h.other hi trivial hdb.getSystemNode rfl rfl hdb
  | refNode parent child owner broadcast =>
    obtain ⟨o, ho, rfl, rfl, rfl⟩ := serveAges_eq_some hserve
    cases ho
    obtain ⟨hdb, -⟩ := h.of_builds hi trivial
    rw [hi]
    exact h.other hi trivial ⟨(), rfl⟩ rfl rfl ⟨hdb.free, hdb.room, hdb.slot, hdb.system⟩
  | addGameServer server =>
    obtain ⟨o, ho, rfl, rfl, rfl⟩ := serveAges_eq_some hserve
    cases ho
    obtain ⟨hdb, -⟩ := h.of_builds hi trivial
    obtain ⟨hr, hdb', hvault⟩ := Backend.Usable.addGameServer hdb server
    rw [hi]
    exact h.other hi trivial ⟨(), hr⟩ rfl hvault hdb'

end Steps

end Phase

/-! ### All calls together -/

def agePool (sdl : SdlHost X) (args : ι → AgeArgs) (db : Backend) :
    Pool ι Backend VaultReply NetResultCode (UInt32 × UInt32) Progress :=
  ⟨db, fun i => ⟨.start, findAgeInstance sdl (args i)⟩⟩

/-- There is at most one age and one info node for it; every call is answered whenever it asks
something, asks at most 23 times, and ends with success; and all calls that have ended
returned the same pair. -/
structure Agree (X : Crates) (u : Uuid)
    (p : Pool ι Backend VaultReply NetResultCode (UInt32 × UInt32) Progress) : Prop where
  ages : (p.server.idsFor .age u).length ≤ 1
  infos : (p.server.idsFor .ageInfo u).length ≤ 1
  answered : ∀ i m, p.Asks i m → ∀ env, ∃ q, p.step (serveAges X) i env = some q
  short : ∀ i, (p.owns i).asked ≤ 23
  success : ∀ i r, (p.clients i).prog = .done r → ∃ ids, r = .ok ids
  same : ∀ i j r r', (p.clients i).prog = .done r → (p.clients j).prog = .done r' → r = r'

lemma exists_answer {l : Progress} {s : Stage} {nodes servers : ℕ} {m : VaultMessage}
    (h : MayAsk u s nodes servers m) (env : Env) : ∃ a, serveAges X env m l db = some a := by
  cases h <;> exact ⟨_, rfl⟩

omit [DecidableEq ι] in
lemma Phase.length_le (h : Phase u db ls) :
    (db.idsFor .age u).length ≤ 1 ∧ (db.idsFor .ageInfo u).length ≤ 1 := by
  cases h with
  | untouched _ hage hinfo =>
    rw [hage, hinfo]
    decide
  | building c _ _ hage hinfo =>
    rw [hage, hinfo]
    cases (ls c).stage <;> simp [Stage.ages, Stage.infos]

lemma Phase.result {i : ι} {r : Result NetResultCode (UInt32 × UInt32)} (h : Phase u db ls)
    (hr : AgeResult (ls i) r) : ∃ ageId ageInfo, r = .ok (ageId, ageInfo) ∧
      db.idsFor .age u = [ageId] ∧ db.idsFor .ageInfo u = [ageInfo] := by
  obtain ⟨-, ageId, ageInfo, rfl, hs | hs⟩ := hr
  · obtain ⟨-, hage, hinfo, -⟩ := h.of_builds rfl (by rw [hs]; trivial)
    rw [hs] at hage hinfo
    exact ⟨ageId, ageInfo, rfl, hage, hinfo⟩
  · cases h with
    | untouched _ _ _ hall =>
      rw [hall i] at hs
      cases hs
    | building c hc _ hage hinfo hrest =>
      have hne : i ≠ c := by
        rintro rfl
        rw [hs] at hc
        exact hc
      have hsees : (Stage.foundInfo ageId ageInfo).Sees (ls c).stage := by
        rcases hrest i hne with hstart | hsees
        · rw [hstart] at hs
          cases hs
        · rwa [hs] at hsees
      generalize (ls c).stage = stage at hsees hage hinfo
      cases hsees
      exact ⟨ageId, ageInfo, rfl, hage, hinfo⟩

/-- **Calls that stay out of each other's way agree.** From a vault without the age and its
info node, with a system node and room for what one call creates, and with a default state for
every age: in every pool reached by steps that are `Apart`, there is at most one age and one
info node, no call fails, and all that have ended returned the same pair. -/
theorem age_calls_agree {X : Crates} (sdl : SdlHost X) (args : ι → AgeArgs) {u : Uuid}
    (hargs : ∀ i, (args i).ageUuid = u)
    (hsdl : ∀ i, ∃ blob, defaultSdl sdl (args i).ageFilename = .ok blob) {db : Backend}
    (hdb : db.Usable 10 1) (hage : db.idsFor .age u = []) (hinfo : db.idsFor .ageInfo u = [])
    {p : Pool ι Backend VaultReply NetResultCode (UInt32 × UInt32) Progress}
    (hrun : Runs (serveAges X) Apart (agePool sdl args db) p) : Agree X u p := by
  obtain ⟨hphase, hkeeps⟩ := hrun.keeps (C := ageContract u) (Q := AgeResult) (I := Phase u)
    (.untouched hdb hage hinfo fun _ => rfl)
    (fun i => by
      obtain ⟨blob, hblob⟩ := hsdl i
      have hk := keeps_findAgeInstance hblob
      rwa [hargs i] at hk)
    fun db ls i env m r l db' h hmay hapart hserve => h.step hmay hapart hserve
  have hresult {i : ι} {r : Result NetResultCode (UInt32 × UInt32)}
      (hr : (p.clients i).prog = .done r) : AgeResult (p.owns i) r := by
    have hk := hkeeps i
    rwa [hr] at hk
  refine ⟨hphase.length_le.1, hphase.length_le.2, fun i m ⟨k, hk⟩ env => ?_, fun i => ?_,
    fun i r hr => ?_, fun i j r r' hr hr' => ?_⟩
  · have hi := hkeeps i
    rw [hk] at hi
    obtain ⟨a, ha⟩ := exists_answer hi.1.2 env
    exact ⟨_, by rw [Pool.step, hk]; exact congrArg (Option.map _) ha⟩
  · cases hp : (p.clients i).prog with
    | done r => exact (hresult hp).1
    | ask m k =>
      have hi := hkeeps i
      rw [hp] at hi
      exact hi.1.1.le
  · obtain ⟨ageId, ageInfo, rfl, -⟩ := hphase.result (hresult hr)
    exact ⟨_, rfl⟩
  · obtain ⟨ageId, ageInfo, rfl, ha, hi⟩ := hphase.result (hresult hr)
    obtain ⟨ageId', ageInfo', rfl, ha', hi'⟩ := hphase.result (hresult hr')
    rw [ha] at ha'
    rw [hi] at hi'
    cases ha'
    cases hi'
    rfl

end Vault

/-! ### Two calls -/

def plainSdl : SdlHost Crates.plain := ⟨Sdl.DescriptorDb.empty, Plasma.Zlib.stored, 0⟩

def cavern : AgeArgs := ⟨⟨1, 0, 0, 0⟩, .nil, "Cavern", "Cavern", "", "", 0, -1⟩

/-- Two calls for one age, from the vault the server starts with. -/
def twoCalls : Pool (Fin 2) Backend VaultReply NetResultCode (UInt32 × UInt32) Progress :=
  agePool plainSdl (fun _ => cavern) initial

def twoCallsAfter (calls : List (Fin 2)) :
    Option (Pool (Fin 2) Backend VaultReply NetResultCode (UInt32 × UInt32) Progress) :=
  calls.foldlM (fun p i => p.step (serveAges Crates.plain) i (Env.plain 0)) twoCalls

instance {n : ℕ} (db : Backend) (ls : Fin n → Progress) (i : Fin n) (m : VaultMessage) :
    Decidable (Apart db ls i m) :=
  decidable_of_iff (((ls i).stage = .start → ∀ j, (ls j).stage ≠ .noAge) ∧
      ((ls i).stage.seeksInfo = true → ∀ j, (ls j).stage.lacksInfo = false)) <| by
    unfold Apart
    cases (ls i).stage <;> simp [Stage.seeksInfo, Stage.lacksInfo_eq_false]

def returned : VaultProg (UInt32 × UInt32) → Option (UInt32 × UInt32)
  | .done (.ok ids) => some ids
  | _ => none

lemma eq_done_of_returned {prog : VaultProg (UInt32 × UInt32)} {ids : UInt32 × UInt32}
    (h : returned prog = some ids) : prog = .done (.ok ids) := by
  unfold returned at h
  split at h
  · cases h
    rfl
  · cases h

/-- The second call looks for the age once it is there, and for the info node once that is
there, and is done before the first. -/
def apartSteps : List (Fin 2 × Env) :=
  ([0, 0, 1, 0, 0, 0, 0, 1] ++ List.replicate 17 0 : List (Fin 2)).map fun i => (i, Env.plain 0)

/-- Both calls return the one age and its info node. -/
theorem twoCalls_agree : ∃ p, Runs (serveAges Crates.plain) Apart twoCalls p ∧
    (∀ i, (p.clients i).prog = .done (.ok (1003, 1007))) ∧
    p.server.idsFor .age cavern.ageUuid = [1003] ∧
    Agree Crates.plain cavern.ageUuid p := by
  have husable : initial.Usable 10 1 :=
    Reach.usable (X := Crates.plain) Reach.init (by decide) (fun _ => rfl)
      ⟨1000, VaultSystemNode.new.set .nodeId (1000 : UInt32), rfl, rfl⟩
  have hrun : (twoCalls.replay (serveAges Crates.plain) Apart apartSteps).map (fun p =>
      (returned (p.clients 0).prog, returned (p.clients 1).prog,
        p.server.idsFor .age cavern.ageUuid)) =
      some (some (1003, 1007), some (1003, 1007), [1003]) := by
    decide +kernel
  obtain ⟨p, hp, heq⟩ := Option.map_eq_some_iff.1 hrun
  obtain ⟨hfirst, heq⟩ := Prod.mk.inj heq
  obtain ⟨hsecond, hids⟩ := Prod.mk.inj heq
  have hruns := Runs.start.replay hp
  refine ⟨p, hruns, fun i => ?_, hids, age_calls_agree plainSdl (fun _ => cavern) (fun _ => rfl)
    (fun _ => ⟨[], rfl⟩) husable (by decide +kernel) (by decide +kernel) hruns⟩
  match i with
  | 0 => exact eq_done_of_returned hfirst
  | 1 => exact eq_done_of_returned hsecond

/-- Two calls that look one right after the other find nothing both, and create two ages. -/
theorem twoCalls_race : ∃ p, twoCallsAfter [0, 1, 0, 1] = some p ∧
    p.server.idsFor .age cavern.ageUuid = [1004, 1003] ∧
    ¬ Agree Crates.plain cavern.ageUuid p := by
  have hrun : (twoCallsAfter [0, 1, 0, 1]).map (fun p => p.server.idsFor .age cavern.ageUuid) =
      some [1004, 1003] := by
    decide +kernel
  obtain ⟨p, hp, hids⟩ := Option.map_eq_some_iff.1 hrun
  refine ⟨p, hp, hids, fun h => ?_⟩
  have hages := h.ages
  rw [hids] at hages
  revert hages
  decide

end Moulars.Auth
