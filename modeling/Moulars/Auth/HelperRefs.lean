import Moulars.Auth.ServerNodes
import Moulars.Vault.Queries

/-!
The references that the server's own helpers make.

Every node that `create_player_nodes` or `create_age_nodes` refers to plays one `Part` in the call
that made it, and references lead from parts to parts in one direction only. Below a node
`fetch_refs` meets a reference twice only where the Relto of a player refers both to its own info
node and to the player's ages, among which is the Relto again.
-/

namespace Moulars.Auth

open Relation Lib.Clients Lib.Hash Lib.Digraph Hashes Vault Sdl

/-! ### Parts -/

inductive Part
  /-- refers to nothing -/
  | leaf
  | system
  /-- the list of all players -/
  | players
  | player
  /-- the list of a player's ages -/
  | owned
  /-- the link to the player's Relto in that list -/
  | link
  | age
  | info
  /-- the list of an age's owners -/
  | owners
  deriving DecidableEq

namespace Part

instance : Fintype Part :=
  Fintype.ofList [leaf, system, players, player, owned, link, age, info, owners] fun part => by
    cases part <;> decide

/-- The parts that a part refers to. -/
def refers : Part → List Part
  | leaf => []
  | system => [leaf]
  | players => [leaf]
  | player => [leaf, system, owned]
  | owned => [leaf, link]
  | link => [info]
  | age => [leaf, system, info, owned]
  | info => [leaf, owners]
  | owners => [leaf]

def rank : Part → ℕ
  | player => 0
  | age => 0
  | owned => 1
  | link => 2
  | info => 3
  | owners => 4
  | system => 5
  | players => 5
  | leaf => 6

/-- The part belongs to no call. -/
def shared (part : Part) : Bool := part = leaf || part = system || part = players

/-- The parts below an age that are its own or its player's. -/
def inner (part : Part) : Bool := part = owned || part = link || part = info || part = owners

lemma rank_lt : ∀ {x y : Part}, y ∈ x.refers → x.rank < y.rank := by decide

lemma inner_of_refers :
    ∀ {x y : Part}, x.inner = true → y ∈ x.refers → y ≠ leaf → y.inner = true := by decide

lemma leaf_of_shared : ∀ {x y : Part}, x.shared = true → y ∈ x.refers → y = leaf := by decide

lemma eq_age : ∀ x : Part, ∀ y ∈ x.refers, ∀ z ∈ y.refers, ∀ w ∈ z.refers, w ∈ x.refers →
    w ≠ leaf → x = age := by decide

lemma pair_cases : ∀ {x y z : Part}, y ∈ x.refers → z ∈ x.refers → y ≠ z → y ≠ leaf → z ≠ leaf →
    y = system ∧ z.inner = true ∨ z = system ∧ y.inner = true ∨
      y = owned ∧ z = info ∨ z = owned ∧ y = info := by decide

lemma not_refers_age : ∀ x : Part, age ∉ x.refers := by decide

end Part

variable {ι : Type}

/-- A part, with the call it belongs to. -/
structure Label (ι : Type) where
  part : Part
  call : Option ι

def Part.of (part : Part) (i : ι) : Label ι := ⟨part, if part.shared then none else some i⟩

/-- A reference may lead from here to there. -/
def Label.Refers (x y : Label ι) : Prop :=
  y.part ∈ x.part.refers ∧ (y.part.shared = false → y.call = x.call)

/-- References lead from parts to parts, and no two nodes play the same part unless they refer to
nothing. -/
structure Labelled (label : UInt32 → Label ι) (g : Graph) : Prop where
  refers : ∀ r ∈ g.refs, (label r.parent).Refers (label r.child)
  owner : ∀ r ∈ g.refs, (label r.child).part ≠ .leaf → r.owner = 0
  unique : ∀ a b, label a = label b → (label a).part ≠ .leaf → a = b
  shared : ∀ a, (label a).part.shared = true → (label a).call = none

/-! ### Paths -/

namespace Labelled

variable {label : UInt32 → Label ι} {g : Graph} {a b c : UInt32}

variable (h : Labelled label g)
include h

lemma refers_of_edge (hab : g.Edge a b) :
    (label a).Refers (label b) := by
  obtain ⟨owner, hr⟩ := hab
  exact h.refers _ hr

lemma acyclic : Acyclic g.Edge :=
  acyclic_of_rank fun _ _ hab => Part.rank_lt (h.refers_of_edge hab).1

lemma eq_of_leaf (ha : (label a).part = .leaf) (hab : ReflTransGen g.Edge a b) : a = b := by
  rcases hab.cases_head with rfl | ⟨c, hac, -⟩
  · rfl
  · have hparts := (h.refers_of_edge hac).1
    rw [ha] at hparts
    cases hparts

lemma ne_leaf (hab : g.Edge a b) : (label a).part ≠ .leaf := by
  intro ha
  have hparts := (h.refers_of_edge hab).1
  rw [ha] at hparts
  cases hparts

lemma eq_of_part (hab : g.Edge a b) (hac : g.Edge a c)
    (hpart : (label b).part = (label c).part) (hleaf : (label b).part ≠ .leaf) : b = c := by
  have hcall : (label b).call = (label c).call := by
    cases hshared : (label b).part.shared with
    | true => rw [h.shared b hshared, h.shared c (hpart ▸ hshared)]
    | false =>
      rw [(h.refers_of_edge hab).2 hshared, (h.refers_of_edge hac).2 (hpart ▸ hshared)]
  refine h.unique b c ?_ hleaf
  cases hb : label b
  cases hc : label c
  simp_all

lemma rank_le (hab : ReflTransGen g.Edge a b) :
    (label a).part.rank ≤ (label b).part.rank := by
  induction hab with
  | refl => rfl
  | tail _ hbc ih => exact ih.trans (Part.rank_lt (h.refers_of_edge hbc).1).le

lemma inner_of_path (ha : (label a).part.inner = true)
    (hab : ReflTransGen g.Edge a b) (hb : (label b).part ≠ .leaf) :
    (label b).part.inner = true := by
  induction hab with
  | refl => exact ha
  | tail _ hbc ih => exact Part.inner_of_refers (ih (h.ne_leaf hbc)) (h.refers_of_edge hbc).1 hb

lemma eq_of_shared (ha : (label a).part.shared = true)
    (hab : ReflTransGen g.Edge a b) (hb : (label b).part ≠ .leaf) : a = b := by
  rcases hab.cases_head with rfl | ⟨c, hac, hcb⟩
  · rfl
  · have hc := Part.leaf_of_shared ha (h.refers_of_edge hac).1
    rw [← h.eq_of_leaf hc hcb] at hb
    exact absurd hc hb

end Labelled

/-- The node leads to another in two ways, by a reference and by one to a folder with a link to it,
and the other refers to something. -/
def Doubles (g : Graph) (p : UInt32) : Prop :=
  ∃ folder link info child, g.Edge p folder ∧ g.Edge folder link ∧ g.Edge link info ∧
    g.Edge p info ∧ g.Edge info child

namespace Labelled

variable {label : UInt32 → Label ι} {g : Graph} {a b c : UInt32}

/-- What lies below both the ages of a player and the info node of an age lies below the Relto. -/
lemma doubles (h : Labelled label g) {folder info : UInt32} (hfolder : g.Edge a folder)
    (hinfo : g.Edge a info) (howned : (label folder).part = .owned)
    (hpart : (label info).part = .info) (hb : ReflTransGen g.Edge folder b)
    (hb' : ReflTransGen g.Edge info b) (hbc : g.Edge b c) : Doubles g a := by
  have hrank := h.rank_le hb'
  rw [hpart] at hrank
  have hleaf := h.ne_leaf hbc
  rcases hb.cases_head with rfl | ⟨link, hlink, hb⟩
  · rw [howned] at hrank
    exact absurd hrank (by decide)
  have hparts := (h.refers_of_edge hlink).1
  rw [howned] at hparts
  simp only [Part.refers, List.mem_cons, List.not_mem_nil, or_false] at hparts
  rcases hparts with hl | hl
  · exact absurd (h.eq_of_leaf hl hb ▸ hl) hleaf
  rcases hb.cases_head with rfl | ⟨info', hinfo', -⟩
  · rw [hl] at hrank
    exact absurd hrank (by decide)
  -- the link leads to the info node of the same call
  have hparts := (h.refers_of_edge hinfo').1
  rw [hl] at hparts
  have hpart' : (label info').part = .info := by simpa [Part.refers] using hparts
  have hcall : (label info').call = (label info).call := by
    rw [(h.refers_of_edge hinfo').2 (by rw [hpart']; decide),
      (h.refers_of_edge hlink).2 (by rw [hl]; decide),
      (h.refers_of_edge hfolder).2 (by rw [howned]; decide),
      (h.refers_of_edge hinfo).2 (by rw [hpart]; decide)]
  obtain rfl : info' = info := by
    refine h.unique _ _ ?_ (by rw [hpart']; decide)
    cases hx : label info'
    cases hy : label info
    simp_all
  obtain ⟨child, hchild⟩ : ∃ child, g.Edge info' child := by
    rcases hb'.cases_head with rfl | ⟨child, hchild, -⟩
    · exact ⟨c, hbc⟩
    · exact ⟨child, hchild⟩
  exact ⟨folder, link, info', child, hfolder, hlink, hinfo', hinfo, hchild⟩

/-- Below two references of a node there is nothing in common that refers to something, unless the
node leads to it in two ways. -/
lemma apart (h : Labelled label g) {r r' : NodeRef} (hr : r ∈ g.refs) (hr' : r' ∈ g.refs)
    (hne : r ≠ r') (hparent : r.parent = r'.parent) (hdoubles : ¬ Doubles g r.parent)
    (hb : ReflTransGen g.Edge r.child b) (hb' : ReflTransGen g.Edge r'.child b) :
    ¬ g.Edge b c := by
  intro hbc
  have hleaf := h.ne_leaf hbc
  have hedge : g.Edge r.parent r.child := ⟨r.owner, hr⟩
  have hedge' : g.Edge r.parent r'.child := ⟨r'.owner, hparent ▸ hr'⟩
  have hchild : (label r.child).part ≠ .leaf := fun e => hleaf (h.eq_of_leaf e hb ▸ e)
  have hchild' : (label r'.child).part ≠ .leaf := fun e => hleaf (h.eq_of_leaf e hb' ▸ e)
  by_cases hparts : (label r.child).part = (label r'.child).part
  · -- two references to one node have one owner
    refine hne ?_
    have hsame := h.eq_of_part hedge hedge' hparts hchild
    have howner := (h.owner r hr hchild).trans (h.owner r' hr' hchild').symm
    cases r
    cases r'
    simp_all
  · have hsystem {x y : UInt32} (hx : (label x).part = .system) (hy : (label y).part.inner = true)
        (hxb : ReflTransGen g.Edge x b) (hyb : ReflTransGen g.Edge y b) : False := by
      have hinner := h.inner_of_path hy hyb hleaf
      rw [← h.eq_of_shared (by rw [hx]; rfl) hxb hleaf, hx] at hinner
      cases hinner
    rcases Part.pair_cases (h.refers_of_edge hedge).1 (h.refers_of_edge hedge').1 hparts hchild
      hchild' with ⟨hx, hy⟩ | ⟨hx, hy⟩ | ⟨hx, hy⟩ | ⟨hx, hy⟩
    · exact hsystem hx hy hb hb'
    · exact hsystem hx hy hb' hb
    · exact hdoubles (h.doubles hedge hedge' hx hy hb hb' hbc)
    · exact hdoubles (h.doubles hedge' hedge hx hy hb' hb hbc)

/-- No reference leads to a node that leads to another in two ways. -/
lemma eq_of_doubles (h : Labelled label g) (hab : ReflTransGen g.Edge a b) (hb : Doubles g b) :
    a = b := by
  obtain ⟨folder, link, info, child, h₁, h₂, h₃, h₄, h₅⟩ := hb
  have hage := Part.eq_age _ _ (h.refers_of_edge h₁).1 _ (h.refers_of_edge h₂).1 _
    (h.refers_of_edge h₃).1 (h.refers_of_edge h₄).1 (h.ne_leaf h₅)
  rcases hab.cases_tail with rfl | ⟨c, -, hcb⟩
  · rfl
  · have hparts := (h.refers_of_edge hcb).1
    rw [hage] at hparts
    exact absurd hparts (Part.not_refers_age _)

/-- **Where references come twice.** -/
lemma nodup_iff {db : Backend} (h : Labelled label db.graph) {o : Order NodeRef} {d : ℕ}
    {p : UInt32} {refs : List NodeRef}
    (hrefs : DbMemory.fetchRefs (o.run db.nodeRefs.keys) d p true = some refs) :
    refs.Nodup ↔ ¬ Doubles db.graph p := by
  rw [nodup_fetchRefs_iff h.acyclic hrefs]
  constructor
  · rintro hapart ⟨folder, link, info, child, ⟨w, h₁⟩, h₂, h₃, ⟨w', h₄⟩, h₅⟩
    refine hapart _ h₁ _ h₄ ?_ rfl .refl info child (.head h₂ (.single h₃)) .refl h₅
    intro heq
    obtain rfl : folder = info := (NodeRef.mk.inj heq).2.1
    exact h.acyclic folder (.head h₂ (.single h₃))
  · intro hp r hr r' hr' hne hparent hreach b c hb hb'
    refine h.apart hr hr' hne hparent (fun hdoubles => hp ?_) hb hb'
    rwa [h.eq_of_doubles hreach hdoubles]

end Labelled

/-! ### Calls -/

/-- The parts of the nodes that `create_age_nodes` creates, in order. -/
def ageParts : List Part :=
  [.age, .leaf, .leaf, .leaf, .info, .leaf, .leaf, .leaf, .owners, .leaf]

/-- The parts of the nodes of a new player, from its own to those of its Relto. -/
def playerParts : List Part :=
  [.player, .leaf, .leaf, .leaf, .leaf, .owned, .leaf, .leaf, .leaf, .leaf, .leaf, .leaf, .leaf,
    .link, .leaf, .leaf] ++ ageParts

/-- What a call knows: the parts of the nodes it has yet to create, and the nodes it was told of. -/
structure Roles where
  todo : List Part
  known : List (UInt32 × Part)

def Roles.next (l : Roles) : (m : VaultMessage) → VaultReply m → Roles
  | .getSystemNode, .ok k => { l with known := (k, .system) :: l.known }
  | .getAllPlayersNode, .ok k => { l with known := (k, .players) :: l.known }
  | m, r => match m.createdId r, l.todo with
    | some id, part :: rest => ⟨rest, (id, part) :: l.known⟩
    | _, _ => l

/-- The calls by which the server adds to the vault: an age that was not found, and a player. -/
inductive HelperCall
  | age (a : AgeArgs) (isPublic : Bool)
  | player (accountId : Uuid) (playerName avatarShape : String) (reltoUuid : Uuid)

def HelperCall.parts : HelperCall → List Part
  | .age .. => ageParts
  | .player .. => playerParts

variable {X : Crates}

def HelperCall.prog (sdl : SdlHost X) : HelperCall → VaultProg Unit
  | .age a isPublic => do
    let _ ← createAgeNodes sdl a none isPublic
    pure ()
  | .player accountId playerName avatarShape reltoUuid => do
    let player ← request (.createPlayer accountId playerName avatarShape)
    createPlayerNodes sdl accountId player reltoUuid

def serveHelpers (X : Crates) : Serve Env Backend VaultReply Roles := fun env m l db =>
  (processVaultMessage X env m db).map fun o => (o.reply, l.next m o.reply, o.db)

/-- Any calls, side by side, on the vault that `init_vault` leaves. -/
def helperPool (sdl : SdlHost X) (calls : ι → HelperCall) :
    Pool ι Backend VaultReply NetResultCode Unit Roles :=
  ⟨initial, fun i => ⟨⟨(calls i).parts, []⟩, (calls i).prog sdl⟩⟩

/-- The requests of a call: it creates the nodes that are still to do, and refers from a node it
knows to another as their parts allow. -/
inductive MayBuild : Roles → VaultMessage → Prop
  | createPlayer {part rest known} (accountId : Uuid) (playerName avatarShape : String) :
      MayBuild ⟨part :: rest, known⟩ (.createPlayer accountId playerName avatarShape)
  | createNode {part rest known node} (hsystem : isSystem node = false)
      (hplayers : isAllPlayers node = false) :
      MayBuild ⟨part :: rest, known⟩ (.createNode node)
  | getSystemNode {l} : MayBuild l .getSystemNode
  | getAllPlayersNode {l} : MayBuild l .getAllPlayersNode
  | addGameServer {l} (server : GameServer) : MayBuild l (.addGameServer server)
  | refNode {l a b x y owner broadcast} (ha : (a, x) ∈ l.known) (hb : (b, y) ∈ l.known)
      (hxy : y ∈ x.refers) (howner : y ≠ .leaf → owner = 0) :
      MayBuild l (.refNode a b owner broadcast)

def helperContract : Contract VaultReply Roles where
  may := MayBuild
  gives l m r l' := l' = l.next m r

/-- A node that is not taken for the system node or the list of all players. -/
def Ordinary (node : VaultNode) : Prop := isSystem node = false ∧ isAllPlayers node = false

lemma ordinary_of_type {node : VaultNode} {t : NodeType} (h : node.nodeType = t.code)
    (ht : t.code ≠ NodeType.system.code) (ht' : t.code ≠ NodeType.playerInfoList.code) :
    Ordinary node := by
  refine ⟨beq_eq_false_iff_ne.2 (h ▸ ht), ?_⟩
  rw [isAllPlayers, show node.isOf .playerInfoList = false from beq_eq_false_iff_ne.2 (h ▸ ht')]
  rfl

section Programs

variable {β : Type} {sdl : SdlHost X} {todo : List Part} {known : List (UInt32 × Part)}
  {Q : Roles → Result NetResultCode β → Prop}

lemma builds_createNode {part : Part} {node : VaultNode} {f : UInt32 → VaultProg β}
    (hQ : ∀ l e, Q l (.error e)) (hnode : Ordinary node)
    (hf : ∀ id, (f id).Keeps helperContract Q ⟨todo, (id, part) :: known⟩) :
    (request (.createNode node) >>= f).Keeps helperContract Q ⟨part :: todo, known⟩ := by
  refine ⟨.createNode hnode.1 hnode.2, fun (r : NetResult UInt32) l hl => ?_⟩
  subst hl
  cases r with
  | error err => exact hQ _ _
  | ok id => exact hf id

lemma builds_refNode {l : Roles} {a b owner : UInt32} {broadcast : Bool} {f : Unit → VaultProg β}
    (hQ : ∀ l e, Q l (.error e)) {x y : Part} (ha : (a, x) ∈ l.known) (hb : (b, y) ∈ l.known)
    (hxy : y ∈ x.refers) (howner : y ≠ .leaf → owner = 0)
    (hf : (f ()).Keeps helperContract Q l) :
    (request (.refNode a b owner broadcast) >>= f).Keeps helperContract Q l := by
  refine ⟨.refNode ha hb hxy howner, fun (r : NetResult Unit) l' hl => ?_⟩
  subst hl
  cases r with
  | error err => exact hQ _ _
  | ok _ => exact hf

lemma builds_refPart {l : Roles} {a b : UInt32} {broadcast : Bool} {f : Unit → VaultProg β}
    (hQ : ∀ l e, Q l (.error e)) (x y : Part) (ha : (a, x) ∈ l.known) (hb : (b, y) ∈ l.known)
    (hxy : y ∈ x.refers) (hf : (f ()).Keeps helperContract Q l) :
    (request (.refNode a b 0 broadcast) >>= f).Keeps helperContract Q l :=
  builds_refNode hQ ha hb hxy (fun _ => rfl) hf

lemma builds_getSystemNode {f : UInt32 → VaultProg β} (hQ : ∀ l e, Q l (.error e))
    (hf : ∀ k, (f k).Keeps helperContract Q ⟨todo, (k, .system) :: known⟩) :
    (request .getSystemNode >>= f).Keeps helperContract Q ⟨todo, known⟩ := by
  refine ⟨.getSystemNode, fun (r : NetResult UInt32) l hl => ?_⟩
  subst hl
  cases r with
  | error err => exact hQ _ _
  | ok k => exact hf k

lemma builds_finishAge {l : Roles} {Q : Roles → Result NetResultCode (UInt32 × UInt32) → Prop}
    {a : AgeArgs} {addOwner : Option (UInt32 × UInt32)} {ageId ageInfo ageOwners sdlNode : UInt32}
    (hQ : ∀ l e, Q l (.error e)) (howners : (ageOwners, Part.owners) ∈ l.known)
    (howner : ∀ o ∈ addOwner, (o.2, Part.leaf) ∈ l.known) (hok : Q l (.ok (ageId, ageInfo))) :
    (finishAge a addOwner ageId ageInfo ageOwners sdlNode).Keeps helperContract Q l := by
  have hserver (server : GameServer) : (do
      request (.addGameServer server)
      pure (ageId, ageInfo) : VaultProg (UInt32 × UInt32)).Keeps helperContract Q l := by
    refine ⟨.addGameServer server, fun (r : NetResult Unit) l' hl => ?_⟩
    subst hl
    cases r with
    | error err => exact hQ _ _
    | ok _ => exact hok
  unfold finishAge
  cases addOwner with
  | none => exact hserver _
  | some o =>
    exact builds_refNode hQ howners (howner o rfl) (by decide) (fun h => absurd rfl h) (hserver _)

lemma builds_createAgeNodes (todo : List Part)
    {Q : Roles → Result NetResultCode (UInt32 × UInt32) → Prop} {a : AgeArgs}
    {addOwner : Option (UInt32 × UInt32)} {isPublic : Bool}
    (hQ : ∀ l e, Q l (.error e)) (hcrash : ∀ l, Q l .crash)
    (howner : ∀ o ∈ addOwner, (o.2, Part.leaf) ∈ known)
    (hok : ∀ ageId ageInfo known', known ⊆ known' → (ageId, Part.age) ∈ known' →
      (ageInfo, Part.info) ∈ known' → Q ⟨todo, known'⟩ (.ok (ageId, ageInfo))) :
    (createAgeNodes sdl a addOwner isPublic).Keeps helperContract Q ⟨ageParts ++ todo, known⟩ := by
  have hfolder (u i t) : Ordinary (VaultFolderNode.new u i t) :=
    ordinary_of_type (t := .folder) rfl (by decide) (by decide)
  have hages (u i t) : Ordinary (VaultAgeInfoListNode.new u i t) :=
    ordinary_of_type (t := .ageInfoList) rfl (by decide) (by decide)
  have hage := ordinary_of_type (VaultAgeNode.isFor_new a.ageUuid a.parentUuid a.ageFilename).1
    (by decide) (by decide)
  unfold createAgeNodes
  refine builds_createNode hQ hage fun ageId => ?_
  refine builds_createNode hQ (hfolder _ _ _) fun chronicleFolder => ?_
  refine builds_createNode hQ ⟨rfl, rfl⟩ fun peopleList => ?_
  refine builds_createNode hQ (hages _ _ _) fun subAges => ?_
  refine builds_createNode hQ (ordinary_of_type (VaultAgeInfoNode.isFor_new ..).1
    (by decide) (by decide)) fun ageInfo => ?_
  refine builds_createNode hQ (hfolder _ _ _) fun devicesFolder => ?_
  refine builds_createNode hQ ⟨rfl, rfl⟩ fun canVisit => ?_
  cases defaultSdl sdl a.ageFilename with
  | error err => exact hQ _ _
  | crash => exact hcrash _
  | ok sdlBlob =>
  refine builds_createNode hQ (ordinary_of_type (t := .sdl) rfl (by decide) (by decide))
    fun sdlNode => ?_
  refine builds_createNode hQ ⟨rfl, rfl⟩ fun ageOwners => ?_
  refine builds_createNode hQ (hages _ _ _) fun childAges => ?_
  refine builds_getSystemNode hQ fun systemNode => ?_
  refine builds_refPart hQ .age .system (by simp) (by simp) (by decide) ?_
  iterate 3 refine builds_refPart hQ .age .leaf (by simp) (by simp) (by decide) ?_
  refine builds_refPart hQ .age .info (by simp) (by simp) (by decide) ?_
  refine builds_refPart hQ .age .leaf (by simp) (by simp) (by decide) ?_
  iterate 2 refine builds_refPart hQ .info .leaf (by simp) (by simp) (by decide) ?_
  refine builds_refPart hQ .info .owners (by simp) (by simp) (by decide) ?_
  refine builds_refPart hQ .info .leaf (by simp) (by simp) (by decide) ?_
  refine builds_finishAge hQ (by simp) (fun o ho => ?_) (hok _ _ _ ?_ (by simp) (by simp))
  · simp [howner o ho]
  · exact fun e he => by simp [he]

lemma builds_createPlayerNodes {accountId reltoUuid : Uuid} (player : PlayerInfo) :
    (createPlayerNodes sdl accountId player reltoUuid).Keeps helperContract (fun _ _ => True)
      ⟨playerParts.tail, [(player.playerId, .player)]⟩ := by
  have hQ (l : Roles) (e : NetResultCode) :
    (fun (_ : Roles) (_ : Result NetResultCode Unit) => True) l (.error e) := trivial
  have hfolder (u i t) : Ordinary (VaultFolderNode.new u i t) :=
    ordinary_of_type (t := .folder) rfl (by decide) (by decide)
  have hages (u i t) : Ordinary (VaultAgeInfoListNode.new u i t) :=
    ordinary_of_type (t := .ageInfoList) rfl (by decide) (by decide)
  have hlink (u i b) : Ordinary (VaultAgeLinkNode.new u i b) :=
    ordinary_of_type (t := .ageLink) rfl (by decide) (by decide)
  unfold createPlayerNodes
  refine builds_createNode hQ (ordinary_of_type (t := .playerInfo) rfl (by decide) (by decide))
    fun playerInfo => ?_
  refine builds_createNode hQ ⟨rfl, rfl⟩ fun buddyList => ?_
  refine builds_createNode hQ ⟨rfl, rfl⟩ fun ignoreList => ?_
  refine builds_createNode hQ (hfolder _ _ _) fun inviteFolder => ?_
  refine builds_createNode hQ (hages _ _ _) fun ownedAges => ?_
  refine builds_createNode hQ (hfolder _ _ _) fun journalsFolder => ?_
  refine builds_createNode hQ (hfolder _ _ _) fun chronicleFolder => ?_
  refine builds_createNode hQ (hages _ _ _) fun visitAges => ?_
  refine builds_createNode hQ (hfolder _ _ _) fun outfitFolder => ?_
  refine builds_createNode hQ (hfolder _ _ _) fun closetFolder => ?_
  refine builds_createNode hQ (hfolder _ _ _) fun inbox => ?_
  refine builds_createNode hQ ⟨rfl, rfl⟩ fun peopleList => ?_
  refine builds_createNode hQ (hlink _ _ _) fun reltoLink => ?_
  refine builds_createNode hQ (hlink _ _ _) fun hoodLink => ?_
  refine builds_createNode hQ (hlink _ _ _) fun cityLink => ?_
  refine Prog.Keeps.bind ?_
  refine builds_createAgeNodes [] (fun _ _ => trivial) (fun _ => trivial) ?_ ?_
  · rintro o ho
    cases ho
    simp
  intro reltoId reltoInfo known' hsub hage hinfo
  have hmem {id : UInt32} {part : Part} (h : (id, part) ∈ [(cityLink, Part.leaf),
      (hoodLink, .leaf), (reltoLink, .link), (peopleList, .leaf), (inbox, .leaf),
      (closetFolder, .leaf), (outfitFolder, .leaf), (visitAges, .leaf), (chronicleFolder, .leaf),
      (journalsFolder, .leaf), (ownedAges, .owned), (inviteFolder, .leaf), (ignoreList, .leaf),
      (buddyList, .leaf), (playerInfo, .leaf), (player.playerId, .player)])
      (k : UInt32) : (id, part) ∈ (k, Part.system) :: known' := List.mem_cons_of_mem _ (hsub h)
  refine builds_getSystemNode hQ fun systemNode => ?_
  refine builds_refPart hQ .player .system (hmem (by simp) _) (by simp) (by decide) ?_
  iterate 4
    refine builds_refPart hQ .player .leaf (hmem (by simp) _) (hmem (by simp) _) (by decide) ?_
  refine builds_refPart hQ .player .owned (hmem (by simp) _) (hmem (by simp) _) (by decide) ?_
  iterate 7
    refine builds_refPart hQ .player .leaf (hmem (by simp) _) (hmem (by simp) _) (by decide) ?_
  refine builds_refPart hQ .owned .link (hmem (by simp) _) (hmem (by simp) _) (by decide) ?_
  iterate 2
    refine builds_refPart hQ .owned .leaf (hmem (by simp) _) (hmem (by simp) _) (by decide) ?_
  refine builds_refPart hQ .link .info (hmem (by simp) _) (by simp [hinfo]) (by decide) ?_
  refine builds_refPart hQ .age .owned (by simp [hage]) (hmem (by simp) _) (by decide) ?_
  refine ⟨.getAllPlayersNode, fun (r : NetResult UInt32) l hl => ?_⟩
  subst hl
  cases r with
  | error err => trivial
  | ok allPlayers =>
    refine ⟨.refNode (x := .players) (y := .leaf) (by simp [Roles.next])
      (List.mem_cons_of_mem _ (hmem (by simp) _)) (by decide) (fun _ => rfl), fun r l hl => ?_⟩
    cases r <;> trivial

lemma builds_prog (sdl : SdlHost X) (call : HelperCall) :
    (call.prog sdl).Keeps helperContract (fun _ _ => True) ⟨call.parts, []⟩ := by
  cases call with
  | age a isPublic =>
    refine Prog.Keeps.bind ?_
    exact builds_createAgeNodes [] (fun _ _ => trivial) (fun _ => trivial) nofun
      fun _ _ _ _ _ _ => trivial
  | player accountId playerName avatarShape reltoUuid =>
    refine ⟨.createPlayer .., fun (r : NetResult PlayerInfo) l hl => ?_⟩
    subst hl
    cases r with
    | error err => trivial
    | ok player => exact builds_createPlayerNodes player

end Programs

/-! ### Runs -/

/-- The labels fit the references and what the calls know, and every part that a call has yet to
create is free. -/
structure Marked (label : UInt32 → Label ι) (g : Graph) (ls : ι → Roles) : Prop extends
    Labelled label g where
  nodes : ∀ a, (label a).part ≠ .leaf → a ∈ g.nodes
  ends : ∀ r ∈ g.refs, r.parent ∈ g.nodes ∧ r.child ∈ g.nodes
  known : ∀ i e, e ∈ (ls i).known → label e.1 = e.2.of i ∧ e.1 ∈ g.nodes
  own : ∀ i part, part ∈ (ls i).todo → part ≠ .leaf → part.shared = false
  free : ∀ i part, part ∈ (ls i).todo → part ≠ .leaf → ∀ a, label a ≠ part.of i
  distinct : ∀ i, ((ls i).todo.filter (· ≠ .leaf)).Nodup
  system : ∀ k n, g.nodes.lookup k = some n → isSystem n = true → label k = ⟨.system, none⟩
  players : ∀ k n, g.nodes.lookup k = some n → isAllPlayers n = true → label k = ⟨.players, none⟩

lemma Part.of_inj {x y : Part} {i j : ι} (h : x.of i = y.of j) (hx : x.shared = false) :
    x = y ∧ i = j := by
  obtain ⟨rfl, hcall⟩ := Label.mk.inj h
  rw [hx] at hcall
  exact ⟨rfl, Option.some.inj hcall⟩

namespace Marked

variable {label : UInt32 → Label ι} {g : Graph} {ls : ι → Roles} {i : ι}
  {part : Part} {rest : List Part} {known : List (UInt32 × Part)}

lemma lookup_create {node : VaultNode} {k : UInt32} {n : VaultNode}
    (hk : (g.apply (.create node)).nodes.lookup k = some n) :
    k = g.next ∧ n = node.set .nodeId g.next ∨ k ≠ g.next ∧ g.nodes.lookup k = some n := by
  have hk' : (g.nodes.insert g.next (node.set .nodeId g.next)).lookup k = some n := hk
  by_cases hnext : k = g.next
  · subst hnext
    rw [AList.lookup_insert] at hk'
    exact .inl ⟨rfl, (Option.some.inj hk').symm⟩
  · rw [AList.lookup_insert_ne hnext] at hk'
    exact .inr ⟨hnext, hk'⟩

lemma overwrite (h : Marked label g ls) {node : VaultNode} (hnode : Ordinary node) :
    Marked label (g.apply (.create node)) ls where
  refers := h.refers
  owner := h.owner
  unique := h.unique
  shared := h.shared
  nodes a ha := Graph.mem_apply (h.nodes a ha) _
  ends r hr := ⟨Graph.mem_apply (h.ends r hr).1 _, Graph.mem_apply (h.ends r hr).2 _⟩
  known i e he := ⟨(h.known i e he).1, Graph.mem_apply (h.known i e he).2 _⟩
  own := h.own
  free := h.free
  distinct := h.distinct
  system k n hk hn := by
    rcases lookup_create hk with ⟨rfl, rfl⟩ | ⟨-, hk⟩
    · rw [isSystem_set_nodeId, hnode.1] at hn
      cases hn
    · exact h.system k n hk hn
  players k n hk hn := by
    rcases lookup_create hk with ⟨rfl, rfl⟩ | ⟨-, hk⟩
    · rw [isAllPlayers_set_nodeId, hnode.2] at hn
      cases hn
    · exact h.players k n hk hn

lemma labelled_update (h : Labelled label g) {k : UInt32} {x : Label ι}
    (hends : ∀ r ∈ g.refs, r.parent ≠ k ∧ r.child ≠ k)
    (hshared : x.part.shared = true → x.call = none)
    (hfree : x.part ≠ .leaf → ∀ a, label a ≠ x) : Labelled (Function.update label k x) g := by
  have hold {a : UInt32} (ha : a ≠ k) : Function.update label k x a = label a :=
    Function.update_of_ne ha _ _
  refine ⟨fun r hr => ?_, fun r hr hr' => ?_, fun a b hab ha => ?_, fun a ha => ?_⟩
  · rw [hold (hends r hr).1, hold (hends r hr).2]
    exact h.refers r hr
  · rw [hold (hends r hr).2] at hr'
    exact h.owner r hr hr'
  · by_cases hak : a = k
    · subst hak
      by_cases hba : b = a
      · exact hba.symm
      · rw [Function.update_self] at hab ha
        rw [hold hba] at hab
        exact absurd hab.symm (hfree ha b)
    · rw [hold hak] at hab ha
      by_cases hbk : b = k
      · subst hbk
        rw [Function.update_self] at hab
        exact absurd hab (hfree (hab ▸ ha) a)
      · rw [hold hbk] at hab
        exact h.unique a b hab ha
  · by_cases hak : a = k
    · subst hak
      rw [Function.update_self] at ha ⊢
      exact hshared ha
    · rw [hold hak] at ha ⊢
      exact h.shared a ha

lemma create [DecidableEq ι] (h : Marked label g ls) {node : VaultNode} (hnode : Ordinary node)
    (hls : ls i = ⟨part :: rest, known⟩) (hnext : g.next ∉ g.nodes) :
    Marked (Function.update label g.next (part.of i)) (g.apply (.create node))
      (Function.update ls i ⟨rest, (g.next, part) :: known⟩) := by
  have hover := h.overwrite hnode
  have hold {a : UInt32} (ha : a ≠ g.next) :
      Function.update label g.next (part.of i) a = label a := Function.update_of_ne ha _ _
  have hne {a : UInt32} (ha : a ∈ g.nodes) : a ≠ g.next := fun e => hnext (e ▸ ha)
  have hleaf : (label g.next).part = .leaf := not_not.1 fun hl => hnext (h.nodes _ hl)
  have hmem : part ∈ (ls i).todo := by simp [hls]
  -- what is still to do was to do before
  have htodo {j : ι} {x : Part}
      (hx : x ∈ (Function.update ls i ⟨rest, (g.next, part) :: known⟩ j).todo) :
      x ∈ (ls j).todo ∧ (x ≠ .leaf → x = part → j ≠ i) := by
    by_cases hj : j = i
    · subst hj
      rw [Function.update_self] at hx
      refine ⟨by simp [hls, show x ∈ rest from hx], ?_⟩
      rintro hleaf rfl -
      have hdistinct := h.distinct j
      rw [hls, List.filter_cons_of_pos (by simpa using hleaf), List.nodup_cons] at hdistinct
      exact hdistinct.1 (List.mem_filter.2 ⟨hx, by simpa using hleaf⟩)
    · rw [Function.update_of_ne hj] at hx
      exact ⟨hx, fun _ _ => hj⟩
  have hseen {k : UInt32} {x : Part} (hk : label k = ⟨x, none⟩) (hx : x ≠ .leaf) :
      Function.update label g.next (part.of i) k = ⟨x, none⟩ := by
    rw [hold, hk]
    rintro rfl
    rw [hk] at hleaf
    exact hx hleaf
  refine ⟨labelled_update hover.toLabelled
    (fun r hr => ⟨hne (h.ends r hr).1, hne (h.ends r hr).2⟩) (fun hx => if_pos hx)
    (fun hx => h.free i part hmem hx), fun a ha => ?_, hover.ends, fun j e he => ?_,
    fun j x hx => h.own j x (htodo hx).1, fun j x hx hx' a => ?_, fun j => ?_,
    fun k n hk hn => hseen (hover.system k n hk hn) (by decide),
    fun k n hk hn => hseen (hover.players k n hk hn) (by decide)⟩
  · by_cases hea : a = g.next
    · rw [hea]
      exact (AList.mem_insert _).2 (.inl rfl)
    · rw [hold hea] at ha
      exact hover.nodes a ha
  · by_cases hj : j = i
    · subst hj
      rw [Function.update_self] at he
      rcases List.mem_cons.1 he with rfl | he
      · exact ⟨Function.update_self .., (AList.mem_insert _).2 (.inl rfl)⟩
      · have hknown := h.known j e (by simp [hls, he])
        rw [hold (hne hknown.2)]
        exact ⟨hknown.1, Graph.mem_apply hknown.2 _⟩
    · rw [Function.update_of_ne hj] at he
      have hknown := h.known j e he
      rw [hold (hne hknown.2)]
      exact ⟨hknown.1, Graph.mem_apply hknown.2 _⟩
  · by_cases hea : a = g.next
    · subst hea
      rw [Function.update_self]
      intro heq
      obtain ⟨hpart, hij⟩ := Part.of_inj heq.symm (h.own j x (htodo hx).1 hx')
      exact (htodo hx).2 hx' hpart hij
    · rw [hold hea]
      exact h.free j x (htodo hx).1 hx' a
  · by_cases hj : j = i
    · subst hj
      rw [Function.update_self]
      have hdistinct := h.distinct j
      rw [hls] at hdistinct
      exact hdistinct.sublist ((List.sublist_cons_self _ _).filter _)
    · rw [Function.update_of_ne hj]
      exact h.distinct j

lemma learn [DecidableEq ι] (h : Marked label g ls) {k : UInt32} (hk : label k = part.of i)
    (hmem : k ∈ g.nodes) :
    Marked label g (Function.update ls i { ls i with known := (k, part) :: (ls i).known }) := by
  have htodo (j : ι) : (Function.update ls i
      { ls i with known := (k, part) :: (ls i).known } j).todo = (ls j).todo := by
    by_cases hj : j = i
    · subst hj
      rw [Function.update_self]
    · rw [Function.update_of_ne hj]
  refine ⟨h.toLabelled, h.nodes, h.ends, fun j e he => ?_, fun j x hx => h.own j x (htodo j ▸ hx),
    fun j x hx => h.free j x (htodo j ▸ hx), fun j => ?_, h.system, h.players⟩
  · by_cases hj : j = i
    · subst hj
      rw [Function.update_self] at he
      rcases List.mem_cons.1 he with rfl | he
      · exact ⟨hk, hmem⟩
      · exact h.known j e he
    · rw [Function.update_of_ne hj] at he
      exact h.known j e he
  · rw [htodo]
    exact h.distinct j

lemma ref (h : Marked label g ls) {a b owner : UInt32} {x y : Part} (ha : (a, x) ∈ (ls i).known)
    (hb : (b, y) ∈ (ls i).known) (hxy : y ∈ x.refers) (howner : y ≠ .leaf → owner = 0) :
    Marked label (g.apply (.ref ⟨a, b, owner⟩)) ls := by
  obtain ⟨hla, hna⟩ := h.known i _ ha
  obtain ⟨hlb, hnb⟩ := h.known i _ hb
  dsimp only at hla hlb hna hnb
  have hrefers : (label a).Refers (label b) := by
    rw [hla, hlb]
    refine ⟨hxy, fun hy => ?_⟩
    have hx : x.shared = false := by
      by_contra hx
      rw [Part.leaf_of_shared (by simpa using hx) hxy] at hy
      cases hy
    have hy : y.shared = false := hy
    simp [Part.of, hx, hy]
  refine ⟨⟨fun r hr => ?_, fun r hr hr' => ?_, h.unique, h.shared⟩, h.nodes, fun r hr => ?_,
    h.known,
    h.own, h.free, h.distinct, h.system, h.players⟩
  · rcases HashSet.mem_add.1 hr with rfl | hr
    · exact hrefers
    · exact h.refers r hr
  · rcases HashSet.mem_add.1 hr with rfl | hr
    · rw [hlb] at hr'
      exact howner hr'
    · exact h.owner r hr hr'
  · rcases HashSet.mem_add.1 hr with rfl | hr
    · exact ⟨hna, hnb⟩
    · exact h.ends r hr

lemma create_step [DecidableEq ι] (h : Marked label g ls) {node : VaultNode}
    (hnode : Ordinary node) (htodo : (ls i).todo = part :: rest) :
    ∃ label', Marked (ι := ι) label' (g.apply (.create node)) (Function.update ls i
      (match g.created (.create node) with
      | some id => ⟨rest, (id, part) :: (ls i).known⟩
      | none => ls i)) := by
  unfold Graph.created
  by_cases htaken : (g.nodes.lookup g.next).isSome
  · rw [if_pos htaken]
    dsimp only
    rw [Function.update_eq_self]
    exact ⟨label, h.overwrite hnode⟩
  · rw [if_neg htaken]
    have hls : ls i = ⟨part :: rest, (ls i).known⟩ := by rw [← htodo]
    exact ⟨_, h.create hnode hls fun hmem => htaken (AList.lookup_isSome.2 hmem)⟩

lemma next_created {l : Roles} {m : VaultMessage} (r : VaultReply m) (hm : m ≠ .getSystemNode)
    (hm' : m ≠ .getAllPlayersNode) (htodo : l.todo = part :: rest) :
    l.next m r = match m.createdId r with
      | some id => ⟨rest, (id, part) :: l.known⟩
      | none => l := by
  have hnext : l.next m r = match m.createdId r, l.todo with
      | some id, part :: rest => ⟨rest, (id, part) :: l.known⟩
      | _, _ => l := by
    cases m with
    | getSystemNode => exact absurd rfl hm
    | getAllPlayersNode => exact absurd rfl hm'
    | _ => rfl
  rw [hnext, htodo]
  cases m.createdId r <;> rfl

lemma lookup_of_firstKey {db : Backend} {env : Env} {test : VaultNode → Bool} {k : UInt32}
    (h : DbMemory.firstKey env test db = .ok k) :
    ∃ n, db.graph.nodes.lookup k = some n ∧ test n = true := by
  unfold DbMemory.firstKey at h
  split at h
  · rename_i e he
    cases h
    exact ⟨e.2, HashMap.mem_toList.1 ((Order.mem_run _).1 (List.mem_of_find?_eq_some he)),
      by simpa using List.find?_some he⟩
  · cases h

lemma vault [DecidableEq ι] {db : Backend} {env : Env} {m : VaultMessage} {o : Outcome m.Reply}
    (h : Marked label db.graph ls) (hm : MayBuild (ls i) m)
    (ho : processVaultMessage X env m db = some o) : ∃ label', Marked (ι := ι) label' o.db.graph
      (Function.update ls i ((ls i).next m o.reply)) := by
  obtain ⟨hgraph, hid⟩ := processVaultMessage_graph X env ho
  rw [hgraph]
  generalize hl : ls i = l at hm
  cases hm with
  | @createPlayer part rest known accountId playerName avatarShape =>
    have htodo : (ls i).todo = part :: rest := by rw [hl]
    rw [← hl, next_created o.reply (by simp) (by simp) htodo, hid]
    simp only [VaultMessage.action]
    split
    · -- the player was refused
      exact ⟨label, (Function.update_eq_self i ls).symm ▸ h⟩
    · exact h.create_step (ordinary_of_type (t := .player) rfl (by decide) (by decide)) htodo
  | @createNode part rest known node hsystem hplayers =>
    have htodo : (ls i).todo = part :: rest := by rw [hl]
    rw [← hl, next_created o.reply (by simp) (by simp) htodo, hid]
    exact h.create_step ⟨hsystem, hplayers⟩ htodo
  | getSystemNode =>
    obtain rfl := Option.some.inj ho
    refine ⟨label, ?_⟩
    cases hreply : DbMemory.getSystemNode env db with
    | error err =>
      rw [← hl]
      exact (Function.update_eq_self i ls).symm ▸ h
    | ok k =>
      obtain ⟨n, hn, htest⟩ := lookup_of_firstKey hreply
      rw [← hl]
      exact h.learn (h.system k n hn htest) (AList.lookup_isSome.1 (Option.isSome_of_mem hn))
  | getAllPlayersNode =>
    obtain rfl := Option.some.inj ho
    refine ⟨label, ?_⟩
    cases hreply : DbMemory.getAllPlayersNode env db with
    | error err =>
      rw [← hl]
      exact (Function.update_eq_self i ls).symm ▸ h
    | ok k =>
      obtain ⟨n, hn, htest⟩ := lookup_of_firstKey hreply
      rw [← hl]
      exact h.learn (h.players k n hn htest) (AList.lookup_isSome.1 (Option.isSome_of_mem hn))
  | addGameServer server =>
    rw [← hl]
    exact ⟨label, (Function.update_eq_self i ls).symm ▸ h⟩
  | refNode ha hb hxy howner =>
    rw [← hl] at ha hb ⊢
    exact ⟨label, (Function.update_eq_self i ls).symm ▸ h.ref ha hb hxy howner⟩

end Marked

def initialLabel (k : UInt32) : Label ι :=
  if k = 1000 then ⟨.system, none⟩ else if k = 1002 then ⟨.players, none⟩ else ⟨.leaf, none⟩

lemma initialLabel_cases (k : UInt32) :
    k = 1000 ∧ initialLabel (ι := ι) k = ⟨.system, none⟩ ∨
    k = 1002 ∧ initialLabel (ι := ι) k = ⟨.players, none⟩ ∨
    initialLabel (ι := ι) k = ⟨.leaf, none⟩ := by
  unfold initialLabel
  split
  · exact .inl ⟨‹_›, rfl⟩
  · split
    · exact .inr (.inl ⟨‹_›, rfl⟩)
    · exact .inr (.inr rfl)

lemma labelled_initial : Labelled (initialLabel (ι := ι)) initial.graph := by
  refine ⟨fun r hr => ?_, fun r hr hleaf => ?_, fun a b hab ha => ?_, fun a _ => ?_⟩
  · obtain rfl := mem_refs_initial.1 hr
    exact ⟨(by decide : Part.leaf ∈ Part.system.refers), nofun⟩
  · obtain rfl := mem_refs_initial.1 hr
    rfl
  · rcases initialLabel_cases (ι := ι) a with ⟨rfl, hl⟩ | ⟨rfl, hl⟩ | hl
    · rcases initialLabel_cases (ι := ι) b with ⟨rfl, -⟩ | ⟨-, hl'⟩ | hl'
      · rfl
      all_goals cases hl.symm.trans (hab.trans hl')
    · rcases initialLabel_cases (ι := ι) b with ⟨-, hl'⟩ | ⟨rfl, -⟩ | hl'
      · cases hl.symm.trans (hab.trans hl')
      · rfl
      · cases hl.symm.trans (hab.trans hl')
    · exact absurd (congrArg Label.part hl) ha
  · rcases initialLabel_cases (ι := ι) a with ⟨-, hl⟩ | ⟨-, hl⟩ | hl
    all_goals rw [hl]

lemma marked_initial (calls : ι → HelperCall) :
    Marked initialLabel initial.graph fun i => ⟨(calls i).parts, []⟩ := by
  have hown : ∀ call : HelperCall, ∀ part ∈ call.parts, part ≠ .leaf → part.shared = false := by
    intro call
    cases call with
    | age => show ∀ part ∈ ageParts, _; decide
    | player => show ∀ part ∈ playerParts, _; decide
  have hsteady := (identified_initial fun _ : Unit => 0).steady
  refine ⟨labelled_initial, fun a ha => ?_, fun r hr => ?_, nofun, fun i => hown (calls i),
    fun i part hpart hleaf a ha => ?_, fun i => ?_, fun k n hk hn => ?_, fun k n hk hn => ?_⟩
  · rcases initialLabel_cases (ι := ι) a with ⟨rfl, -⟩ | ⟨rfl, -⟩ | hl
    · decide
    · decide
    · exact absurd (congrArg Label.part hl) ha
  · obtain rfl := mem_refs_initial.1 hr
    exact ⟨by decide, by decide⟩
  · have hshared := hown (calls i) part hpart hleaf
    have hpart' : (initialLabel (ι := ι) a).part = part := congrArg Label.part ha
    rcases initialLabel_cases (ι := ι) a with ⟨-, hl⟩ | ⟨-, hl⟩ | hl
    all_goals
      rw [hl] at hpart'
      subst hpart'
      cases hshared
  · cases calls i with
    | age => show (ageParts.filter _).Nodup; decide
    | player => show (playerParts.filter _).Nodup; decide
  · obtain rfl := (hsteady.system k).1 ⟨n, hk, hn⟩
    rfl
  · obtain rfl := (hsteady.allPlayers k).1 ⟨n, hk, hn⟩
    rfl

/-- **References below a node**: in every state of every run of any number of calls, side by side or
one after the other in any order, the recursive `fetch_refs` ends and returns no reference twice,
unless the node leads to another in two ways. -/
theorem helper_refs_nodup_iff [DecidableEq ι] (sdl : SdlHost X) (calls : ι → HelperCall)
    {s : Pool ι Backend VaultReply NetResultCode Unit Roles}
    (h : Runs (serveHelpers X) (fun _ _ _ _ => True) (helperPool sdl calls) s) (p : UInt32)
    (o : Order NodeRef) :
    ∃ refs depth, (∀ d, depth ≤ d →
        DbMemory.fetchRefs (o.run s.server.nodeRefs.keys) d p true = some refs) ∧
      (refs.Nodup ↔ ¬ Doubles s.server.graph p) := by
  obtain ⟨⟨label, hmarked⟩, -⟩ := h.keeps (C := helperContract) (Q := fun _ _ => True)
    (I := fun db ls => ∃ label : UInt32 → Label ι, Marked label db.graph ls)
    ⟨initialLabel, marked_initial calls⟩ (fun i => builds_prog sdl (calls i)) <| by
      rintro db ls i env m r l db' ⟨label, hI⟩ hmay - hserve
      obtain ⟨out, hout, heq⟩ := Option.map_eq_some_iff.1 hserve
      cases heq
      exact ⟨rfl, hI.vault hmay hout⟩
  have hlabelled := hmarked.toLabelled
  obtain ⟨depth, hends⟩ := fetchEnds_of_acyclic hlabelled.acyclic p o
  obtain ⟨refs, hrefs⟩ := Option.isSome_iff_exists.1 hends
  refine ⟨refs, depth, fun d hd => ?_, hlabelled.nodup_iff hrefs⟩
  rw [fetchRefs_eq_walk] at hrefs ⊢
  exact walk_of_le hd hrefs

/-! ### A new player -/

def newcomer : Pool Unit Backend VaultReply NetResultCode Unit Roles :=
  helperPool smallSdl fun _ => .player .nil "Yeesha" "Female" .nil

def newcomerSteps : List (Unit × Env) := List.replicate 60 ((), Env.plain 0)

/-- The Relto, node 1019, leads to its info node 1023 by a reference and by way of the ages of the
player, node 1008. -/
theorem newcomer_relto_doubles :
    ∃ s, Runs (serveHelpers smallCrates) (fun _ _ _ _ => True) newcomer s ∧
      ∃ refs depth, (∀ d, depth ≤ d →
        DbMemory.fetchRefs s.server.nodeRefs.keys d 1019 true = some refs) ∧ ¬ refs.Nodup := by
  have hrun : ((newcomer.replay (serveHelpers smallCrates) (fun _ _ _ _ => True)
      newcomerSteps).map fun s => [⟨1019, 1008, 0⟩, ⟨1008, 1016, 0⟩, ⟨1016, 1023, 0⟩,
        ⟨1019, 1023, 0⟩, ⟨1023, 1025, 0⟩].all fun r => decide (r ∈ s.server.nodeRefs)) =
          some true := by
    decide +kernel
  obtain ⟨s, hs, hall⟩ := Option.map_eq_some_iff.1 hrun
  have hruns := Runs.start.replay hs
  have hmem (r : NodeRef) (hr : r ∈ [(⟨1019, 1008, 0⟩ : NodeRef), ⟨1008, 1016, 0⟩, ⟨1016, 1023, 0⟩,
      ⟨1019, 1023, 0⟩, ⟨1023, 1025, 0⟩]) : r ∈ s.server.graph.refs :=
    of_decide_eq_true (List.all_eq_true.1 hall r hr)
  obtain ⟨refs, depth, hrefs, hnodup⟩ := helper_refs_nodup_iff _ _ hruns 1019 (.listed _)
  refine ⟨s, hruns, refs, depth, hrefs, fun h => hnodup.1 h ?_⟩
  exact ⟨1008, 1016, 1023, 1025, ⟨0, hmem _ (by simp)⟩, ⟨0, hmem _ (by simp)⟩,
    ⟨0, hmem _ (by simp)⟩, ⟨0, hmem _ (by simp)⟩, ⟨0, hmem _ (by simp)⟩⟩

/-- `fetch_refs` returns the references of the info node twice. -/
theorem newcomer_refs_twice :
    ∃ s, Runs (serveHelpers smallCrates) (fun _ _ _ _ => True) newcomer s ∧
      ∃ refs, DbMemory.fetchRefs s.server.nodeRefs.keys 8 1019 true = some refs ∧
        refs.count ⟨1023, 1025, 0⟩ = 2 ∧ ¬ refs.Nodup := by
  have hrun : ((newcomer.replay (serveHelpers smallCrates) (fun _ _ _ _ => True)
      newcomerSteps).map fun s => (DbMemory.fetchRefs s.server.nodeRefs.keys 8 1019 true).map
        (List.count ⟨1023, 1025, 0⟩)) = some (some 2) := by
    decide +kernel
  obtain ⟨s, hs, hcount⟩ := Option.map_eq_some_iff.1 hrun
  obtain ⟨refs, hrefs, hcount⟩ := Option.map_eq_some_iff.1 hcount
  refine ⟨s, Runs.start.replay hs, refs, hrefs, hcount, fun hnodup => ?_⟩
  have hle := List.nodup_iff_count_le_one.1 hnodup ⟨1023, 1025, 0⟩
  omega

end Moulars.Auth
