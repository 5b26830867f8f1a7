import Moulars.Vault.DbMemory
import Moulars.Vault.NodeBlob

/-!
Typed views of nodes.

What an accessor reads, and which argument of the constructor it stands for, are tables here as in
`vnode_access!`. They agree but for one entry, the language of an age.
-/

namespace Moulars.Vault

open Lib.Wire

/-! ### Accessors -/

namespace VaultPlayerNode

inductive Accessor
  | playerNameCi | avatarShape | disabled | explorer | onlineTime | accountId | inviteUuid

@[reducible] def field : Accessor → Field
  | .playerNameCi => .istring64_1
  | .avatarShape => .string64_1
  | .disabled => .int32_1
  | .explorer => .int32_2
  | .onlineTime => .uint32_1
  | .accountId => .uuid_1
  | .inviteUuid => .uuid_2

end VaultPlayerNode

namespace VaultAgeNode

inductive Accessor
  | ageInstanceUuid | parentAgeInstanceUuid | ageName

@[reducible] def field : Accessor → Field
  | .ageInstanceUuid => .uuid_1
  | .parentAgeInstanceUuid => .uuid_2
  | .ageName => .string64_1

end VaultAgeNode

namespace VaultFolderNode

inductive Accessor
  | folderType | folderName

@[reducible] def field : Accessor → Field
  | .folderType => .int32_1
  | .folderName => .string64_1

end VaultFolderNode

namespace VaultPlayerInfoNode

inductive Accessor
  | playerId | playerNameCi | ageInstanceName | ageInstanceUuid | online | ccrLevel

@[reducible] def field : Accessor → Field
  | .playerId => .uint32_1
  | .playerNameCi => .istring64_1
  | .ageInstanceName => .string64_1
  | .ageInstanceUuid => .uuid_1
  | .online => .int32_1
  | .ccrLevel => .int32_2

end VaultPlayerInfoNode

namespace VaultSdlNode

inductive Accessor
  | sdlName | sdlIdent | sdlData

@[reducible] def field : Accessor → Field
  | .sdlName => .string64_1
  | .sdlIdent => .int32_1
  | .sdlData => .blob_1

end VaultSdlNode

namespace VaultAgeLinkNode

inductive Accessor
  | unlocked | volatile | spawnPoints

@[reducible] def field : Accessor → Field
  | .unlocked => .int32_1
  | .volatile => .int32_2
  | .spawnPoints => .blob_1

end VaultAgeLinkNode

namespace VaultPlayerInfoListNode

inductive Accessor
  | folderType | folderName

@[reducible] def field : Accessor → Field
  | .folderType => .int32_1
  | .folderName => .string64_1

end VaultPlayerInfoListNode

namespace VaultAgeInfoNode

inductive Accessor
  | ageFilename | ageInstanceName | ageUserDefinedName | ageInstanceUuid | parentAgeInstanceUuid
  | ageDescription | ageSequenceNumber | ageLanguage | ageId | ageCzarId | ageInfoFlags | isPublic

@[reducible] def field : Accessor → Field
  | .ageFilename => .string64_2
  | .ageInstanceName => .string64_3
  | .ageUserDefinedName => .string64_4
  | .ageInstanceUuid => .uuid_1
  | .parentAgeInstanceUuid => .uuid_2
  | .ageDescription => .text_1
  | .ageSequenceNumber => .int32_1
  | .ageLanguage => .int32_2
  | .ageId => .uint32_1
  | .ageCzarId => .uint32_2
  | .ageInfoFlags => .uint32_3
  | .isPublic => .int32_2

end VaultAgeInfoNode

namespace VaultAgeInfoListNode

inductive Accessor
  | folderType | folderName

@[reducible] def field : Accessor → Field
  | .folderType => .int32_1
  | .folderName => .string64_1

end VaultAgeInfoListNode

/-! ### Views -/

/-- The views that have a constructor with arguments. -/
inductive View
  | player | age | folder | playerInfo | sdl | ageLink | playerInfoList | ageInfo | ageInfoList

namespace View

@[reducible] def Accessor : View → Type
  | .player => VaultPlayerNode.Accessor
  | .age => VaultAgeNode.Accessor
  | .folder => VaultFolderNode.Accessor
  | .playerInfo => VaultPlayerInfoNode.Accessor
  | .sdl => VaultSdlNode.Accessor
  | .ageLink => VaultAgeLinkNode.Accessor
  | .playerInfoList => VaultPlayerInfoListNode.Accessor
  | .ageInfo => VaultAgeInfoNode.Accessor
  | .ageInfoList => VaultAgeInfoListNode.Accessor

@[reducible] def field : (v : View) → v.Accessor → Field
  | .player => VaultPlayerNode.field
  | .age => VaultAgeNode.field
  | .folder => VaultFolderNode.field
  | .playerInfo => VaultPlayerInfoNode.field
  | .sdl => VaultSdlNode.field
  | .ageLink => VaultAgeLinkNode.field
  | .playerInfoList => VaultPlayerInfoListNode.field
  | .ageInfo => VaultAgeInfoNode.field
  | .ageInfoList => VaultAgeInfoListNode.field

def get (v : View) (a : v.Accessor) (node : VaultNode) : (v.field a).Val := node.val (v.field a)

end View

/-- `as_folder_node`: lists are folders too. -/
def VaultNode.asFolderNode (n : VaultNode) : Option VaultNode :=
  if n.isOf .folder || n.isOf .playerInfoList || n.isOf .ageInfoList then some n else none

def View.ofNode : View → VaultNode → Option VaultNode
  | .player => VaultNode.asPlayerNode
  | .age => VaultNode.asNode .age
  | .folder => VaultNode.asFolderNode
  | .playerInfo => VaultNode.asPlayerInfoNode
  | .sdl => VaultNode.asNode .sdl
  | .ageLink => VaultNode.asNode .ageLink
  | .playerInfoList => VaultNode.asNode .playerInfoList
  | .ageInfo => VaultNode.asNode .ageInfo
  | .ageInfoList => VaultNode.asNode .ageInfoList

/-! ### Constructors -/

/-- A call of a constructor with its arguments. -/
inductive NewNode
  | player (accountId : Uuid) (playerName avatarShape : String) (explorer : Int32)
  | age (instanceId parentUuid : Uuid) (ageFilename : String)
  | folder (creatorUuid : Uuid) (creatorId : UInt32) (folderType : StandardNode)
  | playerInfo (creatorUuid : Uuid) (playerId : UInt32) (playerName : String)
  | sdl (creatorUuid : Uuid) (creatorId : UInt32) (sdlName : String) (sdlBlob : Bytes)
  | ageLink (creatorUuid : Uuid) (creatorId : UInt32) (link : Bytes)
  | playerInfoList (creatorUuid : Uuid) (creatorId : UInt32) (folderType : StandardNode)
  | ageInfo (instanceId : Uuid) (ageId : UInt32) (seqNumber : Int32) (isPublic : Bool)
      (language : Int32) (parentUuid : Uuid)
      (ageFilename instanceName userName description : String)
  | ageInfoList (creatorUuid : Uuid) (creatorId : UInt32) (folderType : StandardNode)

/-- The arguments of constructors that an accessor stands for. -/
inductive Arg
  | accountId | playerName | avatarShape | explorer | instanceId | parentUuid | ageFilename
  | folderType | playerId | sdlName | sdlBlob | link | ageId | seqNumber | isPublic | language
  | instanceName | userName | description
  deriving DecidableEq

namespace NewNode

@[reducible] def view : NewNode → View
  | .player .. => .player
  | .age .. => .age
  | .folder .. => .folder
  | .playerInfo .. => .playerInfo
  | .sdl .. => .sdl
  | .ageLink .. => .ageLink
  | .playerInfoList .. => .playerInfoList
  | .ageInfo .. => .ageInfo
  | .ageInfoList .. => .ageInfoList

def node : NewNode → VaultNode
  | .player accountId playerName avatarShape explorer =>
    VaultPlayerNode.new accountId playerName avatarShape explorer
  | .age instanceId parentUuid ageFilename => VaultAgeNode.new instanceId parentUuid ageFilename
  | .folder creatorUuid creatorId folderType => VaultFolderNode.new creatorUuid creatorId folderType
  | .playerInfo creatorUuid playerId playerName =>
    VaultPlayerInfoNode.new creatorUuid playerId playerName
  | .sdl creatorUuid creatorId sdlName sdlBlob =>
    VaultSdlNode.new creatorUuid creatorId sdlName sdlBlob
  | .ageLink creatorUuid creatorId link => VaultAgeLinkNode.new creatorUuid creatorId link
  | .playerInfoList creatorUuid creatorId folderType =>
    VaultPlayerInfoListNode.new creatorUuid creatorId folderType
  | .ageInfo instanceId ageId seqNumber isPublic language parentUuid ageFilename instanceName
      userName description => VaultAgeInfoNode.new instanceId ageId seqNumber isPublic language
        parentUuid ageFilename instanceName userName description
  | .ageInfoList creatorUuid creatorId folderType =>
    VaultAgeInfoListNode.new creatorUuid creatorId folderType

def flag (isPublic : Bool) : Int32 := if isPublic then 1 else 0

/-- The argument an accessor stands for, with what the accessor should return; accessors of fields
that no argument is for have none. -/
def expects : (c : NewNode) → (a : c.view.Accessor) → Option (Arg × (c.view.field a).Val)
  | .player accountId playerName avatarShape explorer => fun
    | .playerNameCi => some (.playerName, playerName)
    | .avatarShape => some (.avatarShape, avatarShape)
    | .explorer => some (.explorer, explorer)
    | .accountId => some (.accountId, accountId)
    | .disabled => none
    | .onlineTime => none
    | .inviteUuid => none
  | .age instanceId parentUuid ageFilename => fun
    | .ageInstanceUuid => some (.instanceId, instanceId)
    | .parentAgeInstanceUuid => some (.parentUuid, parentUuid)
    | .ageName => some (.ageFilename, ageFilename)
  | .folder _ _ folderType => fun
    | .folderType => some (.folderType, folderType.code)
    | .folderName => none
  | .playerInfo _ playerId playerName => fun
    | .playerId => some (.playerId, playerId)
    | .playerNameCi => some (.playerName, playerName)
    | .ageInstanceName => none
    | .ageInstanceUuid => none
    | .online => none
    | .ccrLevel => none
  | .sdl _ _ sdlName sdlBlob => fun
    | .sdlName => some (.sdlName, sdlName)
    | .sdlIdent => none
    | .sdlData => some (.sdlBlob, sdlBlob)
  | .ageLink _ _ link => fun
    | .unlocked => none
    | .volatile => none
    | .spawnPoints => some (.link, link)
  | .playerInfoList _ _ folderType => fun
    | .folderType => some (.folderType, folderType.code)
    | .folderName => none
  | .ageInfo instanceId ageId seqNumber isPublic language parentUuid ageFilename instanceName
      userName description => fun
    | .ageFilename => some (.ageFilename, ageFilename)
    | .ageInstanceName => some (.instanceName, instanceName)
    | .ageUserDefinedName => some (.userName, userName)
    | .ageInstanceUuid => some (.instanceId, instanceId)
    | .parentAgeInstanceUuid => some (.parentUuid, parentUuid)
    | .ageDescription => some (.description, description)
    | .ageSequenceNumber => some (.seqNumber, seqNumber)
    | .ageLanguage => some (.language, language)
    | .ageId => some (.ageId, ageId)
    | .ageCzarId => none
    | .ageInfoFlags => none
    | .isPublic => some (.isPublic, flag isPublic)
  | .ageInfoList _ _ folderType => fun
    | .folderType => some (.folderType, folderType.code)
    | .folderName => none

/-- The strings and blobs among the arguments fit the stream. -/
def Fits (c : NewNode) : Prop :=
  ∀ a arg v, c.expects a = some (arg, v) → (c.view.field a).kind.Fits v

/-- Every accessor that stands for an argument returns it. -/
def Shows (c : NewNode) (node : VaultNode) : Prop :=
  ∀ a arg v, c.expects a = some (arg, v) → c.view.get a node = v

/-- Accessors that stand for different arguments read different fields. -/
def Apart (c : NewNode) : Prop :=
  ∀ a b x y v w, c.expects a = some (x, v) → c.expects b = some (y, w) → x ≠ y →
    c.view.field a ≠ c.view.field b

/-- The language of an age, if there is one, is the number its public flag is stored as. -/
def LanguageIsFlag : NewNode → Prop
  | .ageInfo _ _ _ isPublic language .. => language = flag isPublic
  | _ => True

end NewNode

/-! ### What constructors make -/

lemma Tidy.setIf {n : VaultNode} (h : Tidy n) (b : Bool) {f : Field} {v : f.Val}
    (hv : f.kind.Fits v) : Tidy (if b then n.set f v else n) := by
  split
  · exact h.set hv
  · exact h

lemma VaultNode.val_set_congr {n m : VaultNode} (hn : n.val = m.val) {f : Field} {v : f.Val} :
    (n.set f v).val = (m.set f v).val := congrArg (Function.update · f v) hn

lemma VaultNode.val_setIf {n m : VaultNode} (hn : n.val = m.val) {b : Bool} {f : Field} {v : f.Val}
    (h : b = true → m.val f = v) : (if !b then n.set f v else n).val = (m.set f v).val := by
  cases b with
  | false => exact val_set_congr hn
  | true => exact hn.trans (Function.update_eq_self_iff.2 (h rfl).symm).symm

lemma VaultAgeNode.val_new (instanceId parentUuid : Uuid) (ageFilename : String) :
    (VaultAgeNode.new instanceId parentUuid ageFilename).val = (VaultNode.default
      |>.set .nodeType NodeType.age.code
      |>.set .creatorUuid instanceId
      |>.set .uuid_1 instanceId
      |>.set .uuid_2 parentUuid
      |>.set .string64_1 ageFilename).val := by
  refine VaultNode.val_set_congr ?_
  exact VaultNode.val_setIf rfl fun h => (beq_iff_eq.1 h).symm

lemma VaultAgeInfoNode.val_new (instanceId : Uuid) (ageId : UInt32) (seqNumber : Int32)
    (isPublic : Bool) (language : Int32) (parentUuid : Uuid)
    (ageFilename instanceName userName description : String) :
    (VaultAgeInfoNode.new instanceId ageId seqNumber isPublic language parentUuid ageFilename
      instanceName userName description).val = (VaultNode.default
      |>.set .nodeType NodeType.ageInfo.code
      |>.set .creatorUuid instanceId
      |>.set .creatorId ageId
      |>.set .int32_1 seqNumber
      |>.set .int32_2 (NewNode.flag isPublic)
      |>.set .int32_3 language
      |>.set .uint32_1 ageId
      |>.set .uint32_2 (0 : UInt32)
      |>.set .uint32_3 (0 : UInt32)
      |>.set .uuid_1 instanceId
      |>.set .uuid_2 parentUuid
      |>.set .string64_2 ageFilename
      |>.set .string64_3 instanceName
      |>.set .string64_4 userName
      |>.set .text_1 description).val := by
  refine VaultNode.val_setIf ?_ fun h => (String.isEmpty_iff.1 h).symm
  refine VaultNode.val_setIf ?_ fun h => (String.isEmpty_iff.1 h).symm
  refine VaultNode.val_setIf ?_ fun h => (String.isEmpty_iff.1 h).symm
  refine VaultNode.val_set_congr ?_
  exact VaultNode.val_setIf rfl fun h => (beq_iff_eq.1 h).symm

namespace NewNode

lemma tidy_node {c : NewNode} (h : c.Fits) : Tidy c.node := by
  cases c with
  | player =>
    refine Tidy.set (Tidy.set ?_ (h .avatarShape _ _ rfl)) (h .playerNameCi _ _ rfl)
    iterate 4 refine Tidy.set ?_ trivial
    exact tidy_default
  | age =>
    refine Tidy.set ?_ (h .ageName _ _ rfl)
    refine Tidy.setIf ?_ _ trivial
    iterate 3 refine Tidy.set ?_ trivial
    exact tidy_default
  | playerInfo =>
    refine Tidy.set ?_ (h .playerNameCi _ _ rfl)
    iterate 4 refine Tidy.set ?_ trivial
    exact tidy_default
  | sdl =>
    refine Tidy.set (Tidy.set ?_ (h .sdlName _ _ rfl)) (h .sdlData _ _ rfl)
    iterate 3 refine Tidy.set ?_ trivial
    exact tidy_default
  | ageLink =>
    refine Tidy.set ?_ (h .spawnPoints _ _ rfl)
    iterate 3 refine Tidy.set ?_ trivial
    exact tidy_default
  | ageInfo =>
    refine Tidy.setIf ?_ _ (h .ageDescription _ _ rfl)
    refine Tidy.setIf ?_ _ (h .ageUserDefinedName _ _ rfl)
    refine Tidy.setIf ?_ _ (h .ageInstanceName _ _ rfl)
    refine Tidy.set ?_ (h .ageFilename _ _ rfl)
    refine Tidy.setIf ?_ _ trivial
    iterate 10 refine Tidy.set ?_ trivial
    exact tidy_default
  | folder =>
    iterate 4 refine Tidy.set ?_ trivial
    exact tidy_default
  | playerInfoList | ageInfoList =>
    iterate 5 refine Tidy.set ?_ trivial
    exact tidy_default

lemma val_node (c : NewNode) {a : c.view.Accessor} {arg : Arg} {v : (c.view.field a).Val}
    (h : c.expects a = some (arg, v)) (hl : arg ≠ .language) : c.node.val (c.view.field a) = v := by
  cases c with
  | age =>
    rw [show NewNode.node _ = VaultAgeNode.new .. from rfl, VaultAgeNode.val_new]
    cases a <;> cases h <;> rfl
  | ageInfo =>
    rw [show NewNode.node _ = VaultAgeInfoNode.new .. from rfl, VaultAgeInfoNode.val_new]
    cases a <;> cases h <;> first | rfl | exact absurd rfl hl
  | player | folder | playerInfo | sdl | ageLink | playerInfoList | ageInfoList =>
    cases a <;> cases h <;> rfl

lemma shows_node_iff {c : NewNode} : c.Shows c.node ↔ c.LanguageIsFlag := by
  constructor
  · intro h
    cases c with
    | ageInfo =>
      -- both accessors read the field of the flag
      exact (h .ageLanguage _ _ rfl).symm.trans (h .isPublic _ _ rfl)
    | _ => trivial
  · intro h a arg v ha
    by_cases hl : arg = .language
    · subst hl
      cases c with
      | ageInfo =>
        cases a <;> cases ha
        exact (val_node (.ageInfo ..) (a := VaultAgeInfoNode.Accessor.isPublic) rfl
          (by decide)).trans h.symm
      | _ => cases a <;> cases ha
    · exact val_node c ha hl

end NewNode

lemma View.field_ne_nodeId (v : View) (a : v.Accessor) : v.field a ≠ .nodeId := by
  cases v <;> cases a <;> decide

namespace NewNode

lemma shows_set_nodeId {c : NewNode} {n : VaultNode} {id : UInt32} :
    c.Shows (n.set .nodeId id) ↔ c.Shows n := by
  have hget (a : c.view.Accessor) : c.view.get a (n.set .nodeId id) = c.view.get a n :=
    VaultNode.val_set_of_ne _ _ (c.view.field_ne_nodeId a)
  simp only [Shows, hget]

lemma ofNode_node (c : NewNode) (id : UInt32) :
    c.view.ofNode (c.node.set .nodeId id) = some (c.node.set .nodeId id) := by
  cases c with
  | age =>
    refine VaultNode.asNode_eq_some.2 ⟨beq_iff_eq.2 ?_, rfl⟩
    exact congrFun (VaultNode.val_set_congr (VaultAgeNode.val_new ..)) .nodeType
  | ageInfo =>
    refine VaultNode.asNode_eq_some.2 ⟨beq_iff_eq.2 ?_, rfl⟩
    exact congrFun (VaultNode.val_set_congr (VaultAgeInfoNode.val_new ..)) .nodeType
  | player | folder | playerInfo | sdl | ageLink | playerInfoList | ageInfoList => rfl

lemma apart_iff {c : NewNode} : c.Apart ↔ c.view ≠ .ageInfo := by
  constructor
  · intro h hview
    cases c with
    | ageInfo =>
      exact h VaultAgeInfoNode.Accessor.ageLanguage VaultAgeInfoNode.Accessor.isPublic _ _ _ _
        rfl rfl (by decide) rfl
    | _ => cases hview
  · intro hview a b x y v w ha hb hxy
    cases c with
    | ageInfo => exact absurd rfl hview
    | _ =>
      cases a <;> cases ha <;> cases b <;> cases hb <;> first | exact absurd rfl hxy | nofun

end NewNode

lemma fetchNode_createNode {node : VaultNode} {db db' : Backend} {id : UInt32}
    (h : DbMemory.createNode node db = (.ok id, db')) :
    DbMemory.fetchNode id db' = .ok (node.set .nodeId id) := by
  unfold DbMemory.createNode at h
  dsimp only at h
  split at h
  · cases h
  · cases h
    simp [DbMemory.fetchNode]

/-- **Views show what constructors were given**, through the store and the blob, and each argument
in a field of its own, exactly for the constructors other than that of age info nodes. -/
theorem newNode_viewed (c : NewNode) (hc : c.Fits) {db db' : Backend} {id : UInt32}
    (hid : DbMemory.createNode c.node db = (.ok id, db')) :
    ∃ stored blob viewed view,
      DbMemory.fetchNode id db' = .ok stored ∧ stored.toBlob = .ok blob ∧
      VaultNode.fromBlob blob = .ok viewed ∧ c.view.ofNode viewed = some view ∧
      (c.Shows view ∧ c.Apart ↔ c.view ≠ .ageInfo) := by
  have htidy : Tidy (c.node.set .nodeId id) := (NewNode.tidy_node hc).set trivial
  obtain ⟨blob, hto, hfrom⟩ := fromBlob_toBlob htidy
  refine ⟨_, blob, _, _, fetchNode_createNode hid, hto, hfrom, c.ofNode_node id, ?_⟩
  rw [NewNode.apart_iff, NewNode.shows_set_nodeId, NewNode.shows_node_iff]
  refine ⟨And.right, fun hview => ⟨?_, hview⟩⟩
  cases c with
  | ageInfo => exact absurd rfl hview
  | _ => trivial

def yeesha : NewNode := .player ⟨1, 0, 0, 0⟩ "Yeesha" "female" 1

lemma fits_yeesha : yeesha.Fits := by
  intro a arg v h
  cases a <;> cases h <;> first | trivial | skip
  all_goals
    show (_ + 1) * 2 < 2 ^ 32
    decide

theorem yeesha_viewed :
    ∃ stored blob viewed view,
      DbMemory.fetchNode 1000 (DbMemory.createNode yeesha.node Backend.new).2 = .ok stored ∧
      stored.toBlob = .ok blob ∧ VaultNode.fromBlob blob = .ok viewed ∧
      yeesha.view.ofNode viewed = some view ∧ yeesha.Shows view ∧ yeesha.Apart := by
  obtain ⟨stored, blob, viewed, view, h₁, h₂, h₃, h₄, h₅⟩ := newNode_viewed yeesha fits_yeesha
    (show DbMemory.createNode _ Backend.new = _ from rfl)
  exact ⟨stored, blob, viewed, view, h₁, h₂, h₃, h₄, h₅.2 (by simp [yeesha])⟩

def relto (language : Int32) : NewNode :=
  .ageInfo ⟨1, 0, 0, 0⟩ 1000 0 false language Uuid.nil "Personal" "Relto" "Yeesha's" ""

lemma fits_relto (language : Int32) : (relto language).Fits := by
  intro a arg v h
  cases a <;> cases h <;> first | trivial | skip
  all_goals
    show (_ + 1) * 2 < 2 ^ 32
    decide

/-- `create_player_nodes` gives a Relto the language `-1`, and `age_language` returns its public
flag. -/
theorem relto_language_lost :
    ∃ stored blob viewed view,
      DbMemory.fetchNode 1000 (DbMemory.createNode (relto (-1)).node Backend.new).2 = .ok stored ∧
      stored.toBlob = .ok blob ∧ VaultNode.fromBlob blob = .ok viewed ∧
      View.ageInfo.ofNode viewed = some view ∧
      (relto (-1)).expects .ageLanguage = some (.language, (-1 : Int32)) ∧
      View.ageInfo.get .ageLanguage view = (0 : Int32) ∧
      View.ageInfo.field .ageLanguage = View.ageInfo.field .isPublic := by
  have htidy : Tidy ((relto (-1)).node.set .nodeId (1000 : UInt32)) :=
    (NewNode.tidy_node (fits_relto _)).set trivial
  obtain ⟨blob, hto, hfrom⟩ := fromBlob_toBlob htidy
  have hid : DbMemory.createNode (relto (-1)).node Backend.new = (.ok 1000, _) := rfl
  exact ⟨_, blob, _, _, fetchNode_createNode hid, hto, hfrom, (relto (-1)).ofNode_node 1000,
    rfl, rfl, rfl⟩

end Moulars.Vault
