import Moulars.FileSrv.GameData
import Moulars.Sdl.Parser

/-!
The descriptors of the files in a directory, and those a server starts with.

Of the descriptors for one name and one version, the first one that is read stays. So the order in
which a directory is listed matters exactly where two of its files begin a version differently. A
file that cannot be read or parsed leaves the server without any descriptor.
-/

namespace Moulars.Sdl

open Lib Lib.Wire Lib.Paths Lib.Files Lib.Hash
open Lib.Jobs Hashes Plasma FileSrv

/-! ### Loading -/

inductive LoadError
  | io (e : IoKind)
  | stream (e : Fault)
  | parse (e : ParseError)

/-- The size of the buffer of a `BufReader`. -/
def bufSize : ℕ := 8192

def isSdl (name : List Char) : Bool := extensionOf name == some "sdl".toList

def fileDescriptors (key : CryptKey) (content : Bytes) :
    Except LoadError (List StateDescriptor) :=
  match readWhole key bufSize content with
  | .error e => .error (.stream e)
  | .ok text => match Parser.parse text with
    | .error e => .error (.parse e)
    | .ok descriptors => .ok descriptors

/-- The descriptors in an entry of a directory; there are some only in regular files. -/
def entryDescriptors (key : CryptKey) (t : FileTree) (path : PathBuf) (name : List Char) :
    Except LoadError (List StateDescriptor) :=
  match t.find (path.child name) with
  | .error e => .error (.io e)
  | .ok .dir => .ok []
  | .ok (.file content) => if isSdl name then fileDescriptors key content else .ok []

namespace DescriptorDb

variable {X : Crates}

def fromDir (order : Order (List Char)) (path : PathBuf) (key : CryptKey) (t : FileTree) :
    Except LoadError (DescriptorDb X) :=
  match t.readDir path with
  | .error e => .error (.io e)
  | .ok names => (order.run names).foldlM (fun db name =>
      (entryDescriptors key t path name).map db.mergeDescriptors) .empty

end DescriptorDb

/-- The beginning of `LobbyServer::start`: the key, and the descriptors. Without a key, files that
are not encrypted can still be read. -/
def loadDescriptors {X : Crates} (site : Site) (order : Order (List Char)) (t : FileTree) :
    DescriptorDb X × FileTree :=
  let (ntdKey, t) := loadOrCreateNtdKey site t
  let ntdKey := ntdKey.toOption.getD fun _ => 0
  match DescriptorDb.fromDir order (site.dataRoot.child "SDL".toList) ntdKey t with
  | .ok database => (database, t)
  | .error _ => (.empty, t)

/-! ### What a database finds -/

def isFor (X : Crates) (name : String) (version : UInt16) (d : StateDescriptor) : Bool :=
  X.unicase d.name == X.unicase name && d.version == version

/-- The first of the descriptors for a name and a version. -/
def pick (X : Crates) (name : String) (version : UInt16) (ds : List StateDescriptor) :
    Option StateDescriptor :=
  ds.find? (isFor X name version)

namespace DescriptorDb

variable {X : Crates} (db : DescriptorDb X) (name : String) (version : UInt16)

lemma getVersion_empty : (empty : DescriptorDb X).getVersion name version = none := by
  simp [getVersion, empty]

lemma getVersion_merge (desc : StateDescriptor) : (db.merge desc).getVersion name version =
    (db.getVersion name version).or
      (if isFor X name version desc then some desc else none) := by
  unfold getVersion merge isFor
  dsimp only
  by_cases hname : X.unicase name = X.unicase desc.name
  · rw [hname, AList.lookup_insert]
    dsimp only
    have hversion : version.toNat = desc.version.toNat ↔ desc.version = version := by
      rw [UInt16.toNat_inj, eq_comm]
    rw [BTreeMap.get_orInsert]
    cases db.descriptors.lookup (X.unicase desc.name) with
    | none => simp [BTreeMap.empty, BTreeMap.get, hversion]
    | some versions => simp [hversion]
  · have hother : (X.unicase desc.name == X.unicase name) = false := by
      simpa using fun h => hname h.symm
    rw [AList.lookup_insert_ne hname, hother, Bool.false_and]
    simp

lemma getVersion_mergeDescriptors (ds : List StateDescriptor) :
    (db.mergeDescriptors ds).getVersion name version =
      (db.getVersion name version).or (pick X name version ds) := by
  induction ds generalizing db with
  | nil => simp [mergeDescriptors, pick]
  | cons desc ds ih =>
    have hstep := ih (db.merge desc)
    rw [getVersion_merge, Option.or_assoc] at hstep
    refine hstep.trans (congrArg _ ?_)
    unfold pick
    by_cases hmatch : isFor X name version desc = true
    · rw [if_pos hmatch, List.find?_cons_of_pos hmatch, Option.some_or]
    · rw [if_neg hmatch, List.find?_cons_of_neg hmatch, Option.none_or]

lemma getVersion_of_foldlM {load : List Char → Except LoadError (List StateDescriptor)}
    {names : List (List Char)} {db db' : DescriptorDb X}
    (h : names.foldlM (fun db name => (load name).map db.mergeDescriptors) db = .ok db') :
    (∀ name ∈ names, ∃ ds, load name = .ok ds) ∧
      db'.getVersion name version = (db.getVersion name version).or
        (names.findSome? fun file => pick X name version ((load file).toOption.getD [])) := by
  induction names generalizing db with
  | nil =>
    cases h
    exact ⟨nofun, by simp⟩
  | cons file names ih =>
    rw [List.foldlM_cons] at h
    obtain ⟨db₁, hmerge, hrest⟩ := Fallible.bind_eq_ok.1 h
    obtain ⟨ds, hload, rfl⟩ := Fallible.map_eq_ok.1 hmerge
    obtain ⟨hall, hget⟩ := ih hrest
    refine ⟨List.forall_mem_cons.2 ⟨⟨ds, hload⟩, hall⟩, ?_⟩
    have hds : (load file).toOption.getD [] = ds := by
      rw [hload]
      rfl
    rw [hget, getVersion_mergeDescriptors, Option.or_assoc, List.findSome?_cons, hds]
    cases pick X name version ds with
    | none => rw [Option.none_or]
    | some d => rw [Option.some_or]

lemma exists_of_foldlM_error {load : List Char → Except LoadError (List StateDescriptor)}
    {names : List (List Char)} {db : DescriptorDb X} {e : LoadError}
    (h : names.foldlM (fun db name => (load name).map db.mergeDescriptors) db = .error e) :
    ∃ name ∈ names, load name = .error e := by
  induction names generalizing db with
  | nil => cases h
  | cons file names ih =>
    rw [List.foldlM_cons] at h
    cases hload : load file with
    | error e' =>
      rw [hload] at h
      cases h
      exact ⟨file, List.mem_cons_self, hload⟩
    | ok ds =>
      rw [hload] at h
      obtain ⟨name, hname, herror⟩ := ih h
      exact ⟨name, List.mem_cons_of_mem _ hname, herror⟩

end DescriptorDb

/-! ### Directories -/

/-- The descriptors of a file in a directory. -/
def Defines (key : CryptKey) (t : FileTree) (path : PathBuf) (file : List Char)
    (ds : List StateDescriptor) : Prop :=
  isSdl file = true ∧ ∃ content, t.read (path.child file) = .ok content ∧
    fileDescriptors key content = .ok ds

/-- A descriptor file that cannot be read, or cannot be parsed. -/
def Unreadable (key : CryptKey) (t : FileTree) (path : PathBuf) (file : List Char) : Prop :=
  isSdl file = true ∧ ∃ content e, t.read (path.child file) = .ok content ∧
    fileDescriptors key content = .error e

/-- A descriptor that is the first in one of the files for a name and a version. -/
def Picked (X : Crates) (key : CryptKey) (t : FileTree) (path : PathBuf) (name : String)
    (version : UInt16) (d : StateDescriptor) : Prop :=
  ∃ file ds, Defines key t path file ds ∧ pick X name version ds = some d

section Directories

variable {X : Crates} {key : CryptKey} {t : FileTree} {path : PathBuf} {file : List Char}
  {names : List (List Char)} {order : Order (List Char)}

lemma entryDescriptors_of_sdl {content : Bytes} (hsdl : isSdl file = true)
    (h : t.read (path.child file) = .ok content) :
    entryDescriptors key t path file = fileDescriptors key content := by
  unfold entryDescriptors
  rw [FileTree.read_eq_ok.1 h]
  dsimp only
  rw [if_pos hsdl]

lemma entryDescriptors_eq_ok {ds : List StateDescriptor}
    (h : entryDescriptors key t path file = .ok ds) : Defines key t path file ds ∨ ds = [] := by
  unfold entryDescriptors at h
  split at h
  · cases h
  · exact .inr (Except.ok.inj h).symm
  · rename_i content hfind
    split at h
    · rename_i hsdl
      exact .inl ⟨hsdl, content, FileTree.read_eq_ok.2 hfind, h⟩
    · exact .inr (Except.ok.inj h).symm

lemma unreadable_of_error {node : Node} {e : LoadError}
    (hfind : t.find (path.child file) = .ok node)
    (h : entryDescriptors key t path file = .error e) : Unreadable key t path file := by
  unfold entryDescriptors at h
  rw [hfind] at h
  cases node with
  | dir => cases h
  | file content =>
    dsimp only at h
    split at h
    · rename_i hsdl
      exact ⟨hsdl, content, e, FileTree.read_eq_ok.2 hfind, h⟩
    · cases h

/-- The directory is loaded, or it is not one, or has an unreadable file. -/
lemma exists_fromDir_error : (∃ e, (DescriptorDb.fromDir order path key t :
      Except LoadError (DescriptorDb X)) = .error e) ↔
    t.find path ≠ .ok .dir ∨ ∃ file, Unreadable key t path file := by
  unfold DescriptorDb.fromDir
  rw [ne_eq, ← FileTree.exists_readDir.not]
  cases hnames : t.readDir path with
  | error e => simp
  | ok names =>
    dsimp only
    constructor
    · rintro ⟨e, h⟩
      obtain ⟨file, hfile, herror⟩ := DescriptorDb.exists_of_foldlM_error h
      obtain ⟨node, hnode⟩ := (FileTree.mem_readDir hnames).1 (order.mem_run.1 hfile)
      exact .inr ⟨file, unreadable_of_error hnode herror⟩
    · rintro (hnone | ⟨file, hsdl, content, e, hread, hcontent⟩)
      · exact absurd ⟨names, rfl⟩ hnone
      · have hfile : file ∈ names :=
          (FileTree.mem_readDir hnames).2 ⟨_, FileTree.read_eq_ok.1 hread⟩
        cases hfold : (order.run names).foldlM (fun db name =>
            (entryDescriptors key t path name).map db.mergeDescriptors)
          (DescriptorDb.empty : DescriptorDb X) with
        | error e => exact ⟨e, rfl⟩
        | ok db =>
          obtain ⟨ds, hds⟩ := (DescriptorDb.getVersion_of_foldlM "" 0 hfold).1 file
            (order.mem_run.2 hfile)
          rw [entryDescriptors_of_sdl hsdl hread, hcontent] at hds
          cases hds

variable {db : DescriptorDb X}

lemma getVersion_fromDir (hnames : t.readDir path = .ok names)
    (h : DescriptorDb.fromDir order path key t = .ok db) (name : String) (version : UInt16) :
    db.getVersion name version = (order.run names).findSome? fun file =>
      pick X name version ((entryDescriptors key t path file).toOption.getD []) := by
  unfold DescriptorDb.fromDir at h
  rw [hnames] at h
  rw [(DescriptorDb.getVersion_of_foldlM name version h).2, DescriptorDb.getVersion_empty,
    Option.none_or]

lemma picked_iff {name : String} {version : UInt16} {d : StateDescriptor}
    (hnames : t.readDir path = .ok names) : Picked X key t path name version d ↔
      ∃ file ∈ names, pick X name version
        ((entryDescriptors key t path file).toOption.getD []) = some d := by
  constructor
  · rintro ⟨file, ds, ⟨hsdl, content, hread, hds⟩, hpick⟩
    refine ⟨file, (FileTree.mem_readDir hnames).2 ⟨_, FileTree.read_eq_ok.1 hread⟩, ?_⟩
    rw [entryDescriptors_of_sdl hsdl hread, hds]
    exact hpick
  · rintro ⟨file, -, hpick⟩
    cases hentry : entryDescriptors key t path file with
    | error e =>
      rw [hentry] at hpick
      cases hpick
    | ok ds =>
      rw [hentry] at hpick
      rcases entryDescriptors_eq_ok hentry with hdefines | rfl
      · exact ⟨file, ds, hdefines, hpick⟩
      · cases hpick

section Found

variable {name : String} {version : UInt16} {d : StateDescriptor}

lemma picked_of_getVersion (hnames : t.readDir path = .ok names)
    (h : DescriptorDb.fromDir order path key t = .ok db)
    (hd : db.getVersion name version = some d) : Picked X key t path name version d := by
  rw [getVersion_fromDir hnames h] at hd
  obtain ⟨file, hfile, hpick⟩ := List.exists_of_findSome?_eq_some hd
  exact (picked_iff hnames).2 ⟨file, order.mem_run.1 hfile, hpick⟩

lemma exists_getVersion_of_picked (hnames : t.readDir path = .ok names)
    (h : DescriptorDb.fromDir order path key t = .ok db)
    (hd : Picked X key t path name version d) : ∃ d', db.getVersion name version = some d' := by
  obtain ⟨file, hfile, hpick⟩ := (picked_iff hnames).1 hd
  rw [← Option.isSome_iff_exists, ← Option.ne_none_iff_isSome,
    getVersion_fromDir hnames h]
  intro hnone
  rw [List.findSome?_eq_none_iff.1 hnone file (order.mem_run.2 hfile)] at hpick
  cases hpick

lemma exists_order_of_picked (hnames : t.readDir path = .ok names)
    {dbs : Order (List Char) → DescriptorDb X}
    (h : ∀ order, DescriptorDb.fromDir order path key t = .ok (dbs order))
    (hd : Picked X key t path name version d) :
    ∃ order, (dbs order).getVersion name version = some d := by
  obtain ⟨file, hfile, hpick⟩ := (picked_iff hnames).1 hd
  refine ⟨.first file, ?_⟩
  rw [getVersion_fromDir hnames (h _), Order.run_first hfile, List.findSome?_cons, hpick]

end Found

/-- **Where the order matters**: exactly if two files pick different descriptors. -/
lemma getVersion_fromDir_iff (hnames : t.readDir path = .ok names)
    {dbs : Order (List Char) → DescriptorDb X}
    (h : ∀ order, DescriptorDb.fromDir order path key t = .ok (dbs order)) :
    (∀ order order' name version,
        (dbs order).getVersion name version = (dbs order').getVersion name version) ↔
      ∀ name version d d', Picked X key t path name version d →
        Picked X key t path name version d' → d = d' := by
  constructor
  · intro hsame name version d d' hd hd'
    obtain ⟨order, horder⟩ := exists_order_of_picked hnames h hd
    obtain ⟨order', horder'⟩ := exists_order_of_picked hnames h hd'
    exact Option.some.inj (horder.symm.trans ((hsame _ _ _ _).trans horder'))
  · intro hunique order order' name version
    cases hd : (dbs order).getVersion name version with
    | some d =>
      have hpicked := picked_of_getVersion hnames (h order) hd
      obtain ⟨d', hd'⟩ := exists_getVersion_of_picked hnames (h order') hpicked
      rw [hd', hunique name version d d' hpicked (picked_of_getVersion hnames (h order') hd')]
    | none =>
      refine (Option.eq_none_iff_forall_ne_some.2 fun d' hd' => ?_).symm
      obtain ⟨d, hd''⟩ := exists_getVersion_of_picked hnames (h order)
        (picked_of_getVersion hnames (h order') hd')
      rw [hd] at hd''
      cases hd''

end Directories

/-! ### After the game's data was encrypted -/

section Prepared

variable {X : Crates} {site : Site} {files : HashSet PathBuf} {ntdKey : CryptKey}
  {t t' : FileTree} {dir : PathBuf}

def sdlDir (site : Site) : PathBuf := site.dataRoot.child "SDL".toList

/-- The descriptor files in a directory are not too large to be encrypted. -/
def SmallSdl (t : FileTree) (dir : PathBuf) : Prop :=
  ∀ file content, isSdl file = true → t.read (dir.child file) = .ok content →
    content.length < 2 ^ 32

lemma cryptOf_of_isSdl (ntdKey : CryptKey) {file : List Char} (h : isSdl file = true) :
    cryptOf ntdKey (extensionOf file) = some (.xxtea, ntdKey) := by
  have hext : extensionOf file = some "sdl".toList := eq_of_beq h
  rw [hext, cryptOf, if_neg (by decide), if_pos rfl]

/-- Plain or encrypted, a descriptor file is read as the same text. -/
lemma readWhole_of_keptAs {content content' : Bytes} (h : KeptAs .xxtea ntdKey content content')
    (hlen : content.length < 2 ^ 32) :
    readWhole ntdKey bufSize content' = readWhole ntdKey bufSize content := by
  rcases h with rfl | ⟨hplain, hback⟩
  · rfl
  · rw [(hback hlen).readWhole_eq (by decide), readWhole_plain hplain (by decide)]

variable (h : Prepared site files ntdKey t t')
include h

lemma exists_read_iff (hsmall : SmallSdl t dir)
    {file : List Char} (hsdl : isSdl file = true) {r : Except LoadError (List StateDescriptor)} :
    (∃ content, t'.read (dir.child file) = .ok content ∧ fileDescriptors ntdKey content = r) ↔
      ∃ content, t.read (dir.child file) = .ok content ∧ fileDescriptors ntdKey content = r := by
  have hcrypt := cryptOf_of_isSdl ntdKey hsdl
  have hsame {content content' : Bytes} (hread : t.read (dir.child file) = .ok content)
      (hkept : KeptAs .xxtea ntdKey content content') :
      fileDescriptors ntdKey content' = fileDescriptors ntdKey content := by
    unfold fileDescriptors
    rw [readWhole_of_keptAs hkept (hsmall file content hsdl hread)]
  constructor
  · rintro ⟨content', hread', rfl⟩
    obtain ⟨content, hread, hkept⟩ := h.read_of_read dir file _ _ hcrypt content' hread'
    exact ⟨content, hread, (hsame hread hkept).symm⟩
  · rintro ⟨content, hread, rfl⟩
    obtain ⟨content', hread', hkept⟩ := h.read dir file _ _ hcrypt content hread
    exact ⟨content', hread', hsame hread hkept⟩

lemma defines_iff (hsmall : SmallSdl t dir) {file : List Char} {ds : List StateDescriptor} :
    Defines ntdKey t' dir file ds ↔ Defines ntdKey t dir file ds :=
  and_congr_right fun hsdl => exists_read_iff h hsmall hsdl

lemma unreadable_iff (hsmall : SmallSdl t dir)
    {file : List Char} : Unreadable ntdKey t' dir file ↔ Unreadable ntdKey t dir file := by
  refine and_congr_right fun hsdl => ?_
  have hswap (t : FileTree) : (∃ content e, t.read (dir.child file) = .ok content ∧
      fileDescriptors ntdKey content = .error e) ↔ ∃ e content,
        t.read (dir.child file) = .ok content ∧ fileDescriptors ntdKey content = .error e :=
    exists_comm
  rw [hswap, hswap]
  exact exists_congr fun e => exists_read_iff h hsmall hsdl

lemma picked_iff_picked (hsmall : SmallSdl t dir)
    {name : String} {version : UInt16} {d : StateDescriptor} :
    Picked X ntdKey t' dir name version d ↔ Picked X ntdKey t dir name version d :=
  exists_congr fun _ => exists_congr fun _ => and_congr_left fun _ => defines_iff h hsmall

lemma find_sdlDir_iff :
    t'.find (sdlDir site) = .ok .dir ↔ t.find (sdlDir site) = .ok .dir :=
  h.dir _ _ (by decide) (by decide) (by decide)

lemma loadDescriptors_eq {later : Site}
    (hroot : later.dataRoot = site.dataRoot) (order : Order (List Char)) :
    (loadDescriptors later order t' : DescriptorDb X × FileTree) =
      ((DescriptorDb.fromDir order (sdlDir site) ntdKey t').toOption.getD .empty, t') := by
  unfold loadDescriptors
  rw [h.key later hroot, hroot]
  dsimp only [Except.toOption, Option.getD_some]
  rw [← sdlDir]
  cases DescriptorDb.fromDir order (sdlDir site) ntdKey t' <;> rfl

end Prepared

/-- **A server starts with the descriptors of the files, encrypted or not**: after a run of the tool
that has got as far as to make the manifests, and if no descriptor file was of 4 GiB or more, a
server has no descriptors if the directory is missing or one of the files cannot be parsed.
Otherwise it has, for each name and version, one that is the first in some file, as the files were
before; the same ones for every order of the directory, if and only if no two files pick different
ones. -/
theorem startup_descriptors (X : Crates) {site : Site}
    (hpieces : ∀ content, (site.pieces content).flatten = content) (hpython : PakOnly site)
    {t t₁ : FileTree} {files : HashSet PathBuf} (hrun : collectGameData site t = (.ok files, t₁))
    (hsmall : SmallSdl t (sdlDir site)) :
    let t' := (cacheClients site t).2.tree
    ∃ ntdKey, loadOrCreateNtdKey site t' = (.ok ntdKey, t') ∧
      ∀ later : Site, later.dataRoot = site.dataRoot →
        let db (order : Order (List Char)) : DescriptorDb X := (loadDescriptors later order t').1
        ((t.find (sdlDir site) ≠ .ok .dir ∨ ∃ file, Unreadable ntdKey t (sdlDir site) file) →
          ∀ order, db order = .empty) ∧
        (t.find (sdlDir site) = .ok .dir → (∀ file, ¬ Unreadable ntdKey t (sdlDir site) file) →
          (∀ order name version d, (db order).getVersion name version = some d →
            Picked X ntdKey t (sdlDir site) name version d) ∧
          (∀ order name version d, Picked X ntdKey t (sdlDir site) name version d →
            ∃ d', (db order).getVersion name version = some d') ∧
          ((∀ order order' name version,
              (db order).getVersion name version = (db order').getVersion name version) ↔
            ∀ name version d d', Picked X ntdKey t (sdlDir site) name version d →
              Picked X ntdKey t (sdlDir site) name version d' → d = d')) := by
  obtain ⟨ntdKey, hprep⟩ := exists_prepared hpieces hpython hrun
  generalize (cacheClients site t).2.tree = t' at hprep ⊢
  refine ⟨ntdKey, hprep.key site rfl, fun later hroot => ?_⟩
  have hload := loadDescriptors_eq (X := X) hprep hroot
  dsimp only
  simp only [hload]
  have herror (order : Order (List Char)) := @exists_fromDir_error X ntdKey t' (sdlDir site) order
  simp only [ne_eq, find_sdlDir_iff hprep, unreadable_iff hprep hsmall] at herror
  constructor
  · intro hbad order
    obtain ⟨e, he⟩ := (herror order).2 hbad
    rw [he]
    rfl
  · intro hdir hgood
    obtain ⟨names, hnames⟩ := FileTree.exists_readDir.2 ((find_sdlDir_iff hprep).2 hdir)
    have hok (order : Order (List Char)) : DescriptorDb.fromDir order (sdlDir site) ntdKey t' =
        .ok ((DescriptorDb.fromDir order (sdlDir site) ntdKey t').toOption.getD
          (.empty : DescriptorDb X)) := by
      cases hdb : (DescriptorDb.fromDir order (sdlDir site) ntdKey t' :
          Except LoadError (DescriptorDb X)) with
      | ok db => rfl
      | error e =>
        rcases (herror order).1 ⟨e, hdb⟩ with hnone | ⟨file, hfile⟩
        · exact absurd hdir hnone
        · exact absurd hfile (hgood file)
    simp only [← picked_iff_picked hprep hsmall]
    exact ⟨fun order name version d hd => picked_of_getVersion hnames (hok order) hd,
      fun order name version d hd => exists_getVersion_of_picked hnames (hok order) hd,
      getVersion_fromDir_iff hnames hok⟩

def rivalA : Bytes := asciiBytes "STATEDESC s \x7b VERSION 1 \x7d"

def rivalB : Bytes := asciiBytes "STATEDESC s \x7b VERSION 1 VAR BOOL v[1] \x7d"

/-- Two files that define one version of a descriptor. -/
def rivalTree : FileTree := .ofList
  [("data", .dir), ("data/SDL", .dir), ("data/SDL/a.sdl", .file rivalA),
    ("data/SDL/b.sdl", .file rivalB)]

lemma read_rivalTree : rivalTree.read ((sdlDir .plain).child "a.sdl".toList) = .ok rivalA ∧
    rivalTree.read ((sdlDir .plain).child "b.sdl".toList) = .ok rivalB := by
  decide +kernel

lemma defines_rivalTree (key : CryptKey) :
    Defines key rivalTree (sdlDir .plain) "a.sdl".toList [⟨"s", 1, []⟩] ∧
      Defines key rivalTree (sdlDir .plain) "b.sdl".toList
        [⟨"s", 1, [⟨"v", .simple .bool, some 1, none⟩]⟩] := by
  have hload {content : Bytes} {ds : List StateDescriptor} (hplain : IsPlain content)
      (hparse : Parser.parse content = .ok ds) : fileDescriptors key content = .ok ds := by
    unfold fileDescriptors
    rw [readWhole_plain hplain (by decide)]
    dsimp only
    rw [hparse]
  exact ⟨⟨by decide, _, read_rivalTree.1, hload (by decide +kernel) (by decide +kernel)⟩,
    ⟨by decide, _, read_rivalTree.2, hload (by decide +kernel) (by decide +kernel)⟩⟩

lemma mem_rivalTree {file : List Char} {content : Bytes}
    (h : rivalTree.read ((sdlDir .plain).child file) = .ok content) :
    file ∈ ["b.sdl".toList, "a.sdl".toList] := by
  have hnames : rivalTree.readDir (sdlDir .plain) = .ok ["b.sdl".toList, "a.sdl".toList] := by
    decide +kernel
  exact (FileTree.mem_readDir hnames).2 ⟨_, FileTree.read_eq_ok.1 h⟩

lemma small_rivalTree : SmallSdl rivalTree (sdlDir .plain) := by
  intro file content _ hread
  rcases List.mem_pair.1 (mem_rivalTree hread) with rfl | rfl
  · cases read_rivalTree.2.symm.trans hread
    decide +kernel
  · cases read_rivalTree.1.symm.trans hread
    decide +kernel

lemma readable_rivalTree (key : CryptKey) (file : List Char) :
    ¬ Unreadable key rivalTree (sdlDir .plain) file := by
  rintro ⟨hsdl, content, e, hread, herror⟩
  have hclash {ds : List StateDescriptor} (h : Defines key rivalTree (sdlDir .plain) file ds) :
      False := by
    obtain ⟨-, content', hread', hds⟩ := h
    cases hread.symm.trans hread'
    rw [hds] at herror
    cases herror
  rcases List.mem_pair.1 (mem_rivalTree hread) with rfl | rfl
  · exact hclash (defines_rivalTree key).2
  · exact hclash (defines_rivalTree key).1

/-- Which of the two a server has depends on the order of the directory. -/
theorem rivalTree_descriptors :
    let t' := (cacheClients .plain rivalTree).2.tree
    (cacheClients .plain rivalTree).1 = .ok () ∧
    ¬ ∀ order order' name version,
      (loadDescriptors .plain order t' : DescriptorDb .plain × FileTree).1.getVersion name version =
        (loadDescriptors .plain order' t' : DescriptorDb .plain × FileTree).1.getVersion name
          version := by
  refine ⟨by decide +kernel, fun hsame => ?_⟩
  have hok : (collectGameData .plain rivalTree).1.toOption.isSome = true := by decide +kernel
  cases hfiles : (collectGameData .plain rivalTree).1 with
  | error e =>
    rw [hfiles] at hok
    cases hok
  | ok files =>
    obtain ⟨ntdKey, -, hload⟩ := startup_descriptors .plain flatten_pieces_plain nofun
      (t := rivalTree) (Prod.ext hfiles rfl) small_rivalTree
    obtain ⟨-, -, horder⟩ := (hload .plain rfl).2 (by decide +kernel) (readable_rivalTree ntdKey)
    have hrivals := defines_rivalTree ntdKey
    have hclash := horder.1 hsame "s" 1 _ _ ⟨_, _, hrivals.1, rfl⟩ ⟨_, _, hrivals.2, rfl⟩
    cases hclash

end Moulars.Sdl
