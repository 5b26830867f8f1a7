import Moulars.FileSrv.DataCache

/-!
How a property of all runs of `cacheClients` is proved.

A `Scheme` says what is known of a manifest after it was loaded, what of one whose entries have
been gone over, and what of an entry that was just created, and that the single steps establish
it. `Scheme.makeManifests` goes through the program once, for all of them.
-/

namespace Moulars.FileSrv

open Lib.Wire Lib.Paths Lib.Files Lib.Hash Lib.Jobs
open Lib.Jobs.Rules Lib.Fallible

/-- Flags that do not change where an entry's source is. -/
def Harmless (flags : HashMap PathBuf UInt32) : Prop :=
  ∀ path v, flags.lookup path = some v → v &&& FileInfo.compressedGz = 0

structure Scheme (site : Site) (L : Rules DataCache) where
  Loaded : PathBuf → Manifest → DataCache → Prop
  Held : PathBuf → Manifest → DataCache → Prop
  Fresh : FileInfo → DataCache → Prop
  harmless : ∀ s, L.inv s → Harmless s.sfxFlags
  loaded_stable : ∀ path m, L.Stable (Loaded path m)
  held_stable : ∀ path m, L.Stable (Held path m)
  setFlags : ∀ flags, L.Meets (fun _ => Harmless flags)
    (Job.modify (fun s => { s with sfxFlags := flags }) : Work Unit) fun _ _ => True
  load : ∀ name, L.Meets (fun _ => True) (loadOrCreateManifest site (mfsPath site name))
    (Loaded (mfsPath site name))
  update : ∀ path m expected, L.Meets (Loaded path m) (updateFiles site m.files expected)
    fun r => Held path ⟨r.1⟩
  create : ∀ path, L.Meets (fun _ => True) (createCacheFile site path)
    fun f s => Fresh f s ∧ s.cache.lookup path = some f
  addFlags : ∀ path f flags, L.Meets
    (fun s => flags &&& FileInfo.compressedGz = 0 ∧ Fresh f s ∧ s.cache.lookup path = some f)
    (addFlags path f flags) Fresh
  add : ∀ path m f s, Held path m s → Fresh f s → Held path (m.add f) s
  settle : ∀ name m, L.Meets (Held (mfsPath site name) m)
    (settle (mfsPath site name) m) fun _ _ => True

/-! ### Steps -/

namespace DataCache

def noted (s : DataCache) (event : Event) : DataCache := { s with log := s.log ++ [event] }

def entered (s : DataCache) (event : Event) (key : PathBuf) (r : FileInfo × FileTree) : DataCache :=
  { s with tree := r.2, cache := s.cache.insert key r.1, log := s.log ++ [event] }

lemma mem_processed_append {s s' : DataCache} {event : Event} (h : s'.log = s.log ++ [event])
    {pm : PathBuf × Manifest} :
    pm ∈ s'.processed ↔ pm ∈ s.processed ∨ event.manifest? = some pm := by
  simp [processed, h, List.filterMap_append]

end DataCache

lemma files_updatedEntry {site : Site} (file : FileInfo) (t : FileTree) :
    (updatedEntry site file t).2 = (file.update (treeOps site.tools) site.dataRoot t).2.2 := by
  rw [updatedEntry]
  split <;> simp_all

section Steps

variable (site : Site) (s : DataCache)

lemma updateCacheFile_cases (file : FileInfo) :
    (∃ cached, s.cache.lookup (file.sourcePath site.dataRoot) = some cached ∧
      updateCacheFile site file s = (.ok cached, s.noted (.update s.tree s.cache file))) ∨
    (s.cache.lookup (file.sourcePath site.dataRoot) = none ∧
      updateCacheFile site file s = (.ok (updatedEntry site file s.tree).1,
        s.entered (.update s.tree s.cache file) (file.sourcePath site.dataRoot)
          (updatedEntry site file s.tree))) := by
  cases hlookup : s.cache.lookup (file.sourcePath site.dataRoot) with
  | some cached => exact .inl ⟨cached, rfl, by simp only [updateCacheFile, hlookup]; rfl⟩
  | none => exact .inr ⟨rfl, by simp only [updateCacheFile, hlookup]; rfl⟩

lemma createCacheFile_cases (path : PathBuf) :
    (∃ e, createCacheFile site path s = (.error e, s)) ∨
    (∃ cached, s.cache.lookup path = some cached ∧
      createCacheFile site path s = (.ok cached, s.noted (.create s.tree s.cache path))) ∨
    (∃ srcPath client, path.stripPrefix site.dataRoot = some srcPath ∧
      s.cache.lookup path = none ∧
      createCacheFile site path s = (.ok (createdEntry site client srcPath s.tree).1,
        s.entered (.create s.tree s.cache path) path
          (createdEntry site client srcPath s.tree))) := by
  cases hstrip : path.stripPrefix site.dataRoot with
  | none => exact .inl ⟨_, by simp only [createCacheFile, hstrip]; rfl⟩
  | some srcPath =>
    cases hclient : clientPath srcPath with
    | error e => exact .inl ⟨e, by simp only [createCacheFile, hstrip, hclient]⟩
    | ok client =>
      cases hlookup : s.cache.lookup path with
      | some cached =>
        exact .inr (.inl ⟨cached, rfl, by
          simp only [createCacheFile, hstrip, hclient, hlookup]; rfl⟩)
      | none =>
        exact .inr (.inr ⟨srcPath, client, rfl, rfl, by
          simp only [createCacheFile, hstrip, hclient, hlookup]; rfl⟩)

lemma settle_of_anyUpdated {m : Manifest} (path : PathBuf) (h : m.anyUpdated = true) :
    settle path m s = ((m.writeCache path s.tree).1,
      { s.noted (.settle s.tree s.cache path m) with tree := (m.writeCache path s.tree).2 }) := by
  simp only [settle, h, if_true]
  rfl

lemma settle_of_not_anyUpdated {m : Manifest} (path : PathBuf) (h : m.anyUpdated = false) :
    settle path m s = (.ok (), s.noted (.settle s.tree s.cache path m)) := by
  simp only [settle, h]
  rfl

end Steps

/-! ### Flags of sounds -/

lemma harmless_addSound (site : Site) (t : FileTree) {e : Expected} (h : Harmless e.sfxFlags)
    (obj : SoundBuffer) : Harmless (e.addSound site t obj).sfxFlags := by
  intro path v hv
  simp only [Expected.addSound] at hv
  split at hv
  · exact h path v hv
  · rename_i hnew
    by_cases hp : path = (site.dataRoot.child "sfx".toList).join (.ofText obj.fileName.toList)
    · subst hp
      rw [AList.lookup_insert] at hv
      cases hv
      exact FileInfo.oggFlags_and obj
    · rw [AList.lookup_insert_ne hp] at hv
      exact h path v hv

lemma harmless_addSounds (site : Site) (t : FileTree) (sounds : List SoundBuffer) {e : Expected}
    (h : Harmless e.sfxFlags) : Harmless (sounds.foldl (Expected.addSound site t) e).sfxFlags := by
  induction sounds generalizing e with
  | nil => exact h
  | cons obj sounds ih => exact ih (harmless_addSound site t h obj)

lemma harmless_addPage (site : Site) (t : FileTree) (ageName : List Char) {e e' : Expected}
    {page : String} (h : Harmless e.sfxFlags) (he : e.addPage site t ageName page = .ok e') :
    Harmless e'.sfxFlags := by
  rw [Expected.addPage] at he
  split at he
  · obtain ⟨content, -, hcontent⟩ := bind_eq_ok.1 he
    obtain ⟨page, -, hpage⟩ := bind_eq_ok.1 hcontent
    cases hpage
    exact harmless_addSounds site t page.sounds h
  · cases he
    exact h

lemma harmless_addPages (site : Site) (t : FileTree) (ageName : List Char) (pages : List String)
    {e e' : Expected} (h : Harmless e.sfxFlags)
    (he : pages.foldlM (Expected.addPage site t ageName) e = .ok e') : Harmless e'.sfxFlags := by
  induction pages generalizing e with
  | nil =>
    cases he
    exact h
  | cons page pages ih =>
    obtain ⟨e₁, hpage, hrest⟩ := bind_eq_ok.1 he
    exact ih (harmless_addPage site t ageName h hpage) hrest

lemma harmless_expectedFiles (site : Site) {ageFile : PathBuf} {ageName : List Char} {t : FileTree}
    {flags : HashMap PathBuf UInt32} {e : Expected} (h : Harmless flags)
    (he : expectedFiles site ageFile ageName t flags = .ok e) : Harmless e.sfxFlags := by
  rw [expectedFiles] at he
  obtain ⟨content, -, hcontent⟩ := bind_eq_ok.1 he
  obtain ⟨pages, -, hpages⟩ := bind_eq_ok.1 hcontent
  obtain ⟨e₁, hfold, hlast⟩ := bind_eq_ok.1 hpages
  have h₁ : Harmless e₁.sfxFlags := harmless_addPages site t ageName pages h hfold
  cases hlast
  split <;> exact h₁

/-! ### The program -/

namespace Scheme

variable {site : Site} {L : Rules DataCache} (S : Scheme site L)

include S

lemma create_held (path : PathBuf) (m : Manifest) (file : PathBuf) :
    L.Meets (S.Held path m) (createCacheFile site file)
      fun f s => (S.Fresh f s ∧ s.cache.lookup file = some f) ∧ S.Held path m s :=
  (S.create file).frame (S.held_stable path m) fun _ h => ⟨trivial, h⟩

lemma addFlags_held (path : PathBuf) (m : Manifest) (file : PathBuf) (f : FileInfo)
    (flags : UInt32) :
    L.Meets (fun s => flags &&& FileInfo.compressedGz = 0 ∧
        (S.Fresh f s ∧ s.cache.lookup file = some f) ∧ S.Held path m s)
      (FileSrv.addFlags file f flags) fun f s => S.Held path (m.add f) s := by
  refine ((S.addFlags file f flags).frame (S.held_stable path m) ?_).imp (fun _ h => h) ?_
  · rintro s ⟨hflags, hfresh, hheld⟩
    exact ⟨⟨hflags, hfresh⟩, hheld⟩
  · rintro g s ⟨hfresh, hheld⟩
    exact S.add path m g s hheld hfresh

lemma addAgeFile (path : PathBuf) (m : Manifest) (file : PathBuf) :
    L.Meets (S.Held path m) (addAgeFile site m file) (S.Held path) := by
  refine .bind (S.create_held path m file) fun f => ?_
  split
  · refine .get_bind fun s₀ => ?_
    cases hflags : s₀.sfxFlags.lookup file with
    | none => exact .fail _
    | some flags =>
      refine .bind (.of_inv (.imp ?_ (fun _ _ h => h) (S.addFlags_held path m file f flags)))
        fun g => .pure fun s _ _ h => h
      rintro s ⟨⟨rfl, h⟩, hinv⟩
      exact ⟨S.harmless s hinv file flags hflags, h⟩
  · exact .pure fun s _ _ h => S.add path m f s h.2 h.1.1

lemma addSecureFile (path : PathBuf) (m : Manifest) (file : PathBuf) :
    L.Meets (S.Held path m) (addSecureFile site m file) (S.Held path) :=
  .bind (S.create_held path m file) fun f => .pure fun s _ _ h => S.add path m f s h.2 h.1.1

lemma processManifest (name : List Char) {addFile : Manifest → PathBuf → Work Manifest}
    (hadd : ∀ m file, L.Meets (S.Held (mfsPath site name) m) (addFile m file)
      (S.Held (mfsPath site name)))
    (order : Order PathBuf) (expected : HashSet PathBuf) :
    L.Meets (fun _ => True) (processManifest site (mfsPath site name) addFile order expected)
      fun _ _ => True := by
  refine .bind (S.load name) fun m => .bind (S.update _ m expected) fun ⟨files, expected⟩ => ?_
  exact .bind (.fold _ (fun m file _ => hadd m file) ⟨files⟩) fun m => S.settle name m

lemma processAge (ageFile : PathBuf) :
    L.Meets (fun _ => True) (processAge site ageFile) fun _ _ => True := by
  rw [FileSrv.processAge]
  split
  · exact .fail _
  · rename_i ageName _
    refine .of_inv (.get_bind fun s₀ => ?_)
    refine .bind (Q := fun e _ => Harmless e.sfxFlags) (.lift ?_) fun e => ?_
    · rintro e he s - - ⟨rfl, -, hinv⟩
      exact harmless_expectedFiles site (S.harmless s hinv) he
    · exact .bind (S.setFlags e.sfxFlags) fun _ => S.processManifest ageName (S.addAgeFile _) _ _

/-- The three manifests of a build. -/
def HeldAll (patcherPath thinPath fullPath : PathBuf) (mfs : ClientManifests) (s : DataCache) :
    Prop :=
  S.Held patcherPath mfs.patcher s ∧ S.Held thinPath mfs.thin s ∧ S.Held fullPath mfs.full s

variable (p₁ p₂ p₃ : PathBuf)

lemma heldAll_stable (mfs : ClientManifests) : L.Stable (S.HeldAll p₁ p₂ p₃ mfs) :=
  (S.held_stable p₁ _).and ((S.held_stable p₂ _).and (S.held_stable p₃ _))

lemma addClientFile (mfs : ClientManifests) (file : PathBuf) :
    L.Meets (S.HeldAll p₁ p₂ p₃ mfs) (addClientFile site mfs file) (S.HeldAll p₁ p₂ p₃) := by
  have hstable := S.heldAll_stable p₁ p₂ p₃ mfs
  refine .bind ((S.create file).frame hstable fun _ h => ⟨trivial, h⟩) fun f => ?_
  simp only
  split
  · refine .bind ((S.addFlags file f _).frame hstable ?_) fun g => ?_
    · rintro s ⟨hfresh, hheld⟩
      exact ⟨⟨by decide, hfresh⟩, hheld⟩
    · exact .pure fun s _ _ ⟨hg, h₁, h₂, h₃⟩ => ⟨S.add _ _ g s h₁ hg, h₂, h₃⟩
  · split
    · exact .pure fun s _ _ ⟨⟨hf, _⟩, h₁, h₂, h₃⟩ => ⟨S.add _ _ f s h₁ hf, h₂, h₃⟩
    · split
      · exact .pure fun s _ _ ⟨⟨hf, _⟩, h₁, h₂, h₃⟩ => ⟨h₁, h₂, S.add _ _ f s h₃ hf⟩
      · exact .pure fun s _ _ ⟨⟨hf, _⟩, h₁, h₂, h₃⟩ =>
          ⟨h₁, S.add _ _ f s h₂ hf, S.add _ _ f s h₃ hf⟩

omit p₁ p₂ p₃ in
lemma processClient (gameDataFiles : HashSet PathBuf) (build suffix : List Char) (dir : PathBuf) :
    L.Meets (fun _ => True) (processClient site gameDataFiles build suffix dir)
      fun _ _ => True := by
  refine .get_bind fun s₀ => ?_
  simp only
  split
  · refine .bind (Q := fun _ _ => True) (.lift fun _ _ _ _ _ _ => trivial) fun clientFiles => ?_
    -- the manifests are loaded one after the other
    refine .bind (S.load _) fun patcher => ?_
    have hpatcher := S.loaded_stable (mfsPath site (build ++ "Patcher".toList ++ suffix)) patcher
    refine .bind ((S.load _).frame hpatcher fun _ h => ⟨trivial, h⟩) fun thin => ?_
    have hthin := S.loaded_stable (mfsPath site ("Thin".toList ++ build ++ suffix)) thin
    refine .bind ((S.load _).frame (hthin.and hpatcher) fun _ h => ⟨trivial, h⟩) fun full => ?_
    have hfull := S.loaded_stable (mfsPath site (build ++ suffix)) full
    -- and gone over
    refine .bind ((S.update _ patcher clientFiles).frame (hfull.and hthin)
      fun _ h => ⟨h.2.2, h.1, h.2.1⟩) fun ⟨patcherFiles, clientFiles⟩ => ?_
    have hpatcher' := S.held_stable (mfsPath site (build ++ "Patcher".toList ++ suffix))
      ⟨patcherFiles⟩
    refine .bind ((S.update _ thin clientFiles).frame (hfull.and hpatcher')
      fun _ h => ⟨h.2.2, h.2.1, h.1⟩) fun ⟨thinFiles, clientFiles⟩ => ?_
    have hthin' := S.held_stable (mfsPath site ("Thin".toList ++ build ++ suffix)) ⟨thinFiles⟩
    refine .bind ((S.update _ full clientFiles).frame (hthin'.and hpatcher')
      fun _ h => ⟨h.2.1, h.1, h.2.2⟩) fun ⟨fullFiles, clientFiles⟩ => ?_
    refine .bind (Q := S.HeldAll _ _ _) (.imp (fun _ h => ⟨h.2.2, h.2.1, h.1⟩) (fun _ _ h => h)
      (.fold _ (fun mfs file _ => S.addClientFile _ _ _ mfs file) _)) fun mfs => ?_
    refine .bind ((S.settle _ mfs.patcher).frame ((S.held_stable _ mfs.thin).and
      (S.held_stable _ mfs.full)) fun _ h => h) fun _ => ?_
    refine .bind ((S.settle _ mfs.thin).frame (S.held_stable _ mfs.full) fun _ h => h.2) fun _ => ?_
    exact .imp (fun _ h => h.2) (fun _ _ _ => trivial) (S.settle _ mfs.full)
  · exact .pure fun _ _ _ _ => trivial

/-- **The manifests, by any scheme.** -/
theorem makeManifests (gameDataFiles : HashSet PathBuf) :
    L.Meets (fun _ => True) (makeManifests site gameDataFiles) fun _ _ => True := by
  refine .bind (.fold (I := fun _ _ => True) _ (fun _ ageFile _ => S.processAge ageFile) ())
    fun _ => ?_
  refine .bind (S.processManifest _ (S.addSecureFile _) _ _) fun _ => ?_
  exact .fold (I := fun _ _ => True) _ (fun _ c _ => S.processClient gameDataFiles _ _ _) ()

end Scheme

end Moulars.FileSrv
