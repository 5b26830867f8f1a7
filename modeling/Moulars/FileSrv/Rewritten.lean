import Moulars.FileSrv.Scheme

/-!
When the manifests on disk are those in memory.

An entry says whether it was updated, not whether it is new to a manifest. So an entry which a
manifest gets from the cache has to be updated or the one that it had before; an update which has
changed something has to succeed; and no two manifests may share a file.
-/

namespace Moulars.FileSrv

open Lib.Wire Lib.Text Lib.Paths Lib.Files Lib.Hash
open Lib.Jobs Lib.Jobs.Rules Lib.Files.FileTree

section Conditions

variable (site : Site)

/-- A step after which the entries show what has changed in their manifest. -/
def Event.Kept : Event → Prop
  | .update t cache file =>
    match cache.lookup (file.sourcePath site.dataRoot) with
    | some cached => cached.updated = true ∨ cached = file
    | none => ∀ b, t.read (file.sourcePath site.dataRoot) = .ok b →
        b.length ≠ file.fileSize.toNat ∨ site.tools.md5 b ≠ file.fileHash →
          ∃ dir name, file.sourcePath site.dataRoot = (site.dataRoot.join dir).child name ∧
            Fit t site.dataRoot dir name b
  | .create _ cache path => ∀ cached, cache.lookup path = some cached → cached.updated = true
  | .settle _ _ _ m => ∀ f ∈ m.files, NulFree f.clientPath ∧ NulFree f.downloadPath

/-- The manifest that is on disk under a name. -/
abbrev onDisk (name : List Char) (t : FileTree) : Except Fault Manifest :=
  Manifest.loadOrCreate site.tools.hex (mfsPath site name) t

/-- Every manifest that was processed is on disk. -/
structure Settled (s : DataCache) : Prop where
  stored : ∀ pm ∈ s.processed, ∃ name, pm.1 = mfsPath site name ∧
    onDisk site name s.tree = .ok pm.2.sent
  flags : Harmless s.sfxFlags

/-- The names of the manifests that have not been processed yet. -/
def Pending (s : DataCache) (name : List Char) : Prop :=
  mfsPath site name ∉ s.processed.map Prod.fst

def keptRules : Rules DataCache where
  good s := (∀ event ∈ s.log, event.Kept site) ∧ (s.processed.map Prod.fst).Nodup
  inv := Settled site
  failed _ := True
  moves s s' := ∀ name, Pending site s' name →
    Pending site s name ∧ onDisk site name s'.tree = onDisk site name s.tree
  failed_of_inv _ _ := trivial
  refl _ _ h := ⟨h, rfl⟩
  trans h h' name hname := by
    obtain ⟨hname', hsame'⟩ := h' name hname
    obtain ⟨hname, hsame⟩ := h name hname'
    exact ⟨hname, hsame'.trans hsame⟩

end Conditions

section Steps

variable {site : Site} {s s' : DataCache}

lemma kept_of_log {event : Event} (hlog : s'.log = s.log ++ [event])
    (h : (keptRules site).good s') :
    (keptRules site).good s ∧ event.Kept site ∧
      ∀ path m, event.manifest? = some (path, m) → path ∉ s.processed.map Prod.fst := by
  obtain ⟨hkept, hnodup⟩ := h
  have hprocessed : s'.processed = s.processed ++ event.manifest?.toList := by
    simp only [DataCache.processed, hlog, List.filterMap_append]
    cases hm : event.manifest? <;> simp [hm]
  rw [hprocessed, List.map_append, List.nodup_append'] at hnodup
  refine ⟨⟨fun e he => hkept e ?_, hnodup.1⟩, hkept event ?_, ?_⟩
  · exact hlog ▸ List.mem_append_left _ he
  · exact hlog ▸ List.mem_append_right _ (List.mem_singleton_self event)
  · intro path m hm hmem
    exact hnodup.2.2 hmem (by simp [hm])

lemma Settled.kept (h : Settled site s) (s' : DataCache) (hprocessed : s'.processed = s.processed)
    (hdisk : ∀ name, onDisk site name s'.tree = onDisk site name s.tree)
    (hflags : Harmless s'.sfxFlags) : Settled site s' ∧ (keptRules site).moves s s' := by
  refine ⟨⟨fun pm hpm => ?_, hflags⟩, fun name hname => ⟨?_, hdisk name⟩⟩
  · obtain ⟨name, hname, hload⟩ := h.stored pm (hprocessed ▸ hpm)
    exact ⟨name, hname, (hdisk name).trans hload⟩
  · rwa [Pending, hprocessed] at hname

lemma processed_append {event : Event} (hlog : s'.log = s.log ++ [event])
    (hevent : event.manifest? = none) : s'.processed = s.processed := by
  simp [DataCache.processed, hlog, hevent]

lemma onDisk_of_touched_gz {src : PathBuf} {t t' : FileTree} (h : Touched (gzPath src) t t')
    (name : List Char) : onDisk site name t' = onDisk site name t := by
  rcases h with rfl | ⟨q, hfile, hq, hedit⟩
  · rfl
  · obtain ⟨dir, file, rfl⟩ := exists_of_fileName_gzPath hfile
    refine Manifest.loadOrCreate_congr fun node => hedit.find_iff ?_
    rw [gzPath_child] at hq
    refine apart_child ?_ q hq
    intro hnames
    have hlast := congrArg List.getLast? hnames
    simp at hlast

lemma onDisk_of_touched_mfs {name other : List Char} (hne : mfsPath site other ≠ mfsPath site name)
    {t t' : FileTree} (h : Touched (mfsPath site name) t t') :
    onDisk site other t' = onDisk site other t := by
  refine Manifest.loadOrCreate_congr fun node => h.find_iff (apart_child ?_)
  intro hnames
  exact hne (by rw [mfsPath, mfsPath, hnames])

/-! ### Entries that are updated -/

lemma kept_updatedEntry {file : FileInfo}
    (hnew : s.cache.lookup (file.sourcePath site.dataRoot) = none)
    (hkept : (Event.update s.tree s.cache file).Kept site) :
    (updatedEntry site file s.tree).1.updated = true ∨
      (updatedEntry site file s.tree).1 = file := by
  simp only [Event.Kept, hnew] at hkept
  cases hread : s.tree.read (file.sourcePath site.dataRoot) with
  | error e =>
    rw [updatedEntry, update_of_read_error hread]
    cases e with
    | notFound => exact .inl rfl
    | notADirectory => exact .inr rfl
    | isADirectory => exact .inr rfl
  | ok b =>
    by_cases hchanged : b.length ≠ file.fileSize.toNat ∨ site.tools.md5 b ≠ file.fileHash
    · obtain ⟨dir, name, hsrc, hfit⟩ := hkept b hread hchanged
      obtain ⟨t', hupdate, -⟩ := update_of_fit site.tools hfit hsrc hchanged
      rw [updatedEntry, hupdate]
      left
      simp only [FileInfo.refreshed]
      split <;> rfl
    · obtain ⟨hlen, hhash⟩ := not_or.1 hchanged
      rw [updatedEntry, update_of_unchanged hread (not_not.1 hlen) (not_not.1 hhash)]
      exact .inr rfl

lemma kept_updateCacheFile (file : FileInfo) :
    (keptRules site).Meets (fun _ => True) (updateCacheFile site file)
      fun f _ => f.updated = true ∨ f = file := by
  intro s hgood
  rcases updateCacheFile_cases site s file with ⟨cached, hlookup, hrun⟩ | ⟨hnew, hrun⟩
  · rw [hrun] at hgood ⊢
    obtain ⟨hgood, hkept, -⟩ := kept_of_log rfl hgood
    refine ⟨hgood, fun hinv _ => ?_⟩
    obtain ⟨hinv', hmoves⟩ := hinv.kept (s.noted (.update s.tree s.cache file))
      (processed_append rfl rfl) (fun _ => rfl) hinv.flags
    simp only [Event.Kept, hlookup] at hkept
    exact ⟨hinv', hmoves, hkept⟩
  · rw [hrun] at hgood ⊢
    obtain ⟨hgood, hkept, -⟩ := kept_of_log rfl hgood
    refine ⟨hgood, fun hinv _ => ?_⟩
    have htouched := touched_update site.tools site.dataRoot file s.tree
    rw [← files_updatedEntry] at htouched
    obtain ⟨hinv', hmoves⟩ := hinv.kept (s.entered (.update s.tree s.cache file) _ _)
      (processed_append rfl rfl) (onDisk_of_touched_gz htouched) hinv.flags
    exact ⟨hinv', hmoves, kept_updatedEntry hnew hkept⟩

/-- A new entry is an updated one, also if its update has failed. -/
lemma kept_createCacheFile (path : PathBuf) :
    (keptRules site).Meets (fun _ => True) (createCacheFile site path)
      fun f s => f.updated = true ∧ s.cache.lookup path = some f := by
  intro s hgood
  rcases createCacheFile_cases site s path with
    ⟨e, hrun⟩ | ⟨cached, hlookup, hrun⟩ | ⟨srcPath, client, hstrip, hnew, hrun⟩
  · rw [hrun] at hgood ⊢
    exact ⟨hgood, fun _ _ => trivial⟩
  · rw [hrun] at hgood ⊢
    obtain ⟨hgood, hkept, -⟩ := kept_of_log rfl hgood
    refine ⟨hgood, fun hinv _ => ?_⟩
    obtain ⟨hinv', hmoves⟩ := hinv.kept (s.noted (.create s.tree s.cache path))
      (processed_append rfl rfl) (fun _ => rfl) hinv.flags
    exact ⟨hinv', hmoves, hkept cached hlookup, hlookup⟩
  · rw [hrun] at hgood ⊢
    obtain ⟨hgood, -, -⟩ := kept_of_log rfl hgood
    refine ⟨hgood, fun hinv _ => ?_⟩
    have htouched := touched_update site.tools site.dataRoot (.new client srcPath.text) s.tree
    have hlater := later_update (treeOps site.tools) site.dataRoot (.new client srcPath.text) s.tree
    obtain ⟨hinv', hmoves⟩ := hinv.kept (s.entered (.create s.tree s.cache path) _ _)
      (processed_append rfl rfl) (onDisk_of_touched_gz htouched) hinv.flags
    exact ⟨hinv', hmoves, hlater.updated rfl, AList.lookup_insert _⟩

/-- The entries of a manifest, gone over: one of them is updated, or all are what they were. -/
lemma kept_updateFiles (files : List FileInfo) (expected : HashSet PathBuf) :
    (keptRules site).Meets (fun _ => True) (updateFiles site files expected)
      fun r _ => (∃ f ∈ r.1, f.updated = true) ∨ r.1 = files := by
  induction files generalizing expected with
  | nil => exact .pure fun _ _ _ _ => .inr rfl
  | cons file files ih =>
    refine .bind (kept_updateCacheFile file) fun f => ?_
    refine .bind ((ih _).frame (F := fun _ => f.updated = true ∨ f = file) (fun _ _ _ h => h)
      fun _ h => ⟨trivial, h⟩) fun ⟨files', expected⟩ => .pure fun s _ _ h => ?_
    obtain ⟨hfiles, hfile | rfl⟩ := h
    · exact .inl ⟨f, by simp, hfile⟩
    · rcases hfiles with ⟨g, hg, hup⟩ | rfl
      · exact .inl ⟨g, by simp [hg], hup⟩
      · exact .inr rfl

/-! ### Manifests -/

variable (site) in
/-- What the entries in memory show: that something has changed, or that nothing has. -/
def Shows (path : PathBuf) (m : Manifest) (s : DataCache) : Prop :=
  ∀ name, path = mfsPath site name → Pending site s name →
    m.anyUpdated = true ∨ onDisk site name s.tree = .ok m

lemma shows_stable (path : PathBuf) (m : Manifest) :
    (keptRules site).Stable (Shows site path m) := by
  intro s s' hmoves h name hname hpending
  obtain ⟨hpending', hsame⟩ := hmoves name hpending
  rw [hsame]
  exact h name hname hpending'

variable (site) in
def Loaded (path : PathBuf) (m : Manifest) (s : DataCache) : Prop :=
  ∀ name, path = mfsPath site name → Pending site s name → onDisk site name s.tree = .ok m

lemma loaded_stable (path : PathBuf) (m : Manifest) :
    (keptRules site).Stable (Loaded site path m) := by
  intro s s' hmoves h name hname hpending
  obtain ⟨hpending', hsame⟩ := hmoves name hpending
  rw [hsame]
  exact h name hname hpending'

lemma pending_of_append {event : Event} (hlog : s'.log = s.log ++ [event]) {path : PathBuf}
    {m : Manifest} (hevent : event.manifest? = some (path, m)) {name : List Char}
    (h : Pending site s' name) : Pending site s name ∧ mfsPath site name ≠ path := by
  constructor
  · intro hmem
    obtain ⟨pm, hpm, hname⟩ := List.mem_map.1 hmem
    exact h (hname ▸ List.mem_map_of_mem ((DataCache.mem_processed_append hlog).2 (.inl hpm)))
  · rintro rfl
    exact h (List.mem_map_of_mem ((DataCache.mem_processed_append hlog).2 (.inr hevent)))

lemma kept_load (name : List Char) :
    (keptRules site).Meets (fun _ => True) (loadOrCreateManifest site (mfsPath site name))
      (Loaded site (mfsPath site name)) := by
  refine fun s hgood => ⟨hgood, fun hinv _ => ?_⟩
  rw [loadOrCreateManifest]
  cases hload : Manifest.loadOrCreate site.tools.hex (mfsPath site name) s.tree with
  | error e => trivial
  | ok m =>
    refine ⟨hinv, (keptRules site).refl s, fun other hother _ => ?_⟩
    rwa [onDisk, ← hother]

lemma kept_update (path : PathBuf) (m : Manifest) (expected : HashSet PathBuf) :
    (keptRules site).Meets (Loaded site path m) (updateFiles site m.files expected)
      fun r => Shows site path ⟨r.1⟩ := by
  refine ((kept_updateFiles m.files expected).frame (loaded_stable path m)
    fun _ h => ⟨trivial, h⟩).imp (fun _ h => h) ?_
  rintro ⟨files, expected⟩ s ⟨hfiles, hloaded⟩ name hname hpending
  rcases hfiles with ⟨f, hf, hup⟩ | hsame
  · exact .inl (List.any_eq_true.2 ⟨f, hf, hup⟩)
  · refine .inr ?_
    rw [hloaded name hname hpending]
    exact congrArg (fun files => Except.ok (Manifest.mk files)) hsame.symm

/-- **A manifest that has been settled is on disk.** -/
lemma kept_settle (name : List Char) (m : Manifest) :
    (keptRules site).Meets (Shows site (mfsPath site name) m) (settle (mfsPath site name) m)
      fun _ _ => True := by
  intro s hgood
  cases hany : m.anyUpdated with
  | true =>
    rw [settle_of_anyUpdated s _ hany] at hgood ⊢
    obtain ⟨hgood, hkept, hfresh⟩ := kept_of_log rfl hgood
    refine ⟨hgood, fun hinv _ => ?_⟩
    have htouched := touched_writeCache s.tree m (mfsPath site name)
    rcases hwrite : m.writeCache (mfsPath site name) s.tree with ⟨_ | _, t'⟩
    · trivial
    · rw [hwrite] at htouched
      have hpending : Pending site s name := hfresh _ m rfl
      refine ⟨⟨fun pm hpm => ?_, hinv.flags⟩, fun other hother => ?_, trivial⟩
      · -- the manifests that were there before have other paths
        rcases (DataCache.mem_processed_append rfl).1 hpm with hpm | hpm
        · obtain ⟨other, hother, hstored⟩ := hinv.stored pm hpm
          refine ⟨other, hother, ?_⟩
          rw [onDisk_of_touched_mfs ?_ htouched, hstored]
          intro heq
          exact hpending (heq ▸ hother ▸ List.mem_map_of_mem hpm)
        · cases hpm
          exact ⟨name, rfl, Manifest.loadOrCreate_of_writeCache hwrite hkept⟩
      · obtain ⟨hpending', hne⟩ := pending_of_append rfl rfl hother
        exact ⟨hpending', onDisk_of_touched_mfs hne htouched⟩
  | false =>
    rw [settle_of_not_anyUpdated s _ hany] at hgood ⊢
    obtain ⟨hgood, -, hfresh⟩ := kept_of_log rfl hgood
    refine ⟨hgood, fun hinv hshows => ⟨⟨fun pm hpm => ?_, hinv.flags⟩, fun other hother =>
      ⟨(pending_of_append rfl rfl hother).1, rfl⟩, trivial⟩⟩
    rcases (DataCache.mem_processed_append rfl).1 hpm with hpm | hpm
    · exact hinv.stored pm hpm
    · cases hpm
      have hsame : onDisk site name s.tree = .ok m := by
        simpa [hany] using hshows name rfl (hfresh _ m rfl)
      exact ⟨name, rfl, hsame.trans (congrArg _ (Manifest.sent_of_loadOrCreate hsame).symm)⟩

lemma kept_addFlags (path : PathBuf) (f : FileInfo) (flags : UInt32) :
    (keptRules site).Meets (fun s => flags &&& FileInfo.compressedGz = 0 ∧ f.updated = true ∧
      s.cache.lookup path = some f) (addFlags path f flags) fun f _ => f.updated = true := by
  refine fun s hgood => ⟨hgood, fun hinv ⟨_, hup, _⟩ => ?_⟩
  exact ⟨⟨hinv.stored, hinv.flags⟩, (keptRules site).refl s, hup⟩

def keptScheme (site : Site) : Scheme site (keptRules site) where
  Loaded := Loaded site
  Held := Shows site
  Fresh f _ := f.updated = true
  harmless _ hinv := hinv.flags
  loaded_stable := loaded_stable
  held_stable := shows_stable
  setFlags flags := fun s hgood => ⟨hgood, fun hinv hflags =>
    ⟨⟨hinv.stored, hflags⟩, (keptRules site).refl s, trivial⟩⟩
  load := kept_load
  update := kept_update
  create := kept_createCacheFile
  addFlags := kept_addFlags
  add _ m _ _ _ hup _ _ _ := .inl (by simp [Manifest.anyUpdated, Manifest.add, hup])
  settle := kept_settle

end Steps

/-- **Every manifest that was processed is on disk with the entries that are not deleted, if every
step shows what it has changed and no two manifests share a file.** -/
theorem processed_manifests_on_disk (site : Site) (t : FileTree)
    (hok : (cacheClients site t).1 = .ok ())
    (hkept : ∀ event ∈ (cacheClients site t).2.log, event.Kept site)
    (hdistinct : ((cacheClients site t).2.processed.map Prod.fst).Nodup)
    (path : PathBuf) (m : Manifest) (hprocessed : (path, m) ∈ (cacheClients site t).2.processed) :
    Manifest.loadOrCreate site.tools.hex path (cacheClients site t).2.tree = .ok m.sent := by
  rw [cacheClients] at hok hkept hdistinct hprocessed ⊢
  rcases hcollect : collectGameData site t with ⟨_ | gameDataFiles, t'⟩
  · rw [hcollect] at hok
    cases hok
  · rw [hcollect] at hok hkept hdistinct hprocessed
    have hstart : Settled site ⟨t', ∅, ∅, []⟩ := ⟨by simp [DataCache.processed], by simp [Harmless]⟩
    have hends := (((keptScheme site).makeManifests gameDataFiles) ⟨t', ∅, ∅, []⟩
      ⟨hkept, hdistinct⟩).2 hstart trivial
    rcases hrun : makeManifests site gameDataFiles ⟨t', ∅, ∅, []⟩ with ⟨_ | _, s⟩
    · simp only [hrun] at hok
      cases hok
    · rw [hrun] at hends
      simp only [hrun] at hprocessed ⊢
      obtain ⟨name, rfl, hstored⟩ := hends.1.stored (path, m) hprocessed
      exact hstored

/-- The manifest of the client build is found again, with the entry that it shares with the one for
the secure preloader. -/
theorem clientEntries_on_disk :
    Manifest.loadOrCreate Site.plain.tools.hex (mfsPath .plain "Internal".toList)
      (cacheClients .plain pakTree).2.tree = .ok (Manifest.mk [exeEntry, pakEntry]).sent := by
  have hrun : (cacheClients .plain pakTree).1 = .ok () ∧
      (mfsPath .plain "Internal".toList, ⟨[exeEntry, pakEntry]⟩) ∈
        (cacheClients .plain pakTree).2.processed ∧
      ((cacheClients .plain pakTree).2.processed.map Prod.fst).Nodup ∧
      ((cacheClients .plain pakTree).2.log.all fun
        | .update _ _ _ => false
        | .create _ c path => (c.lookup path).all FileInfo.updated
        | .settle _ _ _ m =>
          m.files.all fun f => decide (NulFree f.clientPath ∧ NulFree f.downloadPath)) = true := by
    decide +kernel
  obtain ⟨hok, hprocessed, hdistinct, hsteps⟩ := hrun
  refine processed_manifests_on_disk .plain pakTree hok ?_ hdistinct _ _ hprocessed
  intro event hevent
  have hstep := List.all_eq_true.1 hsteps event hevent
  cases event with
  | update t c file => cases hstep
  | create t c path =>
    intro cached hcached
    simpa only [hcached, Option.all_some] using hstep
  | settle t c path m =>
    exact fun f hf => of_decide_eq_true (List.all_eq_true.1 hstep f hf)

/-- The entry as it is in a manifest on disk. -/
def knownEntry : FileInfo := { pakEntry with updated := false }

/-- The code is in the manifest for the secure preloader, and a client build has no manifests. -/
def lateTree : FileTree := .ofList
  [("data", .dir), ("data/.ntd_server.key", .file (List.replicate 16 0)), ("data/Python", .dir),
    ("data/Python/Python.pak", .file [1, 2, 3]),
    ("data/SecurePreloader.mfs_cache",
      .file ((Manifest.mk [knownEntry]).cacheBytes.toOption.getD [])),
    ("data/client", .dir), ("data/client/windows_ia32", .dir),
    ("data/client/windows_ia32/internal", .dir)]

/-- The manifest of the build gets an entry that is not updated, and is not written. -/
theorem knownEntry_not_on_disk : (cacheClients .plain lateTree).1 = .ok () ∧
    (mfsPath .plain "Internal".toList, ⟨[knownEntry]⟩) ∈
      (cacheClients .plain lateTree).2.processed ∧
    Manifest.loadOrCreate Site.plain.tools.hex (mfsPath .plain "Internal".toList)
      (cacheClients .plain lateTree).2.tree ≠ .ok (Manifest.mk [knownEntry]).sent := by
  decide +kernel

end Moulars.FileSrv
