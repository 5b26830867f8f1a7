import Moulars.FileSrv.Scheme

/-!
When the entries of the manifests that are written describe files that are there.

The cache keeps an entry also when updating it has failed. So every entry has to be found to be
gone, or describe its files already, or have a source that can be taken over; and neither a
compressed file nor a manifest may be written over a file that an entry describes.
-/

namespace Moulars.FileSrv

open Lib.Wire Lib.Paths Lib.Files Lib.Hash Lib.Jobs
open Lib.Jobs.Rules Lib.Files.FileTree

/-! ### Entries that describe files -/

/-- The entry's source, and what the client downloads, are there and have the size and the hash
that the entry says. -/
structure FileInfo.Real (tools : Tools) (root : PathBuf) (t : FileTree) (f : FileInfo) : Prop where
  source : ∃ b, t.read (f.sourcePath root) = .ok b ∧ b.length = f.fileSize.toNat ∧
    tools.md5 b = f.fileHash
  download : ∃ b, t.read (f.downloadFile root) = .ok b ∧ b.length = f.downloadSize.toNat ∧
    tools.md5 b = f.downloadHash

def holds (tools : Tools) (t : FileTree) (path : PathBuf) (size : UInt32) (hash : Md5Hash) : Bool :=
  match t.read path with
  | .ok b => b.length == size.toNat && tools.md5 b == hash
  | .error _ => false

lemma holds_iff {tools : Tools} {t : FileTree} {path : PathBuf} {size : UInt32} {hash : Md5Hash} :
    holds tools t path size hash = true ↔
      ∃ b, t.read path = .ok b ∧ b.length = size.toNat ∧ tools.md5 b = hash := by
  rw [holds]
  split <;> simp [*]

instance (tools : Tools) (root : PathBuf) (t : FileTree) (f : FileInfo) :
    Decidable (f.Real tools root t) :=
  decidable_of_iff (holds tools t (f.sourcePath root) f.fileSize f.fileHash = true ∧
      holds tools t (f.downloadFile root) f.downloadSize f.downloadHash = true)
    ⟨fun ⟨hsrc, hdownload⟩ => ⟨holds_iff.1 hsrc, holds_iff.1 hdownload⟩,
      fun ⟨hsrc, hdownload⟩ => ⟨holds_iff.2 hsrc, holds_iff.2 hdownload⟩⟩

section Real

variable {tools : Tools} {root path : PathBuf} {t t' : FileTree} {f g : FileInfo}

lemma FileInfo.Real.touched (h : f.Real tools root t) (ht : Touched path t t')
    (hsrc : t.Apart path (f.sourcePath root)) (hdownload : t.Apart path (f.downloadFile root)) :
    f.Real tools root t' := by
  obtain ⟨⟨b, hb, hlen, hhash⟩, d, hd, hdlen, hdhash⟩ := h
  exact ⟨⟨b, (ht.read_iff hsrc).2 hb, hlen, hhash⟩, d, (ht.read_iff hdownload).2 hd, hdlen, hdhash⟩

/-- Entries that describe the same files. -/
structure FileInfo.Alike (f g : FileInfo) : Prop where
  downloadPath : g.downloadPath = f.downloadPath
  fileHash : g.fileHash = f.fileHash
  downloadHash : g.downloadHash = f.downloadHash
  fileSize : g.fileSize = f.fileSize
  downloadSize : g.downloadSize = f.downloadSize
  isCompressed : g.isCompressed = f.isCompressed
  deleted : g.deleted = f.deleted

namespace FileInfo.Alike

lemma refl (f : FileInfo) : f.Alike f := ⟨rfl, rfl, rfl, rfl, rfl, rfl, rfl⟩

lemma trans {k : FileInfo} (h : f.Alike g) (h' : g.Alike k) : f.Alike k where
  downloadPath := h'.downloadPath.trans h.downloadPath
  fileHash := h'.fileHash.trans h.fileHash
  downloadHash := h'.downloadHash.trans h.downloadHash
  fileSize := h'.fileSize.trans h.fileSize
  downloadSize := h'.downloadSize.trans h.downloadSize
  isCompressed := h'.isCompressed.trans h.isCompressed
  deleted := h'.deleted.trans h.deleted

lemma symm (h : f.Alike g) : g.Alike f :=
  ⟨h.downloadPath.symm, h.fileHash.symm, h.downloadHash.symm, h.fileSize.symm, h.downloadSize.symm,
    h.isCompressed.symm, h.deleted.symm⟩

lemma addFlags (f : FileInfo) {flags : UInt32} (h : flags &&& compressedGz = 0) :
    f.Alike (f.addFlags flags) :=
  ⟨rfl, rfl, rfl, rfl, rfl, f.isCompressed_addFlags h, rfl⟩

lemma downloadFile (h : f.Alike g) (root : PathBuf) :
    g.downloadFile root = f.downloadFile root := by
  rw [FileInfo.downloadFile, FileInfo.downloadFile, h.downloadPath]

lemma sourcePath (h : f.Alike g) (root : PathBuf) : g.sourcePath root = f.sourcePath root := by
  rw [FileInfo.sourcePath, FileInfo.sourcePath, h.downloadFile, h.isCompressed]

lemma real (h : f.Alike g) (hf : f.Real tools root t) : g.Real tools root t := by
  obtain ⟨hsource, hdownload⟩ := hf
  refine ⟨?_, ?_⟩
  · rwa [h.sourcePath root, h.fileSize, h.fileHash]
  · rwa [h.downloadFile root, h.downloadSize, h.downloadHash]

end FileInfo.Alike

lemma real_refreshed {cs : List Part} {name : List Char} {b : Bytes} (f : FileInfo)
    (hcs : ∀ c ∈ cs, Portable c) (hname : Portable (.normal name))
    (hfit : Fit t root ⟨false, cs⟩ name b)
    (ht : Touched (gzPath ((root.join ⟨false, cs⟩).child name)) t t')
    (hgz : (tools.gzip b).length < b.length * 9 / 10 →
      t'.read (gzPath ((root.join ⟨false, cs⟩).child name)) = .ok (tools.gzip b)) :
    (f.refreshed tools ⟨false, cs⟩ name b).Real tools root t' := by
  have hsrc := f.sourcePath_refreshed tools root b hcs hname
  have hdownload := f.downloadFile_refreshed tools root b hcs hname
  have hread := (ht.read_iff apart_gzPath).2 hfit.read
  have hsmall := hfit.small
  have hsize : (UInt32.ofNat b.length).toNat = b.length := UInt32.toNat_ofNat_of_lt' hsmall
  by_cases hsaved : (tools.gzip b).length < b.length * 9 / 10
  · have hgzSize : (UInt32.ofNat (tools.gzip b).length).toNat = (tools.gzip b).length :=
      UInt32.toNat_ofNat_of_lt' (by simp only [UInt32.size]; omega)
    rw [if_pos hsaved] at hdownload
    refine ⟨⟨b, hsrc ▸ hread, ?_, ?_⟩, tools.gzip b, hdownload ▸ hgz hsaved, ?_, ?_⟩ <;>
      simp [FileInfo.refreshed, hsaved, hsize, hgzSize]
  · rw [if_neg hsaved] at hdownload
    refine ⟨⟨b, hsrc ▸ hread, ?_, ?_⟩, b, hdownload ▸ hread, ?_, ?_⟩ <;>
      simp [FileInfo.refreshed, hsaved, hsize]

end Real

/-! ### What the steps are to meet -/

section Conditions

variable (site : Site)

/-- No entry of the cache describes the file with this path. -/
def Cache.Clear (t : FileTree) (cache : Cache) (path : PathBuf) : Prop :=
  ∀ key e, cache.lookup key = some e → e.deleted = false →
    t.Apart path (e.sourcePath site.dataRoot) ∧ t.Apart path (e.downloadFile site.dataRoot)

/-- A regular file of the data directory with a plain path, not too large, beside which a
compressed file can be created that no entry describes. -/
def Takes (t : FileTree) (cache : Cache) (src : PathBuf) (b : Bytes) : Prop :=
  ∃ cs name, src = (site.dataRoot.join ⟨false, cs⟩).child name ∧ (∀ c ∈ cs, Portable c) ∧
    Portable (.normal name) ∧ Fit t site.dataRoot ⟨false, cs⟩ name b ∧
      cache.Clear site t (gzPath src)

instance (t : FileTree) (cache : Cache) (path : PathBuf) : Decidable (cache.Clear site t path) :=
  decidable_of_iff (∀ x ∈ HashMap.toList cache, x.2.deleted = false →
      t.Apart path (x.2.sourcePath site.dataRoot) ∧ t.Apart path (x.2.downloadFile site.dataRoot))
    ⟨fun h key e he => h (key, e) (HashMap.mem_toList.2 he),
      fun h x hx => h x.1 x.2 (HashMap.mem_toList.1 hx)⟩

/-- A step that leaves nothing undescribed. -/
def Event.Sound : Event → Prop
  | .update t cache file => cache.lookup (file.sourcePath site.dataRoot) = none →
    t.read (file.sourcePath site.dataRoot) = .error .notFound ∨
      file.Real site.tools site.dataRoot t ∨
      ∃ b, (b.length ≠ file.fileSize.toNat ∨ site.tools.md5 b ≠ file.fileHash) ∧
        Takes site t cache (file.sourcePath site.dataRoot) b
  | .create t cache path => cache.lookup path = none → ∃ b, Takes site t cache path b
  | .settle t cache path m => m.anyUpdated = true → cache.Clear site t path

end Conditions

/-! ### What is kept -/

/-- The cache has an entry like this one. -/
def Known (cache : Cache) (f : FileInfo) : Prop :=
  ∃ key e, cache.lookup key = some e ∧ e.Alike f

/-- Entries of the cache stay what they are, up to flags. -/
def Extends (c c' : Cache) : Prop :=
  ∀ key e, c.lookup key = some e → ∃ e', c'.lookup key = some e' ∧ e.Alike e'

lemma Extends.refl (c : Cache) : Extends c c := fun _ e h => ⟨e, h, .refl e⟩

lemma Extends.trans {c c' c'' : Cache} (h : Extends c c') (h' : Extends c' c'') :
    Extends c c'' := by
  intro key e he
  obtain ⟨e', he', hlike⟩ := h key e he
  obtain ⟨e'', he'', hlike'⟩ := h' key e' he'
  exact ⟨e'', he'', hlike.trans hlike'⟩

lemma Known.extends {c c' : Cache} (h : Extends c c') {f : FileInfo} (hf : Known c f) :
    Known c' f := by
  obtain ⟨key, e, he, hlike⟩ := hf
  obtain ⟨e', he', hlike'⟩ := h key e he
  exact ⟨key, e', he', hlike'.symm.trans hlike⟩

lemma extends_insert {c : Cache} {key : PathBuf} {f : FileInfo}
    (h : ∀ e, c.lookup key = some e → e.Alike f) : Extends c (c.insert key f) := by
  intro k e he
  by_cases hk : k = key
  · subst hk
    exact ⟨f, AList.lookup_insert c, h e he⟩
  · exact ⟨e, by rw [AList.lookup_insert_ne hk, he], .refl e⟩

/-- All entries of the cache that are not deleted describe their files. -/
def Cache.AllReal (site : Site) (t : FileTree) (c : Cache) : Prop :=
  ∀ key e, c.lookup key = some e → e.deleted = false → e.Real site.tools site.dataRoot t

lemma Cache.AllReal.touched {site : Site} {t t' : FileTree} {c : Cache} {path : PathBuf}
    (h : c.AllReal site t) (ht : Touched path t t') (hclear : c.Clear site t path) :
    c.AllReal site t' := by
  intro key e he hdel
  obtain ⟨hsrc, hdownload⟩ := hclear key e he hdel
  exact (h key e he hdel).touched ht hsrc hdownload

lemma Cache.AllReal.insert {site : Site} {t : FileTree} {c : Cache} {key : PathBuf} {f : FileInfo}
    (h : c.AllReal site t) (hf : f.deleted = false → f.Real site.tools site.dataRoot t) :
    Cache.AllReal site t (c.insert key f) := by
  intro k e he hdel
  by_cases hk : k = key
  · subst hk
    rw [AList.lookup_insert] at he
    cases he
    exact hf hdel
  · rw [AList.lookup_insert_ne hk] at he
    exact h k e he hdel

/-- The state of a run in which everything is described: the entries of the cache, and those of
the manifests that were written, which are entries of the cache. -/
structure Described (site : Site) (s : DataCache) : Prop where
  cached : s.cache.AllReal site s.tree
  written : ∀ pm ∈ s.processed, pm.2.anyUpdated = true → ∀ f ∈ pm.2.files, Known s.cache f
  flags : Harmless s.sfxFlags

def realRules (site : Site) : Rules DataCache where
  good s := ∀ event ∈ s.log, event.Sound site
  inv := Described site
  failed := Described site
  failed_of_inv _ h := h
  moves s s' := Extends s.cache s'.cache
  refl s := .refl s.cache
  trans := .trans

section Steps

variable {site : Site}

lemma Described.noted {s : DataCache} (h : Described site s) {event : Event}
    (hevent : event.manifest? = none) : Described site (s.noted event) := by
  refine ⟨h.cached, fun pm hpm => h.written pm ?_, h.flags⟩
  simpa [hevent] using (DataCache.mem_processed_append rfl).1 hpm

lemma Described.entered {s : DataCache} (h : Described site s) (event : Event)
    (hevent : event.manifest? = none) {key : PathBuf} {r : FileInfo × FileTree}
    (hnew : s.cache.lookup key = none) (hcached : s.cache.AllReal site r.2)
    (hentry : r.1.deleted = false → r.1.Real site.tools site.dataRoot r.2) :
    Described site (s.entered event key r) ∧ Extends s.cache (s.entered event key r).cache := by
  have hext : Extends s.cache (s.cache.insert key r.1) := extends_insert (by simp [hnew])
  refine ⟨⟨hcached.insert hentry, fun pm hpm hany f hf => ?_, h.flags⟩, hext⟩
  have hpm' : pm ∈ s.processed := by
    simpa [hevent] using (DataCache.mem_processed_append rfl).1 hpm
  exact (h.written pm hpm' hany f hf).extends hext

lemma real_updatedEntry {s : DataCache} {file : FileInfo} (h : s.cache.AllReal site s.tree)
    (hfine : (Event.update s.tree s.cache file).Sound site)
    (hnew : s.cache.lookup (file.sourcePath site.dataRoot) = none) :
    s.cache.AllReal site (updatedEntry site file s.tree).2 ∧
      ((updatedEntry site file s.tree).1.deleted = false →
        (updatedEntry site file s.tree).1.Real site.tools site.dataRoot
          (updatedEntry site file s.tree).2) := by
  rcases hfine hnew with hgone | hreal | ⟨b, hchanged, cs, name, hsrc, hcs, hname, hfit, hclear⟩
  · rw [updatedEntry, update_of_read_error hgone]
    exact ⟨h, fun hkept => by cases hkept⟩
  · obtain ⟨b, hb, hlen, hhash⟩ := hreal.source
    rw [updatedEntry, update_of_unchanged hb hlen hhash]
    exact ⟨h, fun _ => hreal⟩
  · obtain ⟨t', hupdate, hgz⟩ := update_of_fit site.tools hfit hsrc hchanged
    have htouched := touched_update site.tools site.dataRoot file s.tree
    rw [hupdate] at htouched
    rw [updatedEntry, hupdate]
    refine ⟨h.touched htouched hclear, fun _ => ?_⟩
    rw [hsrc] at htouched hgz
    exact real_refreshed file hcs hname hfit htouched hgz

lemma real_createdEntry {s : DataCache} {path srcPath : PathBuf} (client : String)
    (h : s.cache.AllReal site s.tree) (hfine : (Event.create s.tree s.cache path).Sound site)
    (hnew : s.cache.lookup path = none) (hstrip : path.stripPrefix site.dataRoot = some srcPath) :
    s.cache.AllReal site (createdEntry site client srcPath s.tree).2 ∧
      (createdEntry site client srcPath s.tree).1.Real site.tools site.dataRoot
        (createdEntry site client srcPath s.tree).2 := by
  obtain ⟨b, cs, name, rfl, hcs, hname, hfit, hclear⟩ := hfine hnew
  have hpath : (site.dataRoot.join ⟨false, cs⟩).child name =
      ⟨site.dataRoot.root, site.dataRoot.parts ++ (cs ++ [.normal name])⟩ := by
    simp [PathBuf.join, PathBuf.child]
  rw [hpath, PathBuf.stripPrefix_append, Option.some.injEq] at hstrip
  subst hstrip
  have hdownload : (FileInfo.new client (PathBuf.child ⟨false, cs⟩ name).text).downloadFile
      site.dataRoot = (site.dataRoot.join ⟨false, cs⟩).child name :=
    FileInfo.join_ofText_child site.dataRoot hcs hname
  have hsrc : (FileInfo.new client (PathBuf.child ⟨false, cs⟩ name).text).sourcePath
      site.dataRoot = (site.dataRoot.join ⟨false, cs⟩).child name := by
    rw [FileInfo.sourcePath, hdownload, if_neg (by simp [FileInfo.new, FileInfo.isCompressed])]
  generalize hf : FileInfo.new client (PathBuf.child ⟨false, cs⟩ name).text = f at hdownload hsrc
  have hzero : f.fileSize.toNat = 0 ∧ f.fileHash = .zero ∧ f.downloadSize.toNat = 0 ∧
      f.downloadHash = .zero := by
    subst hf
    exact ⟨rfl, rfl, rfl, rfl⟩
  have hentry : createdEntry site client ⟨false, cs ++ [.normal name]⟩ s.tree =
      (f.update (treeOps site.tools) site.dataRoot s.tree).2 := by
    rw [← hf]
    rfl
  rw [hentry]
  by_cases hchanged : b.length ≠ f.fileSize.toNat ∨ site.tools.md5 b ≠ f.fileHash
  · obtain ⟨t', hupdate, hgz⟩ := update_of_fit site.tools hfit hsrc hchanged
    have htouched := touched_update site.tools site.dataRoot f s.tree
    rw [hupdate, hsrc] at htouched
    rw [hsrc] at hgz
    rw [hupdate]
    exact ⟨h.touched htouched hclear, real_refreshed f hcs hname hfit htouched hgz⟩
  · -- an empty file whose digest is all zeros is described by an entry without data
    obtain ⟨hlen, hhash⟩ := not_or.1 hchanged
    rw [update_of_unchanged (hsrc ▸ hfit.read) (not_not.1 hlen) (not_not.1 hhash)]
    refine ⟨h, ⟨b, hsrc ▸ hfit.read, not_not.1 hlen, not_not.1 hhash⟩,
      b, hdownload ▸ hfit.read, ?_, ?_⟩
    · rw [not_not.1 hlen, hzero.1, hzero.2.2.1]
    · rw [not_not.1 hhash, hzero.2.1, hzero.2.2.2]

lemma sound_of_log {s s' : DataCache} {event : Event} (hlog : s'.log = s.log ++ [event])
    (h : (realRules site).good s') : (realRules site).good s ∧ event.Sound site := by
  refine ⟨fun e he => h e ?_, h event ?_⟩ <;> rw [hlog]
  · exact List.mem_append_left _ he
  · exact List.mem_append_right _ (List.mem_singleton_self event)

lemma real_updateCacheFile (file : FileInfo) :
    (realRules site).Meets (fun _ => True) (updateCacheFile site file)
      fun f s => Known s.cache f := by
  intro s hgood
  rcases updateCacheFile_cases site s file with ⟨cached, hlookup, hrun⟩ | ⟨hnew, hrun⟩
  · rw [hrun] at hgood ⊢
    exact ⟨(sound_of_log rfl hgood).1, fun hinv _ =>
      ⟨hinv.noted rfl, .refl _, _, cached, hlookup, .refl cached⟩⟩
  · rw [hrun] at hgood ⊢
    obtain ⟨hgood, hsound⟩ := sound_of_log rfl hgood
    refine ⟨hgood, fun hinv _ => ?_⟩
    obtain ⟨hcached, hentry⟩ := real_updatedEntry hinv.cached hsound hnew
    obtain ⟨hinv', hext⟩ := hinv.entered (.update s.tree s.cache file) rfl hnew hcached hentry
    exact ⟨hinv', hext, _, _, AList.lookup_insert _, .refl _⟩

lemma real_createCacheFile (path : PathBuf) :
    (realRules site).Meets (fun _ => True) (createCacheFile site path)
      fun f s => Known s.cache f ∧ s.cache.lookup path = some f := by
  intro s hgood
  rcases createCacheFile_cases site s path with
    ⟨e, hrun⟩ | ⟨cached, hlookup, hrun⟩ | ⟨srcPath, client, hstrip, hnew, hrun⟩
  · rw [hrun] at hgood ⊢
    exact ⟨hgood, fun hinv _ => hinv⟩
  · rw [hrun] at hgood ⊢
    exact ⟨(sound_of_log rfl hgood).1, fun hinv _ =>
      ⟨hinv.noted rfl, .refl _, ⟨_, cached, hlookup, .refl cached⟩, hlookup⟩⟩
  · rw [hrun] at hgood ⊢
    obtain ⟨hgood, hsound⟩ := sound_of_log rfl hgood
    refine ⟨hgood, fun hinv _ => ?_⟩
    obtain ⟨hcached, hentry⟩ := real_createdEntry client hinv.cached hsound hnew hstrip
    obtain ⟨hinv', hext⟩ := hinv.entered (.create s.tree s.cache path) rfl hnew hcached
      fun _ => hentry
    exact ⟨hinv', hext, ⟨_, _, AList.lookup_insert _, .refl _⟩, AList.lookup_insert _⟩

lemma real_updateFiles (files : List FileInfo) (expected : HashSet PathBuf) :
    (realRules site).Meets (fun _ => True) (updateFiles site files expected)
      fun r s => ∀ f ∈ r.1, Known s.cache f := by
  induction files generalizing expected with
  | nil => exact .pure fun s _ _ _ f hf => nomatch hf
  | cons file files ih =>
    refine .bind (real_updateCacheFile file) fun f => ?_
    refine .bind ((ih _).frame (F := fun s => Known s.cache f) (fun s s' hm h => h.extends hm)
      fun s h => ⟨trivial, h⟩) fun ⟨files, expected⟩ => .pure fun s _ _ h => ?_
    rw [List.forall_mem_cons]
    exact ⟨h.2, h.1⟩

lemma real_addFlags (path : PathBuf) (f : FileInfo) (flags : UInt32) :
    (realRules site).Meets (fun s => flags &&& FileInfo.compressedGz = 0 ∧ Known s.cache f ∧
      s.cache.lookup path = some f) (addFlags path f flags) fun f s => Known s.cache f := by
  refine fun s hgood => ⟨hgood, fun hinv ⟨hflags, _, hlookup⟩ => ?_⟩
  have hlike := FileInfo.Alike.addFlags f hflags
  have hext : Extends s.cache (s.cache.insert path (f.addFlags flags)) := by
    refine extends_insert fun e he => ?_
    rw [hlookup] at he
    cases he
    exact hlike
  refine ⟨⟨hinv.cached.insert fun hdel => ?_, ?_, hinv.flags⟩, hext, ?_⟩
  · exact hlike.real (hinv.cached path f hlookup (hlike.deleted ▸ hdel))
  · intro pm hpm hany g hg
    exact (hinv.written pm hpm hany g hg).extends hext
  · exact ⟨path, _, AList.lookup_insert _, .refl _⟩

lemma real_settle (path : PathBuf) (m : Manifest) :
    (realRules site).Meets (fun s => ∀ f ∈ m.files, Known s.cache f) (settle path m)
      fun _ _ => True := by
  intro s hgood
  cases hany : m.anyUpdated with
  | true =>
    rw [settle_of_anyUpdated s path hany] at hgood ⊢
    obtain ⟨hgood, hsound⟩ := sound_of_log rfl hgood
    refine ⟨hgood, fun hinv hknown => ?_⟩
    have hend : Described site { s.noted (.settle s.tree s.cache path m) with
        tree := (m.writeCache path s.tree).2 } := by
      refine ⟨hinv.cached.touched (touched_writeCache s.tree m path) (hsound hany), ?_, hinv.flags⟩
      intro pm hpm hany' f hf
      rcases (DataCache.mem_processed_append rfl).1 hpm with hpm | hpm
      · exact hinv.written pm hpm hany' f hf
      · cases hpm
        exact hknown f hf
    cases (m.writeCache path s.tree).1 with
    | error e => exact hend
    | ok _ => exact ⟨hend, .refl _, trivial⟩
  | false =>
    rw [settle_of_not_anyUpdated s path hany] at hgood ⊢
    refine ⟨(sound_of_log rfl hgood).1, fun hinv _ => ⟨⟨hinv.cached, ?_, hinv.flags⟩, .refl _,
      trivial⟩⟩
    intro pm hpm hany' f hf
    rcases (DataCache.mem_processed_append rfl).1 hpm with hpm | hpm
    · exact hinv.written pm hpm hany' f hf
    · cases hpm
      simp [hany] at hany'

lemma real_load (path : PathBuf) :
    (realRules site).Meets (fun _ => True) (loadOrCreateManifest site path) fun _ _ => True := by
  refine fun s hgood => ⟨hgood, fun hinv _ => ?_⟩
  rw [loadOrCreateManifest]
  cases Manifest.loadOrCreate site.tools.hex path s.tree with
  | error e => exact hinv
  | ok m => exact ⟨hinv, .refl _, trivial⟩

def realScheme (site : Site) : Scheme site (realRules site) where
  Loaded _ _ _ := True
  Held _ m s := ∀ f ∈ m.files, Known s.cache f
  Fresh f s := Known s.cache f
  harmless _ hinv := hinv.flags
  loaded_stable _ _ _ _ _ h := h
  held_stable _ _ _ _ hm h f hf := (h f hf).extends hm
  setFlags flags := fun s hgood => ⟨hgood, fun hinv hflags =>
    ⟨⟨hinv.cached, hinv.written, hflags⟩, .refl _, trivial⟩⟩
  load name := real_load (mfsPath site name)
  update _ m expected := real_updateFiles m.files expected
  create := real_createCacheFile
  addFlags := real_addFlags
  add path m f s hheld hfresh g hg := by
    rcases List.mem_append.1 hg with hg | hg
    · exact hheld g hg
    · exact List.mem_singleton.1 hg ▸ hfresh
  settle name m := real_settle (mfsPath site name) m

end Steps

/-- **Every entry that is written describes files that are there, if every step of the run leaves
nothing undescribed.** -/
theorem written_entries_real (site : Site) (t : FileTree)
    (hsound : ∀ event ∈ (cacheClients site t).2.log, event.Sound site)
    (path : PathBuf) (m : Manifest) (hwritten : (path, m) ∈ (cacheClients site t).2.written)
    (f : FileInfo) (hf : f ∈ m.written) :
    f.Real site.tools site.dataRoot (cacheClients site t).2.tree := by
  rw [cacheClients] at hsound hwritten ⊢
  rcases hcollect : collectGameData site t with ⟨_ | gameDataFiles, t'⟩
  · rw [hcollect] at hwritten
    cases hwritten
  · rw [hcollect] at hsound hwritten
    obtain ⟨hpm, hany⟩ := List.mem_filter.1 hwritten
    obtain ⟨hmem, hdel⟩ := List.mem_filter.1 hf
    have hstart : Described site ⟨t', ∅, ∅, []⟩ :=
      ⟨by simp [Cache.AllReal], by simp [DataCache.processed], by simp [Harmless]⟩
    have hend : Described site (makeManifests site gameDataFiles ⟨t', ∅, ∅, []⟩).2 := by
      have hends := (((realScheme site).makeManifests gameDataFiles) ⟨t', ∅, ∅, []⟩ hsound).2
        hstart trivial
      rcases hrun : makeManifests site gameDataFiles ⟨t', ∅, ∅, []⟩ with ⟨_ | _, s⟩
      · rwa [hrun] at hends
      · rw [hrun] at hends
        exact hends.1
    obtain ⟨key, e, he, hlike⟩ := hend.written (path, m) hpm hany f hmem
    have hdel' : e.deleted = false := by simpa [hlike.deleted] using hdel
    exact hlike.real (hend.cached key e he hdel')

/-- Where the files are that the entries describe, and what is in them. -/
def pakSources : List (List Part × List Char × Bytes) :=
  [([.normal "Python".toList], "Python.pak".toList, [1, 2, 3]),
    ([.normal "client".toList, .normal "windows_ia32".toList, .normal "internal".toList],
      "plClient.exe".toList, [4, 5])]

/-- The manifest of the client build describes its program, and the code, whose entry is in the
cache since the manifest for the secure preloader was made. -/
theorem clientEntries_real :
    exeEntry.Real .plain Site.plain.dataRoot (cacheClients .plain pakTree).2.tree ∧
      pakEntry.Real .plain Site.plain.dataRoot (cacheClients .plain pakTree).2.tree := by
  have hrun : (mfsPath .plain "Internal".toList, ⟨[exeEntry, pakEntry]⟩) ∈
        (cacheClients .plain pakTree).2.written ∧
      ((cacheClients .plain pakTree).2.log.all fun
        | .update _ _ _ => false
        | .create t c path => (c.lookup path).isSome || pakSources.any fun src =>
            decide (path = (Site.plain.dataRoot.join ⟨false, src.1⟩).child src.2.1 ∧
              Fit t Site.plain.dataRoot ⟨false, src.1⟩ src.2.1 src.2.2 ∧
              c.Clear .plain t (gzPath path))
        | .settle t c path _ => decide (c.Clear .plain t path)) = true := by decide +kernel
  have hportable : ∀ src ∈ pakSources, (∀ c ∈ src.1, Portable c) ∧ Portable (.normal src.2.1) := by
    decide
  obtain ⟨hwritten, hsteps⟩ := hrun
  have hsound : ∀ event ∈ (cacheClients .plain pakTree).2.log, event.Sound .plain := by
    intro event hevent
    have hstep := List.all_eq_true.1 hsteps event hevent
    cases event with
    | update t c file => cases hstep
    | create t c path =>
      intro hnew
      simp only [hnew, Option.isSome_none, Bool.false_or] at hstep
      obtain ⟨⟨cs, name, b⟩, hsrc, htakes⟩ := List.any_eq_true.1 hstep
      obtain ⟨hpath, hfit, hclear⟩ := of_decide_eq_true htakes
      obtain ⟨hcs, hname⟩ := hportable _ hsrc
      exact ⟨b, cs, name, hpath, hcs, hname, hfit, hclear⟩
    | settle t c path m => exact fun _ => of_decide_eq_true hstep
  have hreal := written_entries_real .plain pakTree hsound _ _ hwritten
  exact ⟨hreal exeEntry (by decide +kernel), hreal pakEntry (by decide +kernel)⟩

/-- A directory among the data, and a client build. -/
def subTree : FileTree := .ofList
  [("data", .dir), ("data/.ntd_server.key", .file (List.replicate 16 0)), ("data/dat", .dir),
    ("data/dat/sub", .dir), ("data/client", .dir), ("data/client/windows_ia32", .dir),
    ("data/client/windows_ia32/internal", .dir)]

/-- An entry that was never populated. -/
def subEntry : FileInfo := ⟨"dat\\sub", "dat\\sub", .zero, .zero, 0, 0, 0, true, false⟩

/-- The scan takes the directory along, updating its entry fails, and the entry is written as it
was made. -/
theorem subEntry_not_real : (cacheClients .plain subTree).1 = .ok () ∧
    (mfsPath .plain "Internal".toList, ⟨[subEntry]⟩) ∈ (cacheClients .plain subTree).2.written ∧
    subEntry ∈ (⟨[subEntry]⟩ : Manifest).written ∧
    ¬ subEntry.Real .plain Site.plain.dataRoot (cacheClients .plain subTree).2.tree := by
  decide +kernel

end Moulars.FileSrv
