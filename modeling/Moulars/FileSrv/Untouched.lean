import Moulars.FileSrv.Scheme

/-!
What making the manifests leaves alone.

Besides the manifests themselves, only the compressed files beside the sources are written or
removed, whether the run succeeds or not.
-/

namespace Moulars.FileSrv

open Lib.Wire Lib.Paths Lib.Files Lib.Hash Lib.Jobs
open Lib.Jobs.Rules Lib.Files.FileTree

/-- The names of compressed files and of manifests. -/
def Derived (name : List Char) : Prop :=
  ".gz".toList <:+ name ∨ ".mfs_cache".toList <:+ name

instance (name : List Char) : Decidable (Derived name) :=
  inferInstanceAs (Decidable (_ ∨ _))

/-- Everything with another name is as it was. -/
def Unmoved (t t' : FileTree) : Prop :=
  ∀ (dir : PathBuf) (name : List Char), ¬ Derived name →
    ∀ node, t'.find (dir.child name) = .ok node ↔ t.find (dir.child name) = .ok node

section Steps

variable {site : Site} {t t' t'' : FileTree} {P : DataCache → Prop}

lemma Unmoved.child (h : Unmoved t t') {dir : PathBuf} {name : List Char} (hname : Derived name)
    (ht : Touched (dir.child name) t' t'') : Unmoved t t'' := by
  intro dir' other hother node
  have hne : name ≠ other := fun heq => hother (heq ▸ hname)
  exact (ht.find_iff (apart_child hne)).trans (h dir' other hother node)

lemma Unmoved.gz (h : Unmoved t t') {src : PathBuf} (ht : Touched (gzPath src) t' t'') :
    Unmoved t t'' := by
  by_cases hfile : (gzPath src).fileName = none
  · rcases ht with rfl | ⟨q, hname, -⟩
    · exact h
    · exact absurd hfile hname
  · obtain ⟨dir, name, rfl⟩ := exists_of_fileName_gzPath hfile
    rw [gzPath_child] at ht
    exact h.child (.inl (List.suffix_append _ _)) ht

lemma Unmoved.mfs (h : Unmoved t t') {name : List Char} (ht : Touched (mfsPath site name) t' t'') :
    Unmoved t t'' :=
  h.child (.inr (List.suffix_append _ _)) ht

def unmovedRules (t : FileTree) : Rules DataCache where
  good _ := True
  inv s := Unmoved t s.tree ∧ Harmless s.sfxFlags
  failed s := Unmoved t s.tree
  moves _ _ := True
  failed_of_inv _ h := h.1
  refl _ := trivial
  trans _ _ := trivial

lemma unmoved_meets {α : Type} {j : Work α} {Q : α → DataCache → Prop}
    (h : ∀ s, (unmovedRules t).inv s → P s → (unmovedRules t).inv (j s).2 ∧
      ∀ a, (j s).1 = .ok a → Q a (j s).2) : (unmovedRules t).Meets P j Q := by
  refine fun s _ => ⟨trivial, fun hinv hP => ?_⟩
  obtain ⟨hinv', hQ⟩ := h s hinv hP
  generalize j s = r at hinv' hQ
  obtain ⟨_ | a, s'⟩ := r
  · exact hinv'.1
  · exact ⟨hinv', trivial, hQ a rfl⟩

lemma unmoved_updateCacheFile (file : FileInfo) :
    (unmovedRules t).Meets (fun _ => True) (updateCacheFile site file) fun _ _ => True := by
  refine unmoved_meets fun s hinv _ => ⟨?_, fun _ _ => trivial⟩
  rcases updateCacheFile_cases site s file with ⟨cached, -, hrun⟩ | ⟨-, hrun⟩
  · rw [hrun]
    exact hinv
  · rw [hrun]
    have htouched := touched_update site.tools site.dataRoot file s.tree
    rw [← files_updatedEntry] at htouched
    exact ⟨hinv.1.gz htouched, hinv.2⟩

lemma unmoved_updateFiles (files : List FileInfo) (expected : HashSet PathBuf) :
    (unmovedRules t).Meets (fun _ => True) (updateFiles site files expected)
      fun _ _ => True := by
  induction files generalizing expected with
  | nil => exact .pure fun _ _ _ _ => trivial
  | cons file files ih =>
    exact .bind (unmoved_updateCacheFile file) fun _ => .bind (ih _) fun _ =>
      .pure fun _ _ _ _ => trivial

lemma unmoved_createCacheFile (path : PathBuf) :
    (unmovedRules t).Meets (fun _ => True) (createCacheFile site path)
      fun f s => True ∧ s.cache.lookup path = some f := by
  refine unmoved_meets fun s hinv _ => ?_
  rcases createCacheFile_cases site s path with
    ⟨e, hrun⟩ | ⟨cached, hlookup, hrun⟩ | ⟨srcPath, client, -, -, hrun⟩
  · rw [hrun]
    exact ⟨hinv, nofun⟩
  · rw [hrun]
    refine ⟨hinv, fun a ha => ?_⟩
    cases ha
    exact ⟨trivial, hlookup⟩
  · rw [hrun]
    refine ⟨⟨hinv.1.gz (touched_update site.tools site.dataRoot _ s.tree), hinv.2⟩, fun a ha => ?_⟩
    cases ha
    exact ⟨trivial, AList.lookup_insert _⟩

lemma unmoved_settle (name : List Char) (m : Manifest) :
    (unmovedRules t).Meets (fun _ => True) (settle (mfsPath site name) m) fun _ _ => True := by
  refine unmoved_meets fun s hinv _ => ⟨?_, fun _ _ => trivial⟩
  cases hm : m.anyUpdated with
  | true =>
    rw [settle_of_anyUpdated s _ hm]
    exact ⟨hinv.1.mfs (touched_writeCache _ _ _), hinv.2⟩
  | false =>
    rw [settle_of_not_anyUpdated s _ hm]
    exact hinv

end Steps

def unmovedScheme (site : Site) (t : FileTree) : Scheme site (unmovedRules t) where
  Loaded _ _ _ := True
  Held _ _ _ := True
  Fresh _ _ := True
  harmless _ h := h.2
  loaded_stable _ _ _ _ _ _ := trivial
  held_stable _ _ _ _ _ _ := trivial
  setFlags _ := unmoved_meets fun _ hinv hflags => ⟨⟨hinv.1, hflags⟩, fun _ _ => trivial⟩
  load _ := unmoved_meets fun _ hinv _ => ⟨hinv, fun _ _ => trivial⟩
  update _ m expected := unmoved_updateFiles m.files expected
  create := unmoved_createCacheFile
  addFlags _ _ _ := unmoved_meets fun _ hinv _ => ⟨hinv, fun _ _ => trivial⟩
  add _ _ _ _ _ _ := trivial
  settle := unmoved_settle

/-- **Making the manifests** changes compressed files and manifests only. -/
theorem unmoved_cacheClients {site : Site} {t t₁ : FileTree} {files : HashSet PathBuf}
    (h : collectGameData site t = (.ok files, t₁)) : Unmoved t₁ (cacheClients site t).2.tree := by
  have hmeets := ((unmovedScheme site t₁).makeManifests files ⟨t₁, ∅, ∅, []⟩ trivial).2
    ⟨fun _ _ _ _ => Iff.rfl, fun _ _ hnone => nomatch hnone⟩ trivial
  rw [cacheClients, h]
  dsimp only
  generalize makeManifests site files ⟨t₁, ∅, ∅, []⟩ = r at hmeets ⊢
  obtain ⟨_ | a, s⟩ := r
  · exact hmeets
  · exact hmeets.1.1

end Moulars.FileSrv
