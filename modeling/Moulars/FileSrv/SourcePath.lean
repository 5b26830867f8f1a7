import Mathlib.Logic.Relation
import Moulars.FileSrv.FileInfo

/-!
An entry never loses its source.

An update writes the path of the source, or of the compressed file beside it, into the entry, in the
way the client writes paths, and the source is found again by what was written.
-/

namespace Moulars.FileSrv

open Lib.Wire Lib.Paths Lib.Files
open Auth (toNative)

/-! ### Behind the data root -/

section Behind

variable {root p : PathBuf}

/-- All parts of a path behind those of the data root can be written for the client. -/
def PortableBehind (root p : PathBuf) : Prop := ∀ c ∈ p.parts.drop root.parts.length, Portable c

lemma portable_of_native {s : List Char} {c : Part}
    (h : c ∈ (PathBuf.ofText (toNative s)).parts) : Portable c := by
  obtain ⟨hplain, hsub⟩ := plain_of_mem_parts h
  refine ⟨hplain, fun hback => ?_⟩
  obtain ⟨ch, -, hch⟩ := List.mem_map.1 (hsub hback)
  split at hch
  · cases hch
  · exact absurd hch ‹_›

lemma portableBehind_join (root : PathBuf) (s : List Char) :
    PortableBehind root (root.join (.ofText (toNative s))) := by
  intro c hc
  rw [PathBuf.join] at hc
  split at hc
  · exact portable_of_native (List.mem_of_mem_drop hc)
  · exact portable_of_native (by simpa using hc)

lemma PortableBehind.replace {dir : PathBuf} {name : List Char} {cs : List Part}
    (h : PortableBehind root (dir.child name))
    (hcs : Portable (.normal name) → ∀ c ∈ cs, Portable c) :
    cs.length ≤ 1 → PortableBehind root ⟨dir.root, dir.parts ++ cs⟩ := by
  intro hlen c hc
  simp only [PortableBehind, PathBuf.parts_child, List.drop_append, List.mem_append] at h hc
  rcases hc with hc | hc
  · exact h c (.inl hc)
  · -- the name is behind the data root, as there is something in its place
    have hzero : root.parts.length - dir.parts.length = 0 := by
      by_contra hne
      rw [List.drop_of_length_le (by omega)] at hc
      cases hc
    refine hcs (h _ (.inr ?_)) c (List.mem_of_mem_drop hc)
    rw [hzero]
    exact List.mem_singleton_self _

lemma portable_stem {name : List Char} {c : Part} (h : Portable (.normal name))
    (hc : Part.ofPiece (stemOf name) = some c) : Portable c := by
  have hsub : stemOf name ⊆ name := by
    cases hext : extensionOf name with
    | none => rw [stemOf_of_none hext]; exact List.Subset.refl _
    | some ext =>
      have hname := stemOf_append_extensionOf hext
      intro ch hch
      rw [← hname]
      exact List.mem_append_left _ hch
  have htext := Part.text_of_ofPiece hc
  have hslash : '/' ∉ name := h.noSlash
  have hback : '\\' ∉ name := h.noBackslash
  rw [← htext] at hc hsub
  exact ⟨⟨hc, fun hmem => hslash (hsub hmem)⟩, fun hmem => hback (hsub hmem)⟩

lemma PortableBehind.withExtension_nil (h : PortableBehind root p) :
    PortableBehind root (p.withExtension []) := by
  cases hname : p.fileName with
  | none => simpa only [PathBuf.withExtension, hname] using h
  | some name =>
    obtain ⟨dir, rfl⟩ := PathBuf.eq_child_of_fileName hname
    have hstem : (dir.child name).withExtension [] =
        ⟨dir.root, dir.parts ++ (Part.ofPiece (stemOf name)).toList⟩ := by
      simp [PathBuf.withExtension]
    rw [hstem]
    refine h.replace (fun hportable c hc => portable_stem hportable ?_) ?_
    · simpa using hc
    · cases Part.ofPiece (stemOf name) <;> simp

lemma PortableBehind.gzPath (h : PortableBehind root p) : PortableBehind root (gzPath p) := by
  cases hname : p.fileName with
  | none => rwa [gzPath_of_fileName_none hname]
  | some name =>
    obtain ⟨dir, rfl⟩ := PathBuf.eq_child_of_fileName hname
    rw [gzPath_child]
    refine h.replace (fun hportable c hc => ?_) (by simp)
    rw [List.mem_singleton.1 hc]
    exact hportable.gz

lemma parts_stripPrefix {rest : PathBuf} (h : p.stripPrefix root = some rest) :
    rest.parts = p.parts.drop root.parts.length ∧ root.join rest = p := by
  rw [PathBuf.stripPrefix] at h
  split at h
  · rename_i hpre
    obtain ⟨hroot, more, hmore⟩ := hpre
    cases h
    refine ⟨rfl, ?_⟩
    obtain ⟨proot, parts⟩ := p
    obtain rfl : root.parts ++ more = parts := hmore
    obtain rfl : proot = root.root := hroot
    simp [PathBuf.join]
  · split at h
    · -- everything is behind an empty data root
      rename_i hnot hempty
      cases h
      obtain ⟨hrel, hnil⟩ := hempty
      obtain ⟨rroot, rparts⟩ := root
      obtain rfl : rroot = false := hrel
      obtain rfl : rparts = [] := hnil
      refine ⟨rfl, ?_⟩
      have hproot : p.root = true := by
        by_contra hp
        exact hnot ⟨Bool.eq_false_of_not_eq_true hp, List.nil_prefix⟩
      rw [PathBuf.join, if_pos hproot]
    · cases h

/-- **What an update writes into the entry leads to the file again.** -/
lemma join_clientText {text : String} (h : PortableBehind root p)
    (htext : FileInfo.clientText root p = .ok text) :
    root.join (.ofText (toNative text.toList)) = p := by
  rw [FileInfo.clientText] at htext
  split at htext
  · rename_i rest hrest
    cases htext
    obtain ⟨hparts, hjoin⟩ := parts_stripPrefix hrest
    rw [String.toList_ofList, ofText_toNative_toWindows, hjoin]
    rw [hparts]
    exact h
  · cases htext

end Behind

/-! ### Updates -/

namespace FileInfo

section Step

variable {σ : Type} {ops : FileOps σ} {root : PathBuf} {f f' : FileInfo} {s s' : σ}

lemma tryCompressing_eq_ok {src gz : PathBuf} (h : f.tryCompressing ops root src gz s =
    (.ok (), f', s')) :
    (clientText root gz = .ok f'.downloadPath ∧ f'.isCompressed = true) ∨
      (clientText root src = .ok f'.downloadPath ∧ f'.isCompressed = false) := by
  rw [tryCompressing] at h
  split at h
  · cases h
  · split at h
    · cases h
    · split at h
      · rw [keepCompressed] at h
        split at h
        · cases h
        · split at h
          · cases h
          · cases h
            exact .inl ⟨‹_›, compressed_or f.flags⟩
      · rw [keepUncompressed] at h
        split at h
        · cases h
        · simp only at h
          split at h
          · cases h
          · cases h
            exact .inr ⟨‹_›, compressed_and_not f.flags⟩

lemma update_eq_ok (h : f.update ops root s = (.ok (), f', s')) :
    f' = f ∨
      (clientText root (gzPath (f.sourcePath root)) = .ok f'.downloadPath ∧
        f'.isCompressed = true) ∨
      (clientText root (f.sourcePath root) = .ok f'.downloadPath ∧ f'.isCompressed = false) := by
  rw [update] at h
  split at h
  · cases h
  · split at h
    · cases h
    · split at h
      · split at h
        · cases h
        · exact .inr (tryCompressing_eq_ok h)
      · cases h
        exact .inl rfl

/-- **The source is taken off the compressed file beside it again**, whatever dots its name has. -/
lemma withExtension_gzPath {src : PathBuf} (h : ∀ c ∈ src.parts, Part.ofPiece c.text = some c) :
    (if (gzPath src).extension = some "gz".toList then (gzPath src).withExtension []
      else gzPath src) = src := by
  cases hname : src.fileName with
  | none =>
    rw [gzPath_of_fileName_none hname, PathBuf.extension, hname]
    rfl
  | some name =>
    obtain ⟨dir, rfl⟩ := PathBuf.eq_child_of_fileName hname
    have hpiece : Part.ofPiece name = some (.normal name) := h (.normal name) (by simp)
    have hne : name ≠ [] := by
      rintro rfl
      cases hpiece
    have hext : (dir.child (name ++ ".gz".toList)).extension = some "gz".toList := by
      rw [PathBuf.extension, PathBuf.fileName_child, Option.bind_some]
      exact extensionOf_append hne (by decide)
    rw [gzPath_child, if_pos hext]
    exact PathBuf.withExtension_nil_child dir hpiece (by decide)

lemma portableBehind_sourcePath (f : FileInfo) (root : PathBuf) :
    PortableBehind root (f.sourcePath root) := by
  have hdownload := portableBehind_join root f.downloadPath.toList
  rw [sourcePath]
  split
  · exact hdownload.withExtension_nil
  · exact hdownload

lemma ofPiece_sourcePath (f : FileInfo) {root : PathBuf} (h : ∀ c ∈ root.parts, c.Plain) {c : Part}
    (hc : c ∈ (f.sourcePath root).parts) : Part.ofPiece c.text = some c := by
  have hdownload : ∀ c ∈ (f.downloadFile root).parts, Part.ofPiece c.text = some c := by
    intro c hc
    rw [downloadFile, PathBuf.join] at hc
    split at hc
    · exact (portable_of_native hc).ofPiece
    · rcases List.mem_append.1 hc with hc | hc
      · exact (h c hc).ofPiece
      · exact (portable_of_native hc).ofPiece
  rw [sourcePath] at hc
  split at hc
  · rw [PathBuf.withExtension] at hc
    split at hc
    · exact hdownload c hc
    · simp only [if_true, List.mem_append, Option.mem_toList] at hc
      rcases hc with hc | hc
      · exact hdownload c (List.dropLast_subset _ hc)
      · rw [Part.text_of_ofPiece hc, hc]
  · exact hdownload c hc

lemma sourcePath_of_update (hroot : ∀ c ∈ root.parts, c.Plain)
    (h : f.update ops root s = (.ok (), f', s')) : f'.sourcePath root = f.sourcePath root := by
  have hbehind := portableBehind_sourcePath f root
  rcases update_eq_ok h with rfl | ⟨htext, hcomp⟩ | ⟨htext, hcomp⟩
  · rfl
  · have hdownload : f'.downloadFile root = gzPath (f.sourcePath root) :=
      join_clientText hbehind.gzPath htext
    rw [sourcePath, hdownload]
    simp only [hcomp, true_and]
    exact withExtension_gzPath fun c hc => ofPiece_sourcePath f hroot hc
  · have hdownload : f'.downloadFile root = f.sourcePath root := join_clientText hbehind htext
    rw [sourcePath, hdownload]
    simp only [hcomp, Bool.false_eq_true, false_and, if_false]

end Step

/-- The entry after a successful update, whatever the files were. -/
def UpdatesTo {σ : Type} (ops : FileOps σ) (dataRoot : PathBuf) (f f' : FileInfo) : Prop :=
  ∃ s s', f.update ops dataRoot s = (.ok (), f', s')

end FileInfo

/-- **An entry never loses track of its source**: however often it is updated, and whether the
file is worth compressing or not each time, its source is the same file. -/
theorem sourcePath_of_updates {σ : Type} {ops : FileOps σ} {dataRoot : Path} {f f' : FileInfo}
    (h : Relation.ReflTransGen (FileInfo.UpdatesTo ops (.ofText dataRoot)) f f') :
    f'.sourcePath (.ofText dataRoot) = f.sourcePath (.ofText dataRoot) := by
  induction h with
  | refl => rfl
  | tail _ hstep ih =>
    obtain ⟨s, s', hstep⟩ := hstep
    have hroot : ∀ c ∈ (PathBuf.ofText dataRoot).parts, c.Plain :=
      fun c hc => (plain_of_mem_parts hc).1
    exact (FileInfo.sourcePath_of_update hroot hstep).trans ih

/-- A compressor that is good with long files only. -/
def Tools.longOnly : Tools := { Tools.plain with gzip := fun bs => 31 :: bs.take 10 }

/-- The data root with one file, a compressed one of its own. -/
def archiveTree (content : Bytes) : FileTree :=
  .ofList [("data", .dir), ("data/old..gz", .file content)]

def archiveEntry : FileInfo := .new "old..gz" "old..gz".toList

/-- The entry after the archive has been updated while it is worth compressing. -/
def packedEntry : FileInfo := (archiveEntry.update (treeOps Tools.longOnly) (.ofText "data".toList)
  (archiveTree (List.replicate 40 7))).2.1

/-- And after that while it is not. -/
def unpackedEntry : FileInfo := (packedEntry.update (treeOps Tools.longOnly)
  (.ofText "data".toList) (archiveTree [1, 2, 3])).2.1

theorem archive_keeps_source :
    packedEntry.isCompressed = true ∧ packedEntry.downloadPath = "old..gz.gz" ∧
      unpackedEntry.isCompressed = false ∧ unpackedEntry.downloadPath = "old..gz" ∧
      unpackedEntry.sourcePath (.ofText "data".toList) =
        archiveEntry.sourcePath (.ofText "data".toList) := by
  have hpack : FileInfo.UpdatesTo (treeOps Tools.longOnly) (.ofText "data".toList) archiveEntry
      packedEntry := ⟨archiveTree (List.replicate 40 7), _, Prod.ext (by decide +kernel) rfl⟩
  have hunpack : FileInfo.UpdatesTo (treeOps Tools.longOnly) (.ofText "data".toList) packedEntry
      unpackedEntry := ⟨archiveTree [1, 2, 3], _, Prod.ext (by decide +kernel) rfl⟩
  exact ⟨by decide +kernel, by decide +kernel, by decide +kernel, by decide +kernel,
    sourcePath_of_updates (.tail (.single hpack) hunpack)⟩

end Moulars.FileSrv
