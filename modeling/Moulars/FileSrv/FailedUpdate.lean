import Moulars.FileSrv.FileInfo

/-!
What a failed update leaves of an entry.

The new hash and size of the source are assigned before anything else can fail. If something
does, the entry has them already, with the download of the old version, and the next update
finds nothing to do.
-/

namespace Moulars.FileSrv

open Lib.Paths Lib.Files

section

variable {σ : Type} (ops : FileOps σ) (root src : PathBuf) (f : FileInfo) (s : σ)

/-- An update that fails leaves the entry as it was. -/
def FailsClean : Prop :=
  ∀ e, (f.update ops root s).1 = .error e → (f.update ops root s).2.1 = f

/-- Everything succeeds that is done for a source of `len` bytes after its hash and its size were
assigned. -/
def TakenOver (len : ℕ) : Prop :=
  ∃ s₁ gzLen, ops.compress src (gzPath src) s = (.ok (), s₁) ∧
    ops.len (gzPath src) s₁ = .ok gzLen ∧
    if gzLen < len * 9 / 10 then
      (gzPath src).stripPrefix root ≠ none ∧ ∃ hash, ops.hash (gzPath src) s₁ = .ok hash
    else src.stripPrefix root ≠ none ∧ ∃ s₂, ops.removeFile (gzPath src) s₁ = (.ok (), s₂)

/-- Nothing fails after the assignment, or there is nothing to assign: the source cannot be looked
at, or it has the hash of the entry, and either its size or one that is too large. -/
def NothingLost : Prop :=
  ∀ hash len, ops.hash (f.sourcePath root) s = .ok hash → ops.len (f.sourcePath root) s = .ok len →
    hash = f.fileHash ∧ (len = f.fileSize.toNat ∨ 2 ^ 32 ≤ len) ∨
      len < 2 ^ 32 ∧ TakenOver ops root (f.sourcePath root) s len

/-! ### After the assignment -/

lemma assigned_tryCompressing (gz : PathBuf) :
    (f.tryCompressing ops root src gz s).2.1.fileHash = f.fileHash ∧
      (f.tryCompressing ops root src gz s).2.1.fileSize = f.fileSize := by
  rw [FileInfo.tryCompressing]
  split
  · exact ⟨rfl, rfl⟩
  · split
    · exact ⟨rfl, rfl⟩
    · split
      · rw [FileInfo.keepCompressed]
        split
        · exact ⟨rfl, rfl⟩
        · split <;> exact ⟨rfl, rfl⟩
      · rw [FileInfo.keepUncompressed]
        split
        · exact ⟨rfl, rfl⟩
        · split <;> exact ⟨rfl, rfl⟩

lemma keepCompressed_succeeds (gz : PathBuf) (gzLen : ℕ) :
    (f.keepCompressed ops root gz gzLen s).1 = .ok () ↔
      gz.stripPrefix root ≠ none ∧ ∃ hash, ops.hash gz s = .ok hash := by
  rw [FileInfo.keepCompressed, FileInfo.clientText]
  cases gz.stripPrefix root with
  | none => simp
  | some rest => cases ops.hash gz s <;> simp

lemma keepUncompressed_succeeds (gz : PathBuf) :
    (f.keepUncompressed ops root src gz s).1 = .ok () ↔
      src.stripPrefix root ≠ none ∧ ∃ s₂, ops.removeFile gz s = (.ok (), s₂) := by
  rw [FileInfo.keepUncompressed, FileInfo.clientText]
  cases src.stripPrefix root with
  | none => simp
  | some rest =>
    obtain ⟨r, s₂⟩ := ops.removeFile gz s
    cases r <;> simp

/-- **The rest of an update succeeds** exactly if all of its steps do. -/
lemma tryCompressing_succeeds :
    (f.tryCompressing ops root src (gzPath src) s).1 = .ok () ↔
      TakenOver ops root src s f.fileSize.toNat := by
  rw [FileInfo.tryCompressing, TakenOver]
  obtain ⟨r, s₁⟩ := ops.compress src (gzPath src) s
  cases r with
  | error e => simp
  | ok u =>
    cases hlen : ops.len (gzPath src) s₁ with
    | error e => simp [hlen]
    | ok gzLen =>
      by_cases hsmall : gzLen < f.fileSize.toNat * 9 / 10
      · simp [hlen, hsmall, keepCompressed_succeeds]
      · simp [hlen, hsmall, keepUncompressed_succeeds]

/-! ### Whole updates -/

variable {ops root f s}

lemma nothingLost_of_ok {hash : Md5Hash} {len : ℕ}
    (hhash : ops.hash (f.sourcePath root) s = .ok hash)
    (hlen : ops.len (f.sourcePath root) s = .ok len) : NothingLost ops root f s ↔
      hash = f.fileHash ∧ (len = f.fileSize.toNat ∨ 2 ^ 32 ≤ len) ∨
        len < 2 ^ 32 ∧ TakenOver ops root (f.sourcePath root) s len := by
  simp [NothingLost, hhash, hlen]

lemma failsClean_of_changed {hash : Md5Hash} {len : ℕ}
    (hhash : ops.hash (f.sourcePath root) s = .ok hash)
    (hlen : ops.len (f.sourcePath root) s = .ok len) (hsmall : len < 2 ^ 32)
    (hchanged : len ≠ f.fileSize.toNat ∨ hash ≠ f.fileHash) :
    FailsClean ops root f s ↔ TakenOver ops root (f.sourcePath root) s len := by
  let g : FileInfo := { f with fileHash := hash, fileSize := UInt32.ofNat len }
  have hsize : g.fileSize.toNat = len := UInt32.toNat_ofNat_of_lt' hsmall
  have hupdate : f.update ops root s =
      g.tryCompressing ops root (f.sourcePath root) (gzPath (f.sourcePath root)) s := by
    simp only [FileInfo.update, hhash, hlen, if_pos hchanged, if_neg (Nat.not_le.2 hsmall), g]
  have hne : (f.update ops root s).2.1 ≠ f := by
    intro heq
    obtain ⟨hassigned, hassigned'⟩ :=
      assigned_tryCompressing ops root (f.sourcePath root) g s (gzPath (f.sourcePath root))
    rw [← hupdate, heq] at hassigned hassigned'
    rcases hchanged with hchanged | hchanged
    · exact hchanged (by rw [hassigned', hsize])
    · exact hchanged hassigned.symm
  have hsucceeds := tryCompressing_succeeds ops root (f.sourcePath root) g s
  rw [← hupdate, hsize] at hsucceeds
  rw [← hsucceeds, FailsClean]
  cases (f.update ops root s).1 with
  | error e => simpa using hne
  | ok u => simp

/-- **A failed update leaves the entry as it was exactly if nothing is lost by it**: not if one of
the steps fails that come after the assignment of a new hash or size. -/
theorem failsClean_iff {σ : Type} (ops : FileOps σ) (root : PathBuf) (f : FileInfo) (s : σ) :
    FailsClean ops root f s ↔ NothingLost ops root f s := by
  cases hhash : ops.hash (f.sourcePath root) s with
  | error e => simp [FailsClean, NothingLost, FileInfo.update, hhash]
  | ok hash =>
    cases hlen : ops.len (f.sourcePath root) s with
    | error e => simp [FailsClean, NothingLost, FileInfo.update, hhash, hlen]
    | ok len =>
      rw [nothingLost_of_ok hhash hlen]
      by_cases hchanged : len ≠ f.fileSize.toNat ∨ hash ≠ f.fileHash
      · by_cases hlarge : 2 ^ 32 ≤ len
        · -- only the hash is assigned before the size is found to be too large
          have hclean : FailsClean ops root f s ↔ { f with fileHash := hash } = f := by
            simp only [FailsClean, FileInfo.update, hhash, hlen, if_pos hchanged, if_pos hlarge]
            exact ⟨fun h => h _ rfl, fun h _ _ => h⟩
          have hhash' : { f with fileHash := hash } = f ↔ hash = f.fileHash :=
            ⟨fun h => congrArg FileInfo.fileHash h, fun h => by rw [h]⟩
          simp only [hclean, hhash', hlarge, Nat.not_lt.2 hlarge, or_true, and_true, false_and,
            or_false]
        · rw [failsClean_of_changed hhash hlen (Nat.not_le.1 hlarge) hchanged]
          have hnot : ¬ (hash = f.fileHash ∧ (len = f.fileSize.toNat ∨ 2 ^ 32 ≤ len)) := by
            rintro ⟨hsame, hsame' | hlarge'⟩
            · exact hchanged.elim (fun h => h hsame') fun h => h hsame
            · exact hlarge hlarge'
          simp only [hnot, false_or, Nat.not_le.1 hlarge, true_and]
      · have hclean : FailsClean ops root f s := by
          simp only [FailsClean, FileInfo.update, hhash, hlen, if_neg hchanged]
          intro e he
          cases he
        simp only [not_or, not_not] at hchanged
        exact iff_of_true hclean (.inl ⟨hchanged.2, .inl hchanged.1⟩)

end

/-- The source has changed, and a directory is in the way of its compressed file. -/
def blockedTree : FileTree := .ofList
  [("data", .dir), ("data/Garden.age", .file [1, 2, 3]), ("data/Garden.age.gz", .dir)]

def clearedTree : FileTree := .ofList [("data", .dir), ("data/Garden.age", .file [1, 2, 3])]

def oldEntry : FileInfo :=
  ⟨"dat\\Garden.age", "Garden.age", Tools.plain.md5 [1, 2], Tools.plain.md5 [1, 2], 2, 2, 0, false,
    false⟩

/-- The hash and the size of the new version, with the download of the old one. -/
def mixedEntry : FileInfo := { oldEntry with fileHash := Tools.plain.md5 [1, 2, 3], fileSize := 3 }

/-- The update fails and leaves an entry that mixes two versions; the next one, which could go
through, does nothing. -/
theorem blockedUpdate_mixes :
    (oldEntry.update (treeOps Tools.plain) (.ofText "data".toList) blockedTree).1 =
        .error (.io .isADirectory) ∧
      (oldEntry.update (treeOps Tools.plain) (.ofText "data".toList) blockedTree).2.1 = mixedEntry ∧
      mixedEntry ≠ oldEntry ∧
      ¬ FailsClean (treeOps Tools.plain) (.ofText "data".toList) oldEntry blockedTree ∧
      mixedEntry.update (treeOps Tools.plain) (.ofText "data".toList) clearedTree =
        (.ok (), mixedEntry, clearedTree) := by
  have hfails : (oldEntry.update (treeOps Tools.plain) (.ofText "data".toList) blockedTree).1 =
        .error (.io .isADirectory) ∧
      (oldEntry.update (treeOps Tools.plain) (.ofText "data".toList) blockedTree).2.1 =
        mixedEntry := by
    decide +kernel
  have hne : mixedEntry ≠ oldEntry := by decide +kernel
  refine ⟨hfails.1, hfails.2, hne, fun hclean => hne ?_, ?_⟩
  · rw [← hfails.2]
    exact hclean _ hfails.1
  · exact update_of_unchanged (b := [1, 2, 3]) (by decide +kernel) rfl rfl

end Moulars.FileSrv
