import Moulars.FileSrv.Untouched
import Moulars.Lib.TreeContents
import Moulars.MfsTool

/-!
The game's data before and after it is prepared for the clients.

Nothing is lost in files of less than 4 GiB: whoever has the key that is left on the disk gets back
what was in them. A larger file is destroyed, since it has been written anew when its size turns out
not to fit.
-/

namespace Moulars.FileSrv

open Lib Lib.Wire Lib.Paths Lib.Files Lib.Hash
open Lib.Jobs Hashes Plasma MfsTool

/-! ### Encryption by name -/

/-- How a file with this extension is encrypted, if it is. -/
def cryptOf (ntdKey : CryptKey) (ext : Option (List Char)) : Option (EncryptionType × CryptKey) :=
  match ext with
  | none => none
  | some ext =>
    if ext = "age".toList ∨ ext = "fni".toList ∨ ext = "csv".toList then some (.tea, defaultKey)
    else if ext = "sdl".toList then some (.xxtea, ntdKey)
    else none

/-- A content without a marker. -/
def IsPlain (content : Bytes) : Prop :=
  (EncryptionType.fromStream ⟨content, 0⟩).1 = .unencrypted

instance (content : Bytes) : Decidable (IsPlain content) :=
  inferInstanceAs (Decidable ((EncryptionType.fromStream ⟨content, 0⟩).1 = .unencrypted))

section Crypt

variable {site : Site} {ntdKey key : CryptKey} {type : EncryptionType} {t : FileTree}
  {file : PathBuf}

lemma encryptData_of_none (h : cryptOf ntdKey file.extension = none) :
    encryptData site ntdKey t file = t := by
  unfold encryptData
  cases hext : file.extension with
  | none => rfl
  | some ext =>
    rw [hext] at h
    simp only [cryptOf] at h
    dsimp only
    split_ifs at h with hdefault hsdl
    rw [if_neg hdefault, if_neg hsdl]

lemma encryptData_of_some (h : cryptOf ntdKey file.extension = some (type, key)) :
    encryptData site ntdKey t file = encryptIn site type key file t := by
  unfold encryptData
  cases hext : file.extension with
  | none =>
    rw [hext] at h
    cases h
  | some ext =>
    rw [hext] at h
    simp only [cryptOf] at h
    dsimp only
    split_ifs at h with hdefault hsdl
    · cases h
      rw [if_pos hdefault]
    · cases h
      rw [if_neg hdefault, if_pos hsdl]

lemma type_of_cryptOf {ext : Option (List Char)} (h : cryptOf ntdKey ext = some (type, key)) :
    type ≠ .unencrypted := by
  unfold cryptOf at h
  split at h
  · cases h
  · split at h
    · cases h
      decide
    · split at h
      · cases h
        decide
      · cases h

lemma exists_name_of_cryptOf (h : cryptOf ntdKey file.extension = some (type, key)) :
    ∃ (dir : PathBuf) (name : List Char), file = dir.child name ∧
      extensionOf name = file.extension := by
  unfold PathBuf.extension at h ⊢
  cases hname : file.fileName with
  | none =>
    rw [hname] at h
    cases h
  | some name =>
    obtain ⟨dir, hdir⟩ := PathBuf.eq_child_of_fileName hname
    exact ⟨dir, name, hdir, rfl⟩

end Crypt

/-- What may be in a file that held a content and is to be encrypted: the content itself, its
encrypted form, or anything if it was plain and is too large for that. -/
def KeptAs (type : EncryptionType) (key : CryptKey) (content file : Bytes) : Prop :=
  file = content ∨
    IsPlain content ∧ (content.length < 2 ^ 32 → ReadsBack type key ⟨file, 0⟩ content)

/-- What may be in the file at a place that held a content. -/
def Kept (ntdKey : CryptKey) (q : Files.Place) (content file : Bytes) : Prop :=
  file = content ∨ ∃ type key,
    cryptOf ntdKey (q.getLast?.bind extensionOf) = some (type, key) ∧ KeptAs type key content file

lemma Kept.as {ntdKey key : CryptKey} {type : EncryptionType} {q : Files.Place}
    {content file : Bytes} (h : Kept ntdKey q content file)
    (hcrypt : cryptOf ntdKey (q.getLast?.bind extensionOf) = some (type, key)) :
    KeptAs type key content file := by
  rcases h with hsame | ⟨type', key', hcrypt', hkept⟩
  · exact .inl hsame
  · cases hcrypt.symm.trans hcrypt'
    exact hkept

section Encrypting

variable {site : Site} (hpieces : ∀ content, (site.pieces content).flatten = content)
  {ntdKey key : CryptKey} {type : EncryptionType} {t t' : FileTree} {path : PathBuf}
  {q : Files.Place} {content file : Bytes}

lemma not_isPlain_of_readsBack (htype : type ≠ .unencrypted)
    (h : ReadsBack type key ⟨file, 0⟩ content) : ¬ IsPlain file := by
  obtain ⟨r, hnew, hr, -⟩ := h
  intro hplain
  rw [EncryptedReader.new_plain key (EncryptionType.fromStream_unencrypted hplain)] at hnew
  cases hnew
  exact htype hr.symm

lemma contentAfterEncryptFile_of_not_isPlain (h : ¬ IsPlain file) (pieces : Bytes → List Bytes) :
    contentAfterEncryptFile pieces type key file = file :=
  if_neg h

include hpieces in
/-- Encrypting what may be in a file gives what may be in it, and no plain content. -/
lemma KeptAs.encrypt (h : KeptAs type key content file) (htype : type ≠ .unencrypted) :
    KeptAs type key content (contentAfterEncryptFile site.pieces type key file) ∧
      (content.length < 2 ^ 32 →
        ¬ IsPlain (contentAfterEncryptFile site.pieces type key file)) := by
  by_cases hplain : IsPlain content
  · by_cases hlen : content.length < 2 ^ 32
    · have hback : ReadsBack type key
          ⟨contentAfterEncryptFile site.pieces type key file, 0⟩ content := by
        rcases h with rfl | ⟨-, hback⟩
        · obtain ⟨file', hfile', hback⟩ := exists_encryptFile htype key (hpieces file) hlen hplain
          rwa [contentAfterEncryptFile_of_ok hfile']
        · have hkeeps := (hback hlen).encryptFile_eq htype site.pieces type key
          rw [contentAfterEncryptFile_of_ok hkeeps]
          exact hback hlen
      exact ⟨.inr ⟨hplain, fun _ => hback⟩, fun _ => not_isPlain_of_readsBack htype hback⟩
    · exact ⟨.inr ⟨hplain, fun h => absurd h hlen⟩, fun h => absurd h hlen⟩
  · obtain rfl : file = content := h.resolve_right fun hright => hplain hright.1
    rw [contentAfterEncryptFile_of_not_isPlain hplain]
    exact ⟨.inl rfl, fun _ => hplain⟩

/-- What is encrypted stays as it is, by whatever path it is visited. -/
lemma read_encryptData (hread : t.read path = .ok file) (hplain : ¬ IsPlain file)
    (other : PathBuf) : (encryptData site ntdKey t other).read path = .ok file := by
  cases hcrypt : cryptOf ntdKey other.extension with
  | none => rwa [encryptData_of_none hcrypt]
  | some crypt =>
    obtain ⟨type, key⟩ := crypt
    rw [encryptData_of_some hcrypt]
    unfold encryptIn
    cases hother : t.read other with
    | error e => exact hread
    | ok content =>
      dsimp only
      cases hwrite : t.write other (contentAfterEncryptFile site.pieces type key content) with
      | error e => exact hread
      | ok t' =>
        obtain ⟨r, hr, -⟩ := FileTree.write_eq_ok.1 hwrite
        by_cases hsame : t.resolve path = .ok r
        · -- both paths lead to the same file, which is not plain
          obtain ⟨r', hr', hnode'⟩ := FileTree.find_eq_ok.1 (FileTree.read_eq_ok.1 hread)
          obtain ⟨r'', hr'', hnode''⟩ := FileTree.find_eq_ok.1 (FileTree.read_eq_ok.1 hother)
          cases hr'.symm.trans hsame
          cases hr''.symm.trans hr
          cases hnode'.symm.trans hnode''
          rw [contentAfterEncryptFile_of_not_isPlain hplain] at hwrite
          have hwritten := FileTree.read_of_write hwrite
          obtain ⟨s, hs, hnode⟩ := FileTree.find_eq_ok.1 (FileTree.read_eq_ok.1 hwritten)
          have hedit := FileTree.edit_write hr hwrite
          cases (hedit.resolve_iff.2 hr).symm.trans hs
          exact FileTree.read_eq_ok.2
            (FileTree.find_eq_ok.2 ⟨r, hedit.resolve_iff.2 hsame, hnode⟩)
        · exact ((FileTree.edit_write hr hwrite).read_iff hsame).2 hread

include hpieces in
lemma revised_encryptData (path : PathBuf) (h : t.Revised (Kept ntdKey) t') :
    t.Revised (Kept ntdKey) (encryptData site ntdKey t' path) ∧
      ∀ crypt, cryptOf ntdKey path.extension = some crypt → ∀ content, t.read path = .ok content →
        content.length < 2 ^ 32 →
          ∃ file, (encryptData site ntdKey t' path).read path = .ok file ∧ ¬ IsPlain file := by
  cases hcrypt : cryptOf ntdKey path.extension with
  | none =>
    rw [encryptData_of_none hcrypt]
    exact ⟨h, nofun⟩
  | some crypt =>
    obtain ⟨type, key⟩ := crypt
    obtain ⟨dir, name, hpath, hext⟩ := exists_name_of_cryptOf hcrypt
    rw [encryptData_of_some hcrypt]
    cases hread' : t'.read path with
    | error e =>
      have hin : encryptIn site type key path t' = t' := by
        unfold encryptIn
        rw [hread']
      rw [hin]
      refine ⟨h, fun _ _ content hread _ => ?_⟩
      obtain ⟨-, file, -, hfile, -⟩ := h.read hread
      rw [hread'] at hfile
      cases hfile
    | ok file =>
      obtain ⟨q, content, hq, hread, hkept⟩ := h.read_of_read hread'
      have hplace : cryptOf ntdKey (q.getLast?.bind extensionOf) = some (type, key) := by
        rw [hpath] at hq
        obtain ⟨d, -, -, rfl⟩ := FileTree.resolve_child_eq_ok.1 hq
        rw [List.getLast?_concat, Option.bind_some, hext, hcrypt]
      obtain ⟨hkept', hplain'⟩ :=
        (hkept.as hplace).encrypt hpieces (type_of_cryptOf hcrypt)
      set file' := contentAfterEncryptFile site.pieces type key file with hfile'
      obtain ⟨q', hq', hnode'⟩ := FileTree.find_eq_ok.1 (FileTree.read_eq_ok.1 hread')
      obtain ⟨t'', hwrite⟩ : ∃ t'', t'.write path file' = .ok t'' :=
        ⟨_, FileTree.write_eq_ok.2 ⟨q', hq', by rw [hpath]; simp, by rw [hnode']; simp, rfl⟩⟩
      have hin : encryptIn site type key path t' = t'' := by
        unfold encryptIn
        rw [hread']
        dsimp only
        rw [← hfile', hwrite]
        rfl
      rw [hin]
      refine ⟨h.write hread' (fun r original hr hnode => ?_) hwrite,
        fun _ _ content' hread₂ hlen => ⟨file', FileTree.read_of_write hwrite, ?_⟩⟩
      · cases hq.symm.trans hr
        obtain ⟨r, hr, hnode''⟩ := FileTree.find_eq_ok.1 (FileTree.read_eq_ok.1 hread)
        cases hq.symm.trans hr
        cases hnode.symm.trans hnode''
        exact .inr ⟨type, key, hplace, hkept'⟩
      · cases hread.symm.trans hread₂
        exact hplain' hlen

include hpieces in
lemma revised_foldl (files : List PathBuf) (h : t.Revised (Kept ntdKey) t') :
    t.Revised (Kept ntdKey) (files.foldl (encryptData site ntdKey) t') ∧
      ∀ path ∈ files, ∀ crypt, cryptOf ntdKey path.extension = some crypt →
        ∀ content, t.read path = .ok content → content.length < 2 ^ 32 →
          ∃ file, (files.foldl (encryptData site ntdKey) t').read path = .ok file ∧
            ¬ IsPlain file := by
  induction files generalizing t' with
  | nil => exact ⟨h, nofun⟩
  | cons path files ih =>
    obtain ⟨hrevised, hsealed⟩ := revised_encryptData hpieces path h
    obtain ⟨hall, hrest⟩ := ih hrevised
    refine ⟨hall, List.forall_mem_cons.2 ⟨fun crypt hcrypt content hread hlen => ?_, hrest⟩⟩
    obtain ⟨file, hfile, hplain⟩ := hsealed crypt hcrypt content hread hlen
    -- it stays encrypted while the others are
    have hstays (more : List PathBuf) {t : FileTree} (hread : t.read path = .ok file) :
        (more.foldl (encryptData site ntdKey) t).read path = .ok file := by
      induction more generalizing t with
      | nil => exact hread
      | cons other more ih => exact ih (read_encryptData hread hplain other)
    exact ⟨file, hstays files hfile, hplain⟩

end Encrypting

/-! ### The key on the disk -/

def ntdKeyName : List Char := ".ntd_server.key".toList

def keyPath (site : Site) : PathBuf := site.dataRoot.child ".ntd_server.key".toList

lemma loadOrCreateNtdKey_of_read {site : Site} {t : FileTree} {content : Bytes}
    (h : t.read (keyPath site) = .ok content) (hlen : 16 ≤ content.length) :
    loadOrCreateNtdKey site t = (.ok (keyOfBytes (content.take 16)), t) := by
  unfold loadOrCreateNtdKey
  rw [← keyPath]
  dsimp only
  rw [h]
  dsimp only
  rw [if_neg (by omega)]
  rfl

lemma read_of_loadOrCreateNtdKey {site : Site} {t t' : FileTree} {key : CryptKey}
    (h : loadOrCreateNtdKey site t = (.ok key, t')) : FileTree.Touched (keyPath site) t t' ∧
      ∃ content, t'.read (keyPath site) = .ok content ∧ 16 ≤ content.length ∧
        keyOfBytes (content.take 16) = key := by
  unfold loadOrCreateNtdKey at h
  rw [← keyPath] at h
  dsimp only at h
  split at h
  · rename_i content hread
    split at h
    · cases h
    · rename_i hlen
      cases h
      exact ⟨.refl _ _, content, hread, by omega, rfl⟩
  · split at h
    · cases h
    · rename_i hwrite
      cases h
      have hread := FileTree.read_of_write hwrite
      have hlen : (keyBytes site.randomKey).length = 16 := length_keyBytes _
      have hkey := keyOfBytes_keyBytes site.randomKey []
      rw [List.append_nil] at hkey
      refine ⟨.write hwrite, keyBytes site.randomKey, hread, by omega, ?_⟩
      rw [List.take_of_length_le (by omega), hkey]
  · cases h

/-! ### The whole run -/

def pakName : List Char := "Python.pak".toList

def pythonPak (site : Site) : PathBuf := (site.dataRoot.child "Python".toList).child pakName

/-- Compiling the Python code touches the file that it goes to and no other. -/
def PakOnly (site : Site) : Prop :=
  ∀ process, site.processPython = some process →
    ∀ key t, FileTree.Touched (pythonPak site) t (process key t)

/-- What a run that succeeds has done: loaded the key, compiled, and encrypted. -/
lemma collectGameData_eq {site : Site} (hpython : PakOnly site) {t t' : FileTree}
    {files : HashSet PathBuf} (h : collectGameData site t = (.ok files, t')) :
    ∃ ntdKey t₁ t₂, loadOrCreateNtdKey site t = (.ok ntdKey, t₁) ∧
      FileTree.Touched (pythonPak site) t₁ t₂ ∧
      t' = (site.dataOrder.run files.keys).foldl (encryptData site ntdKey) t₂ := by
  unfold collectGameData at h
  obtain ⟨ntdKey, t₁, hkey, hrest⟩ := Job.bind_eq_ok.1 h
  obtain ⟨scanned, t₂, hscan, hprepare⟩ := Job.bind_eq_ok.1 hrest
  -- the directories are only looked at
  have hsame : t₂ = t₁ := by
    have hstate := congrArg Prod.snd hscan
    rw [Job.fold_state] at hstate
    · exact hstate.symm
    · intro files dataDir t
      show ((if t.isDir (site.dataRoot.child dataDir.toList) = true
        then Job.lift (scanDir site (site.dataRoot.child dataDir.toList) t files)
        else pure files : Job FileTree Fault (HashSet PathBuf)) t).2 = t
      split <;> rfl
  rw [hsame] at hprepare
  obtain ⟨_, _, hget, hpak⟩ := Job.bind_eq_ok.1 hprepare
  cases hget
  dsimp only at hpak
  split at hpak
  · obtain ⟨_, t₃, hprocess, hmore⟩ := Job.bind_eq_ok.1 hpak
    cases hprocess
    obtain ⟨_, _, hget', hencrypt⟩ := Job.bind_eq_ok.1 hmore
    cases hget'
    cases hencrypt
    refine ⟨ntdKey, t₁, _, hkey, ?_, rfl⟩
    cases hnone : site.processPython with
    | none => exact .refl _ _
    | some process => exact hpython process hnone ntdKey t₁
  · cases hpak
    exact ⟨ntdKey, t₁, t₁, hkey, .refl _ _, rfl⟩

lemma cryptOf_ntdKeyName (ntdKey : CryptKey) : cryptOf ntdKey (extensionOf ntdKeyName) = none := by
  rfl

lemma cryptOf_pakName (ntdKey : CryptKey) : cryptOf ntdKey (extensionOf pakName) = none := by
  rfl

lemma cryptOf_place {t : FileTree} {dir : PathBuf} {name : List Char} {q : Files.Place}
    (hq : t.resolve (dir.child name) = .ok q) (ntdKey : CryptKey) :
    cryptOf ntdKey (q.getLast?.bind extensionOf) = cryptOf ntdKey (extensionOf name) := by
  obtain ⟨d, -, -, rfl⟩ := FileTree.resolve_child_eq_ok.1 hq
  rw [List.getLast?_concat, Option.bind_some]

lemma not_derived_of_cryptOf {ntdKey : CryptKey} {name : List Char}
    {crypt : EncryptionType × CryptKey} (h : cryptOf ntdKey (extensionOf name) = some crypt) :
    ¬ Derived name := by
  cases hext : extensionOf name with
  | none =>
    rw [hext] at h
    cases h
  | some ext =>
    rw [hext] at h
    have hname := stemOf_append_extensionOf hext
    rintro (⟨stem, hstem⟩ | ⟨stem, hstem⟩)
    -- the last two letters tell them apart
    all_goals
      have hlast := congrArg (fun s => s.reverse.take 2) (hname.trans hstem.symm)
      simp only [cryptOf] at h
      split_ifs at h with hdefault hsdl
      · rcases hdefault with rfl | rfl | rfl <;> simp at hlast
      · subst hsdl
        simp at hlast

/-- What a run leaves, whether the manifests could be made or not. -/
structure Prepared (site : Site) (files : HashSet PathBuf) (ntdKey : CryptKey)
    (t t' : FileTree) : Prop where
  key : ∀ later : Site, later.dataRoot = site.dataRoot →
    loadOrCreateNtdKey later t' = (.ok ntdKey, t')
  dir : ∀ (dir : PathBuf) (name : List Char), name ≠ ntdKeyName → name ≠ pakName →
    ¬ Derived name → (t'.find (dir.child name) = .ok .dir ↔ t.find (dir.child name) = .ok .dir)
  read : ∀ (dir : PathBuf) (name : List Char) type key,
    cryptOf ntdKey (extensionOf name) = some (type, key) → ∀ content,
      t.read (dir.child name) = .ok content →
        ∃ file, t'.read (dir.child name) = .ok file ∧ KeptAs type key content file
  read_of_read : ∀ (dir : PathBuf) (name : List Char) type key,
    cryptOf ntdKey (extensionOf name) = some (type, key) → ∀ file,
      t'.read (dir.child name) = .ok file →
        ∃ content, t.read (dir.child name) = .ok content ∧ KeptAs type key content file
  encrypted : ∀ path ∈ files.keys, ∀ crypt, cryptOf ntdKey path.extension = some crypt →
    ∀ content, t.read path = .ok content → content.length < 2 ^ 32 →
      ∃ file, t'.read path = .ok file ∧ ¬ IsPlain file

section Runs

variable {site : Site} {files : HashSet PathBuf} {t t₁ : FileTree}

lemma exists_prepared (hpieces : ∀ content, (site.pieces content).flatten = content)
    (hpython : PakOnly site) (hrun : collectGameData site t = (.ok files, t₁)) :
    ∃ ntdKey, Prepared site files ntdKey t (cacheClients site t).2.tree := by
  have hunmoved := unmoved_cacheClients hrun
  generalize (cacheClients site t).2.tree = t' at hunmoved
  obtain ⟨ntdKey, t₀, t₂, hkey, hpak, rfl⟩ := collectGameData_eq hpython hrun
  obtain ⟨htouched, content, hread, hlen, hcontent⟩ := read_of_loadOrCreateNtdKey hkey
  obtain ⟨hrevised, hencrypted⟩ := revised_foldl hpieces (site.dataOrder.run files.keys)
    (FileTree.Revised.refl (R := Kept ntdKey) (fun _ _ => .inl rfl) t₂)
  generalize (site.dataOrder.run files.keys).foldl (encryptData site ntdKey) t₂ = t₁ at *
  have hsame (dir : PathBuf) (name : List Char) (hk : name ≠ ntdKeyName) (hp : name ≠ pakName)
      (node : Files.Node) :
      t₂.find (dir.child name) = .ok node ↔ t.find (dir.child name) = .ok node :=
    (hpak.find_iff (FileTree.apart_child hp.symm)).trans
      (htouched.find_iff (FileTree.apart_child hk.symm))
  -- a file that is to be encrypted is none of those that are written otherwise
  have hbefore {dir : PathBuf} {name : List Char} {crypt : EncryptionType × CryptKey}
      (hcrypt : cryptOf ntdKey (extensionOf name) = some crypt) {content : Bytes} :
      t₂.read (dir.child name) = .ok content ↔ t.read (dir.child name) = .ok content := by
    have hname {other : List Char} (hother : cryptOf ntdKey (extensionOf other) = none) :
        name ≠ other := by
      rintro rfl
      rw [hcrypt] at hother
      cases hother
    rw [FileTree.read_eq_ok, FileTree.read_eq_ok]
    exact hsame dir name (hname (cryptOf_ntdKeyName ntdKey)) (hname (cryptOf_pakName ntdKey)) _
  have hafter {dir : PathBuf} {name : List Char} (hname : ¬ Derived name) {content : Bytes} :
      t'.read (dir.child name) = .ok content ↔ t₁.read (dir.child name) = .ok content := by
    rw [FileTree.read_eq_ok, FileTree.read_eq_ok]
    exact hunmoved dir name hname _
  refine ⟨ntdKey, fun later hroot => ?_, fun dir name hk hp hd => ?_,
    fun dir name type key hcrypt content hread => ?_,
    fun dir name type key hcrypt file hfile => ?_,
    fun path hpath crypt hcrypt content hread hlen => ?_⟩
  · -- the file of the key is as it was loaded or written
    have hread₂ : t₂.read (keyPath site) = .ok content :=
      (hpak.read_iff (FileTree.apart_child (by decide))).2 hread
    obtain ⟨q, content', hq, hread', hkept⟩ := hrevised.read hread₂
    have hsame' : content' = content := by
      rcases hkept with hsame' | ⟨type, key, hcrypt, -⟩
      · exact hsame'
      · rw [cryptOf_place hq] at hcrypt
        cases (cryptOf_ntdKeyName ntdKey).symm.trans hcrypt
    rw [hsame'] at hread'
    have hpath : keyPath later = keyPath site := by rw [keyPath, keyPath, hroot]
    have hread'' : t'.read (keyPath site) = .ok content := (hafter (by decide)).2 hread'
    rw [loadOrCreateNtdKey_of_read (hpath ▸ hread'') hlen, hcontent]
  · exact (hunmoved dir name hd _).trans (hrevised.find_dir_iff.trans (hsame dir name hk hp _))
  · obtain ⟨q, file, hq, hfile, hkept⟩ := hrevised.read ((hbefore hcrypt).2 hread)
    exact ⟨file, (hafter (not_derived_of_cryptOf hcrypt)).2 hfile,
      hkept.as ((cryptOf_place hq ntdKey).trans hcrypt)⟩
  · obtain ⟨q, content, hq, hread, hkept⟩ :=
      hrevised.read_of_read ((hafter (not_derived_of_cryptOf hcrypt)).1 hfile)
    exact ⟨content, (hbefore hcrypt).1 hread,
      hkept.as ((cryptOf_place hq ntdKey).trans hcrypt)⟩
  · obtain ⟨type, key⟩ := crypt
    obtain ⟨dir, name, rfl, hext⟩ := exists_name_of_cryptOf hcrypt
    rw [← hext] at hcrypt
    obtain ⟨file, hfile, hplain⟩ := hencrypted _ (site.dataOrder.mem_run.2 hpath) (type, key)
      (hext ▸ hcrypt) content ((hbefore hcrypt).2 hread) hlen
    exact ⟨file, (hafter (not_derived_of_cryptOf hcrypt)).2 hfile, hplain⟩

end Runs

/-- The key for the decrypting tool: none, which is the default one, or its digits. -/
def keyOption (ntdKey : CryptKey) : EncryptionType → Option String
  | .tea => none
  | _ => some (hexLower (keyBytes ntdKey))

lemma getKey_keyOption (hex : HexPermissive) {ntdKey key : CryptKey} {type : EncryptionType}
    {ext : Option (List Char)} (h : cryptOf ntdKey ext = some (type, key)) :
    getKey hex (keyOption ntdKey type) = .ok key := by
  unfold cryptOf at h
  split at h
  · cases h
  · split at h
    · cases h
      rfl
    · split at h
      · cases h
        exact getKey_hexLower hex ntdKey
      · cases h

/-- **Nothing is lost when the game's data is prepared**: after a run that has got as far as to make
the manifests, every later one finds the same key on the disk. Every file of less than 4 GiB that
clients are to have in encrypted form is encrypted, and the decrypting tool restores its content as
it was before the run. A file that had been encrypted is left alone. -/
theorem gameData_decrypts {site : Site}
    (hpieces : ∀ content, (site.pieces content).flatten = content) (hpython : PakOnly site)
    {t t₁ : FileTree} {files : HashSet PathBuf} (hrun : collectGameData site t = (.ok files, t₁)) :
    let t' := (cacheClients site t).2.tree
    ∃ ntdKey, (∀ later : Site, later.dataRoot = site.dataRoot →
        loadOrCreateNtdKey later t' = (.ok ntdKey, t')) ∧
      ∀ path ∈ files.keys, ∀ type key, cryptOf ntdKey path.extension = some (type, key) →
        ∀ content, t.read path = .ok content → content.length < 2 ^ 32 →
          ∃ file, t'.read path = .ok file ∧ ¬ IsPlain file ∧
            (¬ IsPlain content → file = content) ∧
            (IsPlain content → ∀ (hex : HexPermissive) (size : ℕ), 0 < size → ∀ stdout,
              decryptFile hex size path none (keyOption ntdKey type) ⟨t', stdout⟩ =
                (.ok (), ⟨t', stdout ++ content⟩) ∧
              ∃ tree, decryptFile hex size path (some path) (keyOption ntdKey type)
                ⟨t', stdout⟩ = (.ok (), ⟨tree, stdout⟩) ∧ tree.read path = .ok content) := by
  obtain ⟨ntdKey, hprep⟩ := exists_prepared hpieces hpython hrun
  refine ⟨ntdKey, hprep.key, fun path hpath type key hcrypt content hread hlen => ?_⟩
  obtain ⟨file, hfile, hplain⟩ := hprep.encrypted path hpath _ hcrypt content hread hlen
  have hkey := fun hex => getKey_keyOption hex hcrypt
  obtain ⟨dir, name, rfl, hext⟩ := exists_name_of_cryptOf hcrypt
  rw [← hext] at hcrypt
  obtain ⟨file', hfile', hkept⟩ := hprep.read dir name type key hcrypt content hread
  cases hfile.symm.trans hfile'
  refine ⟨file, hfile, hplain, fun hcontent => ?_, fun hcontent hex size hsize stdout => ?_⟩
  · exact hkept.resolve_right fun h => hcontent h.1
  · have hback := (hkept.resolve_left fun hsame => hplain (hsame ▸ hcontent)).2 hlen
    exact ⟨decryptFile_stdout hsize (hkey hex) hfile hback,
      decryptFile_inPlace (s := ⟨_, stdout⟩) hsize (hkey hex) hfile hback (by simp)⟩

/-- A data directory with one descriptor file and no key. -/
def scriptTree : FileTree := .ofList
  [("data", .dir), ("data/SDL", .dir), ("data/SDL/Test.sdl", .file [83, 84, 65, 84, 69])]

def scriptPath : PathBuf := .ofText "data/SDL/Test.sdl".toList

lemma read_scriptTree : scriptTree.read scriptPath = .ok [83, 84, 65, 84, 69] := by
  decide +kernel

lemma collectGameData_scriptTree : ∃ files : HashSet PathBuf, files.keys = [scriptPath] ∧
    collectGameData .plain scriptTree = (.ok files, (collectGameData .plain scriptTree).2) := by
  have hfiles : (collectGameData .plain scriptTree).1.toOption.map AList.keys =
      some [scriptPath] := by decide +kernel
  obtain ⟨files, hsome, hkeys⟩ := Option.map_eq_some_iff.1 hfiles
  refine ⟨files, hkeys, Prod.ext ?_ rfl⟩
  cases hok : (collectGameData .plain scriptTree).1 with
  | error e =>
    rw [hok] at hsome
    cases hsome
  | ok files' =>
    rw [hok] at hsome
    rw [Option.some.inj hsome]

lemma flatten_pieces_plain (content : Bytes) : (Site.plain.pieces content).flatten = content := by
  simp [Site.plain]

theorem scriptTree_decrypts :
    let t' := (cacheClients .plain scriptTree).2.tree
    (cacheClients .plain scriptTree).1 = .ok () ∧ ∃ ntdKey,
      loadOrCreateNtdKey .plain t' = (.ok ntdKey, t') ∧
      decryptFile .plain 8192 scriptPath none (keyOption ntdKey .xxtea) ⟨t', []⟩ =
        (.ok (), ⟨t', [83, 84, 65, 84, 69]⟩) := by
  obtain ⟨files, hkeys, hrun⟩ := collectGameData_scriptTree
  have hpath : scriptPath ∈ files.keys := by simp [hkeys]
  obtain ⟨ntdKey, hkey, hdecrypts⟩ := gameData_decrypts flatten_pieces_plain nofun hrun
  obtain ⟨file, -, -, -, hplain⟩ :=
    hdecrypts scriptPath hpath .xxtea ntdKey rfl _ read_scriptTree (by decide)
  exact ⟨by decide +kernel, ntdKey, hkey .plain rfl,
    (hplain (by decide +kernel) .plain 8192 (by decide) []).1⟩

end Moulars.FileSrv
