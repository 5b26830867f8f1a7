import Moulars.Plasma.StringFormats

/-!
Pak files: a table of contents with names and offsets, and the contents one after the other.

The offsets are computed before anything is written, from the lengths of the names and of the
contents. The reader does not use them; it takes the contents in the order of the table.
-/

namespace Moulars.Plasma

open Lib.Wire Lib.Text

structure PakFile.FileInfo where
  name : String
  data : Bytes
  deriving DecidableEq

structure PakFile where
  files : List PakFile.FileInfo
  deriving DecidableEq

namespace PakFile

/-! ### Reading -/

def readEntry : Reader FileInfo := do
  let name ← readSafeStr .utf8
  let _ ← Reader.u32
  pure ⟨name, []⟩

def readContents : List FileInfo → Reader (List FileInfo)
  | [] => pure []
  | file :: files => do
    let size ← Reader.u32
    let data ← Reader.exact size.toNat
    let files ← readContents files
    pure ({ file with data } :: files)

def streamRead : Reader PakFile := do
  let numFiles ← Reader.u32
  let files ← Reader.times readEntry numFiles.toNat
  let files ← readContents files
  pure ⟨files⟩

/-! ### Writing -/

/-- The length of the file count and the table of contents. -/
def tocEnd (files : List FileInfo) : ℕ :=
  files.foldl (fun acc file => acc + 2 + (encodeUtf8 file.name.toList).length + 4) 4

def tooLarge : Fault := .error "Pak file contents too large"

/-- The table of contents, `offset` being that of the first file in it. -/
def writeToc : ℕ → List FileInfo → Out
  | _, [] => Out.put []
  | offset, file :: files =>
    (if offset < 2 ^ 32 then writeSafeStr file.name .utf8 ++ Out.put (le 4 offset)
    else Out.fail tooLarge) ++ writeToc (offset + (4 + file.data.length)) files

def writeContent (file : FileInfo) : Out :=
  if file.data.length < 2 ^ 32 then Out.put (le 4 file.data.length ++ file.data)
  else Out.fail tooLarge

def streamWrite (pak : PakFile) : Out :=
  (if pak.files.length < 2 ^ 32 then Out.put (le 4 pak.files.length)
  else Out.fail (.error "Too many files for stream")) ++
    (writeToc (tocEnd pak.files) pak.files ++ Out.each writeContent pak.files)

/-! ### Layout -/

/-- The size and the data of a file. -/
def block (file : FileInfo) : Bytes := le 4 file.data.length ++ file.data

/-- The bytes of a name and an offset in the table of contents. -/
def entry (file : FileInfo) (offset : ℕ) : Bytes :=
  le 2 (0xF000 + (encodeUtf8 file.name.toList).length) ++
    ((encodeUtf8 file.name.toList).map (~~~ ·) ++ le 4 offset)

/-- A pak file on disk, with the offsets that stand in its table of contents: each of them is
where the size of its file stands, followed by the data, the files after it, and nothing else. -/
structure Layout (pak : PakFile) (out : Bytes) (offsets : List ℕ) : Prop where
  bytes : out = le 4 pak.files.length ++
    ((pak.files.zip offsets).flatMap (fun e => entry e.1 e.2) ++ pak.files.flatMap block)
  length : offsets.length = pak.files.length
  fits : ∀ offset ∈ offsets, offset < 2 ^ 32
  sizes : ∀ file ∈ pak.files, file.data.length < 2 ^ 32
  points : ∀ i offset, offsets[i]? = some offset → offset ≤ out.length ∧
    out.drop offset = (pak.files.drop i).flatMap block

/-- Where the contents of the files are, if the first one is at `start`. -/
def positions (start : ℕ) : List FileInfo → List ℕ
  | [] => []
  | file :: files => start :: positions (start + (block file).length) files

variable {files : List FileInfo}

@[simp] lemma length_block (file : FileInfo) : (block file).length = 4 + file.data.length := by
  simp [block]

@[simp] lemma length_entry (file : FileInfo) (offset : ℕ) :
    (entry file offset).length = 2 + (encodeUtf8 file.name.toList).length + 4 := by
  simp [entry]
  omega

@[simp] lemma length_positions (start : ℕ) (files : List FileInfo) :
    (positions start files).length = files.length := by
  induction files generalizing start with
  | nil => rfl
  | cons file files ih => simp [positions, ih]

/-- **Positions are where the contents are**, whatever stands before them. -/
lemma drop_positions {before : Bytes} {i offset : ℕ}
    (h : (positions before.length files)[i]? = some offset) :
    offset ≤ (before ++ files.flatMap block).length ∧
      (before ++ files.flatMap block).drop offset = (files.drop i).flatMap block := by
  induction files generalizing before i with
  | nil => simp [positions] at h
  | cons file files ih =>
    cases i with
    | zero =>
      obtain rfl : before.length = offset := by simpa [positions] using h
      exact ⟨by simp, by simp⟩
    | succ i =>
      have h' : (positions (before ++ block file).length files)[i]? = some offset := by
        rw [List.length_append]
        simpa [positions] using h
      simpa using ih h'

lemma tocEnd_eq {offsets : List ℕ} (h : offsets.length = files.length) :
    tocEnd files = 4 + ((files.zip offsets).flatMap fun e => entry e.1 e.2).length := by
  have hfold : ∀ (files : List FileInfo) (offsets : List ℕ) (acc : ℕ),
      offsets.length = files.length →
      files.foldl (fun acc file => acc + 2 + (encodeUtf8 file.name.toList).length + 4) acc =
        acc + ((files.zip offsets).flatMap fun e => entry e.1 e.2).length := by
    intro files
    induction files with
    | nil => simp
    | cons file files ih =>
      intro offsets acc hlen
      cases offsets with
      | nil => simp at hlen
      | cons offset offsets =>
        rw [List.foldl_cons, ih offsets _ (by simpa using hlen)]
        simp only [List.zip_cons_cons, List.flatMap_cons, List.length_append, length_entry]
        omega
  exact hfold files offsets 4 h

/-! ### Writing gives the layout -/

lemma writeContent_each {b : Bytes} (h : Out.each writeContent files = .ok b) :
    (∀ file ∈ files, file.data.length < 2 ^ 32) ∧ b = files.flatMap block := by
  induction files generalizing b with
  | nil =>
    cases h
    exact ⟨by simp, rfl⟩
  | cons file files ih =>
    obtain ⟨c, d, hc, hd, rfl⟩ := Out.append_eq_ok.1 h
    obtain ⟨hsizes, rfl⟩ := ih hd
    rw [writeContent] at hc
    split at hc
    · cases hc
      exact ⟨List.forall_mem_cons.2 ⟨‹_›, hsizes⟩, rfl⟩
    · cases hc

lemma writeSafeStr_utf8_eq_ok {name : String} {b : Bytes} (h : writeSafeStr name .utf8 = .ok b) :
    (encodeUtf8 name.toList).length ≤ 0x0FFF ∧
      b = le 2 (0xF000 + (encodeUtf8 name.toList).length) ++
        (encodeUtf8 name.toList).map (~~~ ·) := by
  simp only [writeSafeStr, writeSafe, List.length_map] at h
  split at h
  · cases h
  · exact ⟨by omega, (Except.ok.inj h).symm⟩

/-- **The table of contents** has the positions of the contents for offsets. -/
lemma writeToc_eq_ok {offset : ℕ} {b : Bytes} (h : writeToc offset files = .ok b) :
    (∀ file ∈ files, (encodeUtf8 file.name.toList).length ≤ 0x0FFF) ∧
      (∀ o ∈ positions offset files, o < 2 ^ 32) ∧
      b = (files.zip (positions offset files)).flatMap fun e => entry e.1 e.2 := by
  induction files generalizing offset b with
  | nil =>
    cases h
    exact ⟨by simp, by simp [positions], rfl⟩
  | cons file files ih =>
    obtain ⟨c, d, hc, hd, rfl⟩ := Out.append_eq_ok.1 h
    obtain ⟨hnames, hfits, rfl⟩ := ih hd
    split at hc
    · rename_i hoffset
      obtain ⟨n, o, hn, ho, rfl⟩ := Out.append_eq_ok.1 hc
      obtain ⟨hname, rfl⟩ := writeSafeStr_utf8_eq_ok hn
      cases ho
      refine ⟨List.forall_mem_cons.2 ⟨hname, hnames⟩, ?_, ?_⟩
      · rw [positions, length_block]
        exact List.forall_mem_cons.2 ⟨hoffset, hfits⟩
      · simp [positions, entry]
    · cases hc

/-- **What is written**: the layout, with the positions of the contents for offsets. -/
lemma layout_of_streamWrite {pak : PakFile} {out : Bytes} (h : pak.streamWrite = .ok out) :
    pak.files.length < 2 ^ 32 ∧
      (∀ file ∈ pak.files, (encodeUtf8 file.name.toList).length ≤ 0x0FFF) ∧
      Layout pak out (positions (tocEnd pak.files) pak.files) := by
  obtain ⟨a, bc, ha, hbc, rfl⟩ := Out.append_eq_ok.1 h
  obtain ⟨b, c, hb, hc, rfl⟩ := Out.append_eq_ok.1 hbc
  obtain ⟨hnames, hfits, rfl⟩ := writeToc_eq_ok hb
  obtain ⟨hsizes, rfl⟩ := writeContent_each hc
  split at ha
  · cases ha
    refine ⟨‹_›, hnames, rfl, length_positions _ _, hfits, hsizes, fun i offset hi => ?_⟩
    rw [← List.append_assoc]
    refine drop_positions ?_
    rwa [List.length_append, length_le, ← tocEnd_eq (length_positions _ _)]
  · cases ha

/-! ### Reading the layout -/

lemma reads_entry {file : FileInfo} {offset : ℕ} (hoffset : offset < 2 ^ 32)
    (hname : (encodeUtf8 file.name.toList).length ≤ 0x0FFF) :
    Reads readEntry (entry file offset) ⟨StringFormat.reread .utf8 file.name, []⟩ := by
  obtain ⟨b, hb, hread⟩ := reads_reread .utf8 hname
  obtain ⟨-, rfl⟩ := writeSafeStr_utf8_eq_ok hb
  rw [entry, ← List.append_assoc]
  have hskip : Reads (Reader.u32 >>= fun _ => pure ⟨StringFormat.reread .utf8 file.name, []⟩)
      (le 4 offset ++ []) (⟨StringFormat.reread .utf8 file.name, []⟩ : FileInfo) :=
    Reads.bind_count32 hoffset fun _ _ => Reads.pure _
  rw [List.append_nil] at hskip
  exact hread.bind hskip

lemma reads_toc {offsets : List ℕ} (hlen : offsets.length = files.length)
    (hfits : ∀ offset ∈ offsets, offset < 2 ^ 32)
    (hnames : ∀ file ∈ files, (encodeUtf8 file.name.toList).length ≤ 0x0FFF) :
    Reads (Reader.times readEntry files.length)
      ((files.zip offsets).flatMap fun e => entry e.1 e.2)
      (files.map fun file => ⟨StringFormat.reread .utf8 file.name, []⟩) := by
  have hlength : (files.zip offsets).length = files.length := by
    rw [List.length_zip, hlen, Nat.min_self]
  have hmap : (files.map fun file => (⟨StringFormat.reread .utf8 file.name, []⟩ : FileInfo)) =
      (files.zip offsets).map fun e => ⟨StringFormat.reread .utf8 e.1.name, []⟩ := by
    nth_rewrite 1 [← List.map_fst_zip (show files.length ≤ offsets.length by omega)]
    rw [List.map_map]
    rfl
  rw [hmap, ← hlength]
  refine Reads.times_map _ fun e he => ?_
  exact reads_entry (hfits e.2 (List.of_mem_zip he).2) (hnames e.1 (List.of_mem_zip he).1)

lemma reads_contents {files : List FileInfo} (hsizes : ∀ file ∈ files, file.data.length < 2 ^ 32)
    (name : FileInfo → String) :
    Reads (readContents (files.map fun file => ⟨name file, []⟩)) (files.flatMap block)
      (files.map fun file => ⟨name file, file.data⟩) := by
  induction files with
  | nil => exact Reads.pure _
  | cons file files ih =>
    rw [List.forall_mem_cons] at hsizes
    rw [List.flatMap_cons, block, List.append_assoc]
    refine Reads.bind_count32 hsizes.1 fun size hsize => ?_
    rw [hsize]
    exact (Reads.exact file.data rfl).bind (ih hsizes.2).bind_pure

/-- **A pak file that is written has the layout its table of contents describes, and reading it
gives the data again**, in order, whatever follows. The names are read as safe strings are. -/
theorem streamWrite_layout {pak : PakFile} {out : Bytes} (h : pak.streamWrite = .ok out) :
    ∃ offsets, Layout pak out offsets ∧ ∃ read, Reads streamRead out read ∧
      read.files.map FileInfo.data = pak.files.map FileInfo.data ∧
      read.files.map FileInfo.name =
        pak.files.map fun file => StringFormat.reread .utf8 file.name := by
  obtain ⟨hfew, hnames, hlayout⟩ := layout_of_streamWrite h
  refine ⟨_, hlayout, ⟨pak.files.map fun file =>
    ⟨StringFormat.reread .utf8 file.name, file.data⟩⟩, ?_, by simp, by simp⟩
  rw [hlayout.bytes]
  refine Reads.bind_count32 hfew fun numFiles hn => ?_
  rw [hn]
  exact (reads_toc hlayout.length hlayout.fits hnames).bind
    (reads_contents hlayout.sizes _).bind_pure

def testPak : PakFile := ⟨[⟨"Ä.pyc", [1, 2, 3]⟩, ⟨"b.pyc", []⟩]⟩

def testPakBytes : Bytes :=
  [2, 0, 0, 0] ++ [0x06, 0xF0, 0x3C, 0x7B, 0xD1, 0x8F, 0x86, 0x9C, 27, 0, 0, 0] ++
    [0x05, 0xF0, 0x9D, 0xD1, 0x8F, 0x86, 0x9C, 34, 0, 0, 0] ++ [3, 0, 0, 0, 1, 2, 3] ++ [0, 0, 0, 0]

/-- The first name takes six bytes, and is read inverted; the data are where they should be. -/
theorem testPak_layout :
    ∃ offsets, Layout testPak testPakBytes offsets ∧ ∃ read, Reads streamRead testPakBytes read ∧
      read.files.map FileInfo.data = testPak.files.map FileInfo.data ∧
      read.files.map FileInfo.name =
        testPak.files.map fun file => StringFormat.reread .utf8 file.name :=
  streamWrite_layout rfl

end PakFile

end Moulars.Plasma
