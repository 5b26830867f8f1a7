import Moulars.Vault.Node

/-!
Vault nodes as blobs, and the round trip in both directions.

The source writes the order of the fields out twice, once in `stream_read` and once in
`stream_write`; `readOrder` and `writeOrder` are these two lists.
-/

namespace Moulars.Vault

open Lib.Wire Lib.Text

def readOrder : List Field :=
  [.nodeId, .createTime, .modifyTime, .createAgeName, .createAgeUuid, .creatorUuid, .creatorId,
    .nodeType, .int32_1, .int32_2, .int32_3, .int32_4, .uint32_1, .uint32_2, .uint32_3, .uint32_4,
    .uuid_1, .uuid_2, .uuid_3, .uuid_4, .string64_1, .string64_2, .string64_3, .string64_4,
    .string64_5, .string64_6, .istring64_1, .istring64_2, .text_1, .text_2, .blob_1, .blob_2]

def writeOrder : List Field :=
  [.nodeId, .createTime, .modifyTime, .createAgeName, .createAgeUuid, .creatorUuid, .creatorId,
    .nodeType, .int32_1, .int32_2, .int32_3, .int32_4, .uint32_1, .uint32_2, .uint32_3, .uint32_4,
    .uuid_1, .uuid_2, .uuid_3, .uuid_4, .string64_1, .string64_2, .string64_3, .string64_4,
    .string64_5, .string64_6, .istring64_1, .istring64_2, .text_1, .text_2, .blob_1, .blob_2]

/-- One `f_read_*` macro call: the value of a field, or its default when it is absent. -/
def readField (fields : UInt64) (f : Field) : Reader f.Val :=
  if present fields f then f.kind.read else pure f.kind.zero

def readFields (fields : UInt64) : List Field → ((f : Field) → f.Val) → Reader ((f : Field) → f.Val)
  | [], vals => pure vals
  | f :: fs, vals => do
    let v ← readField fields f
    readFields fields fs (Function.update vals f v)

def writeField (n : VaultNode) (f : Field) : Out :=
  if present n.fields f then f.kind.write (n.val f) else Out.put []

namespace VaultNode

def streamRead : Reader VaultNode := do
  let fields ← Reader.u64
  let vals ← readFields fields readOrder fun f => f.kind.zero
  pure ⟨fields, vals⟩

def streamWrite (n : VaultNode) : Out := Out.u64 n.fields ++ Out.each (writeField n) writeOrder

def fromBlob (blob : Bytes) : Except Fault VaultNode :=
  match streamRead.run blob with
  | .ok (n, _) => .ok n
  | .error e => .error e

def toBlob (n : VaultNode) : Out := n.streamWrite

end VaultNode

/-! ### Nodes built by setters -/

/-- One setter call: a field and the value it is given. -/
structure Setting where
  field : Field
  value : field.Val

/-- The node a sequence of setter calls builds from `VaultNode::default()`. -/
def build (sets : List Setting) : VaultNode :=
  sets.foldl (fun n s => n.set s.field s.value) VaultNode.default

/-- Absent fields hold their default, and every value fits the stream. -/
structure Tidy (n : VaultNode) : Prop where
  absent : ∀ f : Field, n.has f = false → n.val f = f.kind.zero
  fits : ∀ f : Field, f.kind.Fits (n.val f)

lemma tidy_default : Tidy VaultNode.default :=
  ⟨fun _ _ => rfl, fun f => f.kind.fits_zero⟩

variable {n : VaultNode} {s r : Bytes}

lemma Tidy.set (h : Tidy n) {f : Field} {v : f.Val} (hv : f.kind.Fits v) :
    Tidy (n.set f v) := by
  refine ⟨fun g hg => ?_, fun g => ?_⟩
  · have hne : g ≠ f := by
      rintro rfl
      simp at hg
    rw [VaultNode.has_set, Bool.or_eq_false_iff] at hg
    rw [VaultNode.val_set_of_ne n v hne, h.absent g hg.1]
  · by_cases hgf : g = f
    · subst hgf
      simpa using hv
    · rw [VaultNode.val_set_of_ne n v hgf]
      exact h.fits g

lemma tidy_foldl (sets : List Setting) (hs : ∀ s ∈ sets, s.field.kind.Fits s.value) (h : Tidy n) :
    Tidy (sets.foldl (fun n s => n.set s.field s.value) n) := by
  induction sets generalizing n with
  | nil => exact h
  | cons s sets ih => exact ih (fun t ht => hs t (by simp [ht])) (h.set (hs s (by simp)))

lemma tidy_build {sets : List Setting} (hs : ∀ s ∈ sets, s.field.kind.Fits s.value) :
    Tidy (build sets) := tidy_foldl sets hs tidy_default

/-! ### Writing and reading back -/

/-- The bytes of one field of a node, none when it is absent. -/
def fieldBytes (n : VaultNode) (f : Field) : Bytes :=
  if present n.fields f then f.kind.bytes (n.val f) else []

lemma writeField_eq {f : Field} (h : f.kind.Fits (n.val f)) :
    writeField n f = Out.put (fieldBytes n f) := by
  unfold writeField fieldBytes
  split
  · exact Kind.write_eq h
  · rfl

lemma toBlob_eq (h : ∀ f : Field, f.kind.Fits (n.val f)) :
    n.toBlob = Out.put (le 8 n.fields.toNat ++ writeOrder.flatMap (fieldBytes n)) := by
  rw [VaultNode.toBlob, VaultNode.streamWrite,
    Out.each_eq_put writeOrder fun f _ => writeField_eq (h f)]
  rfl

/-- The values after the fields `fs` have been given those of `n`. -/
def overwrite (n : VaultNode) (fs : List Field) (vals : (f : Field) → f.Val) :
    (f : Field) → f.Val :=
  fs.foldl (fun vs f => Function.update vs f (n.val f)) vals

lemma overwrite_apply (n : VaultNode) (fs : List Field) (vals : (f : Field) → f.Val) (g : Field) :
    overwrite n fs vals g = if g ∈ fs then n.val g else vals g := by
  induction fs generalizing vals with
  | nil => rfl
  | cons f fs ih =>
    rw [overwrite, List.foldl_cons, ← overwrite, ih]
    by_cases hg : g ∈ fs
    · simp [hg]
    · by_cases hf : g = f
      · subst hf; simp [hg]
      · simp [hg, hf]

lemma overwrite_all (n : VaultNode) (vals : (f : Field) → f.Val) :
    overwrite n readOrder vals = n.val := by
  funext f
  rw [overwrite_apply, if_pos (by cases f <;> decide)]

lemma reads_field (h : Tidy n) (f : Field) :
    Reads (readField n.fields f) (fieldBytes n f) (n.val f) := by
  unfold readField fieldBytes
  split
  · exact Kind.reads (h.fits f)
  · rename_i hf
    rw [h.absent f (by simpa [VaultNode.has] using hf)]
    exact Reads.pure _

lemma reads_fields (h : Tidy n) (fs : List Field) (vals : (f : Field) → f.Val) :
    Reads (readFields n.fields fs vals) (fs.flatMap (fieldBytes n)) (overwrite n fs vals) := by
  induction fs generalizing vals with
  | nil => exact Reads.pure _
  | cons f fs ih => exact (reads_field h f).bind (ih _)

lemma reads_streamRead (h : Tidy n) :
    Reads VaultNode.streamRead (le 8 n.fields.toNat ++ writeOrder.flatMap (fieldBytes n)) n := by
  have hf := reads_fields h readOrder fun f => f.kind.zero
  rw [overwrite_all] at hf
  exact (Reads.u64 n.fields).bind (hf.bind_pure (f := VaultNode.mk n.fields))

lemma fromBlob_toBlob (h : Tidy n) :
    ∃ b, n.toBlob = .ok b ∧ VaultNode.fromBlob b = .ok n := by
  refine ⟨_, toBlob_eq h.fits, ?_⟩
  have hr := reads_streamRead h []
  rw [List.append_nil] at hr
  rw [VaultNode.fromBlob, hr]

/-! ### Reading and writing back -/

/-- Read a value of kind `k` and return the units of the strings in it. -/
def Kind.skim : Kind → Reader (List (List UInt16))
  | .string => do
    let us ← readVaultUnits
    pure [us]
  | k => do
    let _ ← k.read
    pure []

def skimField (fields : UInt64) (f : Field) : Reader (List (List UInt16)) :=
  if present fields f then f.kind.skim else pure []

def skimFields (fields : UInt64) : List Field → Reader (List (List UInt16))
  | [] => pure []
  | f :: fs => do
    let us ← skimField fields f
    let vs ← skimFields fields fs
    pure (us ++ vs)

/-- The UTF-16 units of every string field present in a blob. -/
def stringUnits (blob : Bytes) : List (List UInt16) :=
  match (do let fields ← Reader.u64; skimFields fields readOrder : Reader _).run blob with
  | .ok (us, _) => us
  | .error _ => []

lemma yields_blob : Yields readBlob (fun v c => c = le 4 v.length ++ v ∧ v.length < 2 ^ 32) := by
  refine Yields.u32.bind ?_
  rintro size c rfl
  refine (Yields.exact _).imp ?_
  rintro v c ⟨rfl, hl⟩
  exact ⟨by rw [hl], by rw [hl]; exact size.toNat_lt⟩

/-- What was consumed when a field read as `v` and its strings have the units `us`. -/
def Consumed (k : Kind) (v : k.Val) (us : List (List UInt16)) (c : Bytes) : Prop :=
  (∀ u ∈ us, WellFormedUtf16 u) → c = k.bytes v ∧ k.Fits v

lemma skim_of_yields {k : Kind} (hk : k.skim = do let _ ← k.read; pure [])
    (hy : Yields k.read (fun v c => c = k.bytes v ∧ k.Fits v)) {v : k.Val}
    (h : k.read.run s = .ok (v, r)) :
    ∃ us c, k.skim.run s = .ok (us, r) ∧ s = c ++ r ∧ Consumed k v us c := by
  obtain ⟨c, hs, hc⟩ := hy s v r h
  refine ⟨[], c, ?_, hs, fun _ => hc⟩
  rw [hk, Reader.bind_ok h]
  rfl

lemma Kind.skim_spec (k : Kind) {v : k.Val} (h : k.read.run s = .ok (v, r)) :
    ∃ us c, k.skim.run s = .ok (us, r) ∧ s = c ++ r ∧ Consumed k v us c := by
  cases k with
  | u32 => exact skim_of_yields (k := .u32) rfl (Yields.u32.imp fun v c hc => ⟨hc, trivial⟩) h
  | i32 => exact skim_of_yields (k := .i32) rfl (Yields.i32.imp fun v c hc => ⟨hc, trivial⟩) h
  | uuid => exact skim_of_yields (k := .uuid) rfl (Uuid.yields.imp fun v c hc => ⟨hc, trivial⟩) h
  | blob => exact skim_of_yields (k := .blob) rfl yields_blob h
  | string =>
    simp only [Kind.read, readVaultString, Reader.run_bind] at h
    split at h
    · rename_i us t hus
      obtain ⟨rfl, rfl⟩ : String.ofList (decodeUtf16Lossy us) = v ∧ t = r := by simpa using h
      obtain ⟨c, hs, hc, hlen⟩ := yields_vaultUnits s us t hus
      refine ⟨[us], c, ?_, hs, fun hw => ?_⟩
      · rw [Kind.skim, Reader.bind_ok hus]
        rfl
      · -- only well-formed units are what the decoded string encodes to
        have he := encodeUtf16_decodeUtf16Lossy us (hw us (by simp))
        simp only [Kind.bytes, Kind.Fits, String.toList_ofList, he]
        exact ⟨hc, hlen⟩
    · cases h

lemma readField_spec (fields : UInt64) (f : Field) {v : f.Val}
    (h : (readField fields f).run s = .ok (v, r)) :
    ∃ us c, (skimField fields f).run s = .ok (us, r) ∧ s = c ++ r ∧
      ((∀ u ∈ us, WellFormedUtf16 u) →
        c = (if present fields f then f.kind.bytes v else []) ∧ f.kind.Fits v) := by
  unfold readField at h
  unfold skimField
  split at h
  · rename_i hp
    simpa [hp, Consumed] using f.kind.skim_spec h
  · rename_i hp
    obtain ⟨rfl, rfl⟩ : f.kind.zero = v ∧ s = r := by simpa using h
    exact ⟨[], [], by simp [hp], rfl, fun _ => ⟨by simp [hp], f.kind.fits_zero⟩⟩

lemma readFields_other (fields : UInt64) (fs : List Field) {vals w : (f : Field) → f.Val}
    (h : (readFields fields fs vals).run s = .ok (w, r)) {g : Field} (hg : g ∉ fs) :
    w g = vals g := by
  induction fs generalizing vals s with
  | nil =>
    obtain ⟨rfl, rfl⟩ : vals = w ∧ s = r := by simpa [readFields] using h
    rfl
  | cons f fs ih =>
    rw [readFields, Reader.run_bind] at h
    split at h
    · rw [ih h (fun hm => hg (by simp [hm])), Function.update_of_ne (fun e => hg (by simp [e]))]
    · cases h

lemma readFields_spec (fields : UInt64) (fs : List Field) (hn : fs.Nodup)
    {vals w : (f : Field) → f.Val} (h : (readFields fields fs vals).run s = .ok (w, r)) :
    ∃ us, (skimFields fields fs).run s = .ok (us, r) ∧
      ((∀ u ∈ us, WellFormedUtf16 u) →
        s = fs.flatMap (fieldBytes ⟨fields, w⟩) ++ r ∧ ∀ f ∈ fs, f.kind.Fits (w f)) := by
  induction fs generalizing vals s with
  | nil =>
    obtain ⟨rfl, rfl⟩ : vals = w ∧ s = r := by simpa [readFields] using h
    exact ⟨[], rfl, fun _ => ⟨rfl, by simp⟩⟩
  | cons f fs ih =>
    obtain ⟨hf, hn⟩ := List.nodup_cons.mp hn
    rw [readFields, Reader.run_bind] at h
    split at h
    · rename_i v t hv
      obtain ⟨us, c, hus, rfl, hc⟩ := readField_spec fields f hv
      obtain ⟨vs, hvs, hrest⟩ := ih hn h
      have hw : w f = v := by rw [readFields_other fields fs h hf, Function.update_self]
      refine ⟨us ++ vs, ?_, fun hwf => ?_⟩
      · rw [skimFields, Reader.bind_ok hus, Reader.bind_ok hvs]
        rfl
      · obtain ⟨rfl, hfit⟩ := hc fun u hu => hwf u (by simp [hu])
        obtain ⟨rfl, hfits⟩ := hrest fun u hu => hwf u (by simp [hu])
        refine ⟨?_, fun g hg => ?_⟩
        · rw [List.flatMap_cons, List.append_assoc, fieldBytes]
          simp only [hw]
        · rcases List.mem_cons.mp hg with rfl | hg
          · rwa [hw]
          · exact hfits g hg
    · cases h

lemma toBlob_of_streamRead {b : Bytes} (h : VaultNode.streamRead.run b = .ok (n, []))
    (hw : ∀ u ∈ stringUnits b, WellFormedUtf16 u) : n.toBlob = .ok b := by
  rw [VaultNode.streamRead, Reader.run_bind] at h
  split at h
  · rename_i fields t hfields
    rw [Reader.run_bind] at h
    split at h
    · rename_i vals r hvals
      obtain ⟨rfl, rfl⟩ : VaultNode.mk fields vals = n ∧ r = [] := by simpa using h
      obtain ⟨us, hus, hspec⟩ := readFields_spec fields readOrder (by decide) hvals
      have hunits : stringUnits b = us := by
        rw [stringUnits, Reader.bind_ok hfields, hus]
      obtain ⟨rfl, hfits⟩ := hspec (hunits ▸ hw)
      obtain ⟨c, rfl, rfl⟩ := Yields.u64 _ _ _ hfields
      have hall : ∀ f : Field, f.kind.Fits (vals f) := fun f => hfits f (by cases f <;> decide)
      rw [toBlob_eq hall, List.append_nil]
      rfl
    · cases h
  · cases h

/-- **Round trip**: a node built by setters survives its blob, and a blob that is consumed
completely and whose strings are well-formed is the blob of the node it reads as. -/
theorem vaultNode_blob_round_trip :
    (∀ sets : List Setting, (∀ s ∈ sets, s.field.kind.Fits s.value) →
      ∃ b, (build sets).toBlob = .ok b ∧ VaultNode.fromBlob b = .ok (build sets)) ∧
    (∀ (b : Bytes) (n : VaultNode), VaultNode.streamRead.run b = .ok (n, []) →
      (∀ u ∈ stringUnits b, WellFormedUtf16 u) → n.toBlob = .ok b) :=
  ⟨fun _ hs => fromBlob_toBlob (tidy_build hs), fun _ _ h hw => toBlob_of_streamRead h hw⟩

/-- Three setter calls, the second of them on the node id. -/
def sampleSettings : List Setting :=
  [⟨.istring64_1, "Yeesha"⟩, ⟨.nodeId, (1004 : UInt32)⟩, ⟨.blob_1, ([1, 2, 3] : Bytes)⟩]

/-- A blob with a node id, a node type, a string with a surrogate pair, and presence bit 40. -/
def sampleBlob : Bytes :=
  [0x81, 0x00, 0x10, 0x00, 0x00, 0x01, 0x00, 0x00, 0x05, 0x00, 0x00, 0x00, 0x02, 0x00, 0x00, 0x00,
    0x08, 0x00, 0x00, 0x00, 0xe9, 0x00, 0x3d, 0xd8, 0x00, 0xde, 0x00, 0x00]

def sampleNode : VaultNode :=
  ⟨0x10000100081, (build [⟨.nodeId, (5 : UInt32)⟩, ⟨.nodeType, (2 : Int32)⟩,
    ⟨.string64_1, "é😀"⟩]).val⟩

theorem vaultNode_blob_round_trip_sample :
    (∃ b, (build sampleSettings).toBlob = .ok b ∧
      VaultNode.fromBlob b = .ok (build sampleSettings)) ∧
    sampleNode.toBlob = .ok sampleBlob := by
  refine ⟨vaultNode_blob_round_trip.1 sampleSettings ?_,
    vaultNode_blob_round_trip.2 sampleBlob sampleNode (Reader.run_eq_ok (by decide +kernel))
      (by decide +kernel)⟩
  intro s hs
  simp only [sampleSettings, List.mem_cons, List.not_mem_nil, or_false] at hs
  rcases hs with rfl | rfl | rfl
  · show ((encodeUtf16 "Yeesha".toList).length + 1) * 2 < 2 ^ 32
    decide
  · trivial
  · show ([1, 2, 3] : Bytes).length < 2 ^ 32
    decide

end Moulars.Vault
