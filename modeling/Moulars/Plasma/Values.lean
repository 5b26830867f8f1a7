import Moulars.Plasma.SafeString

/-!
The values Plasma streams are made of: floating-point numbers by their bits, vectors, colours,
times, and the keys that name objects.
-/

namespace Moulars.Plasma

open Lib.Wire

/-! ### Floating-point numbers -/

/-- A 32-bit floating-point number, by its bits. -/
abbrev F32 := UInt32

/-- A 64-bit floating-point number, by its bits. -/
abbrev F64 := UInt64

/-- The comparison of numbers whose exponent and fraction are the `n` low bits and whose
infinity is `inf`: no NaN equals anything, and the two zeros are equal. -/
def floatEq (n inf a b : ℕ) : Bool :=
  let abs := fun x => x % 2 ^ n
  decide (abs a ≤ inf) && decide (abs b ≤ inf) && (a == b || (abs a == 0 && abs b == 0))

def F32.eq (a b : F32) : Bool := floatEq 31 0x7F800000 a.toNat b.toNat
def F64.eq (a b : F64) : Bool := floatEq 63 0x7FF0000000000000 a.toNat b.toNat

def F32.one : F32 := 0x3F800000

/-! ### Geometry and colours -/

structure Vector3 where
  x : F32
  y : F32
  z : F32
  deriving DecidableEq

structure Quaternion where
  x : F32
  y : F32
  z : F32
  w : F32
  deriving DecidableEq

structure ColorRGBA where
  r : F32
  g : F32
  b : F32
  a : F32
  deriving DecidableEq

structure Color32 where
  b : UInt8
  g : UInt8
  r : UInt8
  a : UInt8
  deriving DecidableEq

def Vector3.default : Vector3 := ⟨0, 0, 0⟩
def Quaternion.default : Quaternion := ⟨0, 0, 0, F32.one⟩
def ColorRGBA.default : ColorRGBA := ⟨0, 0, 0, F32.one⟩
def Color32.default : Color32 := ⟨0, 0, 0, 255⟩

def Vector3.eq (u v : Vector3) : Bool := F32.eq u.x v.x && F32.eq u.y v.y && F32.eq u.z v.z

def Quaternion.eq (p q : Quaternion) : Bool :=
  F32.eq p.x q.x && F32.eq p.y q.y && F32.eq p.z q.z && F32.eq p.w q.w

def ColorRGBA.eq (c d : ColorRGBA) : Bool :=
  F32.eq c.r d.r && F32.eq c.g d.g && F32.eq c.b d.b && F32.eq c.a d.a

def Vector3.streamRead : Reader Vector3 := do
  let x ← Reader.u32
  let y ← Reader.u32
  let z ← Reader.u32
  pure ⟨x, y, z⟩

def Vector3.streamWrite (v : Vector3) : Out := Out.u32 v.x ++ (Out.u32 v.y ++ Out.u32 v.z)

def Quaternion.streamRead : Reader Quaternion := do
  let x ← Reader.u32
  let y ← Reader.u32
  let z ← Reader.u32
  let w ← Reader.u32
  pure ⟨x, y, z, w⟩

def Quaternion.streamWrite (q : Quaternion) : Out :=
  Out.u32 q.x ++ (Out.u32 q.y ++ (Out.u32 q.z ++ Out.u32 q.w))

def bytes3 (x y z : F32) : Bytes := le 4 x.toNat ++ (le 4 y.toNat ++ le 4 z.toNat)

def bytes4 (x y z w : F32) : Bytes :=
  le 4 x.toNat ++ (le 4 y.toNat ++ (le 4 z.toNat ++ le 4 w.toNat))

lemma reads_three {α : Type} (f : F32 → F32 → F32 → α) (x y z : F32) :
    Reads (do let x ← Reader.u32; let y ← Reader.u32; let z ← Reader.u32; pure (f x y z))
      (bytes3 x y z) (f x y z) :=
  (Reads.u32 x).bind <| (Reads.u32 y).bind <| (Reads.u32 z).bind_pure (f := f x y)

lemma reads_four {α : Type} (f : F32 → F32 → F32 → F32 → α) (x y z w : F32) :
    Reads (do
      let x ← Reader.u32; let y ← Reader.u32; let z ← Reader.u32; let w ← Reader.u32
      pure (f x y z w)) (bytes4 x y z w) (f x y z w) :=
  (Reads.u32 x).bind <| (Reads.u32 y).bind <| (Reads.u32 z).bind <|
    (Reads.u32 w).bind_pure (f := f x y z)

lemma yields_three {α : Type} (f : F32 → F32 → F32 → α) :
    Yields (do let x ← Reader.u32; let y ← Reader.u32; let z ← Reader.u32; pure (f x y z))
      fun a c => ∃ x y z, a = f x y z ∧ c = bytes3 x y z := by
  refine Yields.u32.bind ?_
  rintro x c rfl
  refine Yields.u32.bind ?_
  rintro y c rfl
  refine Yields.u32.bind ?_
  rintro z c rfl
  exact Yields.pure _ ⟨x, y, z, rfl, by simp [bytes3]⟩

lemma yields_four {α : Type} (f : F32 → F32 → F32 → F32 → α) :
    Yields (do
      let x ← Reader.u32; let y ← Reader.u32; let z ← Reader.u32; let w ← Reader.u32
      pure (f x y z w)) fun a c => ∃ x y z w, a = f x y z w ∧ c = bytes4 x y z w := by
  refine Yields.u32.bind ?_
  rintro x c rfl
  refine (yields_three (f x)).imp ?_
  rintro a c ⟨y, z, w, rfl, rfl⟩
  exact ⟨x, y, z, w, rfl, by simp [bytes3, bytes4]⟩

lemma Vector3.yields : Yields Vector3.streamRead fun v c => c = bytes3 v.x v.y v.z :=
  (yields_three Vector3.mk).imp (by rintro v c ⟨x, y, z, rfl, rfl⟩; rfl)

lemma Vector3.codes : Codes Vector3.streamRead Vector3.streamWrite (fun _ => True)
    (fun v => bytes3 v.x v.y v.z) :=
  Codes.of_yields (fun v => reads_three Vector3.mk v.x v.y v.z) Vector3.yields

lemma Quaternion.yields : Yields Quaternion.streamRead fun q c => c = bytes4 q.x q.y q.z q.w :=
  (yields_four Quaternion.mk).imp (by rintro v c ⟨x, y, z, w, rfl, rfl⟩; rfl)

lemma Quaternion.codes : Codes Quaternion.streamRead Quaternion.streamWrite (fun _ => True)
    (fun q => bytes4 q.x q.y q.z q.w) :=
  Codes.of_yields (fun q => reads_four Quaternion.mk q.x q.y q.z q.w) Quaternion.yields

/-! ### Times -/

structure UnifiedTime where
  secs : UInt32
  micros : UInt32
  deriving DecidableEq

def UnifiedTime.default : UnifiedTime := ⟨0, 0⟩

def UnifiedTime.fromSecs (secs : UInt32) : UnifiedTime := ⟨secs, 0⟩

def UnifiedTime.streamRead : Reader UnifiedTime := do
  let secs ← Reader.u32
  let micros ← Reader.u32
  pure ⟨secs, micros⟩

def UnifiedTime.streamWrite (t : UnifiedTime) : Out := Out.u32 t.secs ++ Out.u32 t.micros

def UnifiedTime.bytes (t : UnifiedTime) : Bytes := le 4 t.secs.toNat ++ le 4 t.micros.toNat

lemma UnifiedTime.length_bytes (t : UnifiedTime) : t.bytes.length = 8 := by
  simp [UnifiedTime.bytes]

lemma UnifiedTime.yields : Yields UnifiedTime.streamRead fun t c => c = t.bytes := by
  refine Yields.u32.bind ?_
  rintro secs c rfl
  refine Yields.u32.bind ?_
  rintro micros c rfl
  exact Yields.pure _ (by simp [UnifiedTime.bytes])

lemma UnifiedTime.codes : Codes UnifiedTime.streamRead UnifiedTime.streamWrite (fun _ => True)
    UnifiedTime.bytes :=
  Codes.of_yields (fun t => (Reads.u32 t.secs).bind ((Reads.u32 t.micros).bind_pure))
    UnifiedTime.yields

/-! ### Keys -/

structure Location where
  sequence : UInt32
  flags : UInt16
  deriving DecidableEq

def Location.invalid : Location := ⟨0xFFFFFFFF, 0⟩

def Location.streamRead : Reader Location := do
  let sequence ← Reader.u32
  let flags ← Reader.u16
  pure ⟨sequence, flags⟩

def Location.streamWrite (l : Location) : Out := Out.u32 l.sequence ++ Out.u16 l.flags

def Location.bytes (l : Location) : Bytes := le 4 l.sequence.toNat ++ le 2 l.flags.toNat

lemma Location.yields : Yields Location.streamRead fun l c => c = l.bytes := by
  refine Yields.u32.bind ?_
  rintro sequence c rfl
  refine Yields.u16.bind ?_
  rintro flags c rfl
  exact Yields.pure _ (by simp [Location.bytes])

lemma Location.reads (l : Location) : Reads Location.streamRead l.bytes l :=
  (Reads.u32 l.sequence).bind ((Reads.u16 l.flags).bind_pure)

structure Uoid where
  location : Location
  loadMask : UInt8
  objType : UInt16
  objName : String
  objId : UInt32
  cloneId : UInt32
  clonePlayerId : UInt32
  deriving DecidableEq

namespace Uoid

def hasCloneIds : UInt8 := 1
def hasLoadMask : UInt8 := 2

def invalid : Uoid := ⟨Location.invalid, 0xFF, 0, "", 0, 0, 0⟩

def streamRead : Reader Uoid := do
  let contents ← Reader.u8
  let location ← Location.streamRead
  let loadMask ← Reader.optional (contents &&& hasLoadMask ≠ 0) Reader.u8 0xFF
  let objType ← Reader.u16
  let objId ← Reader.u32
  let objName ← readSafeStr .latin1
  let cloneId ← Reader.optional (contents &&& hasCloneIds ≠ 0) Reader.u32 0
  let clonePlayerId ← Reader.optional (contents &&& hasCloneIds ≠ 0) Reader.u32 0
  pure ⟨location, loadMask, objType, objName, objId, cloneId, clonePlayerId⟩

/-- The flags of the optional parts that are written. -/
def contents (u : Uoid) : UInt8 :=
  (if u.loadMask ≠ 0xFF then hasLoadMask else 0) |||
    (if u.cloneId ≠ 0 ∨ u.clonePlayerId ≠ 0 then hasCloneIds else 0)

def streamWrite (u : Uoid) : Out :=
  Out.u8 u.contents ++ (u.location.streamWrite ++
    ((if u.contents &&& hasLoadMask ≠ 0 then Out.u8 u.loadMask else Out.put []) ++
      (Out.u16 u.objType ++ (Out.u32 u.objId ++ (writeSafeStr u.objName .latin1 ++
        (if u.contents &&& hasCloneIds ≠ 0 then Out.u32 u.cloneId ++ Out.u32 u.clonePlayerId
          else Out.put []))))))

lemma contents_loadMask (u : Uoid) : u.contents &&& hasLoadMask ≠ 0 ↔ u.loadMask ≠ 0xFF := by
  unfold contents
  by_cases h : u.loadMask = 0xFF <;> by_cases hc : u.cloneId ≠ 0 ∨ u.clonePlayerId ≠ 0 <;>
    simp only [h, hc, ne_eq, not_true_eq_false, not_false_eq_true, if_true, if_false] <;> decide

lemma contents_cloneIds (u : Uoid) :
    u.contents &&& hasCloneIds ≠ 0 ↔ u.cloneId ≠ 0 ∨ u.clonePlayerId ≠ 0 := by
  unfold contents
  by_cases h : u.loadMask = 0xFF <;> by_cases hc : u.cloneId ≠ 0 ∨ u.clonePlayerId ≠ 0 <;>
    simp only [h, hc, ne_eq, not_true_eq_false, not_false_eq_true, if_true, if_false] <;> decide

def maskBytes (u : Uoid) : Bytes := if u.loadMask ≠ 0xFF then le 1 u.loadMask.toNat else []

def cloneBytes (u : Uoid) : Bytes :=
  if u.cloneId ≠ 0 ∨ u.clonePlayerId ≠ 0 then le 4 u.cloneId.toNat ++ le 4 u.clonePlayerId.toNat
  else []

def bytes (u : Uoid) : Bytes :=
  le 1 u.contents.toNat ++ (u.location.bytes ++ (u.maskBytes ++ (le 2 u.objType.toNat ++
    (le 4 u.objId.toNat ++ (safeBytes u.objName ++ u.cloneBytes)))))

def Named (u : Uoid) : Prop := Latin1Safe u.objName

lemma streamWrite_eq {u : Uoid} (h : u.Named) : u.streamWrite = Out.put u.bytes := by
  simp only [streamWrite, bytes, maskBytes, cloneBytes, contents_loadMask, contents_cloneIds,
    writeSafeStr_latin1 h.length, Out.u8, Out.u16, Out.u32, Location.streamWrite, Location.bytes]
  split <;> split <;> rfl

lemma reads {u : Uoid} (h : u.Named) : Reads streamRead u.bytes u := by
  refine (Reads.u8 u.contents).bind <| u.location.reads.bind ?_
  refine Reads.bind (a := u.loadMask) ?_ <| (Reads.u16 u.objType).bind <|
    (Reads.u32 u.objId).bind <| (reads_safeStr h).bind ?_
  · simp only [Reader.optional, contents_loadMask, maskBytes]
    split
    · exact Reads.u8 u.loadMask
    · rename_i hm
      rw [not_not] at hm
      rw [hm]
      exact Reads.pure _
  · simp only [Reader.optional, contents_cloneIds, cloneBytes]
    split
    · exact (Reads.u32 u.cloneId).bind (Reads.u32 u.clonePlayerId).bind_pure
    · rename_i hc
      obtain ⟨hid, hplayer⟩ : u.cloneId = 0 ∧ u.clonePlayerId = 0 := by simpa using hc
      obtain ⟨location, loadMask, objType, objName, objId, cloneId, clonePlayerId⟩ := u
      obtain rfl : cloneId = 0 := hid
      obtain rfl : clonePlayerId = 0 := hplayer
      exact (Reads.pure 0).bind <| (Reads.pure 0).bind <| Reads.pure _

lemma length_bytes_le (u : Uoid) : u.bytes.length ≤
    1 + 6 + (if u.loadMask ≠ 0xFF then 1 else 0) + 6 + (safeBytes u.objName).length +
      (if u.cloneId ≠ 0 ∨ u.clonePlayerId ≠ 0 then 8 else 0) := by
  simp only [bytes, maskBytes, cloneBytes, Location.bytes, List.length_append, length_le]
  split <;> split <;> simp <;> omega

lemma yields : Yields streamRead fun u c => u.Named ∧ u.bytes.length ≤ c.length := by
  refine Yields.u8.bind ?_
  rintro contents c rfl
  refine Location.yields.bind ?_
  rintro location c rfl
  refine Yields.bind (R := fun (m : UInt8) c => (if m ≠ 0xFF then 1 else 0) ≤ c.length) ?_ ?_
  · unfold Reader.optional
    split
    · exact Yields.u8.imp (by rintro m c rfl; split <;> simp)
    · exact Yields.pure _ (by simp)
  rintro loadMask cm hm
  refine Yields.u16.bind ?_
  rintro objType c rfl
  refine Yields.u32.bind ?_
  rintro objId c rfl
  refine yields_safeStr.bind ?_
  rintro objName cn ⟨hn, hlen⟩
  by_cases hc : contents &&& hasCloneIds ≠ 0
  · simp only [Reader.optional, if_pos hc]
    refine Yields.u32.bind ?_
    rintro cloneId c rfl
    refine Yields.u32.bind ?_
    rintro clonePlayerId c rfl
    refine Yields.pure _ ⟨hn, (length_bytes_le _).trans ?_⟩
    simp only [Location.bytes, List.length_append, length_le, List.length_nil]
    split <;> split <;> simp_all <;> omega
  · simp only [Reader.optional, if_neg hc]
    refine (Yields.pure 0 (R := fun (n : UInt32) c => n = 0 ∧ c = []) ⟨rfl, rfl⟩).bind ?_
    rintro cloneId c ⟨rfl, rfl⟩
    refine (Yields.pure 0 (R := fun (n : UInt32) c => n = 0 ∧ c = []) ⟨rfl, rfl⟩).bind ?_
    rintro clonePlayerId c ⟨rfl, rfl⟩
    refine Yields.pure _ ⟨hn, (length_bytes_le _).trans ?_⟩
    simp only [Location.bytes, List.length_append, length_le, List.length_nil]
    split <;> simp_all <;> omega

lemma codes : Codes streamRead streamWrite Named bytes where
  write _ h := streamWrite_eq h
  reads _ h := reads h
  valid := yields.imp fun _ _ h => h.1

end Uoid

end Moulars.Plasma
