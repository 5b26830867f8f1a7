import Mathlib.Data.Nat.Bitwise
import Mathlib.Data.Fintype.Pi
import Moulars.Lib.Text

/-!
Vault nodes: thirty-two optional fields of five kinds behind a 64-bit presence mask, and their blob
format.

The source spells out the fields one by one with macros. Here a field is a constructor of `Field`,
and its kind says which macro it goes through.
-/

namespace Moulars.Vault

open Lib.Wire Lib.Text

/-! ### Uuids -/

/-- A uuid by its fields; `d4` holds its last eight bytes. -/
structure Uuid where
  d1 : UInt32
  d2 : UInt16
  d3 : UInt16
  d4 : UInt64
  deriving DecidableEq

def Uuid.nil : Uuid := ⟨0, 0, 0, 0⟩

def Uuid.isNil (u : Uuid) : Bool := u == Uuid.nil

/-- The sixteen bytes of a uuid, its first three fields little-endian. -/
def Uuid.toBytesLe (u : Uuid) : Bytes :=
  le 4 u.d1.toNat ++ (le 2 u.d2.toNat ++ (le 2 u.d3.toNat ++ le 8 u.d4.toNat))

def Uuid.streamRead : Reader Uuid := do
  let d1 ← Reader.u32
  let d2 ← Reader.u16
  let d3 ← Reader.u16
  let d4 ← Reader.u64
  pure ⟨d1, d2, d3, d4⟩

def Uuid.streamWrite (u : Uuid) : Out := Out.put u.toBytesLe

lemma Uuid.reads (u : Uuid) : Reads Uuid.streamRead u.toBytesLe u :=
  (Reads.u32 u.d1).bind <| (Reads.u16 u.d2).bind <| (Reads.u16 u.d3).bind <|
    (Reads.u64 u.d4).bind_pure (f := fun d4 => Uuid.mk u.d1 u.d2 u.d3 d4)

lemma Uuid.yields : Yields Uuid.streamRead (fun u c => c = u.toBytesLe) := by
  refine Yields.u32.bind ?_
  rintro d1 c rfl
  refine Yields.u16.bind ?_
  rintro d2 c rfl
  refine Yields.u16.bind ?_
  rintro d3 c rfl
  refine Yields.u64.bind ?_
  rintro d4 c rfl
  exact Yields.pure _ (by simp [Uuid.toBytesLe])

/-! ### Vault strings -/

/-- The UTF-16 units of a vault string: a byte count that includes the terminating nul,
the units, and the nul. -/
def readVaultUnits : Reader (List UInt16) := do
  let size ← Reader.u32
  if size.toNat % 2 ≠ 0 ∨ size.toNat < 2 then
    Reader.fail (.error s!"Bad UTF-16 data size ({size.toNat} bytes)")
  else do
    let buffer ← units ((size.toNat - 1) / 2)
    let nul ← Reader.u16
    if nul ≠ 0 then Reader.fail (.error "Vault string was not nul-terminated")
    else pure buffer

def readVaultString : Reader String := do
  let buffer ← readVaultUnits
  pure (String.ofList (decodeUtf16Lossy buffer))

def vaultUnitBytes (us : List UInt16) : Bytes :=
  le 4 ((us.length + 1) * 2) ++ (unitBytes us ++ le 2 0)

def writeVaultString (value : String) : Out :=
  let buffer := encodeUtf16 value.toList
  if (buffer.length + 1) * 2 < 2 ^ 32 then Out.put (vaultUnitBytes buffer)
  else Out.fail (.error "Buffer too large for stream")

lemma reads_vaultUnits (us : List UInt16) (h : (us.length + 1) * 2 < 2 ^ 32) :
    Reads readVaultUnits (vaultUnitBytes us) us := by
  have hn : (UInt32.ofNat ((us.length + 1) * 2)).toNat = (us.length + 1) * 2 :=
    UInt32.toNat_ofNat_of_lt' (by simpa [UInt32.size] using h)
  have hsize := Reads.u32 (UInt32.ofNat ((us.length + 1) * 2))
  rw [hn] at hsize
  refine hsize.bind ?_
  rw [hn, if_neg (by omega), show ((us.length + 1) * 2 - 1) / 2 = us.length by omega]
  refine (reads_units us).bind ?_
  have hnul : Reads Reader.u16 (le 2 0) 0 := Reads.u16 0
  intro rest
  rw [Reader.bind_ok (hnul rest)]
  simp

lemma reads_vaultString {s : String} (h : ((encodeUtf16 s.toList).length + 1) * 2 < 2 ^ 32) :
    Reads readVaultString (vaultUnitBytes (encodeUtf16 s.toList)) s := by
  have := (reads_vaultUnits _ h).bind_pure (f := fun us => String.ofList (decodeUtf16Lossy us))
  rwa [decodeUtf16Lossy_encodeUtf16, String.ofList_toList] at this

lemma yields_vaultUnits : Yields readVaultUnits
    (fun us c => c = vaultUnitBytes us ∧ (us.length + 1) * 2 < 2 ^ 32) := by
  refine Yields.u32.bind ?_
  rintro size c rfl
  have hlt := size.toNat_lt
  split
  · exact Yields.fail _ _
  · rename_i hsize
    refine (yields_units _).bind ?_
    rintro us c ⟨hl, rfl⟩
    refine Yields.u16.bind ?_
    rintro nul c rfl
    split
    · exact Yields.fail _ _
    · rename_i hnul
      obtain rfl : nul = 0 := by simpa using hnul
      have hs : size.toNat = (us.length + 1) * 2 := by omega
      exact Yields.pure _ ⟨by simp [vaultUnitBytes, hs], by omega⟩

/-! ### Field kinds -/

inductive Kind
  | u32 | i32 | string | uuid | blob
  deriving DecidableEq

@[reducible] def Kind.Val : Kind → Type
  | .u32 => UInt32
  | .i32 => Int32
  | .string => String
  | .uuid => Uuid
  | .blob => Bytes

instance (k : Kind) : DecidableEq k.Val :=
  match k with
  | .u32 => inferInstanceAs (DecidableEq UInt32)
  | .i32 => inferInstanceAs (DecidableEq Int32)
  | .string => inferInstanceAs (DecidableEq String)
  | .uuid => inferInstanceAs (DecidableEq Uuid)
  | .blob => inferInstanceAs (DecidableEq Bytes)

def Kind.zero : (k : Kind) → k.Val
  | .u32 => (0 : UInt32)
  | .i32 => (0 : Int32)
  | .string => ""
  | .uuid => Uuid.nil
  | .blob => ([] : Bytes)

def readBlob : Reader Bytes := do
  let size ← Reader.u32
  Reader.exact size.toNat

def writeBlob (value : Bytes) : Out :=
  if value.length < 2 ^ 32 then Out.put (le 4 value.length ++ value)
  else Out.fail (.error "Blob too large for stream")

def Kind.read : (k : Kind) → Reader k.Val
  | .u32 => Reader.u32
  | .i32 => Reader.i32
  | .string => readVaultString
  | .uuid => Uuid.streamRead
  | .blob => readBlob

def Kind.write : (k : Kind) → k.Val → Out
  | .u32, v => Out.u32 v
  | .i32, v => Out.i32 v
  | .string, v => writeVaultString v
  | .uuid, v => Uuid.streamWrite v
  | .blob, v => writeBlob v

/-- The encoded size of a value fits the stream's 32-bit length. -/
def Kind.Fits : (k : Kind) → k.Val → Prop
  | .u32, _ => True
  | .i32, _ => True
  | .string, v => ((encodeUtf16 (String.toList v)).length + 1) * 2 < 2 ^ 32
  | .uuid, _ => True
  | .blob, v => List.length v < 2 ^ 32

def Kind.bytes : (k : Kind) → k.Val → Bytes
  | .u32, v => le 4 (UInt32.toNat v)
  | .i32, v => le 4 (Int32.toUInt32 v).toNat
  | .string, v => vaultUnitBytes (encodeUtf16 (String.toList v))
  | .uuid, v => Uuid.toBytesLe v
  | .blob, v => le 4 (List.length v) ++ v

lemma Kind.fits_zero (k : Kind) : k.Fits k.zero := by
  cases k <;> simp [Fits, zero, encodeUtf16]

lemma Kind.write_eq {k : Kind} {v : k.Val} (h : k.Fits v) : k.write v = Out.put (k.bytes v) := by
  cases k with
  | u32 => rfl
  | i32 => rfl
  | string => exact if_pos h
  | uuid => rfl
  | blob => exact if_pos h

lemma reads_blob {v : Bytes} (h : v.length < 2 ^ 32) :
    Reads readBlob (le 4 v.length ++ v) v := by
  have hn : (UInt32.ofNat v.length).toNat = v.length :=
    UInt32.toNat_ofNat_of_lt' (by simpa [UInt32.size] using h)
  have hsize := Reads.u32 (UInt32.ofNat v.length)
  rw [hn] at hsize
  exact hsize.bind (Reads.exact v hn.symm)

lemma Kind.reads {k : Kind} {v : k.Val} (h : k.Fits v) : Reads k.read (k.bytes v) v := by
  cases k with
  | u32 => exact Reads.u32 v
  | i32 => exact Reads.i32 v
  | string => exact reads_vaultString h
  | uuid => exact Uuid.reads v
  | blob => exact reads_blob h

/-! ### Fields -/

inductive Field
  | nodeId | createTime | modifyTime | createAgeName | createAgeUuid | creatorUuid | creatorId
  | nodeType | int32_1 | int32_2 | int32_3 | int32_4 | uint32_1 | uint32_2 | uint32_3 | uint32_4
  | uuid_1 | uuid_2 | uuid_3 | uuid_4 | string64_1 | string64_2 | string64_3 | string64_4
  | string64_5 | string64_6 | istring64_1 | istring64_2 | text_1 | text_2 | blob_1 | blob_2
  deriving DecidableEq

@[reducible] def Field.kind : Field → Kind
  | .nodeId | .createTime | .modifyTime | .creatorId => .u32
  | .createAgeName => .string
  | .createAgeUuid | .creatorUuid => .uuid
  | .nodeType | .int32_1 | .int32_2 | .int32_3 | .int32_4 => .i32
  | .uint32_1 | .uint32_2 | .uint32_3 | .uint32_4 => .u32
  | .uuid_1 | .uuid_2 | .uuid_3 | .uuid_4 => .uuid
  | .string64_1 | .string64_2 | .string64_3 | .string64_4 | .string64_5 | .string64_6 => .string
  | .istring64_1 | .istring64_2 | .text_1 | .text_2 => .string
  | .blob_1 | .blob_2 => .blob

abbrev Field.Val (f : Field) : Type := f.kind.Val

/-- The bit of a field in the presence mask: `FIELD_X` is `1 << X.bit`. -/
def Field.bit : Field → ℕ
  | .nodeId => 0
  | .createTime => 1
  | .modifyTime => 2
  | .createAgeName => 3
  | .createAgeUuid => 4
  | .creatorUuid => 5
  | .creatorId => 6
  | .nodeType => 7
  | .int32_1 => 8
  | .int32_2 => 9
  | .int32_3 => 10
  | .int32_4 => 11
  | .uint32_1 => 12
  | .uint32_2 => 13
  | .uint32_3 => 14
  | .uint32_4 => 15
  | .uuid_1 => 16
  | .uuid_2 => 17
  | .uuid_3 => 18
  | .uuid_4 => 19
  | .string64_1 => 20
  | .string64_2 => 21
  | .string64_3 => 22
  | .string64_4 => 23
  | .string64_5 => 24
  | .string64_6 => 25
  | .istring64_1 => 26
  | .istring64_2 => 27
  | .text_1 => 28
  | .text_2 => 29
  | .blob_1 => 30
  | .blob_2 => 31

def Field.mask (f : Field) : UInt64 := 1 <<< UInt64.ofNat f.bit

def Field.all : List Field :=
  [.nodeId, .createTime, .modifyTime, .createAgeName, .createAgeUuid, .creatorUuid, .creatorId,
    .nodeType, .int32_1, .int32_2, .int32_3, .int32_4, .uint32_1, .uint32_2, .uint32_3, .uint32_4,
    .uuid_1, .uuid_2, .uuid_3, .uuid_4, .string64_1, .string64_2, .string64_3, .string64_4,
    .string64_5, .string64_6, .istring64_1, .istring64_2, .text_1, .text_2, .blob_1, .blob_2]

lemma Field.mem_all (f : Field) : f ∈ Field.all := by
  cases f <;> decide

instance : Fintype Field := Fintype.ofList Field.all Field.mem_all

lemma Field.all_getD_bit (f : Field) : Field.all.getD f.bit .nodeId = f := by
  cases f <;> rfl

lemma Field.bit_injective : Function.Injective Field.bit := fun f g h => by
  rw [← f.all_getD_bit, h, g.all_getD_bit]

lemma Field.toNat_mask (f : Field) : f.mask.toNat = 2 ^ f.bit := by
  cases f <;> rfl

def present (fields : UInt64) (f : Field) : Bool := (fields &&& f.mask) != 0

/-! ### Nodes -/

@[ext] structure VaultNode where
  fields : UInt64
  val : (f : Field) → f.Val

instance : DecidableEq VaultNode := fun n m =>
  decidable_of_iff (n.fields = m.fields ∧ ∀ f, n.val f = m.val f)
    ⟨fun h => VaultNode.ext h.1 (funext h.2), fun h => h ▸ ⟨rfl, fun _ => rfl⟩⟩

namespace VaultNode

def default : VaultNode := ⟨0, fun f => f.kind.zero⟩

def has (n : VaultNode) (f : Field) : Bool := present n.fields f

def set (n : VaultNode) (f : Field) (v : f.Val) : VaultNode :=
  ⟨n.fields ||| f.mask, Function.update n.val f v⟩

end VaultNode

lemma present_eq_testBit (fields : UInt64) (f : Field) :
    present fields f = fields.toNat.testBit f.bit := by
  have hz : (fields &&& f.mask) = 0 ↔ fields.toNat &&& 2 ^ f.bit = 0 := by
    rw [← UInt64.toNat_inj, UInt64.toNat_and, f.toNat_mask]
    rfl
  rw [present, Nat.and_two_pow] at *
  cases h : fields.toNat.testBit f.bit with
  | false => simp [hz, h]
  | true => simp [hz, h]

lemma present_or (fields : UInt64) (f g : Field) :
    present (fields ||| f.mask) g = (present fields g || decide (f = g)) := by
  rw [present_eq_testBit, present_eq_testBit, UInt64.toNat_or, Nat.testBit_or, f.toNat_mask,
    Nat.testBit_two_pow]
  simp only [Field.bit_injective.eq_iff]

namespace VaultNode

@[simp] lemma has_default (f : Field) : default.has f = false := by
  cases f <;> rfl

@[simp] lemma has_set (n : VaultNode) (f g : Field) (v : f.Val) :
    (n.set f v).has g = (n.has g || decide (f = g)) := present_or n.fields f g

@[simp] lemma val_set_self (n : VaultNode) (f : Field) (v : f.Val) : (n.set f v).val f = v :=
  Function.update_self f v n.val

lemma val_set_of_ne (n : VaultNode) {f g : Field} (v : f.Val) (h : g ≠ f) :
    (n.set f v).val g = n.val g :=
  Function.update_of_ne h v n.val

end VaultNode

end Moulars.Vault
