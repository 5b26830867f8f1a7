import Mathlib.Algebra.Group.Nat.Defs
import Mathlib.Data.Nat.Find

/-!
SHA-0, as the Secure Hash Standard of 1993 has it, for messages of whole bytes.

The words of a message schedule are functions of their index, and the padding has the least
number of zeros that completes a block: nothing here says how any of it is computed.
-/

namespace Moulars.Lib.Sha0

/-- The circular left shift `S^n(X)`. -/
def rotl (n x : UInt32) : UInt32 := (x <<< n) ||| (x >>> (32 - n))

def f (t : ℕ) (b c d : UInt32) : UInt32 :=
  if t ≤ 19 then (b &&& c) ||| (~~~ b &&& d)
  else if t ≤ 39 then b ^^^ c ^^^ d
  else if t ≤ 59 then (b &&& c) ||| (b &&& d) ||| (c &&& d)
  else b ^^^ c ^^^ d

def k (t : ℕ) : UInt32 :=
  if t ≤ 19 then 0x5a827999
  else if t ≤ 39 then 0x6ed9eba1
  else if t ≤ 59 then 0x8f1bbcdc
  else 0xca62c1d6

/-- The message schedule of a block of sixteen words. -/
def schedule (block : ℕ → UInt32) : ℕ → UInt32
  | t + 16 => schedule block (t + 13) ^^^ schedule block (t + 8) ^^^ schedule block (t + 2)
      ^^^ schedule block t
  | t => block t

/-- The variables `A` to `E` of the computation, or `H0` to `H4` of its result. -/
@[ext] structure State where
  a : UInt32
  b : UInt32
  c : UInt32
  d : UInt32
  e : UInt32

def initial : State := ⟨0x67452301, 0xefcdab89, 0x98badcfe, 0x10325476, 0xc3d2e1f0⟩

def round (block : ℕ → UInt32) (s : State) (t : ℕ) : State :=
  let temp := rotl 5 s.a + f t s.b s.c s.d + s.e + schedule block t + k t
  ⟨temp, s.a, rotl 30 s.b, s.c, s.d⟩

def compress (h : State) (block : ℕ → UInt32) : State :=
  let s := (List.range 80).foldl (round block) h
  ⟨h.a + s.a, h.b + s.b, h.c + s.c, h.d + s.d, h.e + s.e⟩

/-! ### Messages -/

def be (n x : ℕ) : List UInt8 := (List.range n).map fun i => UInt8.ofNat (x / 256 ^ (n - 1 - i))

def word (bytes : List UInt8) (i : ℕ) : UInt32 :=
  UInt32.ofNat (2 ^ 24 * (bytes.getD (4 * i) 0).toNat + 2 ^ 16 * (bytes.getD (4 * i + 1) 0).toNat +
    2 ^ 8 * (bytes.getD (4 * i + 2) 0).toNat + (bytes.getD (4 * i + 3) 0).toNat)

lemma exists_zeros (n : ℕ) : ∃ zeros, 64 ∣ n + 1 + zeros + 8 := ⟨63 * (n + 9), by omega⟩

/-- The least number of zeros that completes the last block of a message of `n` bytes. -/
def zeros (n : ℕ) : ℕ := Nat.find (exists_zeros n)

/-- A message in whole blocks, with its length in bits at the end. -/
def pad (m : List UInt8) : List UInt8 :=
  m ++ 0x80 :: List.replicate (zeros m.length) 0 ++ be 8 (8 * m.length)

def digest (m : List UInt8) : List UInt8 :=
  let padded := pad m
  let h := (List.range (padded.length / 64)).foldl
    (fun h i => compress h fun t => word padded (16 * i + t)) initial
  be 4 h.a.toNat ++ be 4 h.b.toNat ++ be 4 h.c.toNat ++ be 4 h.d.toNat ++ be 4 h.e.toNat

/-! ### Lemmas -/

lemma schedule_of_lt {block : ℕ → UInt32} {t : ℕ} (h : t < 16) : schedule block t = block t := by
  rw [schedule]
  omega

lemma schedule_of_le {block : ℕ → UInt32} {t : ℕ} (h : 16 ≤ t) :
    schedule block t = schedule block (t - 3) ^^^ schedule block (t - 8) ^^^
      schedule block (t - 14) ^^^ schedule block (t - 16) := by
  obtain ⟨t, rfl⟩ := Nat.exists_eq_add_of_le' h
  rfl

lemma zeros_eq {n z : ℕ} (h : 64 ∣ n + 1 + z + 8) (hz : z < 64) : zeros n = z := by
  rw [zeros, Nat.find_eq_iff]
  refine ⟨h, fun z' hz' h' => ?_⟩
  omega

end Moulars.Lib.Sha0
