import Moulars.Lib.Text

/-!
Password hashes: SHA-0 as the server computes it, and the two ways in which an account's
password hash is formed.

What comes from other crates is collected in `Crates`: the case folding under which `UniCase`
strings are compared, the SHA-1 digest, and the capture of the domain pattern.
-/

namespace Moulars.Hashes

open Lib.Wire Lib.Text

structure ShaDigest where
  data : Bytes
  size : data.length = 20
  deriving DecidableEq

def ShaDigest.zero : ShaDigest := ⟨List.replicate 20 0, rfl⟩

/-- Third-party behaviour the server relies on. -/
structure Crates where
  /-- Two `UniCase` strings are equal when their foldings are. -/
  unicase : String → String
  sha1 : Bytes → ShaDigest
  /-- The second capture of `[^@]+@([^.]+\.)*([^.]+)\.[^.]+`, where it matches. -/
  reDomain : String → Option String

namespace ShaDigest

def hexDigit (n : ℕ) : Char := "0123456789abcdef".toList.getD n '0'

def asHex (d : ShaDigest) : String :=
  String.ofList (d.data.flatMap fun b => [hexDigit (b.toNat / 16), hexDigit (b.toNat % 16)])

def beBytes (k n : ℕ) : Bytes := (le k n).reverse

def beWords : Bytes → List UInt32
  | a :: b :: c :: d :: rest => UInt32.ofNat (ofLe [d, c, b, a]) :: beWords rest
  | _ => []

structure Words where
  a : UInt32
  b : UInt32
  c : UInt32
  d : UInt32
  e : UInt32
  deriving DecidableEq

def rotateLeft (x : UInt32) (n : UInt32) : UInt32 := (x <<< n) ||| (x >>> (32 - n))

def shaCommon (hv : Words) (f k w : UInt32) : Words :=
  ⟨rotateLeft hv.a 5 + f + hv.e + k + w, hv.a, rotateLeft hv.b 30, hv.c, hv.d⟩

/-- The function and the constant of the rounds of one group of twenty. -/
def roundOf (i : ℕ) (hv : Words) : UInt32 × UInt32 :=
  if i < 20 then ((hv.b &&& hv.c) ||| (~~~ hv.b &&& hv.d), 0x5a827999)
  else if i < 40 then (hv.b ^^^ hv.c ^^^ hv.d, 0x6ed9eba1)
  else if i < 60 then ((hv.b &&& hv.c) ||| (hv.b &&& hv.d) ||| (hv.c &&& hv.d), 0x8f1bbcdc)
  else (hv.b ^^^ hv.c ^^^ hv.d, 0xca62c1d6)

/-- The words `work[i..]` appended to those before, without SHA-1's rotation. -/
def schedule : ℕ → List UInt32 → List UInt32
  | 0, work => work
  | n + 1, work =>
    let i := work.length
    schedule n (work ++ [work.getD (i - 3) 0 ^^^ work.getD (i - 8) 0 ^^^ work.getD (i - 14) 0
      ^^^ work.getD (i - 16) 0])

def shaRounds : ℕ → List UInt32 → Words → Words
  | _, [], hv => hv
  | i, w :: ws, hv => shaRounds (i + 1) ws (shaCommon hv (roundOf i hv).1 (roundOf i hv).2 w)

def shaBlock (hash : Words) (chunk : Bytes) : Words :=
  let hv := shaRounds 0 (schedule 64 (beWords chunk)) hash
  ⟨hash.a + hv.a, hash.b + hv.b, hash.c + hv.c, hash.d + hv.d, hash.e + hv.e⟩

/-- The message in blocks: padded with `0x80` and zeros, its size in bits at the end. -/
def shaPad (data : Bytes) : Bytes :=
  let bufSize := ((data.length + 1 + 8 + 63) / 64) * 64
  data ++ (0x80 :: List.replicate (bufSize - data.length - 9) 0)
    ++ beBytes 8 (UInt64.ofNat data.length * 8).toNat

/-- All blocks of a padded message, `n` of them. -/
def shaBlocks : ℕ → Bytes → Words → Words
  | 0, _, hash => hash
  | n + 1, buffer, hash => shaBlocks n (buffer.drop 64) (shaBlock hash (buffer.take 64))

def Words.toBytes (h : Words) : Bytes :=
  beBytes 4 h.a.toNat ++ beBytes 4 h.b.toNat ++ beBytes 4 h.c.toNat ++ beBytes 4 h.d.toNat
    ++ beBytes 4 h.e.toNat

lemma Words.length_toBytes (h : Words) : h.toBytes.length = 20 := by
  simp [Words.toBytes, beBytes]

def sha0 (data : Bytes) : ShaDigest :=
  let buffer := shaPad data
  let hash := shaBlocks (buffer.length / 64) buffer
    ⟨0x67452301, 0xefcdab89, 0x98badcfe, 0x10325476, 0xc3d2e1f0⟩
  ⟨hash.toBytes, hash.length_toBytes⟩

/-- The bytes of each word in reverse. -/
def swapWords : Bytes → Bytes
  | a :: b :: c :: d :: rest => d :: c :: b :: a :: swapWords rest
  | _ => []

lemma length_swapWords : ∀ n (bs : Bytes), bs.length = 4 * n → (swapWords bs).length = 4 * n
  | 0, [], _ => rfl
  | n + 1, a :: b :: c :: d :: rest, h => by
    have hrest := length_swapWords n rest (by simp only [List.length_cons] at h; omega)
    simp only [swapWords, List.length_cons, hrest]
    omega

def endianSwap (d : ShaDigest) : ShaDigest := ⟨swapWords d.data, length_swapWords 5 d.data d.size⟩

end ShaDigest

/-- Stand-ins with which the model can be evaluated: no folding, SHA-0, no domain. -/
def Crates.plain : Crates := ⟨id, ShaDigest.sha0, fun _ => none⟩

/-! ### Password hashes -/

/-- All units of a string but the last, and a nul in its place. -/
def truncatedUtf16 (value : String) : Bytes :=
  let wide := encodeUtf16 value.toList
  if wide.isEmpty then [] else unitBytes (wide.take (wide.length - 1)) ++ unitBytes [0]

def eqIgnoreAsciiCase (s t : String) : Bool :=
  s.toList.map Char.toLower == t.toList.map Char.toLower

def useEmailAuth (X : Crates) (accountName : String) : Bool :=
  match X.reDomain accountName with
  | some domain => !eqIgnoreAsciiCase domain "gametap"
  | none => false

def createPassHash (X : Crates) (accountName password : String) : ShaDigest :=
  if useEmailAuth X accountName then
    ShaDigest.sha0 (truncatedUtf16 password ++ truncatedUtf16 accountName)
  else X.sha1 (encodeUtf8 password.toList)

def hashPasswordChallenge (clientChallenge serverChallenge : UInt32) (passHash : ShaDigest) :
    ShaDigest :=
  ShaDigest.sha0 (le 4 clientChallenge.toNat ++ le 4 serverChallenge.toNat ++ passHash.data)

end Moulars.Hashes
