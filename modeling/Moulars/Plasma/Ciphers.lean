import Moulars.Lib.Fallible
import Moulars.Lib.Ring
import Moulars.Lib.Wire

/-!
The ciphers of encrypted files: TEA, on blocks of two words, and XXTEA, on blocks of any number of
words.

A round of XXTEA changes every word of the block by its neighbours, from the first word to the
last; deciphering goes the other way. It counts its rounds by the sum, which starts as a multiple
of an odd number and goes down to 0.
-/

namespace Moulars.Plasma

open Lib Lib.Wire Lib.Fallible Lib.Ring

abbrev CryptKey := Fin 4 → UInt32

def CryptKey.get (key : CryptKey) (i : ℕ) : UInt32 := key (Fin.ofNat 4 i)

def teaDelta : UInt32 := 0x9E3779B9

/-- What a half of the block contributes to the other one. -/
def teaMix (v sum k : UInt32) : UInt32 := (((v <<< 4) ^^^ (v >>> 5)) + v) ^^^ (sum + k)

structure TeaState where
  y : UInt32
  z : UInt32
  sum : UInt32

def teaDecipherRound (key : CryptKey) (s : TeaState) : TeaState :=
  let z := s.z - teaMix s.y s.sum (key.get ((s.sum >>> 11) &&& 3).toNat)
  let sum := s.sum - teaDelta
  let y := s.y - teaMix z sum (key.get (sum &&& 3).toNat)
  ⟨y, z, sum⟩

def teaEncipherRound (key : CryptKey) (s : TeaState) : TeaState :=
  let y := s.y + teaMix s.z s.sum (key.get (s.sum &&& 3).toNat)
  let sum := s.sum + teaDelta
  let z := s.z + teaMix y sum (key.get ((sum >>> 11) &&& 3).toNat)
  ⟨y, z, sum⟩

def teaDecipher (block : List UInt32) (key : CryptKey) : List UInt32 :=
  let s := (teaDecipherRound key)^[32] ⟨block.getD 0 0, block.getD 1 0, 0xC6EF3720⟩
  [s.y, s.z]

def teaEncipher (block : List UInt32) (key : CryptKey) : List UInt32 :=
  let s := (teaEncipherRound key)^[32] ⟨block.getD 0 0, block.getD 1 0, 0⟩
  [s.y, s.z]

def mx (y z sum : UInt32) (p : ℕ) (e : UInt32) (key : CryptKey) : UInt32 :=
  (((z >>> 5) ^^^ (y <<< 2)) + ((y >>> 3) ^^^ (z <<< 4))) ^^^
    ((sum ^^^ y) + (key.get ((p &&& 3) ^^^ e.toNat) ^^^ z))

/-- A block in the course of XXTEA, with the neighbour changed last. -/
structure XxteaState where
  block : List UInt32
  last : UInt32
  sum : UInt32

/-- One round of `xxtea_decipher`: from the last word of the block down to the first. -/
def xxteaDecipherRound (key : CryptKey) (s : XxteaState) : XxteaState :=
  let e := (s.sum >>> 2) &&& 3
  let n := s.block.length
  -- `p` goes from `n - 1` down to 1
  let (block, y) := (List.range (n - 1)).reverse.foldl (fun (block, y) p =>
    let z := block.getD p 0
    let v := block.getD (p + 1) 0 - mx y z s.sum (p + 1) e key
    (block.set (p + 1) v, v)) (s.block, s.last)
  let z := block.getD (n - 1) 0
  let v := block.getD 0 0 - mx y z s.sum 0 e key
  ⟨block.set 0 v, v, s.sum - teaDelta⟩

/-- One round of `xxtea_encipher`: from the first word of the block up to the last. -/
def xxteaEncipherRound (key : CryptKey) (s : XxteaState) : XxteaState :=
  let sum := s.sum + teaDelta
  let e := (sum >>> 2) &&& 3
  let n := s.block.length
  let (block, z) := (List.range (n - 1)).foldl (fun (block, z) p =>
    let y := block.getD (p + 1) 0
    let v := block.getD p 0 + mx y z sum p e key
    (block.set p v, v)) (s.block, s.last)
  let y := block.getD 0 0
  let v := block.getD (n - 1) 0 + mx y z sum (n - 1) e key
  ⟨block.set (n - 1) v, v, sum⟩

/-- The number of rounds for a block of `n` words. The number of words is taken as a `u32`. -/
def xxteaRounds (n : ℕ) : Except Fault ℕ :=
  if n % 2 ^ 32 = 0 then .error (.panic "attempt to divide by zero")
  else .ok (6 + 52 / (n % 2 ^ 32))

/-- `while sum > 0`, in at most the given number of rounds. -/
def xxteaDecipherLoop (key : CryptKey) : ℕ → XxteaState → XxteaState
  | 0, s => s
  | n + 1, s => if s.sum > 0 then xxteaDecipherLoop key n (xxteaDecipherRound key s) else s

/-- `xxtea_decipher`. The sum starts as a multiple of the delta and is 0 when as many rounds are
over. -/
def xxteaDecipher (block : List UInt32) (key : CryptKey) : Except Fault (List UInt32) :=
  if block = [] then .error (.panic "index out of bounds: the len is 0 but the index is 0")
  else (xxteaRounds block.length).map fun q =>
    (xxteaDecipherLoop key q ⟨block, block.getD 0 0, UInt32.ofNat q * teaDelta⟩).block

def xxteaEncipher (block : List UInt32) (key : CryptKey) : Except Fault (List UInt32) :=
  if block = [] then .error (.panic "attempt to subtract with overflow")
  else (xxteaRounds block.length).map fun q =>
    ((xxteaEncipherRound key)^[q] ⟨block, block.getD (block.length - 1) 0, 0⟩).block

lemma succ_mul_teaDelta (n : ℕ) :
    UInt32.ofNat (n + 1) * teaDelta = UInt32.ofNat n * teaDelta + teaDelta := by
  rw [UInt32.ofNat_add, UInt32.add_mul]
  rfl

/-! ### TEA -/

section Tea

variable (key : CryptKey)

lemma teaDecipherRound_encipherRound (s : TeaState) :
    teaDecipherRound key (teaEncipherRound key s) = s := by
  simp only [teaDecipherRound, teaEncipherRound, UInt32.add_sub_cancel]

lemma sum_teaEncipherRound (n : ℕ) (s : TeaState) :
    ((teaEncipherRound key)^[n] s).sum = s.sum + UInt32.ofNat n * teaDelta := by
  induction n with
  | zero => simp
  | succ n ih =>
    rw [Function.iterate_succ_apply']
    show ((teaEncipherRound key)^[n] s).sum + teaDelta = _
    rw [ih, succ_mul_teaDelta, UInt32.add_assoc]

lemma teaDecipher_encipher (a b : UInt32) : teaDecipher (teaEncipher [a, b] key) key = [a, b] := by
  have hsum := sum_teaEncipherRound key 32 ⟨a, b, 0⟩
  have hback := Function.LeftInverse.iterate (teaDecipherRound_encipherRound key) 32 ⟨a, b, 0⟩
  have hstart : (⟨((teaEncipherRound key)^[32] ⟨a, b, 0⟩).y,
      ((teaEncipherRound key)^[32] ⟨a, b, 0⟩).z, 0xC6EF3720⟩ : TeaState) =
        (teaEncipherRound key)^[32] ⟨a, b, 0⟩ := by
    rw [show (0xC6EF3720 : UInt32) = 0 + UInt32.ofNat 32 * teaDelta by decide, ← hsum]
  simp only [teaDecipher, teaEncipher, List.getD_cons_zero, List.getD_cons_succ, hstart, hback]

end Tea

/-! ### XXTEA -/

/-- The loop `while cond { body }` runs exactly `n` times. -/
def RunsTimes {σ : Type} (cond : σ → Prop) (body : σ → σ) (s : σ) (n : ℕ) : Prop :=
  (∀ i < n, cond (body^[i] s)) ∧ ¬ cond (body^[n] s)

def XxteaState.atEnd (x : List UInt32 × UInt32) : XxteaState :=
  ⟨x.1, x.1.getD (x.1.length - 1) 0, x.2⟩

def XxteaState.atStart (x : List UInt32 × UInt32) : XxteaState := ⟨x.1, x.1.getD 0 0, x.2⟩

section Xxtea

variable (key : CryptKey)

/-- What a word gets from its neighbours when the block is enciphered. -/
def added (sum : UInt32) (p : ℕ) (y z x : UInt32) : UInt32 :=
  x + mx y z sum p ((sum >>> 2) &&& 3) key

/-- What is taken from it again when the block is deciphered. -/
def taken (sum : UInt32) (p : ℕ) (y z x : UInt32) : UInt32 :=
  x - mx y z sum p ((sum >>> 2) &&& 3) key

def enciphered (n : ℕ) (x : List UInt32 × UInt32) : List UInt32 × UInt32 :=
  (up 0 n (added key (x.2 + teaDelta)) x.1, x.2 + teaDelta)

def deciphered (n : ℕ) (x : List UInt32 × UInt32) : List UInt32 × UInt32 :=
  (down 0 n (taken key x.2) x.1, x.2 - teaDelta)

variable {n : ℕ}

lemma deciphered_enciphered (hn : 2 ≤ n) :
    Function.LeftInverse (deciphered key n) (enciphered key n) := by
  rintro ⟨v, sum⟩
  have hback := down_up (d := 0) (f := added key (sum + teaDelta)) (g := taken key (sum + teaDelta))
    (fun p y z x => UInt32.add_sub_cancel ..) hn v
  rw [deciphered, enciphered, hback, UInt32.add_sub_cancel]

lemma enciphered_deciphered (hn : 2 ≤ n) :
    Function.LeftInverse (enciphered key n) (deciphered key n) := by
  rintro ⟨v, sum⟩
  have hback := up_down (d := 0) (f := added key sum) (g := taken key sum)
    (fun p y z x => UInt32.sub_add_cancel ..) hn v
  simp only [deciphered, enciphered, UInt32.sub_add_cancel, hback]

lemma xxteaEncipherRound_atEnd {x : List UInt32 × UInt32} (hn : 0 < n) (hlen : x.1.length = n) :
    xxteaEncipherRound key (.atEnd x) = .atEnd (enciphered key n x) := by
  subst hlen
  have hsweep := sweepUp_eq (d := 0) (f := added key (x.2 + teaDelta)) hn rfl
  have hround : xxteaEncipherRound key (.atEnd x) =
      let s := sweepUp 0 x.1.length (added key (x.2 + teaDelta)) (x.1, x.1.getD (x.1.length - 1) 0)
      ⟨s.1, s.2, x.2 + teaDelta⟩ := rfl
  rw [hround, hsweep, XxteaState.atEnd, enciphered, length_up]

lemma xxteaDecipherRound_atStart {x : List UInt32 × UInt32} (hn : 0 < n) (hlen : x.1.length = n) :
    xxteaDecipherRound key (.atStart x) = .atStart (deciphered key n x) := by
  subst hlen
  have hsweep := sweepDown_eq (d := 0) (f := taken key x.2) hn rfl
  have hround : xxteaDecipherRound key (.atStart x) =
      let s := sweepDown 0 x.1.length (taken key x.2) (x.1, x.1.getD 0 0)
      ⟨s.1, s.2, x.2 - teaDelta⟩ := rfl
  rw [hround, hsweep]
  rfl

lemma iterate_enciphered (q : ℕ) (x : List UInt32 × UInt32) :
    ((enciphered key n)^[q] x).1.length = x.1.length ∧
      ((enciphered key n)^[q] x).2 = x.2 + UInt32.ofNat q * teaDelta := by
  induction q with
  | zero => simp
  | succ q ih =>
    rw [Function.iterate_succ_apply']
    refine ⟨(length_up _).trans ih.1, ?_⟩
    show ((enciphered key n)^[q] x).2 + teaDelta = _
    rw [ih.2, succ_mul_teaDelta, UInt32.add_assoc]

lemma iterate_deciphered (q : ℕ) (x : List UInt32 × UInt32) :
    ((deciphered key n)^[q] x).1.length = x.1.length ∧
      ((deciphered key n)^[q] x).2 + UInt32.ofNat q * teaDelta = x.2 := by
  induction q with
  | zero => simp
  | succ q ih =>
    rw [Function.iterate_succ_apply']
    refine ⟨(length_down _).trans ih.1, ?_⟩
    show ((deciphered key n)^[q] x).2 - teaDelta + _ = _
    rw [succ_mul_teaDelta, UInt32.add_comm (UInt32.ofNat q * teaDelta), ← UInt32.add_assoc,
      UInt32.sub_add_cancel, ih.2]

lemma iterate_encipherRound (hn : 0 < n) (q : ℕ) {x : List UInt32 × UInt32}
    (hlen : x.1.length = n) :
    (xxteaEncipherRound key)^[q] (.atEnd x) = .atEnd ((enciphered key n)^[q] x) := by
  induction q with
  | zero => rfl
  | succ q ih =>
    rw [Function.iterate_succ_apply', Function.iterate_succ_apply', ih,
      xxteaEncipherRound_atEnd key hn ((iterate_enciphered key q x).1.trans hlen)]

lemma iterate_decipherRound (hn : 0 < n) (q : ℕ) {x : List UInt32 × UInt32}
    (hlen : x.1.length = n) :
    (xxteaDecipherRound key)^[q] (.atStart x) = .atStart ((deciphered key n)^[q] x) := by
  induction q with
  | zero => rfl
  | succ q ih =>
    rw [Function.iterate_succ_apply', Function.iterate_succ_apply', ih,
      xxteaDecipherRound_atStart key hn ((iterate_deciphered key q x).1.trans hlen)]

lemma sum_decipherRound (hn : 0 < n) {v : List UInt32} (hlen : v.length = n) {i q : ℕ}
    (hi : i ≤ q) : ((xxteaDecipherRound key)^[i] (.atStart (v, UInt32.ofNat q * teaDelta))).sum =
      UInt32.ofNat (q - i) * teaDelta := by
  have hsum := (iterate_deciphered (n := n) key i (v, UInt32.ofNat q * teaDelta)).2
  have hsplit : UInt32.ofNat q * teaDelta =
      UInt32.ofNat (q - i) * teaDelta + UInt32.ofNat i * teaDelta := by
    rw [← UInt32.add_mul, ← UInt32.ofNat_add, Nat.sub_add_cancel hi]
  rw [iterate_decipherRound key hn i hlen]
  exact (UInt32.add_left_inj _).1 (hsum.trans hsplit)

/-- **The sum does not get to 0 early**: there are at most 58 rounds, and the delta is odd. -/
lemma runsTimes_xxteaDecipher (hn : 0 < n) {v : List UInt32} (hlen : v.length = n) {q : ℕ}
    (hq : q ≤ 58) : RunsTimes (fun s => s.sum > 0) (xxteaDecipherRound key)
      (.atStart (v, UInt32.ofNat q * teaDelta)) q := by
  have hpos : ∀ k < 58, UInt32.ofNat (k + 1) * teaDelta > 0 := by decide
  constructor
  · intro i hi
    rw [sum_decipherRound key hn hlen (Nat.le_of_lt hi), show q - i = q - i - 1 + 1 by omega]
    exact hpos (q - i - 1) (by omega)
  · show ¬ XxteaState.sum _ > 0
    rw [sum_decipherRound key hn hlen (Nat.le_refl q), Nat.sub_self]
    decide

lemma xxteaDecipherLoop_eq {s : XxteaState} {q m : ℕ}
    (h : RunsTimes (fun s => s.sum > 0) (xxteaDecipherRound key) s q) (hm : q ≤ m) :
    xxteaDecipherLoop key m s = (xxteaDecipherRound key)^[q] s := by
  induction m generalizing s q with
  | zero =>
    obtain rfl : q = 0 := by omega
    rfl
  | succ m ih =>
    rw [xxteaDecipherLoop]
    cases q with
    | zero => exact if_neg h.2
    | succ q =>
      have hpos : s.sum > 0 := h.1 0 (by omega)
      rw [if_pos hpos, ih ⟨fun i hi => h.1 (i + 1) (by omega), h.2⟩ (by omega)]
      rfl

lemma xxteaRounds_eq (hn : n % 2 ^ 32 ≠ 0) : xxteaRounds n = .ok (6 + 52 / (n % 2 ^ 32)) :=
  if_neg hn

lemma xxteaRounds_le (n : ℕ) : 6 + 52 / (n % 2 ^ 32) ≤ 58 := by
  have hdiv := Nat.div_le_self 52 (n % 2 ^ 32)
  omega

section Blocks

variable {block : List UInt32} (hlen : block.length = n) (hn : 2 ≤ n) (hwords : n % 2 ^ 32 ≠ 0)
include hlen hn hwords

lemma xxteaEncipher_eq : xxteaEncipher block key =
    .ok ((enciphered key n)^[6 + 52 / (n % 2 ^ 32)] (block, 0)).1 := by
  have hne : block ≠ [] := List.ne_nil_of_length_pos (by omega)
  have hrounds := iterate_encipherRound key (show 0 < n by omega) (6 + 52 / (n % 2 ^ 32))
    (x := (block, 0)) hlen
  rw [XxteaState.atEnd, hlen] at hrounds
  rw [xxteaEncipher, if_neg hne, hlen, xxteaRounds_eq hwords]
  exact congrArg (fun s => Except.ok (XxteaState.block s)) hrounds

lemma xxteaDecipher_eq : xxteaDecipher block key = .ok ((deciphered key n)^[6 + 52 / (n % 2 ^ 32)]
    (block, UInt32.ofNat (6 + 52 / (n % 2 ^ 32)) * teaDelta)).1 := by
  have hne : block ≠ [] := List.ne_nil_of_length_pos (by omega)
  have hruns := runsTimes_xxteaDecipher key (show 0 < n by omega) hlen (xxteaRounds_le n)
  have hrounds := iterate_decipherRound key (show 0 < n by omega) (6 + 52 / (n % 2 ^ 32))
    (x := (block, UInt32.ofNat (6 + 52 / (n % 2 ^ 32)) * teaDelta)) hlen
  have hloop := xxteaDecipherLoop_eq key hruns (Nat.le_refl _)
  rw [hrounds] at hloop
  rw [xxteaDecipher, if_neg hne, hlen, xxteaRounds_eq hwords]
  exact congrArg (fun s => Except.ok (XxteaState.block s)) hloop

lemma exists_xxteaEncipher : ∃ c, c.length = n ∧ xxteaEncipher block key = .ok c ∧
    xxteaDecipher c key = .ok block := by
  obtain ⟨hclen, hcsum⟩ := iterate_enciphered (n := n) key (6 + 52 / (n % 2 ^ 32)) (block, 0)
  refine ⟨_, hclen.trans hlen, xxteaEncipher_eq key hlen hn hwords, ?_⟩
  have hback := (deciphered_enciphered key hn).iterate (6 + 52 / (n % 2 ^ 32)) (block, 0)
  rw [UInt32.zero_add] at hcsum
  rw [xxteaDecipher_eq key (hclen.trans hlen) hn hwords, ← hcsum, hback]

lemma exists_xxteaDecipher : ∃ c, c.length = n ∧ xxteaDecipher block key = .ok c ∧
    xxteaEncipher c key = .ok block := by
  obtain ⟨hclen, hcsum⟩ := iterate_deciphered (n := n) key (6 + 52 / (n % 2 ^ 32))
    (block, UInt32.ofNat (6 + 52 / (n % 2 ^ 32)) * teaDelta)
  refine ⟨_, hclen.trans hlen, xxteaDecipher_eq key hlen hn hwords, ?_⟩
  have hback := (enciphered_deciphered key hn).iterate (6 + 52 / (n % 2 ^ 32))
    (block, UInt32.ofNat (6 + 52 / (n % 2 ^ 32)) * teaDelta)
  have hzero := (UInt32.add_left_inj _).1 (hcsum.trans (UInt32.zero_add _).symm)
  rw [xxteaEncipher_eq key (hclen.trans hlen) hn hwords, ← hzero, hback]

end Blocks

def xxteaEncipherBody (s : ℕ × XxteaState) : ℕ × XxteaState := (s.1 - 1, xxteaEncipherRound key s.2)

lemma runsTimes_xxteaEncipher (q : ℕ) (s : XxteaState) :
    RunsTimes (fun s => s.1 > 0) (xxteaEncipherBody key) (q, s) q := by
  have hcount (i : ℕ) : ((xxteaEncipherBody key)^[i] (q, s)).1 = q - i := by
    induction i with
    | zero => rfl
    | succ i ih =>
      rw [Function.iterate_succ_apply']
      show ((xxteaEncipherBody key)^[i] (q, s)).1 - 1 = _
      omega
  constructor
  · intro i hi
    show _ > 0
    rw [hcount]
    omega
  · show ¬ _ > 0
    rw [hcount]
    omega

end Xxtea

/-- **XXTEA and its inverse**: for every block of at least two words, unless its length is 0 as a
`u32`, each function undoes the other, and both run the same number of rounds. -/
theorem xxtea_inverse (block : List UInt32) (hn : 2 ≤ block.length)
    (hwords : block.length % 2 ^ 32 ≠ 0) (key : CryptKey) :
    (xxteaEncipher block key).bind (fun c => xxteaDecipher c key) = .ok block ∧
    (xxteaDecipher block key).bind (fun c => xxteaEncipher c key) = .ok block ∧
    ∃ q, xxteaRounds block.length = .ok q ∧ q = 6 + 52 / (block.length % 2 ^ 32) ∧
      RunsTimes (fun s => s.1 > 0) (xxteaEncipherBody key)
        (q, ⟨block, block.getD (block.length - 1) 0, 0⟩) q ∧
      RunsTimes (fun s => s.sum > 0) (xxteaDecipherRound key)
        ⟨block, block.getD 0 0, UInt32.ofNat q * teaDelta⟩ q := by
  obtain ⟨c, -, henc, hdec⟩ := exists_xxteaEncipher key rfl hn hwords
  obtain ⟨c', -, hdec', henc'⟩ := exists_xxteaDecipher key rfl hn hwords
  refine ⟨?_, ?_, _, xxteaRounds_eq hwords, rfl, runsTimes_xxteaEncipher key _ _, ?_⟩
  · rw [henc]
    exact hdec
  · rw [hdec']
    exact henc'
  · exact runsTimes_xxteaDecipher key (by omega) rfl (xxteaRounds_le _)

theorem threeWords_inverse :
    (xxteaEncipher [1, 2, 3] fun _ => 7).bind (fun c => xxteaDecipher c fun _ => 7) =
        .ok [1, 2, 3] ∧
      (xxteaDecipher [1, 2, 3] fun _ => 7).bind (fun c => xxteaEncipher c fun _ => 7) =
        .ok [1, 2, 3] ∧
      RunsTimes (fun s => s.sum > 0) (xxteaDecipherRound fun _ => 7)
        ⟨[1, 2, 3], 1, UInt32.ofNat 23 * teaDelta⟩ 23 := by
  obtain ⟨hdec, henc, q, -, hq, -, hruns⟩ :=
    xxtea_inverse [1, 2, 3] (by decide) (by decide) fun _ => 7
  subst hq
  exact ⟨hdec, henc, hruns⟩

/-- Blocks of 2^32 words are not enciphered, and two words more take as many rounds as two. -/
theorem hugeBlock_fails :
    (xxteaEncipher (List.replicate (2 ^ 32) 0) fun _ => 7).bind
        (fun c => xxteaDecipher c fun _ => 7) = .error (.panic "attempt to divide by zero") ∧
      xxteaRounds (List.replicate (2 ^ 32 + 2) (0 : UInt32)).length = .ok 32 ∧
      6 + 52 / (List.replicate (2 ^ 32 + 2) (0 : UInt32)).length = 6 := by
  have hne : List.replicate (2 ^ 32) (0 : UInt32) ≠ [] :=
    List.ne_nil_of_length_pos (by rw [List.length_replicate]; decide)
  refine ⟨?_, ?_, ?_⟩
  · rw [xxteaEncipher, if_neg hne, List.length_replicate]
    rfl
  · rw [List.length_replicate]
    rfl
  · rw [List.length_replicate]
    decide

end Moulars.Plasma
