import Mathlib.Algebra.Order.Ring.Nat
import Mathlib.Data.Nat.Log
import Mathlib.Data.Nat.ModEq
import Moulars.Lib.Wire

/-!
Unsigned integers of any size: their bits, their bytes, and powers modulo a number.
-/

namespace Moulars.Lib.BigUint

open Lib.Wire

def bits (n : ℕ) : ℕ := if n = 0 then 0 else Nat.log2 n + 1

lemma bits_le_iff {n k : ℕ} : bits n ≤ k ↔ n < 2 ^ k := by
  unfold bits
  split
  · rename_i hn
    simp [hn]
  · rename_i hn
    rw [Nat.succ_le_iff, Nat.log2_lt hn]

lemma lt_bits_iff {n k : ℕ} : k < bits n ↔ 2 ^ k ≤ n := by
  rw [← not_le, bits_le_iff, not_lt]

/-- The bytes of `n` without leading zeros, least significant first; zero is one byte. -/
def toBytesLe (n : ℕ) : Bytes := if n = 0 then [0] else le ((bits n + 7) / 8) n

lemma length_toBytesLe {n : ℕ} (hn : n ≠ 0) : (toBytesLe n).length = (bits n + 7) / 8 := by
  rw [toBytesLe, if_neg hn, length_le]

def fromBytesBe (bs : Bytes) : ℕ := ofLe bs.reverse

lemma fromBytesBe_lt (bs : Bytes) : fromBytesBe bs < 256 ^ bs.length := by
  rw [fromBytesBe, ← List.length_reverse]
  exact ofLe_lt bs.reverse

def toBytesBe (n : ℕ) : Bytes := (toBytesLe n).reverse

lemma ofLe_toBytesLe (n : ℕ) : ofLe (toBytesLe n) = n := by
  unfold toBytesLe
  split
  · rename_i hn
    rw [hn]
    rfl
  · have hlt : n < 2 ^ bits n := bits_le_iff.1 (Nat.le_refl _)
    refine ofLe_le _ n ?_
    calc
      n < 2 ^ bits n := hlt
      _ ≤ 2 ^ (8 * ((bits n + 7) / 8)) := Nat.pow_le_pow_right (by omega) (by omega)
      _ = 256 ^ ((bits n + 7) / 8) := pow_mul 2 8 _

lemma fromBytesBe_toBytesBe (n : ℕ) : fromBytesBe (toBytesBe n) = n := by
  rw [fromBytesBe, toBytesBe, List.reverse_reverse, ofLe_toBytesLe]

lemma one_lt_of_length_toBytesBe {n : ℕ} (h : 1 < (toBytesBe n).length) : 1 < n := by
  have hne : n ≠ 0 := by
    rintro rfl
    simp [toBytesBe, toBytesLe] at h
  rw [toBytesBe, List.length_reverse, length_toBytesLe hne] at h
  have hbits : 2 ^ 8 ≤ n := lt_bits_iff.1 (by omega)
  omega

def modpow (a k m : ℕ) : ℕ := a ^ k % m

lemma modpow_lt_iff {a k m b : ℕ} : modpow a k m < b ↔ ∃ s < b, a ^ k ≡ s [MOD m] := by
  constructor
  · intro h
    exact ⟨a ^ k % m, h, (Nat.mod_modEq _ m).symm⟩
  · rintro ⟨s, hs, hcongr⟩
    calc
      modpow a k m = s % m := hcongr
      _ ≤ s := Nat.mod_le s m
      _ < b := hs

/-- Two parties that raise each other's power to their own exponent get the same number. -/
lemma modpow_modpow_comm (g a b m : ℕ) :
    modpow (modpow g a m) b m = modpow (modpow g b m) a m := by
  unfold modpow
  rw [← Nat.pow_mod, ← Nat.pow_mod, ← pow_mul, ← pow_mul, Nat.mul_comm]

end Moulars.Lib.BigUint
