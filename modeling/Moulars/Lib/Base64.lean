import Moulars.Lib.Wire

/-!
Base64 with padding: four characters for every three bytes.
-/

namespace Moulars.Lib.Base64

open Lib.Wire

def alphabet : List Char :=
  "ABCDEFGHIJKLMNOPQRSTUVWXYZabcdefghijklmnopqrstuvwxyz0123456789+/".toList

def padding : Char := '='

def symbol (d : ℕ) : Char := alphabet.getD d padding

def value (c : Char) : Option ℕ := alphabet.idxOf? c

lemma symbol_spec {d : ℕ} (h : d < 64) : value (symbol d) = some d ∧ symbol d ≠ padding := by
  have hall : ∀ d < 64, value (symbol d) = some d ∧ symbol d ≠ padding := by decide +kernel
  exact hall d h

def encodeChars : Bytes → List Char
  | [] => []
  | [a] => [symbol (a.toNat / 4), symbol (a.toNat % 4 * 16), padding, padding]
  | [a, b] => [symbol (a.toNat / 4), symbol (a.toNat % 4 * 16 + b.toNat / 16),
      symbol (b.toNat % 16 * 4), padding]
  | a :: b :: c :: rest => symbol (a.toNat / 4) :: symbol (a.toNat % 4 * 16 + b.toNat / 16) ::
      symbol (b.toNat % 16 * 4 + c.toNat / 64) :: symbol (c.toNat % 64) :: encodeChars rest

/-- One to three bytes. The bits that a padded block leaves over are zero. -/
def decodeBlock (c₀ c₁ c₂ c₃ : Char) : Option Bytes := do
  let d₀ ← value c₀
  let d₁ ← value c₁
  let a := UInt8.ofNat (d₀ * 4 + d₁ / 16)
  if c₂ = padding ∧ c₃ = padding then
    if d₁ % 16 = 0 then some [a] else none
  else
    let d₂ ← value c₂
    let b := UInt8.ofNat (d₁ % 16 * 16 + d₂ / 4)
    if c₃ = padding then
      if d₂ % 4 = 0 then some [a, b] else none
    else
      let d₃ ← value c₃
      some [a, b, UInt8.ofNat (d₂ % 4 * 64 + d₃)]

/-- Any block can be padded, not only the last one. -/
def decodeChars : List Char → Option Bytes
  | [] => some []
  | c₀ :: c₁ :: c₂ :: c₃ :: rest => do
    let block ← decodeBlock c₀ c₁ c₂ c₃
    let bytes ← decodeChars rest
    some (block ++ bytes)
  | _ => none

def encode (bytes : Bytes) : String := String.ofList (encodeChars bytes)

def decode (text : String) : Option Bytes := decodeChars text.toList

lemma byte_eq {n : ℕ} {a : UInt8} (h : n = a.toNat) : UInt8.ofNat n = a := by
  rw [h, UInt8.ofNat_toNat]

lemma decodeBlock_one (a : UInt8) :
    decodeBlock (symbol (a.toNat / 4)) (symbol (a.toNat % 4 * 16)) padding padding = some [a] := by
  have ha := a.toNat_lt
  have h₀ := (symbol_spec (d := a.toNat / 4) (by omega)).1
  have h₁ := (symbol_spec (d := a.toNat % 4 * 16) (by omega)).1
  simp only [decodeBlock, h₀, h₁, Option.bind_eq_bind, Option.bind_some, and_self, if_true]
  rw [if_pos (by omega), byte_eq (a := a) (by omega)]

lemma decodeBlock_two (a b : UInt8) :
    decodeBlock (symbol (a.toNat / 4)) (symbol (a.toNat % 4 * 16 + b.toNat / 16))
      (symbol (b.toNat % 16 * 4)) padding = some [a, b] := by
  have ha := a.toNat_lt
  have hb := b.toNat_lt
  have h₀ := (symbol_spec (d := a.toNat / 4) (by omega)).1
  have h₁ := (symbol_spec (d := a.toNat % 4 * 16 + b.toNat / 16) (by omega)).1
  obtain ⟨h₂, hpad⟩ := symbol_spec (d := b.toNat % 16 * 4) (by omega)
  simp only [decodeBlock, h₀, h₁, h₂, hpad, Option.bind_eq_bind, Option.bind_some, false_and,
    if_false, if_true]
  rw [if_pos (by omega), byte_eq (a := a) (by omega), byte_eq (a := b) (by omega)]

lemma decodeBlock_three (a b c : UInt8) :
    decodeBlock (symbol (a.toNat / 4)) (symbol (a.toNat % 4 * 16 + b.toNat / 16))
      (symbol (b.toNat % 16 * 4 + c.toNat / 64)) (symbol (c.toNat % 64)) = some [a, b, c] := by
  have ha := a.toNat_lt
  have hb := b.toNat_lt
  have hc := c.toNat_lt
  have h₀ := (symbol_spec (d := a.toNat / 4) (by omega)).1
  have h₁ := (symbol_spec (d := a.toNat % 4 * 16 + b.toNat / 16) (by omega)).1
  have h₂ := (symbol_spec (d := b.toNat % 16 * 4 + c.toNat / 64) (by omega)).1
  obtain ⟨h₃, hpad⟩ := symbol_spec (d := c.toNat % 64) (by omega)
  simp only [decodeBlock, h₀, h₁, h₂, h₃, hpad, Option.bind_eq_bind, Option.bind_some, and_false,
    if_false]
  rw [byte_eq (a := a) (by omega), byte_eq (a := b) (by omega), byte_eq (a := c) (by omega)]

lemma decodeChars_encodeChars (bytes : Bytes) : decodeChars (encodeChars bytes) = some bytes := by
  induction bytes using encodeChars.induct with
  | case1 => rfl
  | case2 a =>
    rw [encodeChars, decodeChars, decodeBlock_one]
    rfl
  | case3 a b =>
    rw [encodeChars, decodeChars, decodeBlock_two]
    rfl
  | case4 a b c rest ih =>
    rw [encodeChars, decodeChars, decodeBlock_three, ih]
    rfl

theorem decode_encode (bytes : Bytes) : decode (encode bytes) = some bytes := by
  rw [decode, encode, String.toList_ofList, decodeChars_encodeChars]

end Moulars.Lib.Base64
