import Moulars.Lib.Text

/-!
Texts cut after a number of bytes.

A cut between characters loses those after it; a cut inside a character turns what is left of
it into one replacement character. So a text survives a cut exactly if it is short enough, or if
it ends in a replacement character and the cut falls into that.
-/

namespace Moulars.Lib.Text

open Lib.Wire

/-! ### Decoding, character by character -/

lemma utf8Step_suffix (a : UInt8) (r : Bytes) : (utf8Step a r).2 <:+ r := by
  rw [utf8Step.eq_def]
  repeat' split
  all_goals first
    | exact ⟨[], rfl⟩
    | exact ⟨[_], rfl⟩
    | exact ⟨[_, _], rfl⟩
    | exact ⟨[_, _, _], rfl⟩

lemma utf8Take_of_length_le {bs : Bytes} {n m : ℕ} (hn : bs.length ≤ n) (hm : bs.length ≤ m) :
    utf8Take n bs = utf8Take m bs := by
  induction n generalizing bs m with
  | zero =>
    obtain rfl := List.length_eq_zero_iff.1 (Nat.le_zero.1 hn)
    cases m <;> rfl
  | succ n ih =>
    cases bs with
    | nil => cases m <;> rfl
    | cons a r =>
      have hlen := (utf8Step_suffix a r).length_le
      simp only [List.length_cons] at hn hm
      obtain ⟨m, rfl⟩ : ∃ k, m = k + 1 := ⟨m - 1, by omega⟩
      rw [utf8Take, utf8Take, ih (by omega) (by omega : _ ≤ m)]

lemma fromUtf8Lossy_cons (a : UInt8) (r : Bytes) :
    fromUtf8Lossy (a :: r) = (utf8Step a r).1 :: fromUtf8Lossy (utf8Step a r).2 := by
  rw [fromUtf8Lossy, List.length_cons, utf8Take, fromUtf8Lossy,
    utf8Take_of_length_le (utf8Step_suffix a r).length_le le_rfl]

@[simp] lemma encodeUtf8_nil : encodeUtf8 [] = [] := rfl

@[simp] lemma encodeUtf8_cons (c : Char) (cs : List Char) :
    encodeUtf8 (c :: cs) = String.utf8EncodeChar c ++ encodeUtf8 cs :=
  List.flatMap_cons

@[simp] lemma encodeUtf8_append (cs ds : List Char) :
    encodeUtf8 (cs ++ ds) = encodeUtf8 cs ++ encodeUtf8 ds :=
  List.flatMap_append

lemma fromUtf8Lossy_append (cs : List Char) (rest : Bytes) :
    fromUtf8Lossy (encodeUtf8 cs ++ rest) = cs ++ fromUtf8Lossy rest := by
  induction cs with
  | nil => rfl
  | cons c cs ih =>
    obtain ⟨a, t, hc, hstep⟩ := utf8Step_utf8EncodeChar c (encodeUtf8 cs ++ rest)
    rw [encodeUtf8_cons, hc, List.append_assoc, List.cons_append, fromUtf8Lossy_cons, hstep, ih]
    rfl

/-! ### Zeros -/

lemma isCont_iff {b : UInt8} : isCont b = true ↔ 0x80 ≤ b.toNat ∧ b.toNat ≤ 0xBF := by
  simp [isCont]

lemma isSecond3_iff {a b : UInt8} : isSecond3 a b = true ↔
    0x80 ≤ b.toNat ∧ b.toNat ≤ 0xBF ∧ (a.toNat = 0xE0 → 0xA0 ≤ b.toNat) ∧
      (a.toNat = 0xED → b.toNat ≤ 0x9F) := by
  rw [isSecond3]
  split
  · simp
    omega
  · split
    · simp
      omega
    · rw [isCont_iff]
      omega

lemma isSecond4_iff {a b : UInt8} : isSecond4 a b = true ↔
    0x80 ≤ b.toNat ∧ b.toNat ≤ 0xBF ∧ (a.toNat = 0xF0 → 0x90 ≤ b.toNat) ∧
      (a.toNat = 0xF4 → b.toNat ≤ 0x8F) := by
  rw [isSecond4]
  split
  · simp
    omega
  · split
    · simp
      omega
    · rw [isCont_iff]
      omega

lemma toNat_ofNat_ne_zero {n : ℕ} (hv : n < 0xD800 ∨ 0xDFFF < n ∧ n < 0x110000) (h0 : n ≠ 0) :
    (Char.ofNat n).toNat ≠ 0 := by
  rw [Char.ofNat, dif_pos hv]
  exact h0

lemma utf8Step_ne_zero {a : UInt8} (r : Bytes) (ha : a.toNat ≠ 0) :
    (utf8Step a r).1.toNat ≠ 0 := by
  have hreplacement : replacement.toNat ≠ 0 := by decide
  rw [utf8Step.eq_def]
  split
  · exact toNat_ofNat_ne_zero (by omega) ha
  split
  · split
    · split
      · exact toNat_ofNat_ne_zero (by omega) (by omega)
      · exact hreplacement
    · exact hreplacement
  split
  · split
    · split
      · rename_i hb
        rw [isSecond3_iff] at hb
        split
        · exact toNat_ofNat_ne_zero (by omega) (by omega)
        · exact hreplacement
      · exact hreplacement
    · split <;> exact hreplacement
    · exact hreplacement
  split
  · split
    · split
      · rename_i hb
        rw [isSecond4_iff] at hb
        split
        · split
          · exact toNat_ofNat_ne_zero (by omega) (by omega)
          · exact hreplacement
        · exact hreplacement
      · exact hreplacement
    · split
      · split <;> exact hreplacement
      · exact hreplacement
    · split <;> exact hreplacement
    · exact hreplacement
  · exact hreplacement

lemma Utf8Bytes.notMem_zero {c : Char} {bs : Bytes} (h : Utf8Bytes c bs) (h0 : c.toNat ≠ 0) :
    0 ∉ bs := by
  have hpos : ∀ b ∈ bs, b.toNat ≠ 0 := by
    cases h with
    | one ha hc => exact List.forall_mem_singleton.2 (by omega)
    | two ha hb hc =>
      rw [isCont_iff] at hb
      exact List.forall_mem_cons.2 ⟨by omega, List.forall_mem_singleton.2 (by omega)⟩
    | three ha hb hd hc =>
      rw [isSecond3_iff] at hb
      rw [isCont_iff] at hd
      exact List.forall_mem_cons.2 ⟨by omega, List.forall_mem_cons.2
        ⟨by omega, List.forall_mem_singleton.2 (by omega)⟩⟩
    | four ha hb hd he hc =>
      rw [isSecond4_iff] at hb
      rw [isCont_iff] at hd he
      exact List.forall_mem_cons.2 ⟨by omega, List.forall_mem_cons.2
        ⟨by omega, List.forall_mem_cons.2 ⟨by omega, List.forall_mem_singleton.2 (by omega)⟩⟩⟩
  exact fun hmem => hpos 0 hmem rfl

lemma notMem_encodeUtf8_fromUtf8Lossy {bs : Bytes} (h : 0 ∉ bs) :
    0 ∉ encodeUtf8 (fromUtf8Lossy bs) := by
  induction hn : bs.length using Nat.strong_induction_on generalizing bs with
  | _ n ih =>
    cases bs with
    | nil => simp [fromUtf8Lossy, utf8Take]
    | cons a r =>
      have hsuffix := utf8Step_suffix a r
      have ha : a.toNat ≠ 0 := by
        intro h0
        obtain rfl : a = 0 := UInt8.toNat_inj.1 h0
        exact h List.mem_cons_self
      rw [fromUtf8Lossy_cons, encodeUtf8_cons, List.mem_append, not_or]
      refine ⟨(utf8Bytes_utf8EncodeChar _).notMem_zero (utf8Step_ne_zero r ha), ih _ ?_ ?_ rfl⟩
      · have := hsuffix.length_le
        simp only [List.length_cons] at hn
        omega
      · exact fun hmem => h (List.mem_cons_of_mem _ (hsuffix.subset hmem))

/-! ### Cuts -/

lemma fromUtf8Lossy_of_step {a : UInt8} {r : Bytes} (h : utf8Step a r = (replacement, [])) :
    fromUtf8Lossy (a :: r) = [replacement] := by
  rw [fromUtf8Lossy_cons, h]
  rfl

/-- **Part of a character** is decoded to one replacement character. -/
lemma Utf8Bytes.cut {c : Char} {bs : Bytes} (h : Utf8Bytes c bs) {n : ℕ} (h0 : 0 < n)
    (hn : n < bs.length) : fromUtf8Lossy (bs.take n) = [replacement] := by
  cases h with
  | one ha hc =>
    simp only [List.length_singleton] at hn
    omega
  | two ha hb hc =>
    simp only [List.length_cons, List.length_nil] at hn
    obtain rfl : n = 1 := by omega
    refine fromUtf8Lossy_of_step ?_
    rw [utf8Step.eq_def, if_neg (by omega), if_pos ha]
    rfl
  | three ha hb hd hc =>
    simp only [List.length_cons, List.length_nil] at hn
    obtain rfl | rfl : n = 1 ∨ n = 2 := by omega
    · refine fromUtf8Lossy_of_step ?_
      rw [utf8Step.eq_def, if_neg (by omega), if_neg (by omega), if_pos ha]
      rfl
    · refine fromUtf8Lossy_of_step ?_
      rw [utf8Step.eq_def, if_neg (by omega), if_neg (by omega), if_pos ha]
      exact if_pos hb
  | four ha hb hd he hc =>
    simp only [List.length_cons, List.length_nil] at hn
    obtain rfl | rfl | rfl : n = 1 ∨ n = 2 ∨ n = 3 := by omega
    · refine fromUtf8Lossy_of_step ?_
      rw [utf8Step.eq_def, if_neg (by omega), if_neg (by omega), if_neg (by omega), if_pos ha]
      rfl
    · refine fromUtf8Lossy_of_step ?_
      rw [utf8Step.eq_def, if_neg (by omega), if_neg (by omega), if_neg (by omega), if_pos ha]
      exact if_pos hb
    · refine fromUtf8Lossy_of_step ?_
      rw [utf8Step.eq_def, if_neg (by omega), if_neg (by omega), if_neg (by omega), if_pos ha]
      exact (if_pos hb).trans (if_pos hd)

lemma exists_cut {cs : List Char} {n : ℕ} (h : n < (encodeUtf8 cs).length) :
    ∃ done c rest, cs = done ++ c :: rest ∧ (encodeUtf8 done).length ≤ n ∧
      n < (encodeUtf8 done).length + (String.utf8EncodeChar c).length := by
  induction cs generalizing n with
  | nil => simp at h
  | cons c cs ih =>
    by_cases hc : n < (String.utf8EncodeChar c).length
    · exact ⟨[], c, cs, rfl, by simp, by simpa using hc⟩
    · rw [encodeUtf8_cons, List.length_append] at h
      obtain ⟨done, d, rest, rfl, hle, hlt⟩ :=
        ih (n := n - (String.utf8EncodeChar c).length) (by omega)
      refine ⟨c :: done, d, rest, rfl, ?_, ?_⟩
      · rw [encodeUtf8_cons, List.length_append]
        omega
      · rw [encodeUtf8_cons, List.length_append]
        omega

/-- **What is left of a text** after a cut into the character `c`, or right before it. -/
lemma fromUtf8Lossy_take {done rest : List Char} {c : Char} {n : ℕ}
    (hle : (encodeUtf8 done).length ≤ n)
    (hlt : n < (encodeUtf8 done).length + (String.utf8EncodeChar c).length) :
    fromUtf8Lossy ((encodeUtf8 (done ++ c :: rest)).take n) =
      done ++ if (encodeUtf8 done).length = n then [] else [replacement] := by
  rw [encodeUtf8_append, List.take_append, List.take_of_length_le hle, fromUtf8Lossy_append,
    encodeUtf8_cons, List.take_append_of_le_length (by omega)]
  split
  · rename_i heq
    simp [heq, fromUtf8Lossy, utf8Take]
  · rw [(utf8Bytes_utf8EncodeChar c).cut (by omega) (by omega)]

/-- **A text survives a cut** exactly if it is short enough, or if it ends in a replacement
character that the cut leaves a part of. -/
lemma fromUtf8Lossy_take_eq_iff {cs : List Char} {n : ℕ} :
    fromUtf8Lossy ((encodeUtf8 cs).take n) = cs ↔ (encodeUtf8 cs).length ≤ n ∨
      ∃ done, cs = done ++ [replacement] ∧ (encodeUtf8 done).length < n := by
  by_cases hlen : (encodeUtf8 cs).length ≤ n
  · rw [List.take_of_length_le hlen, fromUtf8Lossy_encodeUtf8]
    exact iff_of_true rfl (.inl hlen)
  · obtain ⟨done, c, rest, rfl, hle, hlt⟩ := exists_cut (Nat.lt_of_not_le hlen)
    rw [fromUtf8Lossy_take hle hlt, List.append_cancel_left_eq]
    constructor
    · intro h
      split at h
      · cases h
      · cases h
        exact .inr ⟨done, rfl, by omega⟩
    · rintro (h | ⟨ds, hds, hlt'⟩)
      · exact absurd h hlen
      · rcases List.eq_nil_or_concat' rest with rfl | ⟨rest, d, rfl⟩
        · obtain ⟨rfl, hc⟩ := List.append_inj' hds rfl
          rw [if_neg (by omega), hc]
        · -- the cut would fall behind the character it falls into
          rw [← List.cons_append, ← List.append_assoc] at hds
          obtain ⟨rfl, -⟩ := List.append_inj' hds rfl
          rw [encodeUtf8_append, encodeUtf8_cons, List.length_append, List.length_append] at hlt'
          omega

end Moulars.Lib.Text
