import Moulars.Hashes
import Moulars.Lib.Fallible
import Moulars.Lib.Sha0
import Moulars.Lib.Slices

/-!
`ShaDigest::sha0` step by step, and that it computes the SHA-0 of the standard.

The function is modelled with all of its checks: indices, slices, lengths that have to be equal,
sizes that must not overflow. None of them ever fails.
-/

namespace Moulars.Hashes.ShaDigest

open Lib Lib.Wire Lib.Fallible

/-- The buffer: the message, `0x80`, zeros and the size in bits. -/
def paddedBuffer (data : Bytes) : Except Fault Bytes := do
  let size ← Slices.add data.length 1
  let size ← Slices.add size 8
  let size ← Slices.add size (64 - 1)
  let bufSize ← Slices.mul (size / 64) 64
  let buffer ← Slices.vec 0 bufSize
  let (dataPart, suffix) ← Slices.splitAt buffer data.length
  let dataPart ← Slices.copyFrom dataPart data
  let sizeInBits ← Slices.mul data.length 8
  let suffix ← Slices.set suffix 0 0x80
  let sizePos ← Slices.sub suffix.length 8
  let (front, sizeBuf) ← Slices.splitAt suffix sizePos
  let sizeBuf ← Slices.copyFrom sizeBuf (beBytes 8 sizeInBits)
  pure (dataPart ++ (front ++ sizeBuf))

/-- `u32::from_be_bytes(src.try_into().unwrap())`. -/
def fromBeBytes : Bytes → Except Fault UInt32
  | [a, b, c, d] => .ok (UInt32.ofNat (ofLe [d, c, b, a]))
  | _ => .error (.panic
      "called `Result::unwrap()` on an `Err` value: TryFromSliceError(())")

/-- The words of the block are written over the first sixteen words of the work array. -/
def loadWords (chunk : Bytes) (work : List UInt32) : Except Fault (List UInt32) := do
  let dest ← Slices.slice work 0 16
  let words ← ((Slices.chunksExact 4 chunk).zip dest).mapM fun (src, _) => fromBeBytes src
  pure (words ++ work.drop words.length)

/-- The other words, each from four before it. -/
def extendWords (work : List UInt32) : Except Fault (List UInt32) :=
  (List.range' 16 64).foldlM (fun work i => do
    let w₃ ← Slices.get work (i - 3)
    let w₈ ← Slices.get work (i - 8)
    let w₁₄ ← Slices.get work (i - 14)
    let w₁₆ ← Slices.get work (i - 16)
    -- SHA-1 rotates this word
    Slices.set work i (w₃ ^^^ w₈ ^^^ w₁₄ ^^^ w₁₆)) work

def mainLoop (work : List UInt32) (hv : Words) : Except Fault Words := do
  let hv := (← Slices.slice work 0 20).foldl (fun hv w =>
    shaCommon hv ((hv.b &&& hv.c) ||| (~~~ hv.b &&& hv.d)) 0x5a827999 w) hv
  let hv := (← Slices.slice work 20 40).foldl (fun hv w =>
    shaCommon hv (hv.b ^^^ hv.c ^^^ hv.d) 0x6ed9eba1 w) hv
  let hv := (← Slices.slice work 40 60).foldl (fun hv w =>
    shaCommon hv ((hv.b &&& hv.c) ||| (hv.b &&& hv.d) ||| (hv.c &&& hv.d)) 0x8f1bbcdc w) hv
  let hv := (← Slices.slice work 60 80).foldl (fun hv w =>
    shaCommon hv (hv.b ^^^ hv.c ^^^ hv.d) 0xca62c1d6 w) hv
  pure hv

/-- One block: the work array and the hash after it. -/
def hashChunk (s : List UInt32 × Words) (chunk : Bytes) : Except Fault (List UInt32 × Words) := do
  let work ← loadWords chunk s.1
  let work ← extendWords work
  let hv ← mainLoop work s.2
  pure (work, ⟨s.2.a + hv.a, s.2.b + hv.b, s.2.c + hv.c, s.2.d + hv.d, s.2.e + hv.e⟩)

def sha0Checked (data : Bytes) : Except Fault ShaDigest := do
  let buffer ← paddedBuffer data
  let (_, hash) ← (Slices.chunksExact 64 buffer).foldlM hashChunk
    (List.replicate 80 0, ⟨0x67452301, 0xefcdab89, 0x98badcfe, 0x10325476, 0xc3d2e1f0⟩)
  pure ⟨hash.toBytes, hash.length_toBytes⟩

/-! ### The buffer -/

lemma length_shaPad (data : Bytes) : (shaPad data).length = (data.length + 72) / 64 * 64 := by
  simp only [shaPad, List.length_append, List.length_cons, List.length_replicate, beBytes,
    List.length_reverse, length_le]
  omega

lemma toNat_sizeInBits {n : ℕ} (h : n < 2 ^ 61) : (UInt64.ofNat n * 8).toNat = n * 8 := by
  rw [UInt64.toNat_mul, UInt64.toNat_ofNat_of_lt' (by rw [UInt64.size]; omega)]
  exact Nat.mod_eq_of_lt (by show n * 8 < _; omega)

variable {data : Bytes} {work : List UInt32} {i : ℕ}

/-- **No size overflows and no slice is out of range**, and the buffer is the padded message. -/
lemma paddedBuffer_eq (h : data.length < 2 ^ 61) :
    paddedBuffer data = .ok (shaPad data) := by
  obtain ⟨z, hz⟩ : ∃ z, (data.length + 1 + 8 + 63) / 64 * 64 = data.length + (1 + z + 8) :=
    ⟨(data.length + 72) / 64 * 64 - data.length - 9, by omega⟩
  have hbuffer : List.replicate ((data.length + 1 + 8 + (64 - 1)) / 64 * 64) (0 : UInt8) =
      List.replicate data.length 0 ++ (0 :: (List.replicate z 0 ++ List.replicate 8 0)) := by
    rw [hz, ← List.replicate_append_replicate, Nat.add_assoc, Nat.add_comm 1,
      List.replicate_succ, List.replicate_append_replicate]
  have hpad : shaPad data =
      data ++ ((0x80 :: List.replicate z 0) ++ beBytes 8 (data.length * 8)) := by
    rw [shaPad, hz, toNat_sizeInBits h, List.append_assoc]
    simp only [show data.length + (1 + z + 8) - data.length - 9 = z by omega]
  rw [hpad]
  refine bind_eq_ok.2 ⟨_, Slices.add_eq (by omega), ?_⟩
  refine bind_eq_ok.2 ⟨_, Slices.add_eq (by omega), ?_⟩
  refine bind_eq_ok.2 ⟨_, Slices.add_eq (by omega), ?_⟩
  refine bind_eq_ok.2 ⟨_, Slices.mul_eq (by omega), ?_⟩
  refine bind_eq_ok.2 ⟨_, Slices.vec_eq (by omega) 0, ?_⟩
  rw [hbuffer]
  refine bind_eq_ok.2 ⟨_, Slices.splitAt_append _ (List.length_replicate ..).symm, ?_⟩
  refine bind_eq_ok.2 ⟨_, Slices.copyFrom_eq (by rw [List.length_replicate]), ?_⟩
  refine bind_eq_ok.2 ⟨_, Slices.mul_eq (by omega), ?_⟩
  refine bind_eq_ok.2 ⟨_, Slices.set_append [] 0x80 0, ?_⟩
  refine bind_eq_ok.2 ⟨_, Slices.sub_eq (by simp), ?_⟩
  refine bind_eq_ok.2 ⟨_, Slices.splitAt_append (0x80 :: List.replicate z 0) (by simp), ?_⟩
  exact bind_eq_ok.2 ⟨_, Slices.copyFrom_eq (by simp [beBytes]), rfl⟩

/-! ### The words -/

lemma length_lt_four {bs : Bytes} (h : ∀ a b c d rest, bs = a :: b :: c :: d :: rest → False) :
    bs.length < 4 := by
  rcases bs with _ | ⟨a, _ | ⟨b, _ | ⟨c, _ | ⟨d, rest⟩⟩⟩⟩
  · decide
  · simp
  · simp
  · simp
  · exact absurd rfl (h a b c d rest)

lemma mapM_fromBeBytes (bs : Bytes) :
    (Slices.chunksExact 4 bs).mapM fromBeBytes = .ok (beWords bs) := by
  fun_induction beWords bs with
  | case1 a b c d rest ih =>
    rw [Slices.chunksExact_of_le (by decide) (by simp), List.mapM_cons]
    exact bind_eq_ok.2 ⟨_, rfl, bind_eq_ok.2 ⟨_, ih, rfl⟩⟩
  | case2 bs h =>
    rw [Slices.chunksExact_of_lt (length_lt_four h)]
    rfl

lemma length_beWords (bs : Bytes) : (beWords bs).length = bs.length / 4 := by
  rw [← (mapM_eq_ok.1 (mapM_fromBeBytes bs)).length_eq, Slices.length_chunksExact]

lemma loadWords_eq {chunk : Bytes} (hchunk : chunk.length = 64) (hwork : work.length = 80) :
    loadWords chunk work = .ok (beWords chunk ++ work.drop 16) := by
  have hwords : (beWords chunk).length = 16 := by rw [length_beWords, hchunk]
  have hdest : ((work.drop 0).take 16).length = 16 := by simp [hwork]
  have hfst : ((Slices.chunksExact 4 chunk).zip ((work.drop 0).take 16)).map Prod.fst =
      Slices.chunksExact 4 chunk :=
    List.map_fst_zip (by rw [hdest, Slices.length_chunksExact, hchunk])
  refine bind_eq_ok.2 ⟨_, Slices.slice_eq (by decide) (by rw [hwork]; decide), ?_⟩
  refine bind_eq_ok.2 ⟨beWords chunk, ?_, by rw [hwords]; rfl⟩
  rw [← mapM_fromBeBytes, ← hfst, List.mapM_map, hfst]
  rfl

lemma length_schedule (n : ℕ) (work : List UInt32) :
    (schedule n work).length = work.length + n := by
  induction n generalizing work with
  | zero => rfl
  | succ n ih =>
    rw [schedule, ih, List.length_append, List.length_singleton]
    omega

lemma foldlM_extend {n : ℕ} {rest : List UInt32} (hwork : work.length = i) (hi : 16 ≤ i)
    (hrest : rest.length = n) : (List.range' i n).foldlM (fun work i => do
      let w₃ ← Slices.get work (i - 3)
      let w₈ ← Slices.get work (i - 8)
      let w₁₄ ← Slices.get work (i - 14)
      let w₁₆ ← Slices.get work (i - 16)
      Slices.set work i (w₃ ^^^ w₈ ^^^ w₁₄ ^^^ w₁₆)) (work ++ rest) =
        (.ok (schedule n work) : Except Fault (List UInt32)) := by
  induction n generalizing i work rest with
  | zero =>
    obtain rfl := List.eq_nil_of_length_eq_zero hrest
    rw [List.append_nil]
    rfl
  | succ n ih =>
    obtain ⟨w, rest, rfl⟩ := List.exists_cons_of_length_eq_add_one hrest
    subst hwork
    rw [List.range'_succ, List.foldlM_cons]
    refine bind_eq_ok.2 ⟨work ++ (work.getD (work.length - 3) 0 ^^^
      work.getD (work.length - 8) 0 ^^^ work.getD (work.length - 14) 0 ^^^
      work.getD (work.length - 16) 0) :: rest, ?_, ?_⟩
    · refine bind_eq_ok.2 ⟨_, Slices.get_append (by omega) 0, ?_⟩
      refine bind_eq_ok.2 ⟨_, Slices.get_append (by omega) 0, ?_⟩
      refine bind_eq_ok.2 ⟨_, Slices.get_append (by omega) 0, ?_⟩
      refine bind_eq_ok.2 ⟨_, Slices.get_append (by omega) 0, ?_⟩
      exact Slices.set_append _ _ _
    · rw [List.append_cons, schedule]
      refine ih (by rw [List.length_append, List.length_singleton]) (by omega) ?_
      exact Nat.succ.inj hrest

lemma extendWords_eq {words rest : List UInt32} (hwords : words.length = 16)
    (hrest : rest.length = 64) : extendWords (words ++ rest) = .ok (schedule 64 words) :=
  foldlM_extend hwords (Nat.le_refl _) hrest

/-! ### The main loop -/

lemma shaRounds_append (i : ℕ) (ws ws' : List UInt32) (hv : Words) :
    shaRounds i (ws ++ ws') hv = shaRounds (i + ws.length) ws' (shaRounds i ws hv) := by
  induction ws generalizing i hv with
  | nil => rfl
  | cons w ws ih =>
    rw [List.cons_append, shaRounds, shaRounds, ih, List.length_cons, Nat.add_right_comm,
      Nat.add_assoc]

lemma shaRounds_group {f : Words → UInt32} {k : UInt32} {ws : List UInt32}
    (h : ∀ j < ws.length, ∀ hv, roundOf (i + j) hv = (f hv, k)) (hv : Words) :
    shaRounds i ws hv = ws.foldl (fun hv w => shaCommon hv (f hv) k w) hv := by
  induction ws generalizing i hv with
  | nil => rfl
  | cons w ws ih =>
    have hfirst := h 0 (by simp) hv
    rw [Nat.add_zero] at hfirst
    rw [shaRounds, List.foldl_cons, hfirst, ih]
    intro j hj hv
    have hnext := h (j + 1) (by simpa using hj) hv
    rwa [← Nat.add_assoc, Nat.add_right_comm] at hnext

lemma roundOf_group {j : ℕ} (hj : j < 20) (hv : Words) :
    roundOf (0 + j) hv = ((hv.b &&& hv.c) ||| (~~~ hv.b &&& hv.d), 0x5a827999) ∧
      roundOf (20 + j) hv = (hv.b ^^^ hv.c ^^^ hv.d, 0x6ed9eba1) ∧
      roundOf (40 + j) hv =
        ((hv.b &&& hv.c) ||| (hv.b &&& hv.d) ||| (hv.c &&& hv.d), 0x8f1bbcdc) ∧
      roundOf (60 + j) hv = (hv.b ^^^ hv.c ^^^ hv.d, 0xca62c1d6) := by
  refine ⟨?_, ?_, ?_, ?_⟩
  · rw [roundOf, if_pos (by omega)]
  · rw [roundOf, if_neg (by omega), if_pos (by omega)]
  · rw [roundOf, if_neg (by omega), if_neg (by omega), if_pos (by omega)]
  · rw [roundOf, if_neg (by omega), if_neg (by omega), if_neg (by omega)]

lemma mainLoop_eq (hwork : work.length = 80) (hv : Words) :
    mainLoop work hv = .ok (shaRounds 0 work hv) := by
  obtain ⟨w₀, w₁, w₂, w₃, rfl, h₀, h₁, h₂, h₃⟩ : ∃ w₀ w₁ w₂ w₃, work = w₀ ++ (w₁ ++ (w₂ ++ w₃)) ∧
      w₀.length = 20 ∧ w₁.length = 20 ∧ w₂.length = 20 ∧ w₃.length = 20 := by
    refine ⟨work.take 20, (work.drop 20).take 20, ((work.drop 20).drop 20).take 20,
      ((work.drop 20).drop 20).drop 20, ?_, ?_⟩
    · simp only [List.take_append_drop]
    · simp only [List.length_take, List.length_drop, hwork]
      decide
  have hrounds : shaRounds 0 (w₀ ++ (w₁ ++ (w₂ ++ w₃))) hv =
      shaRounds 60 w₃ (shaRounds 40 w₂ (shaRounds 20 w₁ (shaRounds 0 w₀ hv))) := by
    simp only [shaRounds_append, h₀, h₁, h₂]
  rw [hrounds, shaRounds_group fun j hj hv => (roundOf_group (h₀ ▸ hj) hv).1,
    shaRounds_group fun j hj hv => (roundOf_group (h₁ ▸ hj) hv).2.1,
    shaRounds_group fun j hj hv => (roundOf_group (h₂ ▸ hj) hv).2.2.1,
    shaRounds_group fun j hj hv => (roundOf_group (h₃ ▸ hj) hv).2.2.2]
  refine bind_eq_ok.2 ⟨w₀, Slices.slice_append [] _ _ rfl (by rw [h₀]), ?_⟩
  refine bind_eq_ok.2 ⟨w₁, Slices.slice_append w₀ _ _ h₀.symm (by rw [h₁]), ?_⟩
  rw [← List.append_assoc]
  refine bind_eq_ok.2 ⟨w₂, Slices.slice_append _ _ _ (by simp [h₀, h₁]) (by rw [h₂]), ?_⟩
  rw [← List.append_assoc, ← List.append_nil w₃]
  refine bind_eq_ok.2 ⟨w₃, Slices.slice_append _ _ _ (by simp [h₀, h₁, h₂]) (by rw [h₃]), ?_⟩
  rw [List.append_nil]
  rfl

/-! ### All blocks -/

lemma hashChunk_eq {chunk : Bytes} (hchunk : chunk.length = 64) (hwork : work.length = 80)
    (hash : Words) : ∃ work', work'.length = 80 ∧
      hashChunk (work, hash) chunk = .ok (work', shaBlock hash chunk) := by
  have hwords : (beWords chunk).length = 16 := by rw [length_beWords, hchunk]
  have hlen : (schedule 64 (beWords chunk)).length = 80 := by rw [length_schedule, hwords]
  refine ⟨schedule 64 (beWords chunk), hlen, ?_⟩
  refine bind_eq_ok.2 ⟨_, loadWords_eq hchunk hwork, ?_⟩
  refine bind_eq_ok.2 ⟨_, extendWords_eq hwords (by rw [List.length_drop, hwork]), ?_⟩
  exact bind_eq_ok.2 ⟨_, mainLoop_eq hlen hash, rfl⟩

lemma foldlM_hashChunk {n : ℕ} {buffer : Bytes} (hbuffer : buffer.length = 64 * n)
    (hwork : work.length = 80) (hash : Words) : ∃ work',
      (Slices.chunksExact 64 buffer).foldlM hashChunk (work, hash) =
        .ok (work', shaBlocks n buffer hash) := by
  induction n generalizing buffer work hash with
  | zero =>
    rw [Slices.chunksExact_of_lt (by omega)]
    exact ⟨work, rfl⟩
  | succ n ih =>
    have htake : (buffer.take 64).length = 64 := by
      rw [List.length_take]
      omega
    obtain ⟨work₁, hwork₁, hchunk⟩ := hashChunk_eq htake hwork hash
    have hdrop : (buffer.drop 64).length = 64 * n := by
      rw [List.length_drop]
      omega
    obtain ⟨work', hrest⟩ := ih hdrop hwork₁ (shaBlock hash (buffer.take 64))
    refine ⟨work', ?_⟩
    rw [Slices.chunksExact_of_le (by decide) (by omega), List.foldlM_cons]
    exact bind_eq_ok.2 ⟨_, hchunk, hrest⟩

/-- **The function never panics**, and its digest is that of the shorter model. -/
lemma sha0Checked_eq (h : data.length < 2 ^ 61) :
    sha0Checked data = .ok (sha0 data) := by
  have hlen : (shaPad data).length = 64 * ((shaPad data).length / 64) := by
    rw [length_shaPad]
    omega
  have hwork : (List.replicate 80 (0 : UInt32)).length = 80 := List.length_replicate ..
  obtain ⟨work, hblocks⟩ := foldlM_hashChunk hlen hwork
    ⟨0x67452301, 0xefcdab89, 0x98badcfe, 0x10325476, 0xc3d2e1f0⟩
  exact bind_eq_ok.2 ⟨_, paddedBuffer_eq h, bind_eq_ok.2 ⟨_, hblocks, rfl⟩⟩

/-! ### The standard -/

lemma beBytes_eq (n x : ℕ) : beBytes n x = Sha0.be n x := by
  induction n generalizing x with
  | zero => rfl
  | succ n ih =>
    have hfront : beBytes (n + 1) x = beBytes n (x / 256) ++ [UInt8.ofNat x] := List.reverse_cons
    rw [hfront, ih, Sha0.be, Sha0.be, List.range_succ, List.map_append]
    congr 1
    · refine List.map_congr_left fun i hi => ?_
      rw [List.mem_range] at hi
      rw [Nat.div_div_eq_div_mul, ← Nat.pow_succ', show (n - 1 - i).succ = n + 1 - 1 - i by omega]
    · simp

lemma shaPad_eq (h : data.length < 2 ^ 61) : shaPad data = Sha0.pad data := by
  have hzeros : Sha0.zeros data.length =
      (data.length + 1 + 8 + 63) / 64 * 64 - data.length - 9 := Sha0.zeros_eq (by omega) (by omega)
  rw [shaPad, Sha0.pad, hzeros, toNat_sizeInBits h, beBytes_eq, Nat.mul_comm 8]

lemma beWords_eq (bs : Bytes) : beWords bs = (List.range (bs.length / 4)).map (Sha0.word bs) := by
  fun_induction beWords bs with
  | case1 a b c d rest ih =>
    have hdiv : (a :: b :: c :: d :: rest).length / 4 = rest.length / 4 + 1 := by
      simp only [List.length_cons]
      omega
    rw [hdiv, List.range_succ_eq_map, List.map_cons, List.map_map, ih]
    congr 1
    simp only [Sha0.word, ofLe, Nat.mul_zero, Nat.zero_add, List.getD_cons_zero,
      List.getD_cons_succ]
    congr 1
    omega
  | case2 bs h =>
    rw [Nat.div_eq_of_lt (length_lt_four h)]
    rfl

lemma word_chunk {padded : Bytes} {t : ℕ} (ht : t < 16) :
    Sha0.word ((padded.drop (64 * i)).take 64) t = Sha0.word padded (16 * i + t) := by
  have hbyte (j : ℕ) (hj : j < 64) :
      ((padded.drop (64 * i)).take 64).getD j 0 = padded.getD (64 * i + j) 0 := by
    simp only [List.getD_eq_getElem?_getD]
    rw [List.getElem?_take_of_lt hj, List.getElem?_drop]
  rw [Sha0.word, hbyte _ (by omega), hbyte _ (by omega), hbyte _ (by omega), hbyte _ (by omega),
    Sha0.word, show 4 * (16 * i + t) = 64 * i + 4 * t by omega]
  rfl

lemma schedule_eq {block : ℕ → UInt32} {n : ℕ} (hi : 16 ≤ i) :
    schedule n ((List.range i).map (Sha0.schedule block)) =
      (List.range (i + n)).map (Sha0.schedule block) := by
  induction n generalizing i with
  | zero => rfl
  | succ n ih =>
    have hget (j : ℕ) (hj : j < i) :
        ((List.range i).map (Sha0.schedule block)).getD j 0 = Sha0.schedule block j := by
      rw [List.getD_eq_getElem?_getD, List.getElem?_map, List.getElem?_range hj]
      rfl
    rw [schedule]
    simp only [List.length_map, List.length_range]
    rw [hget _ (by omega), hget _ (by omega), hget _ (by omega), hget _ (by omega),
      ← Sha0.schedule_of_le hi]
    have hnext := ih (i := i + 1) (by omega)
    rw [List.range_succ, List.map_append] at hnext
    rw [show i + (n + 1) = i + 1 + n by omega]
    exact hnext

def Words.toState (hv : Words) : Sha0.State := ⟨hv.a, hv.b, hv.c, hv.d, hv.e⟩

lemma roundOf_eq (t : ℕ) (hv : Words) :
    roundOf t hv = (Sha0.f t hv.b hv.c hv.d, Sha0.k t) := by
  by_cases h₂₀ : t < 20
  · rw [roundOf, if_pos h₂₀, Sha0.f, if_pos (by omega), Sha0.k, if_pos (by omega)]
  · by_cases h₄₀ : t < 40
    · rw [roundOf, if_neg h₂₀, if_pos h₄₀, Sha0.f, if_neg (by omega), if_pos (by omega), Sha0.k,
        if_neg (by omega), if_pos (by omega)]
    · by_cases h₆₀ : t < 60
      · rw [roundOf, if_neg h₂₀, if_neg h₄₀, if_pos h₆₀, Sha0.f, if_neg (by omega),
          if_neg (by omega), if_pos (by omega), Sha0.k, if_neg (by omega), if_neg (by omega),
          if_pos (by omega)]
      · rw [roundOf, if_neg h₂₀, if_neg h₄₀, if_neg h₆₀, Sha0.f, if_neg (by omega),
          if_neg (by omega), if_neg (by omega), Sha0.k, if_neg (by omega), if_neg (by omega),
          if_neg (by omega)]

lemma shaCommon_eq (block : ℕ → UInt32) (hv : Words) (t : ℕ) :
    (shaCommon hv (roundOf t hv).1 (roundOf t hv).2 (Sha0.schedule block t)).toState =
      Sha0.round block hv.toState t := by
  rw [roundOf_eq, Sha0.round, Words.toState, shaCommon]
  -- the source adds the constant before the word
  congr 1
  show _ + Sha0.k t + Sha0.schedule block t = _ + Sha0.schedule block t + Sha0.k t
  rw [UInt32.add_assoc, UInt32.add_comm (Sha0.k t), ← UInt32.add_assoc]
  rfl

lemma shaRounds_eq (block : ℕ → UInt32) (i n : ℕ) (hv : Words) :
    (shaRounds i ((List.range' i n).map (Sha0.schedule block)) hv).toState =
      (List.range' i n).foldl (Sha0.round block) hv.toState := by
  induction n generalizing i hv with
  | zero => rfl
  | succ n ih =>
    rw [List.range'_succ, List.map_cons, shaRounds, ih, shaCommon_eq, List.foldl_cons]

lemma shaBlock_eq {padded : Bytes} (hlen : 64 * i + 64 ≤ padded.length) (hash : Words) :
    (shaBlock hash ((padded.drop (64 * i)).take 64)).toState =
      Sha0.compress hash.toState fun t => Sha0.word padded (16 * i + t) := by
  have hchunk : ((padded.drop (64 * i)).take 64).length / 4 = 16 := by
    rw [List.length_take, List.length_drop]
    omega
  have hwords : beWords ((padded.drop (64 * i)).take 64) =
      (List.range 16).map (Sha0.schedule fun t => Sha0.word padded (16 * i + t)) := by
    rw [beWords_eq, hchunk]
    refine List.map_congr_left fun t ht => ?_
    rw [List.mem_range] at ht
    rw [Sha0.schedule_of_lt ht, word_chunk ht]
  have hrounds := shaRounds_eq (fun t => Sha0.word padded (16 * i + t)) 0 80 hash
  rw [← List.range_eq_range'] at hrounds
  rw [shaBlock, hwords, schedule_eq (Nat.le_refl _), Sha0.compress, ← hrounds]
  rfl

lemma shaBlocks_eq {padded : Bytes} {n : ℕ} (hlen : padded.length = 64 * (i + n)) (hash : Words) :
    (shaBlocks n (padded.drop (64 * i)) hash).toState = (List.range' i n).foldl
      (fun h i => Sha0.compress h fun t => Sha0.word padded (16 * i + t)) hash.toState := by
  induction n generalizing i hash with
  | zero => rfl
  | succ n ih =>
    have hrest := ih (i := i + 1) (by omega) (shaBlock hash ((padded.drop (64 * i)).take 64))
    rw [shaBlock_eq (by omega)] at hrest
    rw [shaBlocks, List.drop_drop, List.range'_succ, List.foldl_cons]
    exact hrest

lemma sha0_data (h : data.length < 2 ^ 61) :
    (sha0 data).data = Sha0.digest data := by
  have hlen : (shaPad data).length = 64 * (0 + (shaPad data).length / 64) := by
    rw [length_shaPad]
    omega
  have hblocks := shaBlocks_eq hlen ⟨0x67452301, 0xefcdab89, 0x98badcfe, 0x10325476, 0xc3d2e1f0⟩
  rw [Nat.mul_zero, List.drop_zero, ← List.range_eq_range', shaPad_eq h] at hblocks
  rw [Sha0.digest]
  simp only [sha0, Words.toBytes, beBytes_eq, shaPad_eq h]
  have hbytes := congrArg (fun s : Sha0.State => Sha0.be 4 s.a.toNat ++ Sha0.be 4 s.b.toNat ++
    Sha0.be 4 s.c.toNat ++ Sha0.be 4 s.d.toNat ++ Sha0.be 4 s.e.toNat) hblocks
  exact hbytes

/-- **`sha0` computes the SHA-0 of the standard**, and no size, index or slice is out of range on
the way. -/
theorem sha0_eq_digest {data : Bytes} (h : data.length < 2 ^ 61) :
    ∃ digest, sha0Checked data = .ok digest ∧ digest.data = Sha0.digest data ∧
      sha0 data = digest :=
  ⟨sha0 data, sha0Checked_eq h, sha0_data h, rfl⟩

theorem abc_digest :
    ∃ digest, sha0Checked [97, 98, 99] = .ok digest ∧ digest.data = Sha0.digest [97, 98, 99] ∧
      sha0 [97, 98, 99] = digest :=
  sha0_eq_digest (by decide)

example : (sha0 [97, 98, 99]).asHex = "0164b8a914cd2a5e74c4f7ff082c4d97f1edf880" := by
  decide +kernel

end Moulars.Hashes.ShaDigest
