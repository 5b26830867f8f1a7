import Moulars.Lib.Wire

/-!
Slices whose bounds are checked as a program runs, and 64-bit sizes whose overflow is.
-/

namespace Moulars.Lib.Slices

open Lib.Wire

variable {α : Type}

def get (xs : List α) (i : ℕ) : Except Fault α :=
  match xs[i]? with
  | some x => .ok x
  | none =>
    .error (.panic s!"index out of bounds: the len is {xs.length} but the index is {i}")

def set (xs : List α) (i : ℕ) (x : α) : Except Fault (List α) :=
  if i < xs.length then .ok (xs.set i x)
  else .error (.panic s!"index out of bounds: the len is {xs.length} but the index is {i}")

def slice (xs : List α) (a b : ℕ) : Except Fault (List α) :=
  if b < a then .error (.panic s!"slice index starts at {a} but ends at {b}")
  else if xs.length < b then
    .error (.panic s!"range end index {b} out of range for slice of length {xs.length}")
  else .ok ((xs.drop a).take (b - a))

def splitAt (xs : List α) (mid : ℕ) : Except Fault (List α × List α) :=
  if mid ≤ xs.length then .ok (xs.take mid, xs.drop mid) else .error (.panic "mid > len")

/-- `copy_from_slice`: what the destination then holds. -/
def copyFrom (dest src : List α) : Except Fault (List α) :=
  if src.length = dest.length then .ok src
  else .error (.panic
    s!"source slice length ({src.length}) does not match destination slice length ({dest.length})")

def capacityOverflow : Fault := .panic "capacity overflow"

/-- Room for `n` elements of the given size; no vector has more than `isize::MAX` bytes. -/
def withCapacity (size n : ℕ) : Except Fault Unit :=
  if size * n < 2 ^ 63 then .ok () else .error capacityOverflow

def vec (x : α) (n : ℕ) : Except Fault (List α) :=
  if n < 2 ^ 63 then .ok (List.replicate n x) else .error capacityOverflow

def add (m n : ℕ) : Except Fault ℕ :=
  if m + n < 2 ^ 64 then .ok (m + n) else .error (.panic "attempt to add with overflow")

def mul (m n : ℕ) : Except Fault ℕ :=
  if m * n < 2 ^ 64 then .ok (m * n) else .error (.panic "attempt to multiply with overflow")

def sub (m n : ℕ) : Except Fault ℕ :=
  if n ≤ m then .ok (m - n) else .error (.panic "attempt to subtract with overflow")

/-- `chunks_exact`: the pieces of `n` elements, without a shorter one at the end. -/
def chunksExact (n : ℕ) (xs : List α) : List (List α) :=
  (List.range (xs.length / n)).map fun i => (xs.drop (n * i)).take n

section Lemmas

lemma withCapacity_eq_ok {size n : ℕ} {u : Unit} :
    withCapacity size n = .ok u ↔ size * n < 2 ^ 63 := by
  unfold withCapacity
  split
  · rename_i h
    exact ⟨fun _ => h, fun _ => rfl⟩
  · rename_i h
    constructor
    · intro he
      cases he
    · exact fun hlt => absurd hlt h

variable {xs ys : List α} {i m n : ℕ}

lemma get_append (h : i < xs.length) (d : α) : get (xs ++ ys) i = .ok (xs.getD i d) := by
  rw [get, List.getElem?_append_left h, List.getD_eq_getElem?_getD, List.getElem?_eq_getElem h]
  rfl

lemma set_append (xs : List α) (x y : α) :
    set (xs ++ y :: ys) xs.length x = .ok (xs ++ x :: ys) := by
  rw [set, if_pos (by simp), List.set_append_right _ _ (Nat.le_refl _), Nat.sub_self,
    List.set_cons_zero]

lemma splitAt_append (xs : List α) (h : i = xs.length) :
    splitAt (xs ++ ys) i = .ok (xs, ys) := by
  rw [splitAt, if_pos (by simp [h]), List.take_left' h.symm, List.drop_left' h.symm]

lemma slice_eq {a b : ℕ} (hab : a ≤ b) (hb : b ≤ xs.length) :
    slice xs a b = .ok ((xs.drop a).take (b - a)) := by
  rw [slice, if_neg (by omega), if_neg (by omega)]

lemma slice_append (xs ys zs : List α) {a b : ℕ} (ha : a = xs.length) (hb : b = a + ys.length) :
    slice (xs ++ (ys ++ zs)) a b = .ok ys := by
  subst ha hb
  rw [slice_eq (by omega) (by simp), List.drop_left, Nat.add_sub_cancel_left, List.take_left]

lemma copyFrom_eq (h : ys.length = xs.length) : copyFrom xs ys = .ok ys := if_pos h

lemma vec_eq (h : n < 2 ^ 63) (x : α) : vec x n = .ok (List.replicate n x) := if_pos h

lemma add_eq (h : m + n < 2 ^ 64) : add m n = .ok (m + n) := if_pos h

lemma mul_eq (h : m * n < 2 ^ 64) : mul m n = .ok (m * n) := if_pos h

lemma sub_eq (h : n ≤ m) : sub m n = .ok (m - n) := if_pos h

lemma length_chunksExact (n : ℕ) (xs : List α) : (chunksExact n xs).length = xs.length / n := by
  rw [chunksExact, List.length_map, List.length_range]

lemma chunksExact_of_lt (h : xs.length < n) : chunksExact n xs = [] := by
  rw [chunksExact, Nat.div_eq_of_lt h]
  rfl

lemma chunksExact_of_le (hn : 0 < n) (h : n ≤ xs.length) :
    chunksExact n xs = xs.take n :: chunksExact n (xs.drop n) := by
  have hdiv : xs.length / n = (xs.drop n).length / n + 1 := by
    rw [List.length_drop, ← Nat.add_div_right _ hn, Nat.sub_add_cancel h]
  rw [chunksExact, chunksExact, hdiv, List.range_succ_eq_map, List.map_cons, List.map_map]
  congr 1
  refine List.map_congr_left fun i _ => ?_
  show (xs.drop (n * (i + 1))).take n = ((xs.drop n).drop (n * i)).take n
  rw [List.drop_drop, Nat.mul_succ, Nat.add_comm]

end Lemmas

end Moulars.Lib.Slices
