import Mathlib.Logic.Function.Iterate
import Mathlib.Order.Basic

/-!
Words in a ring that are changed in place, one after the other, each by its two neighbours.

A word is changed by words other than itself, so the change can be undone; and so can a sweep
over all the words, by a sweep in the opposite direction. A program that sweeps carries along the
neighbour it has changed last.
-/

namespace Moulars.Lib.Ring

def next (n p : ℕ) : ℕ := (p + 1) % n

def prev (n p : ℕ) : ℕ := (p + (n - 1)) % n

section Positions

variable {n p : ℕ}

lemma next_eq (h : p + 1 < n) : next n p = p + 1 := Nat.mod_eq_of_lt h

lemma next_last (h : 0 < n) : next n (n - 1) = 0 := by
  rw [next, Nat.sub_add_cancel h, Nat.mod_self]

lemma prev_zero (h : 0 < n) : prev n 0 = n - 1 := by
  rw [prev, Nat.zero_add, Nat.mod_eq_of_lt (by omega)]

lemma prev_succ (h : p < n) : prev n (p + 1) = p := by
  rw [prev, show p + 1 + (n - 1) = p + n by omega, Nat.add_mod_right, Nat.mod_eq_of_lt h]

lemma next_ne (hn : 2 ≤ n) (hp : p < n) : next n p ≠ p := by
  rcases Nat.lt_or_ge (p + 1) n with h | h
  · rw [next_eq h]
    omega
  · obtain rfl : p = n - 1 := by omega
    rw [next_last (by omega)]
    omega

lemma prev_ne (hn : 2 ≤ n) (hp : p < n) : prev n p ≠ p := by
  cases p with
  | zero =>
    rw [prev_zero (by omega)]
    omega
  | succ p =>
    rw [prev_succ (by omega)]
    omega

end Positions

section Sweeps

-- `d` is read outside of the list, which no sweep does
variable {α : Type*} (d : α) (n : ℕ) (f g : ℕ → α → α → α → α)

/-- The word at `p` changed by the next word and the one before it. -/
def stir (p : ℕ) (v : List α) : List α :=
  v.set p (f p (v.getD (next n p) d) (v.getD (prev n p) d) (v.getD p d))

def up (v : List α) : List α := (List.range n).foldl (fun v p => stir d n f p v) v

def down (v : List α) : List α := (List.range n).foldr (stir d n f) v

def carryUp (s : List α × α) (p : ℕ) : List α × α :=
  let x := f p (s.1.getD (p + 1) d) s.2 (s.1.getD p d)
  (s.1.set p x, x)

def carryDown (s : List α × α) (p : ℕ) : List α × α :=
  let x := f (p + 1) s.2 (s.1.getD p d) (s.1.getD (p + 1) d)
  (s.1.set (p + 1) x, x)

def sweepUp (s : List α × α) : List α × α :=
  let s := (List.range (n - 1)).foldl (carryUp d f) s
  let x := f (n - 1) (s.1.getD 0 d) s.2 (s.1.getD (n - 1) d)
  (s.1.set (n - 1) x, x)

def sweepDown (s : List α × α) : List α × α :=
  let s := (List.range (n - 1)).reverse.foldl (carryDown d f) s
  let x := f 0 s.2 (s.1.getD (n - 1) d) (s.1.getD 0 d)
  (s.1.set 0 x, x)

variable {d n f g} {v : List α} {p : ℕ}

@[simp] lemma length_stir : (stir d n f p v).length = v.length := List.length_set

lemma getD_stir_of_ne {i : ℕ} (h : i ≠ p) : (stir d n f p v).getD i d = v.getD i d := by
  rw [stir, List.getD_eq_getElem?_getD, List.getElem?_set_ne h.symm, List.getD_eq_getElem?_getD]

lemma getD_stir_self (h : p < v.length) : (stir d n f p v).getD p d =
    f p (v.getD (next n p) d) (v.getD (prev n p) d) (v.getD p d) := by
  rw [stir, List.getD_eq_getElem?_getD, List.getElem?_set_self h, Option.getD_some]

lemma stir_stir (h : ∀ p y z x, g p y z (f p y z x) = x) (hn : 2 ≤ n) (hp : p < n) (v : List α) :
    stir d n g p (stir d n f p v) = v := by
  by_cases hlen : p < v.length
  · rw [stir, getD_stir_of_ne (next_ne hn hp), getD_stir_of_ne (prev_ne hn hp),
      getD_stir_self hlen, h, stir, List.set_set, List.getD_eq_getElem?_getD,
      List.getElem?_eq_getElem hlen, Option.getD_some, List.set_getElem_self]
  · -- there is no such word
    rw [stir, List.set_eq_of_length_le (by rw [length_stir]; omega), stir,
      List.set_eq_of_length_le (by omega)]

lemma foldr_foldl_stir (h : ∀ p y z x, g p y z (f p y z x) = x) (hn : 2 ≤ n) {ps : List ℕ}
    (hps : ∀ p ∈ ps, p < n) (v : List α) :
    ps.foldr (stir d n g) (ps.foldl (fun v p => stir d n f p v) v) = v := by
  induction ps generalizing v with
  | nil => rfl
  | cons p ps ih =>
    rw [List.foldl_cons, List.foldr_cons, ih fun q hq => hps q (by simp [hq])]
    exact stir_stir h hn (hps p (by simp)) v

lemma foldl_foldr_stir (h : ∀ p y z x, f p y z (g p y z x) = x) (hn : 2 ≤ n) {ps : List ℕ}
    (hps : ∀ p ∈ ps, p < n) (v : List α) :
    ps.foldl (fun v p => stir d n f p v) (ps.foldr (stir d n g) v) = v := by
  induction ps with
  | nil => rfl
  | cons p ps ih =>
    rw [List.foldr_cons, List.foldl_cons, stir_stir h hn (hps p (by simp))]
    exact ih fun q hq => hps q (by simp [hq])

/-- **A sweep up is undone by the opposite sweep down.** -/
lemma down_up (h : ∀ p y z x, g p y z (f p y z x) = x) (hn : 2 ≤ n) (v : List α) :
    down d n g (up d n f v) = v :=
  foldr_foldl_stir h hn (fun _ => List.mem_range.1) v

/-- **A sweep down is undone by the opposite sweep up.** -/
lemma up_down (h : ∀ p y z x, f p y z (g p y z x) = x) (hn : 2 ≤ n) (v : List α) :
    up d n f (down d n g v) = v :=
  foldl_foldr_stir h hn (fun _ => List.mem_range.1) v

lemma length_foldl_stir (ps : List ℕ) (v : List α) :
    (ps.foldl (fun v p => stir d n f p v) v).length = v.length := by
  induction ps generalizing v with
  | nil => rfl
  | cons p ps ih => rw [List.foldl_cons, ih, length_stir]

lemma length_foldr_stir (ps : List ℕ) (v : List α) :
    (ps.foldr (stir d n f) v).length = v.length := by
  induction ps with
  | nil => rfl
  | cons p ps ih => rw [List.foldr_cons, length_stir, ih]

lemma length_up (v : List α) : (up d n f v).length = v.length := length_foldl_stir _ v

lemma length_down (v : List α) : (down d n f v).length = v.length := length_foldr_stir _ v

lemma foldl_carryUp (hlen : v.length = n) {k : ℕ} (hk : k < n) :
    (List.range k).foldl (carryUp d f) (v, v.getD (n - 1) d) =
      ((List.range k).foldl (fun v p => stir d n f p v) v,
        ((List.range k).foldl (fun v p => stir d n f p v) v).getD (prev n k) d) := by
  induction k with
  | zero => rw [prev_zero hk]; rfl
  | succ k ih =>
    have hk' : k < ((List.range k).foldl (fun v p => stir d n f p v) v).length := by
      rw [length_foldl_stir]
      omega
    rw [List.range_succ, List.foldl_append, List.foldl_append, ih (by omega)]
    simp only [List.foldl_cons, List.foldl_nil]
    rw [carryUp, prev_succ (by omega), getD_stir_self hk', stir, next_eq hk]

lemma foldr_carryDown (hlen : v.length = n) {j k : ℕ} (hk : j + k + 1 = n) :
    (List.range' j k).foldr (fun p s => carryDown d f s p) (v, v.getD 0 d) =
      ((List.range' (j + 1) k).foldr (stir d n f) v,
        ((List.range' (j + 1) k).foldr (stir d n f) v).getD (next n j) d) := by
  induction k generalizing j with
  | zero =>
    obtain rfl : j = n - 1 := by omega
    rw [next_last (by omega)]
    rfl
  | succ k ih =>
    have hj : j + 1 < ((List.range' (j + 1 + 1) k).foldr (stir d n f) v).length := by
      rw [length_foldr_stir]
      omega
    rw [List.range'_succ, List.range'_succ, List.foldr_cons, List.foldr_cons, ih (by omega),
      carryDown, next_eq (show j + 1 < n by omega), getD_stir_self hj, stir,
      prev_succ (show j < n by omega)]

lemma sweepUp_eq (hn : 0 < n) (hlen : v.length = n) :
    sweepUp d n f (v, v.getD (n - 1) d) = (up d n f v, (up d n f v).getD (n - 1) d) := by
  have hlast : n - 1 < ((List.range (n - 1)).foldl (fun v p => stir d n f p v) v).length := by
    rw [length_foldl_stir]
    omega
  have hup : up d n f v =
      stir d n f (n - 1) ((List.range (n - 1)).foldl (fun v p => stir d n f p v) v) := by
    rw [up, ← Nat.sub_add_cancel hn, List.range_succ, List.foldl_append, Nat.sub_add_cancel hn]
    rfl
  rw [sweepUp, foldl_carryUp hlen (by omega), hup, getD_stir_self hlast, stir, next_last hn]

lemma sweepDown_eq (hn : 0 < n) (hlen : v.length = n) :
    sweepDown d n f (v, v.getD 0 d) = (down d n f v, (down d n f v).getD 0 d) := by
  have hfirst : 0 < ((List.range' 1 (n - 1)).foldr (stir d n f) v).length := by
    rw [length_foldr_stir]
    omega
  have hdown : down d n f v = stir d n f 0 ((List.range' 1 (n - 1)).foldr (stir d n f) v) := by
    rw [down, ← Nat.sub_add_cancel hn, List.range_eq_range', List.range'_succ, List.foldr_cons,
      Nat.sub_add_cancel hn]
  rw [sweepDown, List.foldl_reverse, List.range_eq_range', foldr_carryDown hlen (by omega), hdown,
    getD_stir_self hfirst, stir, prev_zero hn]

end Sweeps

end Moulars.Lib.Ring
