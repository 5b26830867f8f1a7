import Moulars.Lib.Wire

/-!
Streams that can be read, written and searched at a position, and blocks of a fixed size in
them.
-/

namespace Moulars.Lib

open Lib.Wire

/-- Bytes, and the position of the next byte to be read or written. -/
structure Cursor where
  data : Bytes
  pos : ℕ
  deriving DecidableEq

namespace Cursor

/-- Overwrite what is at the position, or append; a gap before it is filled with zeros. -/
def write (c : Cursor) (bs : Bytes) : Cursor :=
  ⟨c.data.take c.pos ++ List.replicate (c.pos - c.data.length) 0 ++ bs ++
    c.data.drop (c.pos + bs.length), c.pos + bs.length⟩

def seek (c : Cursor) (pos : ℕ) : Cursor := { c with pos }

def readExact (c : Cursor) (n : ℕ) : Except Fault (Bytes × Cursor) :=
  if c.pos + n ≤ c.data.length then .ok ((c.data.drop c.pos).take n, { c with pos := c.pos + n })
  else .error .eof

def read (c : Cursor) (n : ℕ) : Bytes × Cursor :=
  let bs := (c.data.drop c.pos).take n
  (bs, { c with pos := c.pos + bs.length })

lemma write_eq {a b bs : Bytes} {pos : ℕ} (hpos : pos = a.length) :
    (⟨a ++ b, pos⟩ : Cursor).write bs = ⟨a ++ bs ++ b.drop bs.length, pos + bs.length⟩ := by
  subst hpos
  simp [write, List.drop_append]

lemma write_over {a b old bs : Bytes} {pos : ℕ} (hpos : pos = a.length)
    (hlen : old.length = bs.length) :
    (⟨a ++ (old ++ b), pos⟩ : Cursor).write bs = ⟨a ++ (bs ++ b), pos + bs.length⟩ := by
  rw [write_eq hpos, ← hlen, List.drop_left, List.append_assoc]

/-- What is before the position, up to the gap if there is one. -/
def front (c : Cursor) : Bytes := c.data.take c.pos ++ List.replicate (c.pos - c.data.length) 0

lemma length_front (c : Cursor) : c.front.length = c.pos := by
  rw [front, List.length_append, List.length_take, List.length_replicate]
  omega

lemma write_front (c : Cursor) (bs : Bytes) :
    c.write bs = ⟨c.front ++ bs ++ (c.data.drop c.pos).drop bs.length, c.pos + bs.length⟩ := by
  rw [List.drop_drop]
  rfl

lemma write_write (c : Cursor) (bs cs : Bytes) : (c.write bs).write cs = c.write (bs ++ cs) := by
  rw [write_front c bs, write_eq (by rw [List.length_append, length_front]), write_front c,
    List.drop_drop, List.length_append, Nat.add_assoc, List.append_assoc c.front]

lemma drop_write (c : Cursor) (bs : Bytes) :
    (c.write bs).data.drop c.pos = bs ++ c.data.drop (c.pos + bs.length) := by
  rw [write_front, List.append_assoc, ← List.drop_drop]
  exact List.drop_left' c.length_front

lemma drop_read (c : Cursor) (n : ℕ) :
    (c.read n).2.data.drop (c.read n).2.pos = (c.data.drop c.pos).drop n := by
  show c.data.drop (c.pos + ((c.data.drop c.pos).take n).length) = _
  rw [List.drop_drop, List.length_take, List.length_drop]
  -- past the end there is nothing more
  rcases Nat.le_total n (c.data.length - c.pos) with hle | hle
  · rw [Nat.min_eq_left hle]
  · rw [Nat.min_eq_right hle, List.drop_eq_nil_of_le (by omega), List.drop_eq_nil_of_le (by omega)]

lemma readExact_eq {a bs b : Bytes} {pos n : ℕ} (hpos : pos = a.length) (hn : n = bs.length) :
    (⟨a ++ (bs ++ b), pos⟩ : Cursor).readExact n = .ok (bs, ⟨a ++ (bs ++ b), pos + n⟩) := by
  subst hpos hn
  rw [readExact, if_pos (by simp)]
  simp

end Cursor

/-! ### Blocks -/

section Blocks

variable {n : ℕ} {f : Bytes → Bytes}

/-- The first `k` blocks of `n` bytes, each of them changed by `f`. -/
def mapBlocks (n : ℕ) (f : Bytes → Bytes) : ℕ → Bytes → Bytes
  | 0, _ => []
  | k + 1, bs => f (bs.take n) ++ mapBlocks n f k (bs.drop n)

lemma length_mapBlocks (hf : ∀ bs, bs.length = n → (f bs).length = n) {k : ℕ} {bs : Bytes}
    (hk : n * k ≤ bs.length) : (mapBlocks n f k bs).length = n * k := by
  induction k generalizing bs with
  | zero => rfl
  | succ k ih =>
    rw [Nat.mul_succ] at hk
    rw [mapBlocks, List.length_append, hf _ (by rw [List.length_take]; omega),
      ih (by rw [List.length_drop]; omega), Nat.mul_succ, Nat.add_comm]

lemma mapBlocks_append {k : ℕ} {bs cs : Bytes} (hk : n * k ≤ bs.length) :
    mapBlocks n f k (bs ++ cs) = mapBlocks n f k bs := by
  induction k generalizing bs with
  | zero => rfl
  | succ k ih =>
    rw [Nat.mul_succ] at hk
    rw [mapBlocks, mapBlocks, List.take_append_of_le_length (by omega),
      List.drop_append_of_le_length (by omega), ih (by rw [List.length_drop]; omega)]

lemma mapBlocks_succ {k : ℕ} {bs : Bytes} :
    mapBlocks n f (k + 1) bs = mapBlocks n f k bs ++ f ((bs.drop (n * k)).take n) := by
  induction k generalizing bs with
  | zero => simp [mapBlocks]
  | succ k ih =>
    rw [mapBlocks, ih, ← List.append_assoc, List.drop_drop]
    rw [show n + n * k = n * (k + 1) by rw [Nat.mul_succ, Nat.add_comm]]
    rfl

lemma mapBlocks_split {i k : ℕ} (hi : i < k) (bs : Bytes) :
    ∃ after, mapBlocks n f k bs =
      mapBlocks n f i bs ++ (f ((bs.drop (n * i)).take n) ++ after) := by
  induction k with
  | zero => omega
  | succ k ih =>
    rcases Nat.lt_succ_iff_lt_or_eq.1 hi with hi | rfl
    · obtain ⟨after, h⟩ := ih hi
      exact ⟨after ++ f ((bs.drop (n * k)).take n), by simp [mapBlocks_succ, h]⟩
    · exact ⟨[], by simp [mapBlocks_succ]⟩

end Blocks

end Moulars.Lib
