import Mathlib.Data.List.Basic
import Mathlib.Tactic.Common

/-!
Maps with numbers for keys, kept in the order of their keys.
-/

namespace Moulars.Lib

namespace BTreeMap

variable {V : Type}

/-- Put an entry in its place, unless its key is there already. -/
def insertNew (k : ℕ) (v : V) : List (ℕ × V) → List (ℕ × V)
  | [] => [(k, v)]
  | e :: es =>
    if k < e.1 then (k, v) :: e :: es
    else if k = e.1 then e :: es
    else e :: insertNew k v es

lemma mem_insertNew {k : ℕ} {v : V} {es : List (ℕ × V)} {e : ℕ × V}
    (h : e ∈ insertNew k v es) : e = (k, v) ∨ e ∈ es := by
  induction es with
  | nil => exact .inl (by simpa [insertNew] using h)
  | cons e' es ih =>
    rw [insertNew] at h
    split at h
    · exact List.mem_cons.1 h
    split at h
    · exact .inr h
    rcases List.mem_cons.1 h with rfl | h
    · exact .inr (by simp)
    · exact (ih h).imp_right (by simp +contextual)

lemma mem_insertNew_of_mem {k : ℕ} {v : V} {es : List (ℕ × V)} {e : ℕ × V} (h : e ∈ es) :
    e ∈ insertNew k v es := by
  induction es with
  | nil => cases h
  | cons e' es ih =>
    rw [insertNew]
    split
    · exact List.mem_cons_of_mem _ h
    split
    · exact h
    · exact List.mem_cons.2 ((List.mem_cons.1 h).imp_right ih)

lemma exists_mem_insertNew (k : ℕ) (v : V) (es : List (ℕ × V)) :
    ∃ w, (k, w) ∈ insertNew k v es := by
  induction es with
  | nil => exact ⟨v, by simp [insertNew]⟩
  | cons e es ih =>
    rw [insertNew]
    split
    · exact ⟨v, List.mem_cons_self⟩
    split
    · rename_i hk
      exact ⟨e.2, by rw [hk]; exact List.mem_cons_self⟩
    · obtain ⟨w, hw⟩ := ih
      exact ⟨w, List.mem_cons_of_mem _ hw⟩

lemma sorted_insertNew (k : ℕ) (v : V) {es : List (ℕ × V)}
    (h : es.Pairwise fun a b => a.1 < b.1) :
    (insertNew k v es).Pairwise fun a b => a.1 < b.1 := by
  induction es with
  | nil => simp [insertNew]
  | cons e es ih =>
    obtain ⟨he, hes⟩ := List.pairwise_cons.1 h
    rw [insertNew]
    split
    · rename_i hk
      refine List.pairwise_cons.2 ⟨fun b hb => ?_, h⟩
      rcases List.mem_cons.1 hb with rfl | hb
      · exact hk
      · exact Nat.lt_trans hk (he b hb)
    split
    · exact h
    rename_i h₁ h₂
    refine List.pairwise_cons.2 ⟨fun b hb => ?_, ih hes⟩
    rcases mem_insertNew hb with rfl | hb
    · show e.1 < k
      omega
    · exact he b hb

end BTreeMap

/-- Entries with increasing keys. -/
structure BTreeMap (V : Type) where
  entries : List (ℕ × V)
  sorted : entries.Pairwise fun a b => a.1 < b.1

namespace BTreeMap

def empty : BTreeMap V := ⟨[], .nil⟩

def get (m : BTreeMap V) (k : ℕ) : Option V := (m.entries.find? fun e => e.1 == k).map Prod.snd

/-- `entry(k).or_insert(v)`: a key that is there keeps its value. -/
def orInsert (m : BTreeMap V) (k : ℕ) (v : V) : BTreeMap V :=
  ⟨insertNew k v m.entries, sorted_insertNew k v m.sorted⟩

/-- `iter().next_back()`: the entry with the greatest key. -/
def nextBack (m : BTreeMap V) : Option (ℕ × V) := m.entries.getLast?

lemma get_eq_some {m : BTreeMap V} {k : ℕ} {v : V} :
    m.get k = some v ↔ (k, v) ∈ m.entries := by
  obtain ⟨es, hes⟩ := m
  show (es.find? fun e => e.1 == k).map Prod.snd = some v ↔ (k, v) ∈ es
  induction es with
  | nil => simp
  | cons e es ih =>
    obtain ⟨he, hrest⟩ := List.pairwise_cons.1 hes
    obtain ⟨k', v'⟩ := e
    rw [List.find?_cons]
    by_cases hk : k' = k
    · subst hk
      have hnot : (k', v) ∉ es := fun hm => Nat.lt_irrefl k' (he (k', v) hm)
      simp [hnot, eq_comm]
    · have hne : (k, v) ≠ (k', v') := fun h => hk (congrArg Prod.fst h).symm
      have hbeq : (k' == k) = false := by simpa using hk
      simp only [hbeq, List.mem_cons, hne, false_or]
      exact ih hrest

lemma get_of_get_orInsert {m : BTreeMap V} {k k' : ℕ} {v v' : V}
    (h : (m.orInsert k v).get k' = some v') : (k' = k ∧ v' = v) ∨ m.get k' = some v' := by
  rw [get_eq_some] at h ⊢
  exact (mem_insertNew h).imp_left fun h => by cases h; exact ⟨rfl, rfl⟩

lemma get_orInsert (m : BTreeMap V) (k k' : ℕ) (v : V) :
    (m.orInsert k v).get k' = (m.get k').or (if k' = k then some v else none) := by
  cases hget : m.get k' with
  | some w => exact get_eq_some.2 (mem_insertNew_of_mem (get_eq_some.1 hget))
  | none =>
    rw [Option.none_or]
    split
    · rename_i hk
      subst hk
      obtain ⟨w, hw⟩ := exists_mem_insertNew k' v m.entries
      have hnew : (m.orInsert k' v).get k' = some w := get_eq_some.2 hw
      rcases get_of_get_orInsert hnew with ⟨-, rfl⟩ | hold
      · exact hnew
      · rw [hget] at hold
        cases hold
    · rename_i hk
      refine Option.eq_none_iff_forall_ne_some.2 fun w hw => ?_
      rcases get_of_get_orInsert hw with ⟨rfl, -⟩ | hold
      · exact hk rfl
      · rw [hget] at hold
        cases hold

lemma get_of_nextBack {m : BTreeMap V} {k : ℕ} {v : V} (h : m.nextBack = some (k, v)) :
    m.get k = some v :=
  get_eq_some.2 (List.mem_of_getLast? h)

end BTreeMap

end Moulars.Lib
