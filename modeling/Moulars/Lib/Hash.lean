import Mathlib.Data.List.AList

/-!
Hash maps and hash sets.

The order in which their entries are visited is an `Order`, a permutation that whoever iterates is
handed from outside, so that nothing can be proved that depends on how a real table is laid out.
-/

namespace Moulars.Lib.Hash

/-- An iteration order: some permutation of every list of entries. -/
structure Order (α : Type) where
  run : List α → List α
  perm : ∀ l, (run l).Perm l

def Order.listed (α : Type) : Order α := ⟨fun l => l, fun l => .refl l⟩

def Order.first {α : Type} [DecidableEq α] (a : α) : Order α where
  run l := if a ∈ l then a :: l.erase a else l
  perm l := by
    split
    · exact (List.perm_cons_erase ‹_›).symm
    · exact .refl l

lemma Order.run_first {α : Type} [DecidableEq α] {a : α} {l : List α} (h : a ∈ l) :
    (Order.first a).run l = a :: l.erase a :=
  if_pos h

@[simp] lemma Order.mem_run {α : Type} (o : Order α) {a : α} {l : List α} : a ∈ o.run l ↔ a ∈ l :=
  (o.perm l).mem_iff

abbrev HashMap (K V : Type) := AList (fun _ : K => V)

variable {K V : Type}

namespace HashMap

def toList (m : HashMap K V) : List (K × V) := m.entries.map fun e => (e.1, e.2)

def values (m : HashMap K V) : List V := m.toList.map Prod.snd

lemma mem_toList [DecidableEq K] {m : HashMap K V} {k : K} {v : V} :
    (k, v) ∈ m.toList ↔ m.lookup k = some v := by
  rw [← Option.mem_def, AList.mem_lookup_iff]
  simp [toList]

open scoped List in
lemma entries_push_perm [DecidableEq K] (k : K) (v : V) (l : List ((_ : K) × List V)) :
    ((l.kinsert k ((l.dlookup k).getD [] ++ [v])).map Sigma.snd).flatten.Perm
      (v :: (l.map Sigma.snd).flatten) := by
  induction l with
  | nil => exact .refl _
  | cons e l ih =>
    obtain ⟨a, w⟩ := e
    by_cases hk : k = a
    · subst hk
      simp only [List.kinsert_def, List.dlookup_cons_eq, List.kerase_cons_eq, Option.getD_some,
        List.map_cons, List.flatten_cons, List.append_assoc]
      exact List.perm_middle
    · simp only [List.kinsert_def, List.map_cons, List.flatten_cons] at ih ⊢
      rw [List.dlookup_cons_ne _ _ hk, List.kerase_cons_ne hk, List.map_cons, List.flatten_cons]
      calc
        _ ~ w ++ (((l.dlookup k).getD [] ++ [v]) ++ _) := by
          rw [← List.append_assoc, ← List.append_assoc]
          exact List.perm_append_comm.append_right _
        _ ~ w ++ (v :: (l.map Sigma.snd).flatten) := ih.append_left w
        _ ~ v :: (w ++ (l.map Sigma.snd).flatten) := List.perm_middle

lemma values_push_perm [DecidableEq K] (m : HashMap K (List V)) (k : K) (v : V) :
    (values (m.insert k ((m.lookup k).getD [] ++ [v]))).flatten.Perm (v :: (values m).flatten) := by
  have h := entries_push_perm k v m.entries
  simpa [values, toList, AList.entries_insert, AList.lookup, Function.comp_def] using h

end HashMap

abbrev HashSet (K : Type) := HashMap K Unit

namespace HashSet

variable [DecidableEq K]

/-- Add an element that may already be there. -/
def add (s : HashSet K) (k : K) : HashSet K := if k ∈ s then s else s.insert k ()

@[simp] lemma mem_add {s : HashSet K} {a k : K} : a ∈ s.add k ↔ a = k ∨ a ∈ s := by
  unfold add
  split
  · constructor
    · exact .inr
    · rintro (rfl | h) <;> assumption
  · exact AList.mem_insert s

end HashSet

end Moulars.Lib.Hash
