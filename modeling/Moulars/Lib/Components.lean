import Moulars.Lib.Paths

/-!
The components of a path, as the standard library lists them.

Beside the parts that lead somewhere there are the root, and a `.` at the beginning of a relative
path. Prefixes of paths are prefixes of these lists.
-/

namespace Moulars.Lib.Paths

/-- `std::path::Component`, on Unix. -/
inductive Component
  | rootDir
  | curDir
  | parentDir
  | normal (name : List Char)
  deriving DecidableEq

namespace Component

def text : Component → List Char
  | .rootDir => ['/']
  | .curDir => ['.']
  | .parentDir => ['.', '.']
  | .normal name => name

def ofPart : Part → Component
  | .parentDir => .parentDir
  | .normal name => .normal name

end Component

/-- The component in front of the parts. -/
def lead (p : Path) : List Component :=
  if hasRoot p then [.rootDir]
  else if (p.splitOn '/').head? = some ['.'] then [.curDir] else []

def components (p : Path) : List Component := lead p ++ (parts p).map .ofPart

def startsWith (p base : Path) : Bool := decide (components base <+: components p)

section

variable {base p : Path}

lemma splitOn_join (hbase : base ≠ []) (hp : hasRoot p = false) :
    ((join base p).splitOn '/').head? = (base.splitOn '/').head? := by
  have hhead (a b : Path) : ((a ++ '/' :: b).splitOn '/').head? = (a.splitOn '/').head? := by
    rw [List.splitOn_append_cons_self, List.head?_append_of_ne_nil _ (List.splitOn_ne_nil _ _)]
  simp only [join, hp, Bool.false_eq_true, if_false]
  split
  · rename_i h
    obtain ⟨b, rfl⟩ := List.getLast?_eq_some_iff.1
      (h.resolve_left fun hnone => hbase (List.getLast?_eq_none_iff.1 hnone))
    rw [List.append_assoc, List.singleton_append, hhead, hhead]
  · exact hhead base p

lemma components_join (hbase : base ≠ []) (hp : hasRoot p = false) :
    components (join base p) = components base ++ (parts p).map .ofPart := by
  rw [components, components, lead, lead, parts_join hp, hasRoot_join hp, splitOn_join hbase hp,
    List.map_append, List.append_assoc]

lemma mem_lead {c : Component} (h : c ∈ lead p) : c = .rootDir ∨ c = .curDir := by
  unfold lead at h
  split_ifs at h
  · exact .inl (List.mem_singleton.1 h)
  · exact .inr (List.mem_singleton.1 h)
  · cases h

lemma infix_of_parentDir (h : Component.parentDir ∈ components p) : ['.', '.'] <:+: p := by
  rcases List.mem_append.1 h with h | h
  · rcases mem_lead h with h | h <;> cases h
  · obtain ⟨part, hpart, hc⟩ := List.mem_map.1 h
    obtain ⟨piece, hpiece, hof⟩ := List.mem_filterMap.1 hpart
    have hinfix := (mem_splitOn _ (Nat.le_refl _) hpiece).2
    cases part with
    | normal name => cases hc
    | parentDir =>
      unfold Part.ofPiece at hof
      split_ifs at hof with hnone hdots
      · rwa [hdots] at hinfix
      · cases hof

lemma getLast?_components {name : List Char} :
    (components p).getLast? = some (.normal name) ↔ fileName p = some name := by
  rw [components, fileName]
  rcases List.eq_nil_or_concat (parts p) with hnil | ⟨dirs, last, hlast⟩
  · rw [hnil]
    refine iff_of_false (fun h => ?_) (by simp)
    rcases mem_lead (List.mem_of_getLast? (by simpa using h)) with h | h <;> cases h
  · rw [hlast, List.concat_eq_append, List.map_append, ← List.append_assoc, List.map_singleton,
      List.getLast?_concat, List.getLast?_concat]
    cases last <;> simp [Component.ofPart]

lemma components_of_curDir (h : (components p).getLast? = some .curDir) :
    components p = [.curDir] := by
  rw [components] at h ⊢
  rcases List.eq_nil_or_concat (parts p) with hnil | ⟨dirs, last, hlast⟩
  · rw [hnil, List.map_nil, List.append_nil] at h ⊢
    unfold lead at h ⊢
    split_ifs at h ⊢
    · cases h
    · rfl
    · cases h
  · rw [hlast, List.concat_eq_append, List.map_append, ← List.append_assoc, List.map_singleton,
      List.getLast?_concat] at h
    cases last <;> cases h

end

end Moulars.Lib.Paths
