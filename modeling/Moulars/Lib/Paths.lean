import Mathlib.Data.List.Basic

/-!
Unix paths as texts, and the places they lead to when `.` and `..` are resolved without looking
at the file system.

A path is cut at `/`; empty pieces and `.` say nothing. The place a path leads to is where one
ends up by following its parts from the root or from an unknown current directory.
-/

namespace Moulars.Lib.Paths

abbrev Path := List Char

inductive Part
  | parentDir
  | normal (name : List Char)
  deriving DecidableEq

/-- What a piece between two separators says. -/
def Part.ofPiece (s : List Char) : Option Part :=
  if s = [] ∨ s = ['.'] then none else if s = ['.', '.'] then some .parentDir else some (.normal s)

def hasRoot (p : Path) : Bool := p.head? == some '/'

def parts (p : Path) : List Part := (p.splitOn '/').filterMap Part.ofPiece

def fileName (p : Path) : Option (List Char) :=
  match (parts p).getLast? with
  | some (.normal name) => some name
  | _ => none

/-- What stands behind the last dot of a file name, if anything stands before it. -/
def extensionOf (file : List Char) : Option (List Char) :=
  let pieces := file.splitOn '.'
  if pieces.length = 1 ∨ pieces.dropLast = [[]] then none else pieces.getLast?

def extension (p : Path) : Option (List Char) := (fileName p).bind extensionOf

def join (base p : Path) : Path :=
  if hasRoot p then p
  else if base.getLast? = none ∨ base.getLast? = some '/' then base ++ p
  else base ++ '/' :: p

lemma parts_append_slash (a b : Path) : parts (a ++ '/' :: b) = parts a ++ parts b := by
  rw [parts, List.splitOn_append_cons_self, List.filterMap_append]
  rfl

@[simp] lemma parts_nil : parts [] = [] := rfl

lemma parts_join {base p : Path} (hp : hasRoot p = false) :
    parts (join base p) = parts base ++ parts p := by
  simp only [join, hp, Bool.false_eq_true, if_false]
  split
  · rename_i h
    rcases h with h | h
    · rw [List.getLast?_eq_none_iff.1 h]
      rfl
    · obtain ⟨b, rfl⟩ := List.getLast?_eq_some_iff.1 h
      rw [List.append_assoc, List.singleton_append, parts_append_slash, parts_append_slash,
        parts_nil, List.append_nil]
  · exact parts_append_slash base p

lemma hasRoot_join {base p : Path} (hp : hasRoot p = false) :
    hasRoot (join base p) = hasRoot base := by
  cases base with
  | nil =>
    simp only [join, hp, Bool.false_eq_true, if_false, List.getLast?_nil, true_or, if_true,
      List.nil_append]
    rfl
  | cons c base =>
    simp only [join, hp, Bool.false_eq_true, if_false]
    split <;> rfl

lemma parts_of_notMem {s : Path} (h : '/' ∉ s) : parts s = (Part.ofPiece s).toList := by
  rw [parts, List.splitOn_eq_singleton h]
  cases hs : Part.ofPiece s <;> simp [hs]

lemma extension_eq_some {p : Path} {ext : List Char} (h : extension p = some ext) :
    ∃ dirs name, parts p = dirs ++ [.normal name] ∧ extensionOf name = some ext := by
  rw [extension, fileName] at h
  rcases List.eq_nil_or_concat (parts p) with hnil | ⟨dirs, last, hlast⟩
  · rw [hnil] at h
    cases h
  · rw [List.concat_eq_append] at hlast
    rw [hlast, List.getLast?_concat] at h
    cases last with
    | parentDir => cases h
    | normal name => exact ⟨dirs, name, hlast, h⟩

lemma mem_splitOn {α : Type} [DecidableEq α] {x : α} {piece : List α} (n : ℕ) {text : List α}
    (hn : text.length ≤ n) (h : piece ∈ text.splitOn x) : x ∉ piece ∧ piece <:+: text := by
  induction n generalizing text with
  | zero =>
    obtain rfl : text = [] := List.length_eq_zero_iff.1 (by omega)
    obtain rfl : piece = [] := by simpa using h
    simp
  | succ n ih =>
    by_cases hx : x ∈ text
    · -- the first piece ends where the separator first stands
      obtain ⟨before, after, rfl, hbefore⟩ := List.eq_append_cons_of_mem hx
      rw [List.splitOn_append_cons_self, List.splitOn_eq_singleton hbefore] at h
      rcases List.mem_append.1 h with h | h
      · obtain rfl := List.mem_singleton.1 h
        exact ⟨hbefore, (List.prefix_append _ _).isInfix⟩
      · simp only [List.length_append, List.length_cons] at hn
        obtain ⟨hnot, hinfix⟩ := ih (by omega) h
        exact ⟨hnot, hinfix.trans ⟨before ++ [x], [], by simp⟩⟩
    · rw [List.splitOn_eq_singleton hx] at h
      obtain rfl := List.mem_singleton.1 h
      exact ⟨hx, List.infix_rfl⟩

/-! ### Places -/

/-- A place: the root or the current directory, some directories up, and names down. -/
structure Place where
  root : Bool
  ups : ℕ
  names : List (List Char)
  deriving DecidableEq

namespace Place

def here : Place := ⟨false, 0, []⟩

def child (q : Place) (name : List Char) : Place := { q with names := q.names ++ [name] }

/-- The directory above; above the root is the root. -/
def parent (q : Place) : Place :=
  if q.names = [] then { q with ups := if q.root then q.ups else q.ups + 1 }
  else { q with names := q.names.dropLast }

def follow (q : Place) : Part → Place
  | .parentDir => q.parent
  | .normal name => q.child name

/-- The place that `w`, a place seen from the current directory, is when seen from `q`. -/
def seenFrom (q w : Place) : Place where
  root := q.root
  ups := if q.root then q.ups else q.ups + (w.ups - q.names.length)
  names := q.names.take (q.names.length - w.ups) ++ w.names

lemma seenFrom_here (q : Place) : q.seenFrom here = q := by
  cases q
  simp [seenFrom, here]

lemma child_inj {q q' : Place} {f f' : List Char} : q.child f = q'.child f' ↔ q = q' ∧ f = f' := by
  obtain ⟨root, ups, names⟩ := q
  obtain ⟨root', ups', names'⟩ := q'
  simp only [child, mk.injEq, List.append_singleton_inj]
  tauto

lemma seenFrom_follow (q : Place) {w : Place} (hw : w.root = false) (c : Part) :
    q.seenFrom (w.follow c) = (q.seenFrom w).follow c := by
  obtain ⟨root, ups, names⟩ := w
  obtain rfl : root = false := hw
  cases c with
  | normal name => simp [follow, child, seenFrom]
  | parentDir =>
    by_cases hn : names = []
    · subst hn
      by_cases hle : q.names.length ≤ ups
      · -- already above the root or the current directory
        have h₁ : q.names.length - ups = 0 := by omega
        have h₂ : q.names.length - (ups + 1) = 0 := by omega
        have h₃ : ups + 1 - q.names.length = ups - q.names.length + 1 := by omega
        cases hr : q.root <;> simp [follow, parent, seenFrom, hr, h₁, h₂, h₃, Nat.add_assoc]
      · have h₁ : q.names.length - ups ≠ 0 := by omega
        have h₂ : q.names ≠ [] := by
          intro h
          simp [h] at hle
        have h₃ : ups + 1 - q.names.length = 0 := by omega
        have h₄ : ups - q.names.length = 0 := by omega
        have h₅ : q.names.length - (ups + 1) = q.names.length - ups - 1 := by omega
        have h₆ : (q.names.take (q.names.length - ups)).dropLast =
            q.names.take (q.names.length - ups - 1) := by
          rw [List.dropLast_eq_take, List.take_take, List.length_take]
          congr 1
          omega
        simp [follow, parent, seenFrom, h₁, h₂, h₃, h₄, h₅, h₆]
    · simp [follow, parent, seenFrom, hn, List.dropLast_append_of_ne_nil]

lemma follow_root {w : Place} (c : Part) : (w.follow c).root = w.root := by
  cases c with
  | normal name => rfl
  | parentDir =>
    simp only [follow, parent]
    split <;> rfl

lemma foldl_follow_seenFrom (q : Place) {w : Place} (hw : w.root = false) (cs : List Part) :
    cs.foldl follow (q.seenFrom w) = q.seenFrom (cs.foldl follow w) := by
  induction cs generalizing w with
  | nil => rfl
  | cons c cs ih =>
    rw [List.foldl_cons, List.foldl_cons, ← seenFrom_follow q hw, ih ((follow_root c).trans hw)]

/-- Following parts from `q` leads to the place they lead to, seen from `q`. -/
lemma foldl_follow (q : Place) (cs : List Part) :
    cs.foldl follow q = q.seenFrom (cs.foldl follow here) := by
  rw [← foldl_follow_seenFrom q rfl, seenFrom_here]

lemma seenFrom_eq_self {q w : Place} :
    q.seenFrom w = q ↔ w.names = q.names.drop (q.names.length - w.ups) ∧
      (q.root = true ∨ w.ups ≤ q.names.length) := by
  obtain ⟨root, ups, names⟩ := q
  have hnames : names.take (names.length - w.ups) ++ w.names = names ↔
      w.names = names.drop (names.length - w.ups) := by
    conv_lhs => rhs; rw [← List.take_append_drop (names.length - w.ups) names]
    exact List.append_right_inj _
  simp only [seenFrom, mk.injEq, true_and, hnames]
  cases root
  · simp [and_comm, Nat.sub_eq_zero_iff_le]
  · simp

end Place

def resolve (p : Path) : Place := (parts p).foldl Place.follow ⟨hasRoot p, 0, []⟩

lemma resolve_join {base p : Path} (hp : hasRoot p = false) :
    resolve (join base p) = (parts p).foldl Place.follow (resolve base) := by
  rw [resolve, parts_join hp, hasRoot_join hp, List.foldl_append, resolve]

end Moulars.Lib.Paths
