import Mathlib.Logic.Relation
import Mathlib.Order.WellFounded
import Mathlib.Data.Fintype.Order
import Mathlib.Data.List.MinMax

/-!
Directed graphs given by a relation, and the depth-first walk that keeps no record of where it has
been.

The walk ends from every node of a finite acyclic graph, and from no node that lies on a cycle.
-/

namespace Moulars.Lib.Digraph

open Relation

variable {α β : Type}

/-- No edge path leads from a node back to itself. -/
def Acyclic (r : α → α → Prop) : Prop := ∀ a, ¬ TransGen r a a

def addEdge (r : α → α → Prop) (p c : α) : α → α → Prop := fun a b => r a b ∨ (a = p ∧ b = c)

section

variable {r : α → α → Prop} {p c : α}

/-- A path in the graph with an edge added avoids the edge, or leads to its source and goes
on from its target. -/
lemma transGen_addEdge {a b : α} (h : TransGen (addEdge r p c) a b) :
    TransGen r a b ∨ (ReflTransGen r a p ∧ ReflTransGen r c b) := by
  induction h with
  | single h =>
    rcases h with h | ⟨rfl, rfl⟩
    · exact .inl (.single h)
    · exact .inr ⟨.refl, .refl⟩
  | tail _ h ih =>
    rcases h with h | ⟨rfl, rfl⟩
    · rcases ih with ih | ⟨hp, hc⟩
      · exact .inl (ih.tail h)
      · exact .inr ⟨hp, hc.tail h⟩
    · rcases ih with ih | ⟨hp, -⟩
      · exact .inr ⟨ih.to_reflTransGen, .refl⟩
      · exact .inr ⟨hp, .refl⟩

lemma acyclic_addEdge_iff (h : Acyclic r) :
    Acyclic (addEdge r p c) ↔ ¬ ReflTransGen r c p := by
  constructor
  · intro ha hcp
    have hback : ReflTransGen (addEdge r p c) c p := hcp.lift id fun _ _ h => .inl h
    exact ha p (TransGen.head' (.inr ⟨rfl, rfl⟩) hback)
  · intro hcp a ha
    rcases transGen_addEdge ha with ha | ⟨hp, hc⟩
    · exact h a ha
    · exact hcp (hc.trans hp)

lemma Acyclic.wellFounded [Finite α] (h : Acyclic r) : WellFounded (Function.swap r) := by
  have htrans : IsTrans α (Function.swap (TransGen r)) := ⟨fun _ _ _ hab hbc => hbc.trans hab⟩
  have hirrefl : Std.Irrefl (Function.swap (TransGen r)) := ⟨h⟩
  have hwf := Finite.wellFounded_of_trans_of_irrefl (Function.swap (TransGen r))
  have hsub : Subrelation (Function.swap r) (Function.swap (TransGen r)) :=
    fun hab => TransGen.single (r := r) hab
  exact hsub.wf hwf

lemma Acyclic.wellFounded_of_finite {s : Set α} (hs : s.Finite) (hr : ∀ a b, r a b → b ∈ s)
    (h : Acyclic r) : WellFounded (Function.swap r) := by
  have hfinite : Finite s := hs
  have hsub : Acyclic fun a b : s => r a b := fun a ha =>
    h a (ha.lift Subtype.val fun _ _ hab => hab)
  have hacc : ∀ a : s, Acc (Function.swap r) a := by
    intro a
    induction a using hsub.wellFounded.induction with
    | _ a ih => exact ⟨_, fun b hb => ih ⟨b, hr _ _ hb⟩ hb⟩
  exact ⟨fun a => ⟨a, fun b hb => hacc ⟨b, hr a b hb⟩⟩⟩

end

/-! ### Walks -/

/-- The labels met on the way down from a node, for paths of fewer than `depth` edges; `none`
when a path is longer. -/
def walk (next : α → List (β × α)) : ℕ → α → Option (List β)
  | 0, _ => none
  | depth + 1, a => ((next a).mapM fun e => (walk next depth e.2).map (e.1 :: ·)).map List.flatten

def Ends (next : α → List (β × α)) (a : α) : Prop := ∃ depth, (walk next depth a).isSome

variable {next : α → List (β × α)}

lemma mapM_isSome {γ δ : Type} (f : γ → Option δ) (l : List γ) :
    (l.mapM f).isSome ↔ ∀ x ∈ l, (f x).isSome := by
  induction l with
  | nil => simp
  | cons x l ih =>
    rw [List.mapM_cons]
    cases hx : f x with
    | none => simp [hx]
    | some y => cases hl : l.mapM f <;> simp_all

lemma walk_succ_isSome (depth : ℕ) (a : α) :
    (walk next (depth + 1) a).isSome ↔ ∀ e ∈ next a, (walk next depth e.2).isSome := by
  simp [walk, mapM_isSome]

lemma walk_mono {d e : ℕ} (hde : d ≤ e) {a : α} (h : (walk next d a).isSome) :
    (walk next e a).isSome := by
  induction d generalizing a e with
  | zero => simp [walk] at h
  | succ d ih =>
    obtain ⟨e, rfl⟩ : ∃ k, e = k + 1 := ⟨e - 1, by omega⟩
    rw [walk_succ_isSome] at h ⊢
    exact fun x hx => ih (by omega) (h x hx)

lemma ends_of_next {a : α} (h : ∀ e ∈ next a, Ends next e.2) : Ends next a := by
  have hbound : ∀ l : List (β × α), (∀ e ∈ l, Ends next e.2) →
      ∃ d, ∀ e ∈ l, (walk next d e.2).isSome := by
    intro l hl
    induction l with
    | nil => exact ⟨0, by simp⟩
    | cons x l ih =>
      obtain ⟨d, hd⟩ := ih fun e he => hl e (by simp [he])
      obtain ⟨k, hk⟩ := hl x (by simp)
      refine ⟨max d k, fun e he => ?_⟩
      rcases List.mem_cons.mp he with rfl | he
      · exact walk_mono (le_max_right _ _) hk
      · exact walk_mono (le_max_left _ _) (hd e he)
  obtain ⟨d, hd⟩ := hbound (next a) h
  exact ⟨d + 1, (walk_succ_isSome d a).mpr hd⟩

variable {r : α → α → Prop}

lemma ends_of_wellFounded (hr : ∀ a e, e ∈ next a → r a e.2)
    (h : WellFounded (Function.swap r)) (a : α) : Ends next a := by
  induction a using h.induction with
  | _ a ih => exact ends_of_next fun e he => ih e.2 (hr a e he)

lemma walk_of_transGen (hr : ∀ a b, r a b → ∃ e ∈ next a, e.2 = b) {a b : α}
    (h : TransGen r a b) {d : ℕ} (hd : (walk next d a).isSome) :
    ∃ k < d, (walk next k b).isSome := by
  induction h with
  | @single b h =>
    obtain ⟨e, he, rfl⟩ := hr a b h
    cases d with
    | zero => simp [walk] at hd
    | succ d => exact ⟨d, by omega, (walk_succ_isSome d a).mp hd e he⟩
  | @tail b c _ h ih =>
    obtain ⟨k, hk, hb⟩ := ih
    obtain ⟨e, he, rfl⟩ := hr b c h
    cases k with
    | zero => simp [walk] at hb
    | succ k => exact ⟨k, by omega, (walk_succ_isSome k b).mp hb e he⟩

lemma not_ends_of_cycle (hr : ∀ a b, r a b → ∃ e ∈ next a, e.2 = b) {a : α}
    (h : TransGen r a a) : ¬ Ends next a := by
  rintro ⟨d, hd⟩
  induction d using Nat.strong_induction_on with
  | _ d ih =>
    obtain ⟨k, hk, hka⟩ := walk_of_transGen hr h hd
    exact ih k hk hka

/-! ### What a walk meets -/

def Step (next : α → List (β × α)) (a b : α) : Prop := ∃ x, (x, b) ∈ next a

lemma mapM_of_isSome {γ δ : Type} {f : γ → Option (List δ)} {l : List γ}
    (h : ∀ x ∈ l, (f x).isSome) : l.mapM f = some (l.map fun x => (f x).getD []) := by
  induction l with
  | nil => rfl
  | cons x l ih =>
    obtain ⟨y, hy⟩ := Option.isSome_iff_exists.1 (h x (by simp))
    rw [List.mapM_cons, hy, ih fun z hz => h z (by simp [hz])]
    simp [hy]

lemma walk_succ_of_isSome {d : ℕ} {a : α} (h : ∀ e ∈ next a, (walk next d e.2).isSome) :
    walk next (d + 1) a =
      some ((next a).flatMap fun e => e.1 :: (walk next d e.2).getD []) := by
  have hmap : ∀ e ∈ next a, ((walk next d e.2).map (e.1 :: ·)).isSome := by
    intro e he
    rw [Option.isSome_map]
    exact h e he
  rw [walk, mapM_of_isSome hmap, Option.map_some, List.flatMap_def]
  refine congrArg (fun ls => some (List.flatten ls)) (List.map_congr_left fun e he => ?_)
  obtain ⟨l, hl⟩ := Option.isSome_iff_exists.1 (h e he)
  rw [hl]
  rfl

lemma walk_succ_eq_some {d : ℕ} {a : α} {l : List β} (h : walk next (d + 1) a = some l) :
    (∀ e ∈ next a, (walk next d e.2).isSome) ∧
      l = (next a).flatMap fun e => e.1 :: (walk next d e.2).getD [] := by
  have hsome := (walk_succ_isSome d a).1 (Option.isSome_of_mem h)
  exact ⟨hsome, Option.some.inj (h.symm.trans (walk_succ_of_isSome hsome))⟩

lemma walk_of_le {d e : ℕ} (hde : d ≤ e) {a : α} {l : List β} (h : walk next d a = some l) :
    walk next e a = some l := by
  induction d generalizing a e l with
  | zero => cases h
  | succ d ih =>
    obtain ⟨e, rfl⟩ : ∃ k, e = k + 1 := ⟨e - 1, by omega⟩
    obtain ⟨hsome, rfl⟩ := walk_succ_eq_some h
    have hlater : ∀ x ∈ next a, walk next e x.2 = walk next d x.2 := by
      intro x hx
      obtain ⟨l, hl⟩ := Option.isSome_iff_exists.1 (hsome x hx)
      rw [hl, ih (by omega) hl]
    rw [walk_succ_of_isSome fun x hx => hlater x hx ▸ hsome x hx]
    exact congrArg some (List.flatMap_congr fun x hx => by rw [hlater x hx])

/-- **A walk meets exactly the edges of the nodes that can be reached.** -/
lemma mem_walk {d : ℕ} {a : α} {l : List β} (h : walk next d a = some l) {x : β} :
    x ∈ l ↔ ∃ b c, ReflTransGen (Step next) a b ∧ (x, c) ∈ next b := by
  induction d generalizing a l with
  | zero => cases h
  | succ d ih =>
    obtain ⟨hsome, rfl⟩ := walk_succ_eq_some h
    have hbelow (e : β × α) (he : e ∈ next a) : x ∈ (walk next d e.2).getD [] ↔
        ∃ b c, ReflTransGen (Step next) e.2 b ∧ (x, c) ∈ next b := by
      obtain ⟨l, hl⟩ := Option.isSome_iff_exists.1 (hsome e he)
      rw [hl]
      exact ih hl
    rw [List.mem_flatMap]
    constructor
    · rintro ⟨e, he, hx⟩
      rcases List.mem_cons.1 hx with rfl | hx
      · exact ⟨a, e.2, .refl, he⟩
      · obtain ⟨b, c, hb, hc⟩ := (hbelow e he).1 hx
        exact ⟨b, c, .head ⟨e.1, he⟩ hb, hc⟩
    · rintro ⟨b, c, hb, hc⟩
      rcases hb.cases_head with rfl | ⟨a', ⟨y, hy⟩, hb⟩
      · exact ⟨(x, c), hc, by simp⟩
      · exact ⟨(y, a'), hy, List.mem_cons_of_mem _ ((hbelow (y, a') hy).2 ⟨b, c, hb, hc⟩)⟩

/-! ### Walks that meet nothing twice -/

/-- Below two edges of one node there is no common node that has edges of its own. -/
def Forks (next : α → List (β × α)) (a : α) : Prop :=
  (next a).Pairwise fun e e' => ∀ b, ReflTransGen (Step next) e.2 b →
    ReflTransGen (Step next) e'.2 b → next b = []

lemma forks_iff {a : α} (h : (next a).Nodup) : Forks next a ↔
    ∀ e ∈ next a, ∀ e' ∈ next a, e ≠ e' → ∀ b, ReflTransGen (Step next) e.2 b →
      ReflTransGen (Step next) e'.2 b → next b = [] := by
  constructor
  · intro hforks e he e' he' hne
    have hsymm : Std.Symm fun e e' : β × α => ∀ b, ReflTransGen (Step next) e.2 b →
        ReflTransGen (Step next) e'.2 b → next b = [] :=
      ⟨fun _ _ hxy b hb hb' => hxy b hb' hb⟩
    exact List.Pairwise.forall hforks he he' hne
  · intro hforks
    exact h.pairwise_of_forall_ne fun e he e' he' hne => hforks e he e' he' hne

lemma acyclic_of_rank {rank : α → ℕ} (h : ∀ a b, r a b → rank a < rank b) : Acyclic r := by
  intro a ha
  have hlt : ∀ b, TransGen r a b → rank a < rank b := by
    intro b hb
    induction hb with
    | single hab => exact h _ _ hab
    | tail _ hbc ih => exact ih.trans (h _ _ hbc)
  exact lt_irrefl _ (hlt a ha)

section Nodup

variable {source : β → α}

/-- **A walk meets no edge twice exactly when every node on the way forks.** -/
lemma nodup_walk_iff (hsource : ∀ a e, e ∈ next a → source e.1 = a)
    (hlabels : ∀ a, ((next a).map Prod.fst).Nodup) (hacyclic : Acyclic (Step next)) {d : ℕ} {a : α}
    {l : List β} (h : walk next d a = some l) :
    l.Nodup ↔ ∀ b, ReflTransGen (Step next) a b → Forks next b := by
  induction d generalizing a l with
  | zero => cases h
  | succ d ih =>
    obtain ⟨hsome, rfl⟩ := walk_succ_eq_some h
    have hwalk (e : β × α) (he : e ∈ next a) :
        walk next d e.2 = some ((walk next d e.2).getD []) := by
      obtain ⟨l, hl⟩ := Option.isSome_iff_exists.1 (hsome e he)
      rw [hl]
      rfl
    -- an edge of `a` is not met again below
    have hnot (e : β × α) (he : e ∈ next a) (x : β × α) (hx : x ∈ next a) :
        x.1 ∉ (walk next d e.2).getD [] := by
      intro hmem
      obtain ⟨b, c, hb, hc⟩ := (mem_walk (hwalk e he)).1 hmem
      obtain rfl : a = b := (hsource a x hx).symm.trans (hsource b (x.1, c) hc)
      exact hacyclic a (.head' ⟨e.1, he⟩ hb)
    rw [List.nodup_flatMap]
    have hhere : (next a).Pairwise (Function.onFun List.Disjoint fun e =>
        e.1 :: (walk next d e.2).getD []) ↔ Forks next a := by
      have hne : (next a).Pairwise fun e e' => e.1 ≠ e'.1 := List.pairwise_map.1 (hlabels a)
      constructor
      · intro hdisjoint
        refine hdisjoint.imp_of_mem fun {e e'} he he' hd b hb hb' => ?_
        refine List.eq_nil_iff_forall_not_mem.2 fun x hx => hd ?_ ?_ (a := x.1)
        · exact List.mem_cons_of_mem _ ((mem_walk (hwalk e he)).2 ⟨b, x.2, hb, hx⟩)
        · exact List.mem_cons_of_mem _ ((mem_walk (hwalk e' he')).2 ⟨b, x.2, hb', hx⟩)
      · intro hforks
        refine (hforks.and hne).imp_of_mem fun {e e'} he he' hf x hx hx' => ?_
        rcases List.mem_cons.1 hx with rfl | hx
        · rcases List.mem_cons.1 hx' with heq | hx'
          · exact hf.2 heq
          · exact hnot e' he' e he hx'
        · rcases List.mem_cons.1 hx' with rfl | hx'
          · exact hnot e he e' he' hx
          · obtain ⟨b, c, hb, hc⟩ := (mem_walk (hwalk e he)).1 hx
            obtain ⟨b', c', hb', hc'⟩ := (mem_walk (hwalk e' he')).1 hx'
            obtain rfl : b = b' := (hsource b (x, c) hc).symm.trans (hsource b' (x, c') hc')
            rw [hf.1 b hb hb'] at hc
            cases hc
    rw [hhere]
    constructor
    · rintro ⟨hbelow, hforks⟩ b hb
      rcases hb.cases_head with rfl | ⟨a', ⟨y, hy⟩, hb⟩
      · exact hforks
      · exact (ih (hwalk (y, a') hy)).1 (List.nodup_cons.1 (hbelow (y, a') hy)).2 b hb
    · intro hforks
      refine ⟨fun e he => List.nodup_cons.2 ⟨hnot e he e he, ?_⟩, hforks a .refl⟩
      exact (ih (hwalk e he)).2 fun b hb => hforks b (.head ⟨e.1, he⟩ hb)

end Nodup

end Moulars.Lib.Digraph
