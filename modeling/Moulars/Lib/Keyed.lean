import Mathlib.Data.Set.Insert
import Moulars.Lib.Fallible

/-!
Lists whose elements have keys, and changes to the first element with a key.

Several elements may share a key; then only the first of them is ever found. `ByKey` says
what a series of changes has made of each element, and one rule says what one more change
does to that.
-/

namespace Moulars.Lib.Keyed

open Lib.Fallible

variable {α K ε : Type} (key : α → K)

/-- Change the first element with key `k`; `none` if there is none. -/
def modifyFirst [DecidableEq K] (k : K) (f : α → Except ε α) : List α → Except ε (Option (List α))
  | [] => .ok none
  | a :: as =>
    if key a = k then (f a).map fun a => some (a :: as)
    else (modifyFirst k f as).map fun o => o.map fun as => a :: as

variable {key}

lemma modifyFirst_eq_some [DecidableEq K] {k : K} {f : α → Except ε α} {vs vs' : List α}
    (h : modifyFirst key k f vs = .ok (some vs')) :
    ∃ before v v' after, vs = before ++ v :: after ∧ f v = .ok v' ∧
      vs' = before ++ v' :: after := by
  induction vs generalizing vs' with
  | nil => cases h
  | cons a as ih =>
    rw [modifyFirst] at h
    split at h
    · obtain ⟨a', ha', heq⟩ := map_eq_ok.1 h
      cases heq
      exact ⟨[], a, a', as, rfl, ha', rfl⟩
    · obtain ⟨o, ho, heq⟩ := map_eq_ok.1 h
      obtain ⟨as', rfl, rfl⟩ := Option.map_eq_some_iff.1 heq
      obtain ⟨before, v, v', after, rfl, hv, rfl⟩ := ih ho
      exact ⟨a :: before, v, v', after, rfl, hv, rfl⟩

lemma modifyFirst_of_find_none [DecidableEq K] {k : K} (f : α → Except ε α) {vs : List α}
    (h : vs.find? (fun v => key v = k) = none) : modifyFirst key k f vs = .ok none := by
  induction vs with
  | nil => rfl
  | cons a as ih =>
    rw [List.find?_cons] at h
    by_cases hk : key a = k
    · simp [hk] at h
    · simp only [hk, decide_false] at h
      rw [modifyFirst, if_neg hk, ih h]
      rfl

lemma modifyFirst_of_find_some [DecidableEq K] {k : K} {f : α → Except ε α} {vs : List α} {v v' : α}
    (h : vs.find? (fun v => key v = k) = some v) (hf : f v = .ok v') (hkey : key v' = key v) :
    ∃ vs', modifyFirst key k f vs = .ok (some vs') ∧ vs'.find? (fun v => key v = k) = some v' ∧
      ∀ k' ≠ k, vs'.find? (fun v => key v = k') = vs.find? (fun v => key v = k') := by
  induction vs with
  | nil => cases h
  | cons a as ih =>
    rw [List.find?_cons] at h
    by_cases hk : key a = k
    · simp only [hk, decide_true, Option.some.injEq] at h
      subst h
      refine ⟨v' :: as, ?_, ?_, fun k' hk' => ?_⟩
      · rw [modifyFirst, if_pos hk, hf]
        rfl
      · simp [hkey, hk]
      · have hne : key a ≠ k' := fun h => hk' (h.symm.trans hk)
        simp [hkey, hne]
    · simp only [hk, decide_false] at h
      obtain ⟨as', hm, hfind, hother⟩ := ih h
      refine ⟨a :: as', ?_, ?_, fun k' hk' => ?_⟩
      · rw [modifyFirst, if_neg hk, hm]
        rfl
      · simp [hk, hfind]
      · rw [List.find?_cons, List.find?_cons, hother k' hk']

lemma forall₂_modifyFirst [DecidableEq K] {R : α → α → Prop} {k : K} {f : α → Except ε α}
    (hf : ∀ b v v', R b v → f v = .ok v' → R b v') {bs vs : List α} (h : List.Forall₂ R bs vs)
    {vs' : List α} (hm : modifyFirst key k f vs = .ok (some vs')) : List.Forall₂ R bs vs' := by
  induction h generalizing vs' with
  | nil => cases hm
  | cons hbv hrest ih =>
    rw [modifyFirst] at hm
    split at hm
    · obtain ⟨v', hv', heq⟩ := map_eq_ok.1 hm
      cases heq
      exact .cons (hf _ _ _ hbv hv') hrest
    · obtain ⟨o, ho, heq⟩ := map_eq_ok.1 hm
      obtain ⟨vs'', rfl, rfl⟩ := Option.map_eq_some_iff.1 heq
      exact .cons hbv (ih ho)

lemma forall₂_first {β : Type} {R : α → β → Prop} {P : β → Prop} {as : List α} {bs : List β}
    (h : List.Forall₂ R as bs) (hP : ∃ b ∈ bs, P b) :
    ∃ as₁ a as₂ bs₁ b bs₂, as = as₁ ++ a :: as₂ ∧ bs = bs₁ ++ b :: bs₂ ∧ List.Forall₂ R as₁ bs₁ ∧
      R a b ∧ as₂.length = bs₂.length ∧ (∀ b ∈ bs₁, ¬ P b) ∧ P b := by
  induction h with
  | nil => simp at hP
  | @cons a b as bs hab h ih =>
    by_cases hb : P b
    · exact ⟨[], a, as, [], b, bs, rfl, rfl, .nil, hab, h.length_eq, by simp, hb⟩
    · have hP' : ∃ b ∈ bs, P b := by
        obtain ⟨b', hb', hP⟩ := hP
        rcases List.mem_cons.1 hb' with rfl | hmem
        · exact absurd hP hb
        · exact ⟨b', hmem, hP⟩
      obtain ⟨as₁, a', as₂, bs₁, b', bs₂, rfl, rfl, h₁, hab', hlen, hfirst, hP⟩ := ih hP'
      exact ⟨a :: as₁, a', as₂, b :: bs₁, b', bs₂, rfl, rfl, .cons hab h₁, hab', hlen,
        List.forall_mem_cons.2 ⟨hb, hfirst⟩, hP⟩

lemma eq_append_of_once [DecidableEq K] {as : List α} {a : α} (ha : a ∈ as)
    (honce : (as.map key).count (key a) ≤ 1) :
    ∃ before after, as = before ++ a :: after ∧ (∀ b ∈ before, key b ≠ key a) ∧
      ∀ b ∈ after, key b ≠ key a := by
  obtain ⟨before, after, rfl⟩ := List.append_of_mem ha
  rw [List.map_append, List.map_cons, List.count_append, List.count_cons_self] at honce
  refine ⟨before, after, rfl, fun b hb he => ?_, fun b hb he => ?_⟩
  · have hpos := List.count_pos_iff.2 (he ▸ List.mem_map_of_mem hb : key a ∈ before.map key)
    omega
  · have hpos := List.count_pos_iff.2 (he ▸ List.mem_map_of_mem hb : key a ∈ after.map key)
    omega

/-! ### What changes have made of a list -/

variable (key) in
/-- Every element of `bs` that is the first with its key, and whose key has not been seen, is
related by `g` to the one of `vs` in its place; the others are the same. -/
inductive ByKey (g : α → α → Prop) : Set K → List α → List α → Prop
  | nil {seen} : ByKey g seen [] []
  | other {seen b bs vs} (hb : key b ∈ seen) (h : ByKey g seen bs vs) :
      ByKey g seen (b :: bs) (b :: vs)
  | first {seen b v bs vs} (hb : key b ∉ seen) (hg : g b v)
      (h : ByKey g (insert (key b) seen) bs vs) : ByKey g seen (b :: bs) (v :: vs)

variable (key) in
def keys (bs : List α) : Set K := { k | ∃ b ∈ bs, key b = k }

namespace ByKey

variable {g g' : α → α → Prop} {seen : Set K} {bs vs bs' vs' : List α}

lemma refl (seen : Set K) (bs : List α) : ByKey key (fun b v => v = b) seen bs bs := by
  induction bs generalizing seen with
  | nil => exact .nil
  | cons b bs ih =>
    by_cases hb : key b ∈ seen
    · exact .other hb (ih seen)
    · exact .first hb rfl (ih _)

variable (h : ByKey key g seen bs vs)
include h

lemma length_eq : bs.length = vs.length := by
  induction h with
  | nil => rfl
  | other _ _ ih => simp [ih]
  | first _ _ _ ih => simp [ih]

lemma map_eq {γ : Type} {f : α → γ} (hg : ∀ b v, g b v → f v = f b) :
    vs.map f = bs.map f := by
  induction h with
  | nil => rfl
  | other _ _ ih => simp [ih]
  | first _ hbv _ ih => simp [ih, hg _ _ hbv]

lemma imp (hg : ∀ b v, key b ∉ seen → g b v → g' b v) :
    ByKey key g' seen bs vs := by
  induction h with
  | nil => exact .nil
  | other hb _ ih => exact .other hb (ih hg)
  | first hb hbv _ ih =>
    exact .first hb (hg _ _ hb hbv) (ih fun b v hn => hg b v fun hm => hn (by simp [hm]))

lemma forall_mem {P : α → Prop} (hb : ∀ b ∈ bs, P b)
    (hg : ∀ b v, g b v → P b → P v) : ∀ v ∈ vs, P v := by
  induction h with
  | nil => simp
  | other _ _ ih =>
    rw [List.forall_mem_cons] at hb ⊢
    exact ⟨hb.1, ih hb.2⟩
  | first _ hbv _ ih =>
    rw [List.forall_mem_cons] at hb ⊢
    exact ⟨hg _ _ hbv hb.1, ih hb.2⟩

lemma append (h' : ByKey key g (seen ∪ keys key bs) bs' vs') :
    ByKey key g seen (bs ++ bs') (vs ++ vs') := by
  induction h with
  | nil =>
    have hn : keys key ([] : List α) = ∅ := by simp [keys]
    simpa [hn] using h'
  | @other seen b bs vs hb _ ih =>
    have hn : seen ∪ keys key (b :: bs) = seen ∪ keys key bs := by
      ext n
      simp only [keys, Set.mem_union, Set.mem_ofPred_eq, List.mem_cons, exists_eq_or_imp]
      constructor
      · rintro (hn | rfl | hn)
        · exact .inl hn
        · exact .inl hb
        · exact .inr hn
      · rintro (hn | hn)
        · exact .inl hn
        · exact .inr (.inr hn)
    rw [hn] at h'
    exact .other hb (ih h')
  | @first seen b v bs vs hb hg _ ih =>
    have hn : seen ∪ keys key (b :: bs) = insert (key b) seen ∪ keys key bs := by
      ext n
      simp only [keys, Set.mem_union, Set.mem_ofPred_eq, List.mem_cons, exists_eq_or_imp,
        Set.mem_insert_iff]
      constructor
      · rintro (hn | rfl | hn)
        · exact .inl (.inr hn)
        · exact .inl (.inl rfl)
        · exact .inr hn
      · rintro ((rfl | hn) | hn)
        · exact .inr (.inl rfl)
        · exact .inl hn
        · exact .inr (.inr hn)
    rw [hn] at h'
    exact .first hb hg (ih h')

variable [DecidableEq K]

lemma exists_of_once (hg : ∀ b v, g b v → key v = key b) {v : α}
    (hv : v ∈ vs) (hseen : key v ∉ seen) (honce : (bs.map key).count (key v) ≤ 1) :
    ∃ b ∈ bs, g b v := by
  induction h with
  | nil => cases hv
  | @other seen b bs vs hb _ ih =>
    rcases List.mem_cons.1 hv with rfl | hv
    · exact absurd hb hseen
    · rw [List.map_cons] at honce
      obtain ⟨b', hb', hg'⟩ := ih hv hseen (List.count_le_count_cons.trans honce)
      exact ⟨b', List.mem_cons_of_mem _ hb', hg'⟩
  | @first seen b w bs vs hb hbw h ih =>
    rcases List.mem_cons.1 hv with rfl | hv
    · exact ⟨b, List.mem_cons_self, hbw⟩
    · have hmem : key v ∈ bs.map key := h.map_eq hg ▸ List.mem_map_of_mem hv
      have hpos := List.count_pos_iff.2 hmem
      rw [List.map_cons] at honce
      have hne : key v ≠ key b := fun he => by
        rw [← he, List.count_cons_self] at honce
        omega
      obtain ⟨b', hb', hg'⟩ := ih hv (by simp [hne, hseen])
        (List.count_le_count_cons.trans honce)
      exact ⟨b', List.mem_cons_of_mem _ hb', hg'⟩

variable (key) in
/-- One more change, to the elements with key `k`. -/
def after (g : α → α → Prop) (k : K) (f : α → Except ε α) (b v' : α) : Prop :=
  ∃ v, g b v ∧ if key b = k then f v = .ok v' else v' = v

omit h in
lemma after_of_ne {k : K} {f : α → Except ε α} {b v : α} (hb : key b ≠ k) (h : g b v) :
    after key g k f b v :=
  ⟨v, h, by rw [if_neg hb]⟩

/-- **The rule for one change**: it is found if the key is there, and not if it is not. -/
lemma modifyFirst {k : K} {f : α → Except ε α}
    (hg : ∀ b v, g b v → key v = key b) (hk : k ∉ seen) {o : Option (List α)}
    (hm : Keyed.modifyFirst key k f vs = .ok o) :
    ByKey key (after key g k f) seen bs (o.getD vs) ∧ (o.isSome ↔ k ∈ keys key bs) := by
  induction h generalizing o with
  | nil =>
    cases hm
    exact ⟨.nil, by simp [keys]⟩
  | @other seen b bs vs hb h ih =>
    have hne : key b ≠ k := fun he => hk (he ▸ hb)
    rw [Keyed.modifyFirst, if_neg hne] at hm
    obtain ⟨o', ho', rfl⟩ := map_eq_ok.1 hm
    obtain ⟨hby, hsome⟩ := ih hk ho'
    refine ⟨?_, ?_⟩
    · cases o' <;> exact .other hb hby
    · rw [Option.isSome_map, hsome]
      simp [keys, hne]
  | @first seen b v bs vs hb hbv h ih =>
    rw [Keyed.modifyFirst, hg b v hbv] at hm
    by_cases hkey : key b = k
    · rw [if_pos hkey] at hm
      obtain ⟨v', hv', rfl⟩ := map_eq_ok.1 hm
      refine ⟨.first hb ⟨v, hbv, by rwa [if_pos hkey]⟩ (h.imp fun b' w hn hw => ?_), ?_⟩
      · exact after_of_ne (fun he => hn (by simp [he, hkey])) hw
      · simp [keys, hkey]
    · rw [if_neg hkey] at hm
      obtain ⟨o', ho', rfl⟩ := map_eq_ok.1 hm
      have hk' : k ∉ insert (key b) seen := by
        rw [Set.mem_insert_iff, not_or]
        exact ⟨fun he => hkey he.symm, hk⟩
      obtain ⟨hby, hsome⟩ := ih hk' ho'
      refine ⟨?_, ?_⟩
      · cases o' <;> exact .first hb (after_of_ne hkey hbv) hby
      · rw [Option.isSome_map, hsome]
        simp [keys, hkey]

/-- What holds between every element and its original can be read off the first element of
each key, for a relation that determines its right-hand side. -/
lemma forall₂_iff {R : α → α → Prop} (hrefl : ∀ b, R b b)
    (hfun : ∀ b v v', g b v → g b v' → v = v') :
    List.Forall₂ R bs vs ↔
      ∀ b, key b ∉ seen → bs.find? (fun a => key a = key b) = some b → ∃ v, g b v ∧ R b v := by
  induction h with
  | nil => simp
  | @other seen b bs vs hb _ ih =>
    rw [List.forall₂_cons, ih]
    have hfind : ∀ c, key c ∉ seen → (b :: bs).find? (fun a => key a = key c) =
        bs.find? (fun a => key a = key c) := by
      intro c hc
      have hne : key b ≠ key c := fun he => hc (he ▸ hb)
      rw [List.find?_cons_of_neg (by simpa using hne)]
    constructor
    · rintro ⟨-, h⟩ c hc hf
      exact h c hc (by rwa [hfind c hc] at hf)
    · intro h
      exact ⟨hrefl b, fun c hc hf => h c hc (by rwa [hfind c hc])⟩
  | @first seen b v bs vs hb hbv _ ih =>
    rw [List.forall₂_cons, ih]
    have hfind : ∀ c, key c ≠ key b → (b :: bs).find? (fun a => key a = key c) =
        bs.find? (fun a => key a = key c) := by
      intro c hc
      rw [List.find?_cons_of_neg (by simpa using hc.symm)]
    constructor
    · rintro ⟨hR, h⟩ c hc hf
      by_cases hcb : key c = key b
      · rw [List.find?_cons_of_pos (by simp [hcb])] at hf
        cases hf
        exact ⟨v, hbv, hR⟩
      · exact h c (by simp [hcb, hc]) (by rwa [hfind c hcb] at hf)
    · intro h
      obtain ⟨w, hw, hR⟩ := h b hb (by simp)
      refine ⟨hfun b w v hw hbv ▸ hR, fun c hc hf => ?_⟩
      rw [Set.mem_insert_iff, not_or] at hc
      exact h c hc.2 (by rwa [hfind c hc.1])

end ByKey

end Moulars.Lib.Keyed
