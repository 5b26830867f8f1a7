import Mathlib.Data.List.Forall2

/-!
Computations that may fail: what it takes for a composition of them to succeed.
-/

namespace Moulars.Lib.Fallible

variable {ε α β σ : Type}

variable {f : α → Except ε β} {as : List α}

lemma bind_eq_ok {x : Except ε α} {b : β} :
    x.bind f = .ok b ↔ ∃ a, x = .ok a ∧ f a = .ok b := by
  cases x with
  | error e => exact ⟨nofun, fun ⟨_, h, _⟩ => nomatch h⟩
  | ok a => exact ⟨fun h => ⟨a, rfl, h⟩, fun ⟨_, h, hb⟩ => by cases h; exact hb⟩

lemma map_eq_ok {x : Except ε α} {f : α → β} {b : β} :
    x.map f = .ok b ↔ ∃ a, x = .ok a ∧ f a = b := by
  cases x with
  | error e => exact ⟨nofun, fun ⟨_, h, _⟩ => nomatch h⟩
  | ok a =>
    exact ⟨fun h => ⟨a, rfl, Except.ok.inj h⟩, fun ⟨_, h, hb⟩ => by cases h; exact hb ▸ rfl⟩

lemma mapM_eq_ok {bs : List β} :
    as.mapM f = .ok bs ↔ List.Forall₂ (fun a b => f a = .ok b) as bs := by
  induction as generalizing bs with
  | nil =>
    rw [List.mapM_nil, List.forall₂_nil_left_iff]
    exact ⟨fun h => (Except.ok.inj h).symm, fun h => h ▸ rfl⟩
  | cons a as ih =>
    rw [List.mapM_cons, List.forall₂_cons_left_iff]
    constructor
    · intro h
      obtain ⟨b, hb, h⟩ := bind_eq_ok.1 h
      obtain ⟨bs', hbs, h⟩ := bind_eq_ok.1 h
      exact ⟨b, bs', hb, ih.1 hbs, (Except.ok.inj h).symm⟩
    · rintro ⟨b, bs', hb, hbs, rfl⟩
      exact bind_eq_ok.2 ⟨b, hb, bind_eq_ok.2 ⟨bs', ih.2 hbs, rfl⟩⟩

lemma exists_mapM_eq_ok :
    (∃ bs, as.mapM f = .ok bs) ↔ ∀ a ∈ as, ∃ b, f a = .ok b := by
  simp only [mapM_eq_ok]
  induction as with
  | nil => simp
  | cons a as ih =>
    rw [List.forall_mem_cons, ← ih]
    constructor
    · rintro ⟨bs, h⟩
      obtain ⟨b, bs', hb, hbs, -⟩ := List.forall₂_cons_left_iff.1 h
      exact ⟨⟨b, hb⟩, bs', hbs⟩
    · rintro ⟨⟨b, hb⟩, bs, hbs⟩
      exact ⟨b :: bs, .cons hb hbs⟩

lemma exists_of_mapM_eq_error {e : ε} (h : as.mapM f = .error e) : ∃ a ∈ as, f a = .error e := by
  induction as with
  | nil => cases h
  | cons a as ih =>
    rw [List.mapM_cons] at h
    cases ha : f a with
    | error e' =>
      rw [ha] at h
      cases h
      exact ⟨a, by simp, ha⟩
    | ok b =>
      rw [ha] at h
      cases has : as.mapM f with
      | error e' =>
        rw [has] at h ih
        cases h
        obtain ⟨a', hmem, ha'⟩ := ih rfl
        exact ⟨a', by simp [hmem], ha'⟩
      | ok bs =>
        rw [has] at h
        cases h

lemma exists_of_mem_mapM {bs : List β} (h : as.mapM f = .ok bs) {b : β} (hb : b ∈ bs) :
    ∃ a ∈ as, f a = .ok b := by
  rw [mapM_eq_ok] at h
  induction h with
  | nil => cases hb
  | cons ha _ ih =>
    rcases List.mem_cons.1 hb with rfl | hb
    · exact ⟨_, by simp, ha⟩
    · obtain ⟨a, hmem, ha⟩ := ih hb
      exact ⟨a, by simp [hmem], ha⟩

lemma eq_of_mapM_eq_ok {f : α → Except ε α} {bs : List α} (h : as.mapM f = .ok bs)
    (hf : ∀ a ∈ as, ∀ b, f a = .ok b → b = a) : bs = as := by
  rw [mapM_eq_ok] at h
  induction h with
  | nil => rfl
  | cons ha _ ih =>
    rw [hf _ (by simp) _ ha, ih fun a hmem => hf a (by simp [hmem])]

/-- `iter().all(f)`: up to the first element that fails the test or cannot be tested. -/
def allOf (f : α → Except ε Bool) : List α → Except ε Bool
  | [] => .ok true
  | a :: as => (f a).bind fun holds => if holds then allOf f as else .ok false

lemma allOf_eq_true {f : α → Except ε Bool} :
    allOf f as = .ok true ↔ ∀ a ∈ as, f a = .ok true := by
  induction as with
  | nil => exact ⟨fun _ => nofun, fun _ => rfl⟩
  | cons a as ih =>
    rw [allOf, List.forall_mem_cons, ← ih, bind_eq_ok]
    constructor
    · rintro ⟨holds, ha, h⟩
      cases holds with
      | true => exact ⟨ha, h⟩
      | false => cases h
    · rintro ⟨ha, h⟩
      exact ⟨true, ha, h⟩

lemma exists_allOf {f : α → Except ε Bool} (h : ∀ a ∈ as, ∃ b, f a = .ok b) :
    ∃ b, allOf f as = .ok b := by
  induction as with
  | nil => exact ⟨true, rfl⟩
  | cons a as ih =>
    obtain ⟨holds, ha⟩ := h a (by simp)
    obtain ⟨b, hb⟩ := ih fun c hc => h c (by simp [hc])
    cases holds with
    | true => exact ⟨b, bind_eq_ok.2 ⟨true, ha, hb⟩⟩
    | false => exact ⟨false, bind_eq_ok.2 ⟨false, ha, rfl⟩⟩

lemma foldlM_of_fixed {f : σ → α → Except ε σ} (h : ∀ a ∈ as, ∀ s, f s a = .ok s) (s : σ) :
    as.foldlM f s = .ok s := by
  induction as with
  | nil => rfl
  | cons a as ih =>
    rw [List.forall_mem_cons] at h
    rw [List.foldlM_cons, h.1 s]
    exact ih h.2

lemma foldlM_induct {f : σ → α → Except ε σ} {I : σ → Prop} {s s' : σ} (hs : I s)
    (hstep : ∀ s a s', a ∈ as → I s → f s a = .ok s' → I s') (h : as.foldlM f s = .ok s') :
    I s' := by
  induction as generalizing s with
  | nil => cases h; exact hs
  | cons a as ih =>
    rw [List.foldlM_cons] at h
    obtain ⟨s₁, h₁, h⟩ := bind_eq_ok.1 h
    exact ih (hstep s a s₁ (by simp) hs h₁) (fun s b s' hb => hstep s b s' (by simp [hb])) h

lemma foldlM_induct_some {f : σ → α → Option σ} {I : σ → Prop} {s s' : σ} (hs : I s)
    (hstep : ∀ s a s', a ∈ as → I s → f s a = some s' → I s') (h : as.foldlM f s = some s') :
    I s' := by
  induction as generalizing s with
  | nil => cases h; exact hs
  | cons a as ih =>
    rw [List.foldlM_cons] at h
    obtain ⟨s₁, h₁, h⟩ := Option.bind_eq_some_iff.1 h
    exact ih (hstep s a s₁ (by simp) hs h₁) (fun s b s' hb => hstep s b s' (by simp [hb])) h

/-- The rule for folds that must not fail: what each step keeps, it can be taken from. -/
lemma foldlM_exists {f : σ → α → Except ε σ} {I : List α → σ → Prop} {as : List α} {s : σ}
    (hs : I [] s) (hstep : ∀ before a after s, as = before ++ a :: after → I before s →
      ∃ s', f s a = .ok s' ∧ I (before ++ [a]) s') : ∃ s', as.foldlM f s = .ok s' ∧ I as s' := by
  have hrun : ∀ after before s, as = before ++ after → I before s →
      ∃ s', after.foldlM f s = .ok s' ∧ I as s' := by
    intro after
    induction after with
    | nil => exact fun before s has hI => ⟨s, rfl, by rwa [has, List.append_nil]⟩
    | cons a after ih =>
      intro before s has hI
      obtain ⟨s₁, h₁, hI₁⟩ := hstep before a after s has hI
      obtain ⟨s', h', hI'⟩ := ih (before ++ [a]) s₁ (by simpa using has) hI₁
      exact ⟨s', by rw [List.foldlM_cons]; exact bind_eq_ok.2 ⟨s₁, h₁, h'⟩, hI'⟩
  exact hrun as [] s rfl hs

end Moulars.Lib.Fallible
