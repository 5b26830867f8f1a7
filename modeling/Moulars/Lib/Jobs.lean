import Mathlib.Logic.Basic

/-!
Jobs: computations on a state that outlives their failure.

`Meets` is a triple for jobs under `Rules`: an invariant of the state, what is left of it when a job
fails, a relation between earlier and later states, and what is assumed of a run as far as it has
come.
-/

namespace Moulars.Lib.Jobs

variable {σ ε α β : Type}

def Job (σ ε α : Type) := σ → Except ε α × σ

namespace Job

instance : Monad (Job σ ε) where
  pure a := fun s => (.ok a, s)
  bind j k := fun s => match j s with
    | (.ok a, s) => k a s
    | (.error e, s) => (.error e, s)

def fail (e : ε) : Job σ ε α := fun s => (.error e, s)

def get : Job σ ε σ := fun s => (.ok s, s)

def modify (f : σ → σ) : Job σ ε Unit := fun s => (.ok (), f s)

def lift (x : Except ε α) : Job σ ε α := fun s => (x, s)

/-- A loop that carries a value along. -/
def fold (f : β → α → Job σ ε β) : β → List α → Job σ ε β
  | b, [] => pure b
  | b, a :: as => do
    let b ← f b a
    fold f b as

lemma bind_eq_ok {j : Job σ ε α} {k : α → Job σ ε β} {b : β} {s s' : σ} :
    (j >>= k) s = (.ok b, s') ↔ ∃ a s₁, j s = (.ok a, s₁) ∧ k a s₁ = (.ok b, s') := by
  have hdef : (j >>= k) s = match j s with
    | (.ok a, s) => k a s
    | (.error e, s) => (.error e, s) := rfl
  rw [hdef]
  rcases j s with ⟨_ | a, s₁⟩
  · constructor
    · intro h
      cases h
    · rintro ⟨a, s₂, h, -⟩
      cases h
  · constructor
    · intro h
      exact ⟨a, s₁, rfl, h⟩
    · rintro ⟨a', s₂, h, hk⟩
      cases h
      exact hk

lemma fold_state {f : β → α → Job σ ε β} (h : ∀ b a s, (f b a s).2 = s) (b : β) (as : List α)
    (s : σ) : (fold f b as s).2 = s := by
  induction as generalizing b s with
  | nil => rfl
  | cons a as ih =>
    have hdef : fold f b (a :: as) s = match f b a s with
      | (.ok b, s) => fold f b as s
      | (.error e, s) => (.error e, s) := rfl
    have hbody := h b a s
    rw [hdef]
    rcases hrun : f b a s with ⟨_ | b', s'⟩ <;> rw [hrun] at hbody <;> subst hbody
    · rfl
    · exact ih b' s'

end Job

/-- What jobs are checked against. -/
structure Rules (σ : Type) where
  /-- What is assumed of the run, as far as the state shows it. -/
  good : σ → Prop
  inv : σ → Prop
  /-- What holds after a failure. -/
  failed : σ → Prop
  moves : σ → σ → Prop
  failed_of_inv : ∀ s, inv s → failed s
  refl : ∀ s, moves s s
  trans : ∀ {s s' s''}, moves s s' → moves s' s'' → moves s s''

namespace Rules

variable {L : Rules σ} {P P' F : σ → Prop} {Q Q' : α → σ → Prop} {j : Job σ ε α}

/-- An assertion that the rules keep. -/
def Stable (L : Rules σ) (F : σ → Prop) : Prop := ∀ s s', L.moves s s' → F s → F s'

lemma Stable.and (hF : L.Stable F) (hP : L.Stable P) : L.Stable fun s => F s ∧ P s :=
  fun s s' hm h => ⟨hF s s' hm h.1, hP s s' hm h.2⟩

/-- What is left when a job has ended in `s'`. -/
def Ends (L : Rules σ) (Q : α → σ → Prop) (s : σ) : Except ε α × σ → Prop
  | (.ok a, s') => L.inv s' ∧ L.moves s s' ∧ Q a s'
  | (.error _, s') => L.failed s'

/-- If the run is good to its end, it was good before, and the job keeps the invariant, moves by
the rules, and establishes `Q` when it returns. -/
def Meets (L : Rules σ) (P : σ → Prop) (j : Job σ ε α) (Q : α → σ → Prop) : Prop :=
  ∀ s, L.good (j s).2 → L.good s ∧ (L.inv s → P s → L.Ends Q s (j s))

lemma Ends.imp {s : σ} {r : Except ε α × σ} (h : L.Ends Q s r)
    (hQ : ∀ a s', r = (.ok a, s') → L.moves s s' → Q a s' → Q' a s') : L.Ends Q' s r := by
  obtain ⟨_ | a, s'⟩ := r
  · exact h
  · exact ⟨h.1, h.2.1, hQ a s' rfl h.2.1 h.2.2⟩

namespace Meets

lemma pure {a : α} (h : ∀ s, L.good s → L.inv s → P s → Q a s) :
    L.Meets P (Pure.pure a : Job σ ε α) Q :=
  fun s hg => ⟨hg, fun hi hp => ⟨hi, L.refl s, h s hg hi hp⟩⟩

lemma fail (e : ε) : L.Meets P (Job.fail e : Job σ ε α) Q :=
  fun s hg => ⟨hg, fun hi _ => L.failed_of_inv s hi⟩

lemma lift {x : Except ε α} (h : ∀ a, x = .ok a → ∀ s, L.good s → L.inv s → P s → Q a s) :
    L.Meets P (Job.lift x) Q := by
  refine fun s hg => ⟨hg, fun hi hp => ?_⟩
  cases x with
  | error e => exact L.failed_of_inv s hi
  | ok a => exact ⟨hi, L.refl s, h a rfl s hg hi hp⟩

lemma bind {k : α → Job σ ε β} {Q' : β → σ → Prop} (hj : L.Meets P j Q)
    (hk : ∀ a, L.Meets (Q a) (k a) Q') : L.Meets P (j >>= k) Q' := by
  intro s hg
  have hdef : (j >>= k) s = match j s with
    | (.ok a, s) => k a s
    | (.error e, s) => (.error e, s) := rfl
  have hjs := hj s
  rw [hdef] at hg ⊢
  rcases hrun : j s with ⟨_ | a, s'⟩
  · rw [hrun] at hjs hg
    exact hjs hg
  · rw [hrun] at hjs hg
    obtain ⟨hgood', hafter⟩ := hk a s' hg
    obtain ⟨hgood, hkeeps⟩ := hjs hgood'
    refine ⟨hgood, fun hi hp => ?_⟩
    obtain ⟨hi', hm, hq⟩ := hkeeps hi hp
    have hend := hafter hi' hq
    simp only
    rcases hrun' : k a s' with ⟨_ | b, s''⟩
    · rwa [hrun'] at hend
    · rw [hrun'] at hend
      exact ⟨hend.1, L.trans hm hend.2.1, hend.2.2⟩

lemma get_bind {k : σ → Job σ ε β} {Q' : β → σ → Prop}
    (h : ∀ s₀, L.Meets (fun s => s = s₀ ∧ P s) (k s₀) Q') : L.Meets P (Job.get >>= k) Q' := by
  intro s hg
  obtain ⟨hgood, hkeeps⟩ := h s s hg
  exact ⟨hgood, fun hi hp => hkeeps hi ⟨rfl, hp⟩⟩

lemma of_inv (h : L.Meets (fun s => P s ∧ L.inv s) j Q) : L.Meets P j Q := by
  intro s hg
  obtain ⟨hgood, hkeeps⟩ := h s hg
  exact ⟨hgood, fun hi hp => hkeeps hi ⟨hp, hi⟩⟩

lemma imp (hP : ∀ s, P' s → P s) (hQ : ∀ a s, Q a s → Q' a s) (h : L.Meets P j Q) :
    L.Meets P' j Q' := by
  intro s hg
  obtain ⟨hgood, hkeeps⟩ := h s hg
  exact ⟨hgood, fun hi hp => (hkeeps hi (hP s hp)).imp fun a s' _ _ => hQ a s'⟩

lemma frame (h : L.Meets P j Q) (hF : L.Stable F) (hP : ∀ s, P' s → P s ∧ F s) :
    L.Meets P' j (fun a s => Q a s ∧ F s) := by
  intro s hg
  obtain ⟨hgood, hkeeps⟩ := h s hg
  refine ⟨hgood, fun hi hp => ?_⟩
  exact (hkeeps hi (hP s hp).1).imp fun a s' _ hm hq => ⟨hq, hF s s' hm (hP s hp).2⟩

/-- **Loops**: what the body takes from one value to the next holds of the last one. -/
lemma fold {f : β → α → Job σ ε β} {I : β → σ → Prop} (as : List α)
    (h : ∀ b, ∀ a ∈ as, L.Meets (I b) (f b a) I) (b : β) :
    L.Meets (I b) (Job.fold f b as) I := by
  induction as generalizing b with
  | nil => exact pure fun s _ _ hI => hI
  | cons a as ih =>
    refine bind (h b a (by simp)) fun b' => ?_
    exact ih (fun b a ha => h b a (by simp [ha])) b'

end Meets

end Rules

end Moulars.Lib.Jobs
