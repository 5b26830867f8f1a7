import Mathlib.Data.List.Basic
import Mathlib.Tactic.Common

/-!
Recursive descent over a list of tokens.

A parser takes tokens from the front of the list and never leaves more of them than it was given;
the bound is part of the parser, so that a loop that takes a token in every round always ends.
-/

namespace Moulars.Lib.TokenParser

variable {T E α β σ : Type}

/-- A parser of `α`, with tokens in `T` and errors in `E`. -/
structure Parser (T E α : Type) where
  run : List T → Except E (α × List T)
  shrinks : ∀ {ts a rest}, run ts = .ok (a, rest) → rest.length ≤ ts.length

namespace Parser

protected def pure (a : α) : Parser T E α where
  run ts := .ok (a, ts)
  shrinks h := by cases h; exact Nat.le_refl _

def fail (e : E) : Parser T E α where
  run _ := .error e
  shrinks h := by cases h

protected def bind (p : Parser T E α) (f : α → Parser T E β) : Parser T E β where
  run ts := match p.run ts with
    | .ok (a, rest) => (f a).run rest
    | .error e => .error e
  shrinks {ts b rest} h := by
    cases hp : p.run ts with
    | error e => simp [hp] at h
    | ok v =>
      simp only [hp] at h
      exact Nat.le_trans ((f v.1).shrinks h) (p.shrinks hp)

instance : Monad (Parser T E) where
  pure := Parser.pure
  bind := Parser.bind

def next : Parser T E (Option T) where
  run
    | [] => .ok (none, [])
    | t :: ts => .ok (some t, ts)
  shrinks {ts a rest} h := by
    cases ts <;> cases h <;> simp

/-! ### Loops -/

/-- What one round of a loop asks for: another round, the end, or the end with the token of
this round given back. -/
inductive Step (σ α : Type)
  | again (s : σ)
  | done (a : α)
  | putBack (a : α)

/-- Rounds of a loop, at most `n` of them. -/
def rounds (body : T → σ → Parser T E (Step σ α)) (atEnd : σ → Except E α) :
    ℕ → σ → List T → Except E (α × List T)
  | n + 1, s, t :: ts => match (body t s).run ts with
    | .ok (.again s', rest) => rounds body atEnd n s' rest
    | .ok (.done a, rest) => .ok (a, rest)
    | .ok (.putBack a, rest) => .ok (a, t :: rest)
    | .error e => .error e
  | _, s, ts => (atEnd s).map fun a => (a, ts)

lemma rounds_shrinks (body : T → σ → Parser T E (Step σ α)) (atEnd : σ → Except E α) {n : ℕ}
    {s : σ} {ts : List T} {a : α} {rest : List T}
    (h : rounds body atEnd n s ts = .ok (a, rest)) : rest.length ≤ ts.length := by
  induction n generalizing s ts with
  | zero =>
    rw [rounds] at h
    · cases hs : atEnd s <;> simp [hs, Except.map] at h
      exact h.2 ▸ Nat.le_refl _
    · simp
  | succ n ih =>
    cases ts with
    | nil =>
      rw [rounds] at h
      · cases hs : atEnd s <;> simp [hs, Except.map] at h
        exact h.2 ▸ Nat.le_refl _
      · simp
    | cons t ts =>
      rw [rounds] at h
      cases hb : (body t s).run ts with
      | error e => simp [hb] at h
      | ok v =>
        obtain ⟨step, rest'⟩ := v
        have hle := (body t s).shrinks hb
        cases step with
        | again s' =>
          simp only [hb] at h
          have := ih h
          simp only [List.length_cons]
          omega
        | done b =>
          simp only [hb, Except.ok.injEq, Prod.mk.injEq] at h
          rw [← h.2, List.length_cons]
          omega
        | putBack b =>
          simp only [hb, Except.ok.injEq, Prod.mk.injEq] at h
          rw [← h.2, List.length_cons, List.length_cons]
          omega

/-- `while let Some(token) = next_token()`: every round takes a token. -/
def loop (body : T → σ → Parser T E (Step σ α)) (atEnd : σ → Except E α) (s : σ) :
    Parser T E α where
  run ts := rounds body atEnd ts.length s ts
  shrinks h := rounds_shrinks body atEnd h

lemma rounds_eq (body : T → σ → Parser T E (Step σ α)) (atEnd : σ → Except E α) {n m : ℕ}
    {s : σ} {ts : List T} (hn : ts.length ≤ n) (hm : ts.length ≤ m) :
    rounds body atEnd n s ts = rounds body atEnd m s ts := by
  induction n generalizing m s ts with
  | zero =>
    obtain rfl : ts = [] := List.length_eq_zero_iff.1 (by omega)
    cases m <;> rfl
  | succ n ih =>
    cases ts with
    | nil => cases m <;> rfl
    | cons t ts =>
      simp only [List.length_cons] at hn hm
      obtain ⟨m, rfl⟩ : ∃ k, m = k + 1 := ⟨m - 1, by omega⟩
      rw [rounds, rounds]
      cases hb : (body t s).run ts with
      | error e => rfl
      | ok v =>
        obtain ⟨step, rest⟩ := v
        have hle := (body t s).shrinks hb
        cases step with
        | again s' => exact ih (by omega) (by omega)
        | done b => rfl
        | putBack b => rfl

@[simp] lemma loop_nil (body : T → σ → Parser T E (Step σ α)) (atEnd : σ → Except E α) (s : σ) :
    (loop body atEnd s).run [] = (atEnd s).map fun a => (a, []) := rfl

/-- **One round of a loop**: the loop goes on exactly when its body asks for it. -/
theorem loop_cons (body : T → σ → Parser T E (Step σ α)) (atEnd : σ → Except E α) (s : σ) (t : T)
    (ts : List T) :
    (loop body atEnd s).run (t :: ts) = match (body t s).run ts with
      | .ok (.again s', rest) => (loop body atEnd s').run rest
      | .ok (.done a, rest) => .ok (a, rest)
      | .ok (.putBack a, rest) => .ok (a, t :: rest)
      | .error e => .error e := by
  show rounds body atEnd (ts.length + 1) s (t :: ts) = _
  rw [rounds]
  cases hb : (body t s).run ts with
  | error e => rfl
  | ok v =>
    obtain ⟨step, rest⟩ := v
    cases step with
    | again s' => exact rounds_eq body atEnd ((body t s).shrinks hb) (Nat.le_refl _)
    | done b => rfl
    | putBack b => rfl

/-! ### What a parser returns -/

/-- From tokens that are all `Good`, `p` returns only values in `P`, and leaves good tokens. -/
def Ensures (Good : T → Prop) (p : Parser T E α) (P : α → Prop) : Prop :=
  ∀ ts, (∀ t ∈ ts, Good t) → ∀ a rest, p.run ts = .ok (a, rest) →
    P a ∧ ∀ t ∈ rest, Good t

namespace Ensures

variable {Good : T → Prop}

lemma pure {a : α} {P : α → Prop} (h : P a) : Ensures Good (Pure.pure a : Parser T E α) P := by
  rintro ts hts _ _ ⟨⟩
  exact ⟨h, hts⟩

lemma fail {e : E} {P : α → Prop} : Ensures Good (Parser.fail e : Parser T E α) P := by
  rintro _ _ _ _ ⟨⟩

lemma bind {p : Parser T E α} {f : α → Parser T E β} {P : α → Prop} {Q : β → Prop}
    (hp : Ensures Good p P) (hf : ∀ a, P a → Ensures Good (f a) Q) :
    Ensures Good (p >>= f) Q := by
  intro ts hts b rest h
  replace h : (p.bind f).run ts = .ok (b, rest) := h
  rw [Parser.bind] at h
  cases hr : p.run ts with
  | error e => simp [hr] at h
  | ok v =>
    simp only [hr] at h
    obtain ⟨ha, hrest⟩ := hp ts hts v.1 v.2 hr
    exact hf v.1 ha v.2 hrest b rest h

lemma next : Ensures Good (Parser.next : Parser T E (Option T)) fun o => ∀ t ∈ o, Good t := by
  intro ts hts o rest h
  cases ts with
  | nil => cases h; exact ⟨by simp, by simp⟩
  | cons t ts =>
    cases h
    refine ⟨?_, fun u hu => hts u (by simp [hu])⟩
    rintro _ ⟨⟩
    exact hts t (by simp)

/-- The rule for loops: an invariant of the loop's state that one round keeps. -/
lemma loop {body : T → σ → Parser T E (Step σ α)} {atEnd : σ → Except E α} {I : σ → Prop}
    {P : α → Prop} {s : σ} (hs : I s)
    (hbody : ∀ t s, Good t → I s → Ensures Good (body t s) fun
      | .again s' => I s'
      | .done a => P a
      | .putBack a => P a)
    (hend : ∀ s a, I s → atEnd s = .ok a → P a) : Ensures Good (Parser.loop body atEnd s) P := by
  intro ts
  induction hn : ts.length using Nat.strongRecOn generalizing s ts with
  | _ n ih =>
    intro hts a rest h
    cases ts with
    | nil =>
      rw [loop_nil] at h
      cases he : atEnd s with
      | error e => simp [he, Except.map] at h
      | ok b =>
        simp only [he, Except.map, Except.ok.injEq, Prod.mk.injEq] at h
        obtain ⟨rfl, rfl⟩ := h
        exact ⟨hend s b hs he, by simp⟩
    | cons t ts =>
      rw [loop_cons] at h
      have ht := hts t (by simp)
      have hts' : ∀ u ∈ ts, Good u := fun u hu => hts u (by simp [hu])
      cases hb : (body t s).run ts with
      | error e => simp [hb] at h
      | ok v =>
        obtain ⟨step, rest'⟩ := v
        obtain ⟨hstep, hrest⟩ := hbody t s ht hs ts hts' step rest' hb
        have hle := (body t s).shrinks hb
        simp only [List.length_cons] at hn
        cases step with
        | again s' =>
          simp only [hb] at h
          exact ih rest'.length (by omega) hstep rest' rfl hrest a rest h
        | done b =>
          simp only [hb, Except.ok.injEq, Prod.mk.injEq] at h
          obtain ⟨rfl, rfl⟩ := h
          exact ⟨hstep, hrest⟩
        | putBack b =>
          simp only [hb, Except.ok.injEq, Prod.mk.injEq] at h
          obtain ⟨rfl, rfl⟩ := h
          refine ⟨hstep, fun u hu => ?_⟩
          rcases List.mem_cons.1 hu with rfl | hu
          · exact ht
          · exact hrest u hu

end Ensures

end Parser

end Moulars.Lib.TokenParser
