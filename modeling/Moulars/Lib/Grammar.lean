import Moulars.Lib.TokenParser

/-!
Grammars over tokens, and parsers that accept exactly what a grammar derives.

A phrase relates a value to the tokens from where the phrase begins and the tokens after it.
The tokens a parser works on may carry more than their kind, a location for instance; the
grammar sees the kinds alone.
-/

namespace Moulars.Lib.Grammar

open TokenParser TokenParser.Parser

variable {T K E α β γ δ σ : Type}

/-- The phrases with a value in `α`: the value, the tokens before, and the tokens after. -/
abbrev Lang (K α : Type) := α → List K → List K → Prop

/-- Any number of phrases, one after the other. -/
inductive Many (L : Lang K α) : Lang K (List α)
  | nil {ts} : Many L [] ts ts
  | cons {a as ts mid rest} (h : L a ts mid) (hs : Many L as mid rest) : Many L (a :: as) ts rest

/-- The rounds of a loop, by what one round makes of the token it begins with. -/
inductive Rounds (B : K → σ → Lang K (Step σ β)) (F : σ → β → Prop) : σ → Lang K β
  | eof {s b} (h : F s b) : Rounds B F s b [] []
  | again {s s' b k ts mid rest} (h : B k s (.again s') ts mid) (hs : Rounds B F s' b mid rest) :
      Rounds B F s b (k :: ts) rest
  | done {s b k ts rest} (h : B k s (.done b) ts rest) : Rounds B F s b (k :: ts) rest
  | putBack {s b k ts rest} (h : B k s (.putBack b) ts rest) : Rounds B F s b (k :: ts) (k :: rest)

/-- The outcome of a round, seen through `g`. -/
def stepMap (g : α → β) : Step σ α → Step σ β
  | .again s => .again s
  | .done a => .done (g a)
  | .putBack a => .putBack (g a)

lemma stepMap_id : stepMap (σ := σ) (id : α → α) = id := by
  funext step
  cases step <;> rfl

/-- **The parser accepts exactly the phrases of the language**, and what it returns is, seen
through `g`, their value. -/
structure Parses (kind : T → K) (p : Parser T E α) (g : α → β) (L : Lang K β) : Prop where
  sound : ∀ {ts a rest}, p.run ts = .ok (a, rest) → L (g a) (ts.map kind) (rest.map kind)
  complete : ∀ {b ts r}, L b (ts.map kind) r →
    ∃ a rest, p.run ts = .ok (a, rest) ∧ g a = b ∧ rest.map kind = r

namespace Parses

variable {kind : T → K}

variable {p : Parser T E α} {g : α → β} {L : Lang K β}

lemma congr {M : Lang K β} (hp : Parses kind p g L) (h : ∀ b ts rest, L b ts rest ↔ M b ts rest) :
    Parses kind p g M :=
  ⟨fun hr => (h _ _ _).1 (hp.sound hr), fun hb => hp.complete ((h _ _ _).2 hb)⟩

lemma pure (a : α) (g : α → β) :
    Parses kind (Pure.pure a : Parser T E α) g fun b ts rest => b = g a ∧ ts = rest where
  sound h := by
    cases h
    exact ⟨rfl, rfl⟩
  complete := by
    rintro b ts r ⟨rfl, rfl⟩
    exact ⟨a, ts, rfl, rfl, rfl⟩

lemma fail (e : E) (g : α → β) :
    Parses kind (Parser.fail e : Parser T E α) g fun _ _ _ => False where
  sound h := by cases h
  complete h := h.elim

lemma fail_of {e : E} (h : ∀ b ts rest, ¬ L b ts rest) :
    Parses kind (Parser.fail e : Parser T E α) g L :=
  (fail e g).congr fun b ts rest => ⟨False.elim, h b ts rest⟩

lemma bind {f : α → Parser T E γ} {g' : γ → δ} {M : β → Lang K δ} (hp : Parses kind p g L)
    (hf : ∀ a, Parses kind (f a) g' (M (g a))) :
    Parses kind (p >>= f) g' fun d ts rest => ∃ b mid, L b ts mid ∧ M b d mid rest where
  sound {ts c rest} h := by
    replace h : (p.bind f).run ts = .ok (c, rest) := h
    rw [Parser.bind] at h
    cases hr : p.run ts with
    | error e => simp [hr] at h
    | ok v =>
      simp only [hr] at h
      exact ⟨g v.1, v.2.map kind, hp.sound hr, (hf v.1).sound h⟩
  complete := by
    rintro d ts r ⟨b, mid, hb, hd⟩
    obtain ⟨a, rest, hr, rfl, rfl⟩ := hp.complete hb
    obtain ⟨c, rest', hc, hg, hk⟩ := (hf a).complete hd
    refine ⟨c, rest', ?_, hg, hk⟩
    show (p.bind f).run ts = _
    simp only [Parser.bind, hr, hc]

lemma bind_id {f : α → Parser T E γ} {g : γ → δ} {L : Lang K α} {M : α → Lang K δ}
    (hp : Parses kind p id L) (hf : ∀ a, Parses kind (f a) g (M a)) :
    Parses kind (p >>= f) g fun d ts rest => ∃ a mid, L a ts mid ∧ M a d mid rest :=
  hp.bind hf

/-- A token is taken, and what follows depends on it; at the end the parser fails. -/
lemma token {f : Option T → Parser T E α} {M : Lang K β} {e : E} (L : K → Lang K β)
    (hM : ∀ b ts rest, M b ts rest ↔ ∃ k mid, ts = k :: mid ∧ L k b mid rest)
    (hsome : ∀ t, Parses kind (f (some t)) g (L (kind t))) (hnone : f none = Parser.fail e) :
    Parses kind (next >>= f) g M where
  sound {ts a rest} h := by
    cases ts with
    | nil =>
      replace h : (f none).run [] = .ok (a, rest) := h
      rw [hnone] at h
      cases h
    | cons t ts => exact (hM _ _ _).2 ⟨kind t, ts.map kind, rfl, (hsome t).sound h⟩
  complete {b ts r} h := by
    obtain ⟨k, mid, hts, hb⟩ := (hM b _ r).1 h
    obtain ⟨t, ts, rfl, rfl, rfl⟩ := List.map_eq_cons_iff.1 hts
    exact (hsome t).complete hb

lemma token_cons {f : Option T → Parser T E α} {e : E} (hnil : ∀ b rest, ¬ L b [] rest)
    (hsome : ∀ t, Parses kind (f (some t)) g fun b ts rest => L b (kind t :: ts) rest)
    (hnone : f none = Parser.fail e) : Parses kind (next >>= f) g L := by
  refine token (fun k b ts rest => L b (k :: ts) rest) (fun b ts rest => ?_) hsome hnone
  cases ts with
  | nil => simp [hnil]
  | cons k mid => simp

lemma loop {body : T → σ → Parser T E (Step σ α)} {atEnd : σ → Except E α}
    {B : K → σ → Lang K (Step σ β)} {F : σ → β → Prop}
    (hbody : ∀ t s, Parses kind (body t s) (stepMap g) (B (kind t) s))
    (hend : ∀ s b, F s b ↔ ∃ a, atEnd s = .ok a ∧ g a = b) (s : σ) :
    Parses kind (Parser.loop body atEnd s) g (Rounds B F s) where
  sound {ts a rest} h := by
    induction hn : ts.length using Nat.strongRecOn generalizing s ts with
    | _ n ih =>
      cases ts with
      | nil =>
        rw [loop_nil] at h
        cases he : atEnd s with
        | error e => simp [he, Except.map] at h
        | ok b =>
          simp only [he, Except.map, Except.ok.injEq, Prod.mk.injEq] at h
          obtain ⟨rfl, rfl⟩ := h
          exact .eof ((hend s _).2 ⟨b, he, rfl⟩)
      | cons t ts =>
        rw [loop_cons] at h
        cases hb : (body t s).run ts with
        | error e => simp [hb] at h
        | ok v =>
          obtain ⟨step, mid⟩ := v
          have hstep := (hbody t s).sound hb
          have hle := (body t s).shrinks hb
          simp only [List.length_cons] at hn
          cases step with
          | again s' =>
            simp only [hb] at h
            exact .again hstep (ih mid.length (by omega) s' h rfl)
          | done b =>
            simp only [hb, Except.ok.injEq, Prod.mk.injEq] at h
            obtain ⟨rfl, rfl⟩ := h
            exact .done hstep
          | putBack b =>
            simp only [hb, Except.ok.injEq, Prod.mk.injEq] at h
            obtain ⟨rfl, rfl⟩ := h
            exact .putBack hstep
  complete {b ts r} h := by
    generalize hts : ts.map kind = ks at h
    induction h generalizing ts with
    | @eof s b hs =>
      obtain rfl : ts = [] := List.map_eq_nil_iff.1 hts
      obtain ⟨a, ha, hg⟩ := (hend s b).1 hs
      exact ⟨a, [], by rw [loop_nil, ha]; rfl, hg, rfl⟩
    | again hstep _ ih =>
      obtain ⟨t, ts, rfl, rfl, rfl⟩ := List.map_eq_cons_iff.1 hts
      obtain ⟨step, mid, hrun, hg, hmid⟩ := (hbody t _).complete hstep
      cases step with
      | again s' =>
        cases hg
        obtain ⟨a, rest, hr, ha, hk⟩ := ih hmid
        exact ⟨a, rest, by rw [loop_cons, hrun]; exact hr, ha, hk⟩
      | done a => cases hg
      | putBack a => cases hg
    | done hstep =>
      obtain ⟨t, ts, rfl, rfl, rfl⟩ := List.map_eq_cons_iff.1 hts
      obtain ⟨step, rest, hrun, hg, hk⟩ := (hbody t _).complete hstep
      cases step with
      | again s' => cases hg
      | done a => exact ⟨a, rest, by rw [loop_cons, hrun], Step.done.inj hg, hk⟩
      | putBack a => cases hg
    | putBack hstep =>
      obtain ⟨t, ts, rfl, rfl, rfl⟩ := List.map_eq_cons_iff.1 hts
      obtain ⟨step, rest, hrun, hg, hk⟩ := (hbody t _).complete hstep
      cases step with
      | again s' => cases hg
      | done a => cases hg
      | putBack a =>
        exact ⟨a, t :: rest, by rw [loop_cons, hrun], Step.putBack.inj hg,
          by rw [List.map_cons, hk]⟩

end Parses

end Moulars.Lib.Grammar
