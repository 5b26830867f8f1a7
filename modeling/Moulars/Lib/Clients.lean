import Mathlib.Logic.Function.Basic

/-!
Clients of a server: programs that make requests one at a time, and what happens when any number of
them run side by side.

A `Pool` is a server with its clients, each with a state of its own; one step lets one client have
one request answered. `Contract` says what a client may ask and what it can count on in return.
`Runs.keeps` is the rule for all interleavings: a program is checked against the contract once, and
the server request by request.
-/

namespace Moulars.Lib.Clients

variable {M : Type} {R : M → Type} {E E' α β : Type}

/-! ### Programs -/

/-- How a program ends: with a value, with an error, or not of its own accord. -/
inductive Result (E α : Type)
  | ok (a : α)
  | error (e : E)
  | crash

/-- A program that makes requests `m`, each answered by an `R m`. -/
inductive Prog {M : Type} (R : M → Type) (E α : Type)
  | done (r : Result E α)
  | ask (m : M) (k : R m → Prog R E α)

namespace Prog

/-- The program that goes on with the value of another; errors and crashes end both. -/
def andThen : Prog R E α → (α → Prog R E β) → Prog R E β
  | done (.ok a), f => f a
  | done (.error e), _ => done (.error e)
  | done .crash, _ => done .crash
  | ask m k, f => ask m fun r => (k r).andThen f

instance : Monad (Prog R E) where
  pure a := done (.ok a)
  bind := andThen

def fail (e : E) : Prog R E α := done (.error e)

def crash : Prog R E α := done .crash

def call (m : M) : Prog R E (R m) := ask m fun r => done (.ok r)

/-- Every request that the program can make, whatever the replies, is one of `F`. -/
def Only (F : M → Prop) : Prog R E α → Prop
  | done _ => True
  | ask m k => F m ∧ ∀ r, (k r).Only F

namespace Only

variable {F : M → Prop}

lemma call_bind {m : M} {f : R m → Prog R E α} (hm : F m) (hf : ∀ r, (f r).Only F) :
    (call m >>= f).Only F :=
  ⟨hm, hf⟩

lemma bind {p : Prog R E α} {f : α → Prog R E β} (hp : p.Only F) (hf : ∀ a, (f a).Only F) :
    (p >>= f).Only F := by
  induction p with
  | done r =>
    cases r with
    | ok a => exact hf a
    | error e => trivial
    | crash => trivial
  | ask m k ih => exact ⟨hp.1, fun r => ih r (hp.2 r)⟩

end Only

/-! ### Programs on their own -/

section Exec

variable {S : Type} {handle : (m : M) → S → R m × S}

/-- A program on its own: each request is answered out of a state, which may change. -/
def exec (handle : (m : M) → S → R m × S) : Prog R E α → S → Result E α × S
  | done r, s => (r, s)
  | ask m k, s => (k (handle m s).1).exec handle (handle m s).2

/-- The program until it has made the given number of requests; there it is cut off. -/
def execFor (handle : (m : M) → S → R m × S) : Prog R E α → Nat → S → Result E α × S
  | done r, _, s => (r, s)
  | ask _ _, 0, s => (.crash, s)
  | ask m k, n + 1, s => (k (handle m s).1).execFor handle n (handle m s).2

@[simp] lemma exec_pure (a : α) (s : S) : (pure a : Prog R E α).exec handle s = (.ok a, s) := rfl

lemma exec_call (m : M) (s : S) :
    (call m : Prog R E (R m)).exec handle s = (.ok (handle m s).1, (handle m s).2) := rfl

lemma exec_bind_ok {p : Prog R E α} {f : α → Prog R E β} {s s' : S} {a : α}
    (h : p.exec handle s = (.ok a, s')) :
    (p >>= f).exec handle s = (f a).exec handle s' := by
  induction p generalizing s with
  | done r =>
    obtain ⟨rfl, rfl⟩ := Prod.mk.inj h
    rfl
  | ask m k ih => exact ih _ h

end Exec

end Prog

/-! ### Contracts -/

section Contracts

variable {L : Type}

/-- What a client in the state `l` may ask, and which replies it can be given, with the states
they leave it in. -/
structure Contract {M : Type} (R : M → Type) (L : Type) where
  may : L → M → Prop
  gives : L → (m : M) → R m → L → Prop

variable {C : Contract R L} {Q Q' : L → Result E α → Prop}

/-- The program asks only what it may, and ends with `Q`. -/
def Prog.Keeps (C : Contract R L) (Q : L → Result E α → Prop) : Prog R E α → L → Prop
  | .done r, l => Q l r
  | .ask m k, l => C.may l m ∧ ∀ r l', C.gives l m r l' → (k r).Keeps C Q l'

namespace Prog.Keeps

lemma imp (hQ : ∀ l r, Q l r → Q' l r) {p : Prog R E α} {l : L} (h : p.Keeps C Q l) :
    p.Keeps C Q' l := by
  induction p generalizing l with
  | done r => exact hQ l r h
  | ask m k ih => exact ⟨h.1, fun r l' hr => ih r (h.2 r l' hr)⟩

/-- **Composition**: the second program starts where the first one ends with a value. -/
lemma bind {p : Prog R E α} {f : α → Prog R E β} {Q : L → Result E β → Prop} {l : L}
    (h : p.Keeps C (fun l r => match r with
      | .ok a => (f a).Keeps C Q l
      | .error e => Q l (.error e)
      | .crash => Q l .crash) l) : (p >>= f).Keeps C Q l := by
  induction p generalizing l with
  | done r => cases r <;> exact h
  | ask m k ih => exact ⟨h.1, fun r l' hr => ih r (h.2 r l' hr)⟩

lemma of_only {F : M → Prop} (hF : ∀ l m, F m → C.may l m) {p : Prog R E α} {l : L}
    (h : p.Only F) : p.Keeps C (fun _ _ => True) l := by
  induction p generalizing l with
  | done r => trivial
  | ask m k ih => exact ⟨hF l m h.1, fun r l' _ => ih r (h.2 r)⟩

/-- A program on its own, in surroundings whose states stand for those of the contract. -/
lemma exec {S : Type} {handle : (m : M) → S → R m × S} {rel : S → L → Prop}
    (hserve : ∀ m s l, rel s l → C.may l m →
      ∃ l', C.gives l m (handle m s).1 l' ∧ rel (handle m s).2 l')
    {p : Prog R E α} {l : L} {s : S} (hp : p.Keeps C Q l) (hs : rel s l) :
    ∃ l', rel (p.exec handle s).2 l' ∧ Q l' (p.exec handle s).1 := by
  induction p generalizing l s with
  | done r => exact ⟨l, hs, hp⟩
  | ask m k ih =>
    obtain ⟨l', hgives, hrel⟩ := hserve m s l hs hp.1
    exact ih _ (hp.2 _ l' hgives) hrel

end Prog.Keeps

/-- The contract of a client that also takes notes of the replies it gets, and makes a request
only if its notes allow it. -/
def Contract.noting {N : Type} (C : Contract R L) (note : N → (m : M) → R m → N)
    (allow : L → N → M → Prop) : Contract R (L × N) where
  may l m := allow l.1 l.2 m
  gives l m r l' := C.gives l.1 m r l'.1 ∧ l'.2 = note l.2 m r

end Contracts

/-! ### Pools -/

section Pools

variable {ι S L V : Type} [DecidableEq ι]

structure Client {M : Type} (R : M → Type) (E α L : Type) where
  own : L
  prog : Prog R E α

structure Pool {M : Type} (ι S : Type) (R : M → Type) (E α L : Type) where
  server : S
  clients : ι → Client R E α L

def Pool.owns (p : Pool ι S R E α L) (i : ι) : L := (p.clients i).own

/-- A server: given what the outside decides, a request from a client in some state is
answered, or the server is stuck for good. -/
@[reducible] def Serve {M : Type} (V S : Type) (R : M → Type) (L : Type) : Type :=
  V → (m : M) → L → S → Option (R m × L × S)

/-- The pool after the next request of client `i` was answered. -/
def Pool.step (serve : Serve V S R L) (p : Pool ι S R E α L) (i : ι) (v : V) :
    Option (Pool ι S R E α L) :=
  match (p.clients i).prog with
  | .done _ => none
  | .ask m k => (serve v m (p.clients i).own p.server).map fun a =>
    ⟨a.2.2, Function.update p.clients i ⟨a.2.1, k a.1⟩⟩

/-- The requests client `i` is about to make. -/
def Pool.Asks (p : Pool ι S R E α L) (i : ι) (m : M) : Prop :=
  ∃ k, (p.clients i).prog = .ask m k

/-- The pools reached from `p₀` by steps before each of which `Fine` holds, of the server, the
states of the clients, the client that makes the step and its request. -/
inductive Runs (serve : Serve V S R L) (Fine : S → (ι → L) → ι → M → Prop)
    (p₀ : Pool ι S R E α L) : Pool ι S R E α L → Prop
  | start : Runs serve Fine p₀ p₀
  | step {p q : Pool ι S R E α L} {i : ι} {v : V} (h : Runs serve Fine p₀ p)
      (hfine : ∀ m, p.Asks i m → Fine p.server p.owns i m) (hq : p.step serve i v = some q) :
      Runs serve Fine p₀ q

variable {serve : Serve V S R L} {Fine : S → (ι → L) → ι → M → Prop} {C : Contract R L}
  {Q : L → Result E α → Prop} {p₀ p : Pool ι S R E α L}

lemma Pool.step_eq_some {i : ι} {v : V} {q : Pool ι S R E α L} (h : p.step serve i v = some q) :
    ∃ m k r l s, (p.clients i).prog = .ask m k ∧
      serve v m (p.owns i) p.server = some (r, l, s) ∧
      q = ⟨s, Function.update p.clients i ⟨l, k r⟩⟩ := by
  unfold Pool.step at h
  split at h
  · cases h
  · rename_i m k hp
    obtain ⟨⟨r, l, s⟩, ha, rfl⟩ := Option.map_eq_some_iff.1 h
    exact ⟨m, k, r, l, s, hp, ha, rfl⟩

lemma Runs.trans {q : Pool ι S R E α L} (h : Runs serve Fine p₀ p) (h' : Runs serve Fine p q) :
    Runs serve Fine p₀ q := by
  induction h' with
  | start => exact h
  | step _ hfine hq ih => exact ih.step hfine hq

lemma Runs.client_of_done {i : ι} {r : Result E α} (h : Runs serve Fine p₀ p)
    (hr : (p₀.clients i).prog = .done r) : p.clients i = p₀.clients i := by
  induction h with
  | start => rfl
  | @step p q j v _ hfine hq ih =>
    obtain ⟨m, k, a, l, s, hp, hserve, rfl⟩ := Pool.step_eq_some hq
    have hne : i ≠ j := by
      rintro rfl
      rw [ih, hr] at hp
      cases hp
    exact (Function.update_of_ne hne _ _).trans ih

/-- **The rule for interleavings.** If the programs keep the contract, and the server honours
it and keeps an invariant in every fine step, then the invariant holds in every pool reached,
and what is left of the programs keeps the contract. -/
theorem Runs.keeps {I : S → (ι → L) → Prop} (h : Runs serve Fine p₀ p) (hI : I p₀.server p₀.owns)
    (hC : ∀ i, (p₀.clients i).prog.Keeps C Q (p₀.owns i))
    (hstep : ∀ s ls i v m r l s', I s ls → C.may (ls i) m → Fine s ls i m →
      serve v m (ls i) s = some (r, l, s') →
        C.gives (ls i) m r l ∧ I s' (Function.update ls i l)) :
    I p.server p.owns ∧ ∀ i, (p.clients i).prog.Keeps C Q (p.owns i) := by
  induction h with
  | start => exact ⟨hI, hC⟩
  | @step p q i v _ hfine hq ih =>
    obtain ⟨hI, hC⟩ := ih
    obtain ⟨m, k, r, l, s, hp, hserve, rfl⟩ := Pool.step_eq_some hq
    obtain ⟨hmay, hk⟩ : (Prog.ask m k).Keeps C Q (p.owns i) := hp ▸ hC i
    obtain ⟨hgives, hI'⟩ := hstep _ _ i v m r l s hI hmay (hfine m ⟨k, hp⟩) hserve
    have howns : (⟨s, Function.update p.clients i ⟨l, k r⟩⟩ : Pool ι S R E α L).owns =
        Function.update p.owns i l := by
      funext j
      by_cases hj : j = i
      · subst hj
        simp [Pool.owns]
      · simp [Pool.owns, hj]
    refine ⟨howns ▸ hI', fun j => ?_⟩
    by_cases hj : j = i
    · subst hj
      simpa [Pool.owns] using hk r l hgives
    · simpa [Pool.owns, hj] using hC j

/-! #### Notes -/

section Notes

variable {N : Type} (note : N → (m : M) → R m → N)

/-- The pool whose clients also have notes. -/
def Pool.noting (p : Pool ι S R E α L) (n : ι → N) : Pool ι S R E α (L × N) :=
  ⟨p.server, fun i => ⟨((p.clients i).own, n i), (p.clients i).prog⟩⟩

/-- The server that writes them. -/
def serveNoting (serve : Serve V S R L) : Serve V S R (L × N) := fun v m l s =>
  (serve v m l.1 s).map fun a => (a.1, (a.2.1, note l.2 m a.1), a.2.2)

lemma Runs.noting (h : Runs serve Fine p₀ p) (n₀ : ι → N) : ∃ n, Runs (serveNoting note serve)
    (fun s ls i m => Fine s (fun j => (ls j).1) i m) (p₀.noting n₀) (p.noting n) := by
  induction h with
  | start => exact ⟨n₀, .start⟩
  | @step p q i v _ hfine hq ih =>
    obtain ⟨n, hn⟩ := ih
    obtain ⟨m, k, r, l, s, hp, hserve, rfl⟩ := Pool.step_eq_some hq
    refine ⟨Function.update n i (note (n i) m r), hn.step (i := i) (v := v) hfine ?_⟩
    have hprog : ((p.noting n).clients i).prog = .ask m k := hp
    have hanswer : serveNoting note serve v m ((p.noting n).clients i).own (p.noting n).server =
        some (r, (l, note (n i) m r), s) := by
      show (serve v m (p.owns i) p.server).map _ = _
      rw [hserve]
      rfl
    unfold Pool.step
    rw [hprog]
    dsimp only
    rw [hanswer]
    refine congrArg some (congrArg (Pool.mk s) (funext fun j => ?_))
    by_cases hj : j = i
    · subst hj
      simp
    · simp [Pool.noting, hj]

variable {note}

/-- **The rule for interleavings with notes.** -/
theorem Runs.keeps_noting {allow : L → N → M → Prop} {Q' : L × N → Result E α → Prop}
    {I : S → (ι → L × N) → Prop} (h : Runs serve Fine p₀ p) (n₀ : ι → N)
    (hI : I p₀.server fun i => (p₀.owns i, n₀ i))
    (hC : ∀ i, (p₀.clients i).prog.Keeps C Q (p₀.owns i))
    (hN : ∀ i, (p₀.clients i).prog.Keeps (C.noting note allow) Q' (p₀.owns i, n₀ i))
    (hstep : ∀ s ls i v m r l s', I s ls → C.may (ls i).1 m → allow (ls i).1 (ls i).2 m →
      Fine s (fun j => (ls j).1) i m → serve v m (ls i).1 s = some (r, l, s') →
        C.gives (ls i).1 m r l ∧ I s' (Function.update ls i (l, note (ls i).2 m r))) :
    ∃ n : ι → N, I p.server (fun i => (p.owns i, n i)) ∧
      ∀ i m, p.Asks i m → allow (p.owns i) (n i) m := by
  obtain ⟨n, hn⟩ := h.noting note n₀
  -- both contracts at once
  let D : Contract R (L × N) :=
    ⟨fun l m => C.may l.1 m ∧ allow l.1 l.2 m, (C.noting note allow).gives⟩
  have hboth : ∀ (q : Prog R E α) (l : L × N), q.Keeps C Q l.1 →
      q.Keeps (C.noting note allow) Q' l → q.Keeps D (fun _ _ => True) l := by
    intro q
    induction q with
    | done r => exact fun _ _ _ => trivial
    | ask m k ih =>
      intro l hC hN
      exact ⟨⟨hC.1, hN.1⟩, fun r l' hl' => ih r l' (hC.2 r _ hl'.1) (hN.2 r l' hl')⟩
  refine ⟨n, And.imp_right (fun hD i m ⟨k, hk⟩ => ?_)
    (Runs.keeps (C := D) (I := I) hn hI (fun i => hboth _ _ (hC i) (hN i)) ?_)⟩
  · have hask : (Prog.ask m k).Keeps D (fun _ _ => True) (p.owns i, n i) := hk ▸ hD i
    exact hask.1.2
  intro s ls i v m r l s' hs hmay hfine hserve
  obtain ⟨⟨r', l₁, s₁⟩, ha, heq⟩ := Option.map_eq_some_iff.1 hserve
  cases heq
  obtain ⟨hgives, hI'⟩ := hstep s ls i v m r' l₁ s₁ hs hmay.1 hmay.2 hfine ha
  exact ⟨⟨hgives, rfl⟩, hI'⟩

end Notes

section Replay

variable [∀ s ls i m, Decidable (Fine s ls i m)]

/-- The pool after the given steps, if all of them can be made and are fine. -/
def Pool.replay (serve : Serve V S R L) (Fine : S → (ι → L) → ι → M → Prop)
    [∀ s ls i m, Decidable (Fine s ls i m)] (p : Pool ι S R E α L) :
    List (ι × V) → Option (Pool ι S R E α L)
  | [] => some p
  | (i, v) :: steps => match (p.clients i).prog with
    | .done _ => none
    | .ask m _ =>
        if Fine p.server p.owns i m then (p.step serve i v).bind (·.replay serve Fine steps)
      else none

lemma Runs.replay {steps : List (ι × V)} {q : Pool ι S R E α L} (h : Runs serve Fine p₀ p)
    (hq : p.replay serve Fine steps = some q) : Runs serve Fine p₀ q := by
  induction steps generalizing p with
  | nil =>
    cases hq
    exact h
  | cons e steps ih =>
    obtain ⟨i, v⟩ := e
    rw [Pool.replay] at hq
    split at hq
    · cases hq
    · rename_i m k hprog
      split at hq
      · rename_i hfine
        obtain ⟨p', hstep, hrest⟩ := Option.bind_eq_some_iff.1 hq
        refine ih (h.step (fun m' hm' => ?_) hstep) hrest
        obtain ⟨k', hk'⟩ := hm'
        cases hprog.symm.trans hk'
        exact hfine
      · cases hq

end Replay

end Pools

end Moulars.Lib.Clients
