import Moulars.Lib.Sparse

/-!
Readers that change a value as they go.

Unlike a plain reader, which gives a value or none, a reader in place leaves its value changed
by what it had done before it failed. Where it succeeds, it is a plain reader.
-/

namespace Moulars.Lib.InPlace

open Lib.Wire Lib.Sparse

/-- The value left, and the result with the rest of the stream or the reason for stopping. -/
structure ReaderAt (σ α : Type) where
  run : σ → Bytes → σ × Except Fault (α × Bytes)

namespace ReaderAt

variable {σ τ α β : Type}

instance : Monad (ReaderAt σ) where
  pure a := ⟨fun s bs => (s, .ok (a, bs))⟩
  bind m f := ⟨fun s bs => match m.run s bs with
    | (s, .ok (a, rest)) => (f a).run s rest
    | (s, .error e) => (s, .error e)⟩

/-- A reader that leaves the value alone. -/
def lift (r : Reader α) : ReaderAt σ α := ⟨fun s bs => (s, r.run bs)⟩

def get : ReaderAt σ σ := ⟨fun s bs => (s, .ok (s, bs))⟩

def modify (f : σ → σ) : ReaderAt σ Unit := ⟨fun s bs => (f s, .ok ((), bs))⟩

def fail (e : Fault) : ReaderAt σ α := lift (Reader.fail e)

/-- Work on a part of the value. -/
def within (part : σ → τ) (put : τ → σ → σ) (m : ReaderAt τ α) : ReaderAt σ α :=
  ⟨fun s bs => let r := m.run (part s) bs; (put r.1 s, r.2)⟩

/-- Work on one element of a list. -/
def elem (idx : ℕ) (bad : Fault) (m : ReaderAt τ Unit) : ReaderAt (List τ) Unit :=
  ⟨fun vs bs => match vs[idx]? with
    | some v => let r := m.run v bs; (vs.set idx r.1, r.2)
    | none => (vs, .error bad)⟩

/-- Replace the value by the one read, all at once. -/
def replace (r : σ → Reader σ) : ReaderAt σ Unit := do
  let s ← get
  let s' ← lift (r s)
  modify fun _ => s'

/-! ### As a plain reader -/

/-- The result together with the value left, if it succeeds. -/
def toReader (m : ReaderAt σ α) (s : σ) : Reader (α × σ) :=
  ⟨fun bs => (m.run s bs).2.map fun r => ((r.1, (m.run s bs).1), r.2)⟩

/-- A reader in place that succeeds as `r` does, with the same result. -/
def Agrees (m : ReaderAt σ Unit) (r : σ → Reader σ) : Prop :=
  ∀ s, m.toReader s = r s >>= fun s' => pure ((), s')

@[simp] lemma toReader_pure (a : α) (s : σ) :
    (pure a : ReaderAt σ α).toReader s = pure (a, s) := rfl

@[simp] lemma toReader_bind (m : ReaderAt σ α) (f : α → ReaderAt σ β) (s : σ) :
    (m >>= f).toReader s = m.toReader s >>= fun r => (f r.1).toReader r.2 := by
  refine Reader.ext (funext fun bs => ?_)
  rw [Reader.run_bind]
  simp only [toReader]
  show Except.map _ ((m >>= f).run s bs).2 = _
  have hrun : (m >>= f).run s bs = match m.run s bs with
    | (s, .ok (a, rest)) => (f a).run s rest
    | (s, .error e) => (s, .error e) := rfl
  rw [hrun]
  obtain ⟨s', x⟩ := m.run s bs
  cases x <;> rfl

@[simp] lemma toReader_lift (r : Reader α) (s : σ) :
    (lift r : ReaderAt σ α).toReader s = r >>= fun a => pure (a, s) := by
  refine Reader.ext (funext fun bs => ?_)
  rw [Reader.run_bind]
  simp only [toReader, lift]
  cases r.run bs <;> rfl

@[simp] lemma toReader_get (s : σ) : (get : ReaderAt σ σ).toReader s = pure (s, s) := rfl

@[simp] lemma toReader_modify (f : σ → σ) (s : σ) : (modify f).toReader s = pure ((), f s) := rfl

@[simp] lemma toReader_fail (e : Fault) (s : σ) :
    (fail e : ReaderAt σ α).toReader s = Reader.fail e := rfl

@[simp] lemma toReader_within (part : σ → τ) (put : τ → σ → σ) (m : ReaderAt τ α) (s : σ) :
    (within part put m).toReader s =
      m.toReader (part s) >>= fun r => pure (r.1, put r.2 s) := by
  refine Reader.ext (funext fun bs => ?_)
  rw [Reader.run_bind]
  simp only [toReader, within]
  cases (m.run (part s) bs).2 <;> rfl

@[simp] lemma toReader_elem (idx : ℕ) (bad : Fault) (m : ReaderAt τ Unit) (vs : List τ) :
    (elem idx bad m).toReader vs = match vs[idx]? with
      | some v => m.toReader v >>= fun r => pure ((), vs.set idx r.2)
      | none => Reader.fail bad := by
  refine Reader.ext (funext fun bs => ?_)
  simp only [toReader, elem]
  cases vs[idx]? with
  | none => rfl
  | some v =>
    simp only [Reader.run_bind]
    cases (m.run v bs).2 <;> rfl

lemma agrees_replace (r : σ → Reader σ) : Agrees (replace r) r := by
  intro s
  simp only [replace, toReader_bind, toReader_get, toReader_lift, toReader_modify, bind_assoc,
    pure_bind]

/-! ### Sparse lists in place -/

section Sparse

variable (readIndex : Reader ℕ) (bad : ℕ → Fault) (m : ReaderAt τ Unit)

/-- The elements at the indices read, or at those given, one after the other. -/
def readEachAt (readIndices : Bool) : List ℕ → ReaderAt (List τ) Unit
  | [] => pure ()
  | i :: is => do
    let idx ← lift (Reader.optional (readIndices = true) readIndex i)
    elem idx (bad idx) m
    readEachAt readIndices is

def readDirtyAt : ReaderAt (List τ) Unit := do
  let count ← lift readIndex
  let vs ← get
  readEachAt readIndex bad m (count != vs.length) (List.range count)

variable {m}

lemma agrees_readEachAt {read : τ → Reader τ} (h : Agrees m read) (ix : Bool) (is : List ℕ) :
    Agrees (readEachAt readIndex bad m ix is) (readEach readIndex bad read ix is) := by
  induction is with
  | nil => exact fun vs => rfl
  | cons i is ih =>
    intro vs
    simp only [readEachAt, readEach, toReader_bind, toReader_lift, toReader_elem, bind_assoc,
      pure_bind]
    refine congrArg _ (funext fun idx => ?_)
    cases vs[idx]? with
    | none => rfl
    | some v =>
      simp only [bind_assoc, pure_bind, h v]
      exact congrArg _ (funext fun v' => ih (vs.set idx v'))

lemma agrees_readDirtyAt {read : τ → Reader τ} (h : Agrees m read) :
    Agrees (readDirtyAt readIndex bad m) (readDirty readIndex bad read) := by
  intro vs
  simp only [readDirtyAt, readDirty, toReader_bind, toReader_lift, toReader_get, bind_assoc,
    pure_bind]
  exact congrArg _ (funext fun count => agrees_readEachAt readIndex bad h _ _ vs)

end Sparse

/-! ### What a reader in place keeps -/

/-- All that `r` ever returns satisfies `Q`. -/
def Gives (r : Reader α) (Q : α → Prop) : Prop := ∀ bs a rest, r.run bs = .ok (a, rest) → Q a

namespace Gives

variable {r : Reader α} {Q : α → Prop} {R : β → Prop}

lemma pure {a : α} (h : Q a) : Gives (Pure.pure a) Q := by
  intro bs b rest hr
  cases hr
  exact h

lemma bind {f : α → Reader β} (hr : Gives r Q) (hf : ∀ a, Q a → Gives (f a) R) :
    Gives (r >>= f) R := by
  intro bs b rest h
  rw [Reader.run_bind] at h
  split at h
  · rename_i a left ha
    exact hf a (hr bs a left ha) left b rest h
  · cases h

lemma any (r : Reader α) : Gives r fun _ => True := fun _ _ _ _ => trivial

lemma of_yields {S : α → Bytes → Prop} (h : Yields r S) (hQ : ∀ a c, S a c → Q a) : Gives r Q := by
  intro bs a rest hr
  obtain ⟨c, -, hc⟩ := h bs a rest hr
  exact hQ a c hc

end Gives

/-- Whatever it reads and wherever it fails, `m` keeps `I`, and its results satisfy `Q`. -/
def Ensures (I : σ → Prop) (m : ReaderAt σ α) (Q : α → Prop) : Prop :=
  ∀ s bs, I s → I (m.run s bs).1 ∧ ∀ r, (m.run s bs).2 = .ok r → Q r.1

namespace Ensures

variable {I : σ → Prop} {m : ReaderAt σ α} {Q : α → Prop} {R : β → Prop}

lemma pure {a : α} (h : Q a) : Ensures I (Pure.pure a) Q := by
  intro s bs hs
  refine ⟨hs, fun r hr => ?_⟩
  cases hr
  exact h

lemma bind {f : α → ReaderAt σ β} (hm : Ensures I m Q) (hf : ∀ a, Q a → Ensures I (f a) R) :
    Ensures I (m >>= f) R := by
  intro s bs hs
  have hrun : (m >>= f).run s bs = match m.run s bs with
    | (s, .ok (a, rest)) => (f a).run s rest
    | (s, .error e) => (s, .error e) := rfl
  rw [hrun]
  obtain ⟨hI, hQ⟩ := hm s bs hs
  generalize m.run s bs = x at hI hQ
  obtain ⟨s', e | ⟨a, rest⟩⟩ := x
  · exact ⟨hI, nofun⟩
  · exact hf a (hQ _ rfl) s' rest hI

lemma lift {r : Reader α} (h : Gives r Q) : Ensures I (ReaderAt.lift r) Q :=
  fun _ bs hs => ⟨hs, fun x hx => h bs x.1 x.2 hx⟩

lemma get : Ensures I ReaderAt.get I := by
  refine fun s bs hs => ⟨hs, fun r hr => ?_⟩
  cases hr
  exact hs

lemma modify {f : σ → σ} (h : ∀ s, I s → I (f s)) : Ensures I (ReaderAt.modify f) fun _ => True :=
  fun s _ hs => ⟨h s hs, fun _ _ => trivial⟩

lemma replace {r : σ → Reader σ} (h : ∀ s, I s → Gives (r s) I) :
    Ensures I (ReaderAt.replace r) fun _ => True :=
  get.bind fun s hs => (lift (h s hs)).bind fun _ hs' => modify fun _ _ => hs'

lemma fail (e : Fault) : Ensures I (ReaderAt.fail e : ReaderAt σ α) Q := lift (nofun)

lemma within {part : σ → τ} {put : τ → σ → σ} {m : ReaderAt τ α} {J : τ → Prop}
    (hpart : ∀ s, I s → J (part s)) (hput : ∀ s t, I s → J t → I (put t s)) (hm : Ensures J m Q) :
    Ensures I (ReaderAt.within part put m) Q := fun s bs hs =>
  have h := hm (part s) bs (hpart s hs)
  ⟨hput s _ hs h.1, h.2⟩

lemma elem {K : Type} {key : τ → K} {P : τ → Prop} {m : ReaderAt τ Unit}
    (hm : ∀ k, Ensures (fun v => key v = k ∧ P v) m fun _ => True) (ks : List K) (idx : ℕ)
    (bad : Fault) : Ensures (fun vs => vs.map key = ks ∧ ∀ v ∈ vs, P v) (ReaderAt.elem idx bad m)
      fun _ => True := by
  rintro vs bs ⟨hkeys, hall⟩
  simp only [ReaderAt.elem]
  cases hv : vs[idx]? with
  | none => exact ⟨⟨hkeys, hall⟩, nofun⟩
  | some v =>
    obtain ⟨hkey, hP⟩ := (hm (key v) v bs ⟨rfl, hall v (List.mem_of_getElem? hv)⟩).1
    refine ⟨⟨?_, fun w hw => ?_⟩, fun _ _ => trivial⟩
    · obtain ⟨hlt, rfl⟩ := List.getElem?_eq_some_iff.1 hv
      rw [List.map_set, hkey, ← hkeys, ← List.getElem_map key (h := by simpa using hlt),
        List.set_getElem_self]
    · rcases List.mem_or_eq_of_mem_set hw with hw | rfl
      · exact hall w hw
      · exact hP

lemma readEachAt {K : Type} {key : τ → K} {P : τ → Prop} {m : ReaderAt τ Unit}
    (hm : ∀ k, Ensures (fun v => key v = k ∧ P v) m fun _ => True) (ks : List K)
    (readIndex : Reader ℕ) (bad : ℕ → Fault) (ix : Bool) (is : List ℕ) :
    Ensures (fun vs => vs.map key = ks ∧ ∀ v ∈ vs, P v) (ReaderAt.readEachAt readIndex bad m ix is)
      fun _ => True := by
  induction is with
  | nil => exact pure trivial
  | cons i is ih =>
    exact (lift (Gives.any _)).bind fun idx _ => (elem hm ks idx _).bind fun _ _ => ih

lemma readDirtyAt {K : Type} {key : τ → K} {P : τ → Prop} {m : ReaderAt τ Unit}
    (hm : ∀ k, Ensures (fun v => key v = k ∧ P v) m fun _ => True) (ks : List K)
    (readIndex : Reader ℕ) (bad : ℕ → Fault) :
    Ensures (fun vs => vs.map key = ks ∧ ∀ v ∈ vs, P v) (ReaderAt.readDirtyAt readIndex bad m)
      fun _ => True :=
  (lift (Gives.any _)).bind fun _ _ => get.bind fun _ _ => readEachAt hm ks readIndex bad _ _

end Ensures

lemma Agrees.gives {m : ReaderAt σ Unit} {r : σ → Reader σ} (h : Agrees m r) {I : σ → Prop}
    {Q : Unit → Prop} (hm : Ensures I m Q) {s : σ} (hs : I s) : Gives (r s) I := by
  intro bs s' rest hr
  have hrun : (m.toReader s).run bs = .ok (((), s'), rest) := by rw [h s, Reader.bind_ok hr]; rfl
  have hI := (hm s bs hs).1
  simp only [toReader] at hrun
  cases hx : (m.run s bs).2 with
  | error e =>
    rw [hx] at hrun
    cases hrun
  | ok x =>
    rw [hx] at hrun
    have heq : (m.run s bs).1 = s' := congrArg (fun y => y.1.2) (Except.ok.inj hrun)
    exact heq ▸ hI

end ReaderAt

end Moulars.Lib.InPlace
