import Moulars.Sdl.BlobRoundTrip
import Moulars.Sdl.Nesting

/-!
States carried over to the latest version of their descriptor.

The upgrade starts from the defaults of the new version and copies the values of the old
variables by name. It marks none of them dirty, and it does not copy the object, so that the
upgraded state saves as if it were the default.
-/

namespace Moulars.Sdl

open Lib Lib.Wire Lib.Sparse Lib.Fallible Lib.Keyed
open Hashes Plasma

variable {X : Crates}

/-! ### The value of a variable -/

mutual

/-- A state without its bookkeeping: dirty flags, timestamps, hints, object and flags. -/
def State.erase : State → State
  | ⟨descriptor, simpleVars, statedescVars, _, _⟩ =>
    ⟨descriptor, eraseVars simpleVars, eraseVars statedescVars, none, 0⟩

def eraseVars : List (Var State) → List (Var State)
  | [] => []
  | ⟨descriptor, values, _, _, _⟩ :: vs =>
    ⟨descriptor, values.erase, UnifiedTime.default, "", false⟩ :: eraseVars vs

/-- The values of a variable, with those of the states inside it. -/
def VarValues.erase : VarValues State → VarValues State
  | .simple t values => .simple t values
  | .stateDesc states => .stateDesc (eraseStates states)

def eraseStates : List State → List State
  | [] => []
  | s :: states => s.erase :: eraseStates states

end

/-- The value of a variable, apart from all bookkeeping. -/
def Var.value (v : Variable) : VarValues State := v.values.erase

def SameValues (s t : State) : Prop :=
  s.simpleVars.map Var.value = t.simpleVars.map Var.value ∧
    s.statedescVars.map Var.value = t.statedescVars.map Var.value

lemma State.descriptor_erase (s : State) : s.erase.descriptor = s.descriptor := by
  cases s
  rfl

lemma eraseVars_eq_iff {vs ws : List Variable}
    (h : vs.map Var.descriptor = ws.map Var.descriptor) :
    eraseVars vs = eraseVars ws ↔ vs.map Var.value = ws.map Var.value := by
  induction vs generalizing ws with
  | nil => cases ws <;> simp_all [eraseVars]
  | cons v vs ih =>
    cases ws with
    | nil => cases h
    | cons w ws =>
      obtain ⟨hd, hds⟩ := List.cons.inj h
      obtain ⟨descriptor, values, timestamp, hint, dirty⟩ := v
      obtain ⟨descriptor', values', timestamp', hint', dirty'⟩ := w
      obtain rfl : descriptor = descriptor' := hd
      simp [eraseVars, ih hds, Var.value]

variable {s : State} {db : DescriptorDb X} {depth : ℕ}

lemma State.erase_eq_iff {t : State} (hd : s.descriptor = t.descriptor)
    (hsimple : s.simpleVars.map Var.descriptor = t.simpleVars.map Var.descriptor)
    (hstatedesc : s.statedescVars.map Var.descriptor = t.statedescVars.map Var.descriptor) :
    s.erase = t.erase ↔ SameValues s t := by
  rw [SameValues, ← eraseVars_eq_iff hsimple, ← eraseVars_eq_iff hstatedesc]
  obtain ⟨descriptor, simpleVars, statedescVars, object, flags⟩ := s
  obtain ⟨descriptor', simpleVars', statedescVars', object', flags'⟩ := t
  obtain rfl : descriptor = descriptor' := hd
  simp [State.erase]

lemma forall₂_iff_map_eq {α β : Type} {f : α → β} {as bs : List α} :
    List.Forall₂ (fun a b => f a = f b) as bs ↔ as.map f = bs.map f := by
  induction as generalizing bs with
  | nil => cases bs <;> simp
  | cons a as ih => cases bs <;> simp [ih]

/-! ### Copying by name -/

/-- The same values, with each of the states inside upgraded. -/
def Copied (upgrade : State → Option State → Prop) : VarValues State → VarValues State → Prop
  | .simple t values, w => w = .simple t values
  | .stateDesc states, w => ∃ states', w = .stateDesc states' ∧
      List.Forall₂ (fun s s' => ∃ o, upgrade s o ∧ s' = o.getD s) states states'

/-- `old` has something to hand over to a variable of the descriptor. -/
structure HandsOver (old : Variable) (descriptor : VarDescriptor) : Prop where
  set : old.isDefault = .ok false
  varType : old.descriptor.varType = descriptor.varType
  count : old.descriptor.count = descriptor.count

/-- `old` has nothing to hand over: it is at its default, or of another type or count. -/
def HandsNothing (old : Variable) (descriptor : VarDescriptor) : Prop :=
  old.isDefault = .ok true ∨ old.descriptor.varType ≠ descriptor.varType ∨
    old.descriptor.count ≠ descriptor.count

instance (old : Variable) (descriptor : VarDescriptor) : Decidable (HandsOver old descriptor) :=
  decidable_of_iff (old.isDefault = .ok false ∧ old.descriptor.varType = descriptor.varType ∧
    old.descriptor.count = descriptor.count)
    ⟨fun h => ⟨h.1, h.2.1, h.2.2⟩, fun h => ⟨h.1, h.2, h.3⟩⟩

lemma HandsOver.not_handsNothing {old : Variable} {descriptor : VarDescriptor}
    (h : HandsOver old descriptor) : ¬ HandsNothing old descriptor := by
  obtain ⟨hset, htype, hcount⟩ := h
  simp [HandsNothing, hset, htype, hcount]

section Carried

variable {upgrade : State → Except Fault (Option State)}

variable {b v : Variable}

/-- **Copying one variable**: it hands over its values, or nothing. -/
lemma Variable.upgradeFrom_cases {old : Variable} (h : Variable.upgradeFrom upgrade old b = .ok v) :
    HandsOver old b.descriptor ∧ Copied (fun s o => upgrade s = .ok o) old.values v.values ∨
      HandsNothing old b.descriptor ∧ v = b := by
  obtain ⟨same, hsame, h⟩ := bind_eq_ok.1 h
  split at h
  · rename_i hor
    refine .inr ⟨?_, (Except.ok.inj h).symm⟩
    rcases hor with rfl | htype | hcount
    · exact .inl hsame
    · exact .inr (.inl htype.symm)
    · exact .inr (.inr hcount.symm)
  · rename_i hor
    simp only [not_or, not_not, Bool.not_eq_true] at hor
    obtain ⟨rfl, htype, hcount⟩ := hor
    refine .inl ⟨⟨hsame, htype.symm, hcount.symm⟩, ?_⟩
    split at h
    · rename_i t values hvalues
      cases h
      rw [hvalues, Copied]
    · rename_i states hvalues
      obtain ⟨states', hstates, rfl⟩ := map_eq_ok.1 h
      rw [hvalues, Copied]
      refine ⟨states', rfl, (mapM_eq_ok.1 hstates).imp fun s s' hs => ?_⟩
      obtain ⟨o, ho, rfl⟩ := map_eq_ok.1 hs
      exact ⟨o, ho, rfl⟩

/-- What the old variables make of the new variable `b`: those of its name are copied to it,
one after the other. -/
def carried (upgrade : State → Except Fault (Option State)) (olds : List Variable) (b : Variable) :
    Except Fault Variable :=
  olds.foldlM (fun v old =>
    if b.name = old.name then Variable.upgradeFrom upgrade old v else .ok v) b

lemma carried_nil : carried upgrade [] b = .ok v ↔ v = b :=
  ⟨fun h => (Except.ok.inj h).symm, fun h => h ▸ rfl⟩

lemma carried_concat {olds : List Variable} {old v' : Variable} :
    carried upgrade (olds ++ [old]) b = .ok v' ↔
      ByKey.after Var.name (fun b v => carried upgrade olds b = .ok v) old.name
        (Variable.upgradeFrom upgrade old) b v' := by
  rw [carried, List.foldlM_append]
  refine bind_eq_ok.trans (exists_congr fun v => and_congr_right fun _ => ?_)
  rw [List.foldlM_cons]
  split
  · exact ⟨fun h => by simpa using h, fun h => by simpa using h⟩
  · exact ⟨fun h => (Except.ok.inj h).symm, fun h => h ▸ rfl⟩

lemma Variable.upgradeFrom_eq_ok {old new : Variable}
    (h : Variable.upgradeFrom upgrade old new = .ok v) : v = { new with values := v.values } := by
  obtain ⟨same, -, h⟩ := bind_eq_ok.1 h
  split at h
  · cases h
    rfl
  · split at h
    · cases h
      rfl
    · obtain ⟨states, -, rfl⟩ := map_eq_ok.1 h
      rfl

lemma carried_eq_ok {olds : List Variable} (h : carried upgrade olds b = .ok v) :
    v = { b with values := v.values } := by
  refine foldlM_induct (I := fun v => v = { b with values := v.values }) rfl ?_ h
  intro v old v' _ hv hv'
  split at hv'
  · rw [Variable.upgradeFrom_eq_ok hv', hv]
  · cases hv'
    exact hv

/-- `t` is what copying the old variables makes of the state `fresh`. -/
structure CarriedOver (upgrade : State → Except Fault (Option State)) (fresh : State)
    (olds : List Variable) (t : State) : Prop where
  descriptor : t.descriptor = fresh.descriptor
  object : t.object = fresh.object
  flags : t.flags = fresh.flags
  simple : ByKey Var.name (fun b v => carried upgrade olds b = .ok v) ∅
    fresh.simpleVars t.simpleVars
  statedesc : ByKey Var.name (fun b v => carried upgrade olds b = .ok v)
    (keys Var.name fresh.simpleVars) fresh.statedescVars t.statedescVars

namespace CarriedOver

variable {fresh t t' : State} {olds : List Variable}

lemma nil (upgrade : State → Except Fault (Option State)) (fresh : State) :
    CarriedOver upgrade fresh [] fresh where
  descriptor := rfl
  object := rfl
  flags := rfl
  simple := (ByKey.refl _ _).imp fun _ _ _ => carried_nil.2
  statedesc := (ByKey.refl _ _).imp fun _ _ _ => carried_nil.2

variable (h : CarriedOver upgrade fresh olds t)
include h

/-- **One old variable**: it is copied to the first variable of its name, among the simple
ones if there is one there. -/
lemma step {old : Variable}
    (hm : t.modifyVar old.name (Variable.upgradeFrom upgrade old) = .ok t') :
    CarriedOver upgrade fresh (olds ++ [old]) t' := by
  have hname : ∀ b v, carried upgrade olds b = .ok v → v.name = b.name := fun b v hv => by
    rw [carried_eq_ok hv]
    rfl
  obtain ⟨o, ho, hm⟩ := bind_eq_ok.1 hm
  obtain ⟨hsimple, hfound⟩ := h.simple.modifyFirst hname (Set.notMem_empty _) ho
  have hsimple' := hsimple.imp fun _ _ _ => carried_concat.2
  cases o with
  | some simpleVars =>
    cases hm
    refine ⟨h.descriptor, h.object, h.flags, hsimple', h.statedesc.imp fun b v hb hv => ?_⟩
    exact carried_concat.2 (ByKey.after_of_ne (fun he => hb (he ▸ hfound.1 rfl)) hv)
  | none =>
    have hnot : old.name ∉ keys Var.name fresh.simpleVars := fun hk => by
      cases hfound.2 hk
    obtain ⟨o, ho, heq⟩ := map_eq_ok.1 hm
    have hstatedesc := (h.statedesc.modifyFirst hname hnot ho).1.imp
      fun _ _ _ => carried_concat.2
    cases o with
    | some statedescVars =>
      cases heq
      exact ⟨h.descriptor, h.object, h.flags, hsimple', hstatedesc⟩
    | none =>
      cases heq
      exact ⟨h.descriptor, h.object, h.flags, hsimple', hstatedesc⟩

lemma run {more : List Variable} (hm : more.foldlM (fun (new : State) old =>
      new.modifyVar old.name (Variable.upgradeFrom upgrade old)) t = .ok t') :
    CarriedOver upgrade fresh (olds ++ more) t' := by
  induction more generalizing olds t with
  | nil =>
    cases hm
    rwa [List.append_nil]
  | cons old more ih =>
    obtain ⟨t₁, ht₁, hm⟩ := bind_eq_ok.1 hm
    have h₁ := ih (h.step ht₁) hm
    rwa [List.append_assoc] at h₁

lemma clean
    (hf : ∀ v ∈ fresh.simpleVars ++ fresh.statedescVars, v.dirty = false) :
    (∀ v ∈ t.simpleVars, v.dirty = false) ∧ ∀ v ∈ t.statedescVars, v.dirty = false := by
  have hkeep : ∀ b v, carried upgrade olds b = .ok v → b.dirty = false → v.dirty = false := by
    intro b v hv hb
    rw [carried_eq_ok hv]
    exact hb
  exact ⟨h.simple.forall_mem (fun v hv => hf v (by simp [hv])) hkeep,
    h.statedesc.forall_mem (fun v hv => hf v (by simp [hv])) hkeep⟩

/-- The values are those of `fresh` if nothing else was copied to the variables that can be
found by their names. -/
lemma sameValues_iff : SameValues fresh t ↔ ∀ b, fresh.getVar b.name = some b →
      ∃ v, carried upgrade olds b = .ok v ∧ b.value = v.value := by
  have hall := h.simple.append (by simpa using h.statedesc)
  have hlen : (fresh.simpleVars.map Var.value).length = (t.simpleVars.map Var.value).length := by
    simpa using h.simple.length_eq
  have happend : SameValues fresh t ↔ List.Forall₂ (fun b v => Var.value b = Var.value v)
      (fresh.simpleVars ++ fresh.statedescVars) (t.simpleVars ++ t.statedescVars) := by
    rw [forall₂_iff_map_eq, List.map_append, List.map_append]
    exact ⟨fun hs => by rw [hs.1, hs.2], fun hs => List.append_inj hs hlen⟩
  rw [happend, hall.forall₂_iff (R := fun b v => Var.value b = Var.value v) (fun _ => rfl)
    fun b v v' hv hv' => Except.ok.inj (hv.symm.trans hv')]
  exact ⟨fun h b => h b (Set.notMem_empty _), fun h b _ => h b⟩

lemma exists_carried {b : Variable}
    (hb : fresh.getVar b.name = some b) : ∃ v, carried upgrade olds b = .ok v := by
  have hall := h.simple.append (by simpa using h.statedesc)
  have hpairs : List.Forall₂ (fun _ _ => True) (fresh.simpleVars ++ fresh.statedescVars)
      (t.simpleVars ++ t.statedescVars) :=
    List.forall₂_iff_zip.2 ⟨hall.length_eq, fun _ => trivial⟩
  obtain ⟨v, hv, -⟩ := (hall.forall₂_iff (fun _ => trivial) fun b v v' hv hv' =>
    Except.ok.inj (hv.symm.trans hv')).1 hpairs b (Set.notMem_empty _) hb
  exact ⟨v, hv⟩

lemma sameValues_iff_erase :
    SameValues fresh t ↔ t.erase = fresh.erase := by
  have hkeep : ∀ b v, carried upgrade olds b = .ok v → v.descriptor = b.descriptor :=
    fun b v hv => by rw [carried_eq_ok hv]
  rw [State.erase_eq_iff h.descriptor (h.simple.map_eq hkeep) (h.statedesc.map_eq hkeep)]
  exact ⟨fun hs => ⟨hs.1.symm, hs.2.symm⟩, fun hs => ⟨hs.1.symm, hs.2.symm⟩⟩

end CarriedOver

end Carried

/-! ### One upgrade -/

lemma State.upgrade_eq_some {t : State} (h : State.upgrade db (depth + 1) s = .ok (some t)) :
    ∃ d fresh, db.getLatest s.descriptor.name = some d ∧ d ≠ s.descriptor ∧
      State.fromDefaults db depth d = .ok fresh ∧
      CarriedOver (State.upgrade db depth) fresh (s.simpleVars ++ s.statedescVars) t := by
  rw [State.upgrade] at h
  split at h
  · cases h
  · rename_i d hd
    split at h
    · cases h
    · rename_i hne
      obtain ⟨fresh, hfresh, h⟩ := bind_eq_ok.1 h
      obtain ⟨t', ht', heq⟩ := map_eq_ok.1 h
      cases heq
      exact ⟨d, fresh, hd, hne, hfresh, (CarriedOver.nil _ fresh).run ht'⟩

lemma State.upgrade_latest {name : String} (h : db.getLatest name = some s.descriptor)
    {o : Option State} (ho : State.upgrade db depth s = .ok o) : o = none := by
  cases depth with
  | zero => cases ho
  | succ depth =>
    rw [State.upgrade, DescriptorDb.getLatest_self h] at ho
    simp only [if_true] at ho
    exact (Except.ok.inj ho).symm

lemma State.upgrade_eq_none {o : Option State} (h : State.upgrade db depth s = .ok o) :
    o = none ↔ db.getLatest s.descriptor.name = some s.descriptor := by
  constructor
  · rintro rfl
    cases depth with
    | zero => cases h
    | succ depth =>
      rw [State.upgrade] at h
      split at h
      · cases h
      · rename_i d hd
        split at h
        · rename_i heq
          rw [hd, heq]
        · obtain ⟨fresh, -, h⟩ := bind_eq_ok.1 h
          obtain ⟨t, -, h⟩ := map_eq_ok.1 h
          cases h
  · exact fun hlatest => State.upgrade_latest hlatest h

/-! ### What there is to lose -/

/-- The last of the old variables that has something to hand over to `b`. -/
def handedOver (olds : List Variable) (b : Variable) : Option Variable :=
  (olds.filter fun old => old.name = b.name ∧ HandsOver old b.descriptor).getLast?

/-- The same values, the states inside being compared by `same`. -/
def SameHeld (same : State → State → Prop) : VarValues State → VarValues State → Prop
  | .simple t values, w => w = .simple t values
  | .stateDesc states, w => ∃ states', w = .stateDesc states' ∧ List.Forall₂ same states states'

/-- The old state `s` has nothing to add to the new state `fresh`: it is of the latest version and
has the same values; or of an older one, and what its variables hand over to those of `fresh` is
what these hold already, down to the states inside. -/
def State.AddsNothing (db : DescriptorDb X) : ℕ → State → State → Prop
  | 0, _, _ => False
  | depth + 1, fresh, s => match db.getLatest s.descriptor.name with
    | none => False
    | some d =>
      if d = s.descriptor then s.erase = fresh.erase
      else fresh.descriptor = d ∧ ∀ b, fresh.getVar b.name = some b →
        ∀ old, handedOver (s.simpleVars ++ s.statedescVars) b = some old →
          SameHeld (State.AddsNothing db depth) b.values old.values

lemma handedOver_concat (olds : List Variable) (old b : Variable) :
    handedOver (olds ++ [old]) b =
      if old.name = b.name ∧ HandsOver old b.descriptor then some old else handedOver olds b := by
  unfold handedOver
  rw [List.filter_append]
  split
  · rename_i h
    simp [h]
  · rename_i h
    simp [h]

section Handed

variable {upgrade : State → Except Fault (Option State)} {same : State → State → Prop}

lemma erase_eq_iff_sameHeld {values old new : VarValues State}
    (hsame : ∀ states, values = .stateDesc states → ∀ x ∈ states, ∀ s o, upgrade s = .ok o →
      ((o.getD s).erase = x.erase ↔ same x s))
    (h : Copied (fun s o => upgrade s = .ok o) old new) :
    values.erase = new.erase ↔ SameHeld same values old := by
  cases old with
  | simple t vs =>
    obtain rfl : new = .simple t vs := h
    cases values with
    | simple t' vs' => exact eq_comm
    | stateDesc states => simp [VarValues.erase, SameHeld]
  | stateDesc states =>
    obtain ⟨states', rfl, hall⟩ := h
    cases values with
    | simple t vs => simp [VarValues.erase, SameHeld]
    | stateDesc xs =>
      replace hsame := hsame xs rfl
      simp only [VarValues.erase, SameHeld, VarValues.stateDesc.injEq, exists_eq_left']
      induction hall generalizing xs with
      | nil => cases xs <;> simp [eraseStates]
      | @cons s s' states states' hs _ ih =>
        cases xs with
        | nil => simp [eraseStates]
        | cons x xs =>
          rw [List.forall_mem_cons] at hsame
          obtain ⟨o, ho, rfl⟩ := hs
          rw [eraseStates, eraseStates, List.cons.injEq, List.forall₂_cons]
          exact and_congr (eq_comm.trans (hsame.1 s o ho)) (ih xs hsame.2)

/-- **All old variables**: the last one that hands something over decides. -/
lemma value_eq_iff_sameHeld {olds : List Variable} {b v : Variable}
    (hsame : ∀ states, b.values = .stateDesc states → ∀ x ∈ states, ∀ s o, upgrade s = .ok o →
      ((o.getD s).erase = x.erase ↔ same x s))
    (h : carried upgrade olds b = .ok v) :
    b.value = v.value ↔
      ∀ old, handedOver olds b = some old → SameHeld same b.values old.values := by
  induction olds using List.reverseRecOn generalizing v with
  | nil =>
    obtain rfl := carried_nil.1 h
    simp [handedOver]
  | append_singleton olds old ih =>
    obtain ⟨v₀, hv₀, hv⟩ := carried_concat.1 h
    rw [handedOver_concat]
    split at hv
    · rename_i hname
      have hdesc : v₀.descriptor = b.descriptor := by rw [carried_eq_ok hv₀]
      rcases Variable.upgradeFrom_cases hv with ⟨hover, hcopied⟩ | ⟨hnothing, rfl⟩
      · rw [if_pos ⟨hname.symm, hdesc ▸ hover⟩]
        simpa [Var.value] using erase_eq_iff_sameHeld hsame hcopied
      · rw [if_neg fun hand => (hdesc ▸ hand.2).not_handsNothing hnothing]
        exact ih hv₀
    · rename_i hname
      subst hv
      rw [if_neg fun hand => hname hand.1.symm]
      exact ih hv₀

end Handed

lemma State.nested_fromDefaults {d : StateDescriptor} {fresh : State}
    (h : State.fromDefaults db depth d = .ok fresh) {b : Variable}
    (hb : b ∈ fresh.simpleVars ++ fresh.statedescVars) {states : List State}
    (hstates : b.values = .stateDesc states) {x : State} (hx : x ∈ states) :
    ∃ n, State.fromDefaults db n x.descriptor = .ok x := by
  cases depth with
  | zero => cases h
  | succ depth =>
    obtain ⟨-, values, hvalues, hbuilt⟩ :=
      Variable.fromDefaults_iff.1 (State.mem_fromDefaults h hb).2
    rw [hvalues] at hstates
    cases ht : b.descriptor.varType with
    | simple t =>
      rw [ht] at hbuilt
      obtain ⟨e, -, rfl⟩ := hbuilt
      cases hstates
    | stateDesc name =>
      rw [ht] at hbuilt
      obtain ⟨e, states', -, hcollect, rfl⟩ := hbuilt
      cases hstates
      have hbuilt := (mem_collect hcollect).2 x hx
      exact ⟨depth, (State.fromDefaults_eq_ok hbuilt).descriptor ▸ hbuilt⟩

/-- **An upgrade makes a default state of `s`** exactly if there is nothing to add to it. -/
lemma State.erase_upgrade_iff {db : DescriptorDb X} {depth : ℕ} {s x : State} {o : Option State}
    (hx : ∃ n, State.fromDefaults db n x.descriptor = .ok x)
    (h : State.upgrade db depth s = .ok o) :
    (o.getD s).erase = x.erase ↔ State.AddsNothing db depth x s := by
  induction depth generalizing s x o with
  | zero => cases h
  | succ depth ih =>
    rw [State.AddsNothing]
    cases o with
    | none =>
      rw [(State.upgrade_eq_none h).1 rfl]
      simp only [if_true, Option.getD_none]
    | some t =>
      obtain ⟨d, fresh, hd, hne, hfresh, hcarried⟩ := State.upgrade_eq_some h
      obtain ⟨n, hn⟩ := hx
      have hdescriptor : t.descriptor = d :=
        hcarried.descriptor.trans (State.fromDefaults_eq_ok hfresh).descriptor
      have hsame : d = x.descriptor → (t.erase = x.erase ↔ ∀ b, x.getVar b.name = some b →
          ∀ old, handedOver (s.simpleVars ++ s.statedescVars) b = some old →
            SameHeld (State.AddsNothing db depth) b.values old.values) := by
        rintro rfl
        obtain rfl := State.fromDefaults_unique hfresh hn
        rw [← hcarried.sameValues_iff_erase, hcarried.sameValues_iff]
        refine forall₂_congr fun b hb => ?_
        have hnested : ∀ states, b.values = .stateDesc states → ∀ x ∈ states, ∀ s o,
            State.upgrade db depth s = .ok o →
              ((o.getD s).erase = x.erase ↔ State.AddsNothing db depth x s) :=
          fun states hstates x hx s o ho => ih
            (State.nested_fromDefaults hfresh (List.mem_of_find?_eq_some hb) hstates hx) ho
        obtain ⟨v, hv⟩ := hcarried.exists_carried hb
        rw [← value_eq_iff_sameHeld hnested hv]
        constructor
        · rintro ⟨w, hw, heq⟩
          rw [hv] at hw
          cases hw
          exact heq
        · exact fun heq => ⟨v, hv, heq⟩
      rw [hd]
      simp only [if_neg hne, Option.getD_some]
      constructor
      · intro heq
        have hx : d = x.descriptor := by
          rw [← hdescriptor, ← State.descriptor_erase t, heq, State.descriptor_erase]
        exact ⟨hx.symm, (hsame hx).1 heq⟩
      · rintro ⟨hx, hall⟩
        exact (hsame hx.symm).2 hall

/-! ### Saving an upgraded state -/

lemma writeCompressedSize_zero (maxHint : ℕ) : ∃ c, writeCompressedSize maxHint 0 = .ok c := by
  simp only [writeCompressedSize]
  split_ifs
  all_goals first
    | exact ⟨_, rfl⟩
    | omega

lemma State.toBlob_clean (Z : Zlib) {t : State} (hobject : t.object = none)
    (hsimple : ∀ v ∈ t.simpleVars, v.dirty = false)
    (hstatedesc : ∀ v ∈ t.statedescVars, v.dirty = false) :
    (∃ b, t.toBlob Z = .ok b) ↔ t.descriptor.name.toList.length ≤ 0x0FFF := by
  constructor
  · rintro ⟨b, hb⟩
    obtain ⟨c, hc, rfl⟩ := Out.put_append_eq_ok.1 hb
    obtain ⟨b₁, d, hb₁, -, rfl⟩ := Out.append_eq_ok.1 hc
    exact length_of_writeSafeStr hb₁
  · intro hlen
    obtain ⟨c, hc⟩ := writeCompressedSize_zero t.descriptor.vars.length
    have hentries {vs : List Variable} (h : ∀ v ∈ vs, v.dirty = false) :
        writeDirty (writeCompressedSize t.descriptor.vars.length) (varEntries Z vs) =
          Out.put (c ++ []) := by
      rw [writeDirty_clean, hc]
      · rfl
      · rw [varEntries_eq]
        simpa using h
    rw [State.toBlob, writeSafeStr_latin1 hlen, hobject, State.write_eq, hentries hsimple,
      hentries hstatedesc]
    exact ⟨_, rfl⟩

/-- The upgrade of `s` to `t` keeps the object, and saving and loading `t` loses nothing. -/
def UpgradeKeeps (H : Host) (db : DescriptorDb X) (depth : ℕ) (s t : State) : Prop :=
  t.object = s.object ∧ ∃ b u, t.toBlob H.zlib = .ok b ∧ State.fromBlob H db depth b = .ok u ∧
    u.object = t.object ∧ SameValues u t

/-- The old state has nothing an upgrade could lose: no object, and no value that differs from
the default the new version gives to the variable it is handed over to. -/
structure NothingToLose (db : DescriptorDb X) (depth : ℕ) (s : State) : Prop where
  object : s.object = none
  name : ∀ d, db.getLatest s.descriptor.name = some d → d.name.toList.length ≤ 0x0FFF
  values : ∀ d fresh, db.getLatest s.descriptor.name = some d →
    State.fromDefaults db depth d = .ok fresh → State.AddsNothing db (depth + 1) fresh s

lemma CarriedOver.reads_blob {H : Host} (hdb : db.Parsed) {fresh t : State} {d : StateDescriptor}
    (hholds : db.Holds d) (hfresh : State.fromDefaults db depth d = .ok fresh)
    {upgrade : State → Except Fault (Option State)} {olds : List Variable}
    (h : CarriedOver upgrade fresh olds t) {b : Bytes} (hb : t.toBlob H.zlib = .ok b) :
    State.fromBlob H db (depth + 1) b = .ok fresh := by
  have hdefault := State.fromDefaults_eq_ok hfresh
  have hdesc : t.descriptor = d := h.descriptor.trans hdefault.descriptor
  obtain ⟨hsimple, hstatedesc⟩ := h.clean hdefault.clean
  have hread : Reads (State.readBlob H db (depth + 1)) b _ :=
    Sdl.reads_blob (by rwa [hdesc]) (by rw [hdesc]; exact (hdb d hholds).ascii)
      (by rw [hdesc]; exact State.fromDefaults_succ hfresh)
      (by rw [h.object, hdefault.object]; simp)
      (turns_clean H.zlib h.simple.length_eq.symm hsimple)
      (turns_clean H.zlib h.statedesc.length_eq.symm hstatedesc) hb
  have hrun := hread []
  have heta : (⟨t.descriptor, fresh.simpleVars, fresh.statedescVars, t.object, t.flags⟩ : State) =
      fresh := by
    rw [h.descriptor, h.object, h.flags]
    cases fresh
    rfl
  rw [List.append_nil, heta] at hrun
  rw [State.fromBlob, hrun]
  rfl

/-- **An upgrade keeps a state exactly if there was nothing to lose.** The new state never has
an object, and none of the values copied to it are marked dirty: saved and loaded, it is the
default state of the new version. -/
theorem upgrade_keeps_iff {X : Crates} (H : Host) {files : List Bytes} {db : DescriptorDb X}
    (hdb : DescriptorDb.empty.fromFiles files = .ok db) {depth : ℕ} {s t : State}
    (hup : State.upgrade db (depth + 1) s = .ok (some t)) :
    UpgradeKeeps H db (depth + 1) s t ↔ NothingToLose db depth s := by
  obtain ⟨d, fresh, hd, -, hfresh, h⟩ := State.upgrade_eq_some hup
  have hdefault := State.fromDefaults_eq_ok hfresh
  have hvalues : SameValues fresh t ↔ State.AddsNothing db (depth + 1) fresh s :=
    h.sameValues_iff_erase.trans
      (State.erase_upgrade_iff ⟨depth, hdefault.descriptor ▸ hfresh⟩ hup)
  have hobject : t.object = none := h.object.trans hdefault.object
  have hname : t.descriptor.name = d.name := by rw [h.descriptor, hdefault.descriptor]
  obtain ⟨hsimple, hstatedesc⟩ := h.clean hdefault.clean
  have hsave := State.toBlob_clean H.zlib hobject hsimple hstatedesc
  have hload {b : Bytes} (hb : t.toBlob H.zlib = .ok b) :=
    h.reads_blob (DescriptorDb.Parsed.empty.fromFiles hdb) (DescriptorDb.holds_of_getLatest hd)
      hfresh hb
  constructor
  · rintro ⟨hkept, b, u, hb, hu, -, hsame⟩
    obtain rfl : fresh = u := Except.ok.inj ((hload hb).symm.trans hu)
    refine ⟨hkept.symm.trans hobject, fun d' hd' => ?_, fun d' fresh' hd' hfresh' => ?_⟩
    · obtain rfl : d = d' := Option.some.inj (hd.symm.trans hd')
      exact hname ▸ hsave.1 ⟨b, hb⟩
    · obtain rfl : d = d' := Option.some.inj (hd.symm.trans hd')
      obtain rfl : fresh = fresh' := Except.ok.inj (hfresh.symm.trans hfresh')
      exact hvalues.1 hsame
  · intro hn
    obtain ⟨b, hb⟩ := hsave.2 (hname ▸ hn.name d hd)
    exact ⟨hobject.trans hn.object.symm, b, fresh, hb, hload hb, h.object.symm,
      hvalues.2 (hn.values d fresh hd hfresh)⟩

/-- The variables of the second version of the test descriptor, from its defaults. -/
def testFreshVars : List Variable :=
  [freshOf testV2.vars[0] .bool false, freshOf testV2.vars[1] .int 0,
    freshOf testV2.vars[2] .byte 50]

def testSix : Variable := { freshOf testV2.vars[1] .int 0 with values := .simple .int [6] }

/-! ### A value that becomes the default -/

def dialFile : Bytes := String.toUTF8
  "STATEDESC Dial \x7b VERSION 1 VAR INT iLevel[1] VAR BOOL bLit[1] \x7d
  STATEDESC Dial \x7b VERSION 2 VAR INT iLevel[1] DEFAULT=6 VAR BOOL bLit[1] \x7d" |>.data.toList

def dialV1 : StateDescriptor :=
  ⟨"Dial", 1, [⟨"iLevel", .simple .int, some 1, none⟩, ⟨"bLit", .simple .bool, some 1, none⟩]⟩

def dialV2 : StateDescriptor :=
  ⟨"Dial", 2, [⟨"iLevel", .simple .int, some 1, some (.int 6)⟩,
    ⟨"bLit", .simple .bool, some 1, none⟩]⟩

def dialDb : DescriptorDb Crates.plain := DescriptorDb.empty.mergeDescriptors [dialV1, dialV2]

lemma fromFiles_dialFile : DescriptorDb.empty.fromFiles [dialFile] = .ok dialDb := by
  have hparse : Parser.parse dialFile = .ok [dialV1, dialV2] := by decide +kernel
  rw [DescriptorDb.fromFiles, hparse]
  rfl

/-- The first version, with a value that the second one has by default. -/
def dialSet : State :=
  State.set ⟨dialV1, [freshOf dialV1.vars[0] .int 0, freshOf dialV1.vars[1] .bool false], [],
    none, 0⟩ (.setInt "iLevel" 0 6)

def dialFresh : State :=
  ⟨dialV2, [freshOf dialV2.vars[0] .int 6, freshOf dialV2.vars[1] .bool false], [], none, 0⟩

/-- The value that was set is handed over to a variable that has it already. -/
theorem dialSet_upgrade_keeps : dialSet.isDefault = .ok false ∧
    State.upgrade dialDb 2 dialSet = .ok (some dialFresh) ∧
    UpgradeKeeps plainHost dialDb 2 dialSet dialFresh := by
  have hup : State.upgrade dialDb 2 dialSet = .ok (some dialFresh) := rfl
  refine ⟨rfl, hup, (upgrade_keeps_iff plainHost fromFiles_dialFile hup).2 ⟨rfl, ?_, ?_⟩⟩
  · intro d hd
    obtain rfl : dialV2 = d := Option.some.inj hd
    decide
  · intro d fresh hd hfresh
    obtain rfl : dialV2 = d := Option.some.inj hd
    obtain rfl : dialFresh = fresh := Except.ok.inj hfresh
    refine ⟨rfl, fun b hb old hold => ?_⟩
    have hmem : b ∈ dialFresh.simpleVars := List.mem_of_find?_eq_some hb
    simp only [dialFresh, List.mem_cons, List.not_mem_nil, or_false] at hmem
    rcases hmem with rfl | rfl
    · cases hold
      rfl
    · cases hold

/-! ### A value that does not -/

/-- The upgrade of the repository's own test: the new state has the value that was set, and
once saved and loaded it does not. -/
theorem setValue_lost_by_upgrade :
    State.upgrade testDb 2 (testDefaults.set (.setInt "iTestVar3" 0 6)) =
        .ok (some ⟨testV2, testFreshVars.set 1
          { freshOf testV2.vars[1] .int 0 with values := .simple .int [6] }, [], none, 0⟩) ∧
      ¬ UpgradeKeeps plainHost testDb 2 (testDefaults.set (.setInt "iTestVar3" 0 6))
        ⟨testV2, testFreshVars.set 1
          { freshOf testV2.vars[1] .int 0 with values := .simple .int [6] }, [], none, 0⟩ := by
  refine ⟨rfl, ?_⟩
  rintro ⟨-, b, u, hb, hu, -, hsame, -⟩
  cases hb
  obtain rfl : ⟨testV2, testFreshVars, [], none, 0⟩ = u := Except.ok.inj hu
  cases hsame

end Moulars.Sdl
