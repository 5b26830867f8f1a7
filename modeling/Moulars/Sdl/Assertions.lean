import Moulars.Plasma.Reencoding
import Moulars.Sdl.Shape

/-!
The assertions of the SDL code: the `unreachable!()` arms of `is_default` and the writers, and
the debug assertion of `upgrade_from`.

They hold for states over databases that avoid three things: points with a fixed count, which
`is_default` takes for vectors; a new version of a variable whose fresh value does not count as
the default, where the old version had one; and a variable name used twice, so that the second
old variable meets what the first one left.
-/

namespace Moulars.Sdl

open Lib Lib.Wire Lib.Sparse Lib.Fallible Lib.Keyed
open Lib.Digraph
open Hashes Plasma

variable {X : Crates}

/-! ### Debug builds -/

/-- `debug_assert!(self.is_default())`. -/
def debugAssert (cond : Except Fault Bool) : Except Fault Unit :=
  cond.bind fun holds =>
    if holds then .ok () else .error (.panic "assertion failed: self.is_default()")

/-- `Variable::upgrade_from` in a debug build: the new variable is asserted to be default where
the old one is. -/
def Variable.upgradeFromDebug (upgrade : State → Except Fault (Option State)) (old new : Variable) :
    Except Fault Variable :=
  old.isDefault.bind fun same =>
    if same then (debugAssert new.isDefault).map fun _ => new
    else Variable.upgradeFrom upgrade old new

def State.upgradeDebug (db : DescriptorDb X) : ℕ → State → Except Fault (Option State)
  | 0, _ => .error stackOverflow
  | depth + 1, s => match db.getLatest s.descriptor.name with
    | none => .error
        (.panic s!"Descriptor database is missing descriptors for {s.descriptor.name}")
    | some newDesc =>
      if newDesc = s.descriptor then .ok none
      else (State.fromDefaults db depth newDesc).bind fun newState =>
        ((s.simpleVars ++ s.statedescVars).foldlM (fun (new : State) old =>
          new.modifyVar old.descriptor.name
            (Variable.upgradeFromDebug (State.upgradeDebug db depth) old)) newState).map some

/-! ### What has to be avoided -/

/-- The default of a variable of a simple type compares equal to itself: it is not a NaN. -/
def VarDescriptor.SelfEqual (var : VarDescriptor) : Prop :=
  ∀ t e, var.varType = .simple t → t.defaultElem var.default = .ok e → t.sameElem e e = true

/-- A variable of this descriptor counts as default when it is fresh: its count is fixed, and
its values, if there are any, are equal to themselves or states all of whose variables are of
this kind. -/
inductive DescriptorDb.Stays (db : DescriptorDb X) : VarDescriptor → Prop
  | empty {var : VarDescriptor} (hcount : var.count = some 0) : Stays db var
  | simple {var : VarDescriptor} {t : SimpleType} {n : ℕ} (ht : var.varType = .simple t)
      (hcount : var.count = some n) (heq : var.SelfEqual) : Stays db var
  | stateDesc {var : VarDescriptor} {name : String} {n : ℕ} {e : StateDescriptor}
      (ht : var.varType = .stateDesc name) (hcount : var.count = some n)
      (he : db.getLatest name = some e) (hvars : ∀ w ∈ e.vars, Stays db w) : Stays db var

/-- The variables in the order in which a state lists them. -/
def StateDescriptor.listed (d : StateDescriptor) : List VarDescriptor :=
  d.vars.filter (fun var => !var.varType.isStateDesc) ++
    d.vars.filter (fun var => var.varType.isStateDesc)

/-- The value is default whatever it is. -/
def VarDescriptor.AlwaysDefault (var : VarDescriptor) : Prop :=
  var.count = some 0 ∨ var.count ≠ none ∧ var.varType = .simple .ageTimeOfDay

/-- From version `d` to version `e`: where a variable can be default, the one that is looked up
by its name counts as default when fresh, and no variable before it with the same name can have
been copied there. -/
def DescriptorDb.Carries (db : DescriptorDb X) (d e : StateDescriptor) : Prop :=
  ∀ before old after, d.listed = before ++ old :: after → db.Stays old →
    ∀ new, e.listed.find? (fun var => var.name = old.name) = some new →
      db.Stays new ∧ ∀ earlier ∈ before, earlier.name = old.name →
        earlier.varType ≠ new.varType ∨ earlier.count ≠ new.count ∨ earlier.AlwaysDefault

/-- No points of a fixed count, and every version carries over to the latest one. -/
structure DescriptorDb.Sturdy (db : DescriptorDb X) : Prop where
  points : ∀ d, db.Holds d → ∀ var ∈ d.vars, var.varType = .simple .point3 → var.count = none
  carries : ∀ d e, db.Holds d → db.getLatest d.name = some e → e ≠ d → db.Carries d e

/-! ### Comparing with the default -/

lemma floatEq_right {n inf a b : ℕ} (h : floatEq n inf a b = true) : floatEq n inf b b = true := by
  simp only [floatEq, Bool.and_eq_true, decide_eq_true_eq] at h ⊢
  exact ⟨⟨h.1.2, h.1.2⟩, by simp⟩

lemma F32.eq_right {a b : F32} (h : F32.eq a b = true) : F32.eq b b = true := floatEq_right h

lemma SimpleType.sameElem_default {t : SimpleType} {default : Option VarDefault} {a d : t.Elem}
    (hd : t.defaultElem default = .ok d) (h : t.sameElem a d = true) : t.sameElem d d = true := by
  cases t with
  | ageTimeOfDay => rfl
  | creatable =>
    cases hd
    rfl
  | double => exact floatEq_right h
  | float => exact floatEq_right h
  | point3 | vector3 =>
    simp only [SimpleType.sameElem, Vector3.eq, Bool.and_eq_true] at h ⊢
    exact ⟨⟨F32.eq_right h.1.1, F32.eq_right h.1.2⟩, F32.eq_right h.2⟩
  | quat =>
    simp only [SimpleType.sameElem, Quaternion.eq, Bool.and_eq_true] at h ⊢
    exact ⟨⟨⟨F32.eq_right h.1.1.1, F32.eq_right h.1.1.2⟩, F32.eq_right h.1.2⟩, F32.eq_right h.2⟩
  | rgb | rgba =>
    simp only [SimpleType.sameElem, ColorRGBA.eq, Bool.and_eq_true] at h ⊢
    exact ⟨⟨⟨F32.eq_right h.1.1.1, F32.eq_right h.1.1.2⟩, F32.eq_right h.1.2⟩, F32.eq_right h.2⟩
  | _ => exact beq_self_eq_true d

lemma isDefaultSimple_eq {σ : Type} {t : SimpleType} (ht : t ≠ .point3)
    {default : Option VarDefault} {d : t.Elem} (hd : t.defaultElem default = .ok d)
    (values : List t.Elem) : isDefaultSimple default (.simple (σ := σ) t values) t =
      .ok (values.all fun v => t.sameElem v d) := by
  cases t with
  | point3 => exact absurd rfl ht
  | ageTimeOfDay => simp [isDefaultSimple, SimpleType.sameElem]
  | creatable =>
    cases hd
    rfl
  | _ => simp only [isDefaultSimple, hd, Except.bind, checkDefault, dite_true]

section IsDefault

lemma Var.isDefault_none {v : Variable} (h : v.descriptor.count = none) :
    v.isDefault = .ok false := by
  obtain ⟨descriptor, values, timestamp, hint, dirty⟩ := v
  simp only at h
  simp only [Var.isDefault, h]

lemma Var.isDefault_simple {v : Variable} {t : SimpleType} {n : ℕ} {values : List t.Elem}
    (hn : v.descriptor.count = some n) (ht : v.descriptor.varType = .simple t)
    (hv : v.values = .simple t values) (hp : t ≠ .point3) {d : t.Elem}
    (hd : t.defaultElem v.descriptor.default = .ok d) :
    v.isDefault = .ok (values.all fun e => t.sameElem e d) := by
  rw [← isDefaultSimple_eq (σ := State) hp hd]
  obtain ⟨descriptor, values', timestamp, hint, dirty⟩ := v
  simp only at hn ht hv
  simp only [Var.isDefault, hn, ht, hv]

lemma allDefault_eq (vs : List Variable) : allDefault vs = allOf Var.isDefault vs := by
  induction vs with
  | nil => rfl
  | cons v vs ih => rw [allDefault, allOf, ih]

lemma allStatesDefault_eq (states : List State) :
    allStatesDefault states = allOf State.isDefault states := by
  induction states with
  | nil => rfl
  | cons s states ih => rw [allStatesDefault, allOf, ih]

lemma stateEntries_eq (Z : Zlib) (states : List State) :
    stateEntries Z states = states.map fun s => (s.isDirty, s.write Z) := by
  induction states with
  | nil => rfl
  | cons s states ih => rw [stateEntries, ih, List.map_cons]

lemma Var.isDefault_stateDesc {v : Variable} {name : String} {n : ℕ} {states : List State}
    (hn : v.descriptor.count = some n) (ht : v.descriptor.varType = .stateDesc name)
    (hv : v.values = .stateDesc states) : v.isDefault = allOf State.isDefault states := by
  obtain ⟨descriptor, values, timestamp, hint, dirty⟩ := v
  simp only at hn ht hv
  simp only [Var.isDefault, hn, ht, hv, VarValues.statesDefault, allStatesDefault_eq]

lemma State.isDefault_eq (s : State) : s.isDefault = (allOf Var.isDefault s.simpleVars).bind
    fun simple => if simple then allOf Var.isDefault s.statedescVars else .ok false := by
  cases s
  simp only [State.isDefault, allDefault_eq]

lemma State.isDefault_eq_true {s : State} :
    s.isDefault = .ok true ↔ ∀ v ∈ s.simpleVars ++ s.statedescVars, v.isDefault = .ok true := by
  rw [State.isDefault_eq, List.forall_mem_append, ← allOf_eq_true, ← allOf_eq_true, bind_eq_ok]
  constructor
  · rintro ⟨simple, hs, h⟩
    cases simple with
    | true => exact ⟨hs, h⟩
    | false => cases h
  · rintro ⟨hs, h⟩
    exact ⟨true, hs, h⟩

lemma State.exists_isDefault_of_vars {s : State}
    (h : ∀ v ∈ s.simpleVars ++ s.statedescVars, ∃ b, v.isDefault = .ok b) :
    ∃ b, s.isDefault = .ok b := by
  obtain ⟨hs, hd⟩ := List.forall_mem_append.1 h
  obtain ⟨simple, hsimple⟩ := exists_allOf hs
  obtain ⟨b, hb⟩ := exists_allOf hd
  rw [State.isDefault_eq]
  cases simple with
  | true => exact ⟨b, bind_eq_ok.2 ⟨true, hsimple, hb⟩⟩
  | false => exact ⟨false, bind_eq_ok.2 ⟨false, hsimple, rfl⟩⟩

end IsDefault

section Wellformed

variable {db : DescriptorDb X}

variable {s : State} {v : Variable} {name : String}

lemma State.WellFormed.mem_vars (h : s.WellFormed db) (hv : v ∈ s.simpleVars ++ s.statedescVars) :
    v.descriptor ∈ s.descriptor.vars := by
  obtain ⟨⟨hsimple, -⟩, hstatedesc, -⟩ := State.wellFormed_iff.1 h
  rcases List.mem_append.1 hv with hv | hv
  · have hmem : v.descriptor ∈ s.simpleVars.map Var.descriptor := List.mem_map_of_mem hv
    rw [hsimple] at hmem
    exact (List.mem_filter.1 hmem).1
  · have hmem : v.descriptor ∈ s.statedescVars.map Var.descriptor := List.mem_map_of_mem hv
    rw [hstatedesc] at hmem
    exact (List.mem_filter.1 hmem).1

lemma State.WellFormed.var (h : s.WellFormed db) (hv : v ∈ s.simpleVars ++ s.statedescVars) :
    v.WellFormed db := by
  obtain ⟨⟨-, hsimple⟩, -, hstatedesc⟩ := State.wellFormed_iff.1 h
  exact (List.mem_append.1 hv).elim (hsimple v) (hstatedesc v)

lemma Var.WellFormed.cases (h : v.WellFormed db) :
    (∃ t values, v.descriptor.varType = .simple t ∧ v.values = .simple t values ∧
      ∀ n ∈ v.descriptor.count, values.length = n) ∨
    ∃ name states, v.descriptor.varType = .stateDesc name ∧ v.values = .stateDesc states ∧
      (∀ n ∈ v.descriptor.count, states.length = n) ∧
      ∀ t ∈ states, db.getLatest name = some t.descriptor ∧ t.WellFormed db := by
  have hshaped := h.shaped
  rw [Var.Shaped] at hshaped
  split at hshaped
  · rename_i t t' values ht hv
    obtain ⟨rfl, hcount⟩ := hshaped
    exact .inl ⟨_, values, ht, hv, hcount⟩
  · rename_i name states ht hv
    exact .inr ⟨name, states, ht, hv, hshaped, fun t hmem =>
      ⟨h.latest name states ht hv t hmem, h.nested states hv t hmem⟩⟩
  · cases hshaped

lemma State.WellFormed.holds_nested (h : s.WellFormed db) (hv : v ∈ s.simpleVars ++ s.statedescVars)
    {states : List State} (hstates : v.values = .stateDesc states) {t : State} (ht : t ∈ states) :
    db.Holds t.descriptor := by
  rcases (h.var hv).cases with ⟨_, _, _, hv', -⟩ | ⟨name, states', hname, hv', -, hall⟩
  · rw [hstates] at hv'
    cases hv'
  · rw [hstates] at hv'
    cases hv'
    exact DescriptorDb.holds_of_getLatest (hall t ht).1

/-- What is known of the variables of a descriptor in a sturdy database. -/
structure VarDescriptor.Comparable (var : VarDescriptor) : Prop where
  typed : var.WellTyped
  points : var.varType = .simple .point3 → var.count = none

lemma Var.WellFormed.exists_isDefault {v : Variable} (h : v.WellFormed db)
    (hvar : v.descriptor.Comparable)
    (hnested : ∀ states, v.values = .stateDesc states → ∀ t ∈ states, ∃ b, t.isDefault = .ok b) :
    ∃ b, v.isDefault = .ok b := by
  cases hn : v.descriptor.count with
  | none => exact ⟨false, Var.isDefault_none hn⟩
  | some n =>
    rcases h.cases with ⟨t, values, ht, hv, -⟩ | ⟨name, states, ht, hv, -, -⟩
    · have hp : t ≠ .point3 := by
        rintro rfl
        rw [hvar.points ht] at hn
        cases hn
      obtain ⟨d, hd⟩ := t.exists_defaultElem fun d hd => ht ▸ hvar.typed d hd
      exact ⟨_, Var.isDefault_simple hn ht hv hp hd⟩
    · rw [Var.isDefault_stateDesc hn ht hv]
      exact exists_allOf (hnested states hv)

variable (hdb : db.Parsed) (hsturdy : db.Sturdy)
include hdb hsturdy

lemma comparable_of_holds {d : StateDescriptor} (hd : db.Holds d) {var : VarDescriptor}
    (hvar : var ∈ d.vars) : var.Comparable :=
  ⟨(hdb d hd).typed var hvar, hsturdy.points d hd var hvar⟩

lemma State.WellFormed.exists_isDefault (h : s.WellFormed db) :
    db.Holds s.descriptor →
      (∀ v ∈ s.simpleVars ++ s.statedescVars, ∃ b, v.isDefault = .ok b) ∧
      ∃ b, s.isDefault = .ok b := by
  induction h with
  | @intro s hsimple hstatedesc hshaped hlatest hnested ih =>
    intro hd
    have hwf : s.WellFormed db := ⟨hsimple, hstatedesc, hshaped, hlatest, hnested⟩
    have hvars : ∀ v ∈ s.simpleVars ++ s.statedescVars, ∃ b, v.isDefault = .ok b := by
      intro v hv
      refine (hwf.var hv).exists_isDefault (comparable_of_holds hdb hsturdy hd (hwf.mem_vars hv)) ?_
      intro states hstates t ht
      exact (ih v hv states hstates t ht (hwf.holds_nested hv hstates ht)).2
    exact ⟨hvars, State.exists_isDefault_of_vars hvars⟩

omit hdb hsturdy in
lemma State.WellFormed.exists_var (h : s.WellFormed db) {var : VarDescriptor}
    (hvar : var ∈ s.descriptor.vars) :
    ∃ v ∈ s.simpleVars ++ s.statedescVars, v.descriptor = var := by
  obtain ⟨⟨hsimple, -⟩, hstatedesc, -⟩ := State.wellFormed_iff.1 h
  cases hk : var.varType.isStateDesc with
  | false =>
    have hmem : var ∈ s.simpleVars.map Var.descriptor := by
      rw [hsimple]
      exact List.mem_filter.2 ⟨hvar, by simp [hk]⟩
    obtain ⟨v, hv, hd⟩ := List.mem_map.1 hmem
    exact ⟨v, List.mem_append_left _ hv, hd⟩
  | true =>
    have hmem : var ∈ s.statedescVars.map Var.descriptor := by
      rw [hstatedesc]
      exact List.mem_filter.2 ⟨hvar, hk⟩
    obtain ⟨v, hv, hd⟩ := List.mem_map.1 hmem
    exact ⟨v, List.mem_append_right _ hv, hd⟩

omit hdb hsturdy in
lemma Var.WellFormed.stays {v : Variable} (h : v.WellFormed db) (hvar : v.descriptor.Comparable)
    (hnested : ∀ states, v.values = .stateDesc states → ∀ t ∈ states, t.isDefault = .ok true →
      ∀ var ∈ t.descriptor.vars, db.Stays var) (hdefault : v.isDefault = .ok true) :
    db.Stays v.descriptor := by
  cases hn : v.descriptor.count with
  | none =>
    rw [Var.isDefault_none hn] at hdefault
    cases hdefault
  | some n =>
    rcases Nat.eq_zero_or_pos n with rfl | hpos
    · exact .empty hn
    rcases h.cases with ⟨t, values, ht, hv, hlen⟩ | ⟨name, states, ht, hv, hlen, hall⟩
    · have hp : t ≠ .point3 := by
        rintro rfl
        rw [hvar.points ht] at hn
        cases hn
      refine .simple ht hn fun t' d ht' hd => ?_
      rw [ht] at ht'
      cases ht'
      rw [Var.isDefault_simple hn ht hv hp hd] at hdefault
      obtain ⟨a, ha⟩ := List.exists_mem_of_length_pos (hlen n hn ▸ hpos)
      exact SimpleType.sameElem_default hd (List.all_eq_true.1 (Except.ok.inj hdefault) a ha)
    · rw [Var.isDefault_stateDesc hn ht hv, allOf_eq_true] at hdefault
      obtain ⟨t, hmem⟩ := List.exists_mem_of_length_pos (hlen n hn ▸ hpos)
      exact .stateDesc ht hn (hall t hmem).1 (hnested states hv t hmem (hdefault t hmem))

lemma State.WellFormed.stays (h : s.WellFormed db) : db.Holds s.descriptor →
    s.isDefault = .ok true → ∀ var ∈ s.descriptor.vars, db.Stays var := by
  induction h with
  | @intro s hsimple hstatedesc hshaped hlatest hnested ih =>
    intro hd hdefault var hvar
    have hwf : s.WellFormed db := ⟨hsimple, hstatedesc, hshaped, hlatest, hnested⟩
    obtain ⟨v, hv, rfl⟩ := hwf.exists_var hvar
    refine (hwf.var hv).stays (comparable_of_holds hdb hsturdy hd hvar) ?_
      (State.isDefault_eq_true.1 hdefault v hv)
    intro states hstates t ht
    exact ih v hv states hstates t ht (hwf.holds_nested hv hstates ht)

/-! ### Writing -/

omit hdb hsturdy in
lemma plain_writeElem (Z : Zlib) (t : SimpleType) (v : t.Elem) :
    (writeElem Z t v).Raises Plain := by
  cases t with
  | key => exact v.plain_streamWrite
  | creatable =>
    cases v with
    | none => exact .put _
    | some c =>
      refine (Out.Raises.put _).append (.bind c.plain_streamWrite fun buf _ => ?_)
      split
      · exact .put _
      · exact .fail ⟨_, rfl⟩
  | _ => exact .put _

omit hdb hsturdy in
lemma plain_writeCompressedSize (maxHint value : ℕ) :
    (writeCompressedSize maxHint value).Raises Plain := by
  have hsize {k n : ℕ} : Out.Raises (if value < k then Out.put (le n value)
      else Out.fail (.error s!"Size {value} is too large for stream")) Plain := by
    split
    · exact .put _
    · exact .fail ⟨_, rfl⟩
  rw [writeCompressedSize]
  split
  · exact hsize
  · split
    · exact hsize
    · exact hsize

omit hdb hsturdy in
lemma plain_writeVarCount (descriptor : VarDescriptor) (count : ℕ) :
    (writeVarCount descriptor count).Raises Plain := by
  rw [writeVarCount]
  split
  · exact .fail ⟨_, rfl⟩
  · split
    · exact .put _
    · exact .put _

omit hdb hsturdy in
lemma plain_writeNotificationHint (hint : String) : (writeNotificationHint hint).Raises Plain := by
  rw [writeNotificationHint]
  split
  · exact .put _
  · exact (Out.Raises.put _).append ((Out.Raises.put _).append (plain_writeSafeStr _ _))

omit hdb hsturdy in
lemma plain_writeStatedesc (descriptor : VarDescriptor) {entries : List (Bool × Out)}
    (h : ∀ e ∈ entries, e.2.Raises Plain) : (writeStatedesc descriptor entries).Raises Plain := by
  refine .append ?_ (raises_writeDirty (plain_writeCompressedSize _) h)
  split
  · split
    · exact .put _
    · exact .put _
  · exact .fail ⟨_, rfl⟩

omit hdb hsturdy in
lemma Var.WellFormed.plain_write {v : Variable} (h : v.WellFormed db) (Z : Zlib)
    (hdefault : ∃ b, v.isDefault = .ok b)
    (hnested : ∀ states, v.values = .stateDesc states → ∀ t ∈ states, (t.write Z).Raises Plain) :
    (v.write Z).Raises Plain := by
  obtain ⟨b, hb⟩ := hdefault
  have hcases := h.cases
  obtain ⟨descriptor, values, timestamp, hint, dirty⟩ := v
  rw [Var.write]
  refine (plain_writeNotificationHint hint).append ?_
  rcases hcases with ⟨t, values, ht, rfl, -⟩ | ⟨name, states, ht, rfl, -⟩
  · simp only at ht
    simp only [ht, Var.writeSimple, hb]
    refine (Out.Raises.put _).append ?_
    split
    · exact (plain_writeVarCount _ _).append (.each fun e _ => plain_writeElem Z t e)
    · exact .put _
  · simp only at ht
    simp only [ht]
    refine (Out.Raises.put _).append (plain_writeStatedesc descriptor fun e he => ?_)
    rw [stateEntries_eq] at he
    obtain ⟨t, htmem, rfl⟩ := List.mem_map.1 he
    exact hnested states rfl t htmem

lemma State.WellFormed.plain_write (h : s.WellFormed db) (Z : Zlib) :
    db.Holds s.descriptor → (s.write Z).Raises Plain := by
  induction h with
  | @intro s hsimple hstatedesc hshaped hlatest hnested ih =>
    intro hd
    have hwf : s.WellFormed db := ⟨hsimple, hstatedesc, hshaped, hlatest, hnested⟩
    have hvar : ∀ v ∈ s.simpleVars ++ s.statedescVars, (v.write Z).Raises Plain := by
      intro v hv
      refine (hwf.var hv).plain_write Z ((hwf.exists_isDefault hdb hsturdy hd).1 v hv) ?_
      exact fun states hstates t ht => ih v hv states hstates t ht (hwf.holds_nested hv hstates ht)
    have hentries {vs : List Variable} (hvs : ∀ v ∈ vs, (v.write Z).Raises Plain) :
        (writeDirty (writeCompressedSize s.descriptor.vars.length)
          (varEntries Z vs)).Raises Plain := by
      refine raises_writeDirty (plain_writeCompressedSize _) fun e he => ?_
      rw [varEntries_eq] at he
      obtain ⟨v, hv, rfl⟩ := List.mem_map.1 he
      exact hvs v hv
    rw [State.write_eq]
    refine (Out.Raises.put _).append ((Out.Raises.put _).append (.append ?_ ?_))
    · exact hentries fun v hv => hvar v (List.mem_append_left _ hv)
    · exact hentries fun v hv => hvar v (List.mem_append_right _ hv)

/-- **Saving a state does not panic.** -/
lemma State.WellFormed.plain_toBlob (h : s.WellFormed db) (hd : db.Holds s.descriptor) (Z : Zlib) :
    (s.toBlob Z).Raises Plain := by
  refine (Out.Raises.put _).append ((plain_writeSafeStr _ _).append ((Out.Raises.put _).append
    (.append ?_ (h.plain_write hdb hsturdy Z hd))))
  cases s.object with
  | none => exact .put _
  | some uoid => exact uoid.plain_streamWrite

/-! ### Fresh variables -/

omit hdb hsturdy in
lemma Var.WellFormed.isDefault_of_alwaysDefault (h : v.WellFormed db)
    (hvar : v.descriptor.Comparable) (halways : v.descriptor.AlwaysDefault) :
    v.isDefault = .ok true := by
  obtain ⟨n, hn⟩ : ∃ n, v.descriptor.count = some n := by
    rcases halways with h0 | ⟨hne, -⟩
    · exact ⟨0, h0⟩
    · exact Option.ne_none_iff_exists'.1 hne
  rcases h.cases with ⟨t, values, ht, hv, hlen⟩ | ⟨name, states, ht, hv, hlen, -⟩
  · have hp : t ≠ .point3 := by
      rintro rfl
      rw [hvar.points ht] at hn
      cases hn
    obtain ⟨d, hd⟩ := t.exists_defaultElem fun d hd => ht ▸ hvar.typed d hd
    rw [Var.isDefault_simple hn ht hv hp hd, Except.ok.injEq, List.all_eq_true]
    rcases halways with h0 | ⟨-, htime⟩
    · rw [List.length_eq_zero_iff.1 (hlen 0 h0)]
      exact nofun
    · rw [ht] at htime
      cases htime
      exact fun _ _ => rfl
  · have h0 : v.descriptor.count = some 0 := by
      refine halways.resolve_right fun h => ?_
      rw [ht] at h
      cases h.2
    rw [Var.isDefault_stateDesc hn ht hv, List.length_eq_zero_iff.1 (hlen 0 h0)]
    rfl

lemma DescriptorDb.Stays.isDefault {var : VarDescriptor} (h : db.Stays var) :
    var.Comparable → ∀ {depth : ℕ} {v : Variable},
      Variable.fromDefaults db (State.fromDefaults db depth) var = .ok v →
        v.isDefault = .ok true := by
  induction h with
  | empty hn =>
    intro hvar depth v hv
    obtain ⟨rfl, hwf⟩ :=
      Variable.wellFormed_fromDefaults (fun _ _ => State.wellFormed_fromDefaults) hv
    exact hwf.isDefault_of_alwaysDefault hvar (.inl hn)
  | @simple var t n ht hn heq =>
    intro hvar depth v hv
    have hp : t ≠ .point3 := by
      rintro rfl
      rw [hvar.points ht] at hn
      cases hn
    obtain ⟨-, values, rfl, hvalues⟩ := Variable.fromDefaults_iff.1 hv
    rw [ht] at hvalues
    obtain ⟨e, he, rfl⟩ := hvalues
    rw [Var.isDefault_simple hn ht rfl hp he, Except.ok.injEq, List.all_eq_true]
    intro a ha
    rw [List.eq_of_mem_replicate ha]
    exact heq t e ht he
  | @stateDesc var name n e ht hn he _ ih =>
    intro hvar depth v hv
    obtain ⟨-, values, rfl, hvalues⟩ := Variable.fromDefaults_iff.1 hv
    rw [ht] at hvalues
    obtain ⟨e', states, he', hstates, rfl⟩ := hvalues
    obtain rfl : e = e' := Option.some.inj (he.symm.trans he')
    rw [Var.isDefault_stateDesc hn ht rfl, allOf_eq_true]
    intro t hmem
    have hbuilt := (mem_collect hstates).2 t hmem
    cases depth with
    | zero => cases hbuilt
    | succ depth =>
      obtain ⟨vars, hvars, rfl⟩ := map_eq_ok.1 hbuilt
      refine State.isDefault_eq_true.2 fun u hu => ?_
      have hu' : u ∈ vars := by
        rcases List.mem_append.1 hu with hu | hu
        · exact (List.mem_filter.1 hu).1
        · exact (List.mem_filter.1 hu).1
      obtain ⟨w, hw, hfresh⟩ := exists_of_mem_mapM hvars hu'
      exact ih w hw (comparable_of_holds hdb hsturdy (DescriptorDb.holds_of_getLatest he) hw) hfresh

/-! ### Upgrades -/

omit hdb hsturdy in
lemma State.modifyVar_of_getVar_none (h : s.getVar name = none)
    (f : Variable → Except Fault Variable) : s.modifyVar name f = .ok s := by
  rw [State.getVar, List.find?_append, Option.or_eq_none_iff] at h
  rw [State.modifyVar, modifyFirst_of_find_none f h.1]
  simp only [Except.bind, modifyFirst_of_find_none f h.2, Except.map]

omit hdb hsturdy in
/-- The variable found is changed, and what is found under another name is not. -/
lemma State.modifyVar_of_getVar_some {v' : Variable} {f : Variable → Except Fault Variable}
    (h : s.getVar name = some v) (hf : f v = .ok v') (hname : v'.name = v.name) :
    ∃ s', s.modifyVar name f = .ok s' ∧ s'.getVar name = some v' ∧
      ∀ name' ≠ name, s'.getVar name' = s.getVar name' := by
  rw [State.getVar, List.find?_append] at h
  cases hs : s.simpleVars.find? fun v => v.name = name with
  | some u =>
    rw [hs, Option.some_or, Option.some.injEq] at h
    subst h
    obtain ⟨vs, hm, hfind, hother⟩ := modifyFirst_of_find_some hs hf hname
    refine ⟨{ s with simpleVars := vs }, by rw [State.modifyVar, hm]; rfl, ?_, fun name' hne => ?_⟩
    · simp only [State.getVar, List.find?_append, hfind, Option.some_or]
    · simp only [State.getVar, List.find?_append, hother name' hne]
  | none =>
    rw [hs, Option.none_or] at h
    obtain ⟨vs, hm, hfind, hother⟩ := modifyFirst_of_find_some h hf hname
    refine ⟨{ s with statedescVars := vs }, ?_, ?_, fun name' hne => ?_⟩
    · rw [State.modifyVar, modifyFirst_of_find_none f hs]
      simp only [Except.bind, hm, Except.map]
    · simp only [State.getVar, List.find?_append, hs, hfind, Option.none_or]
    · simp only [State.getVar, List.find?_append, hother name' hne]

omit hdb hsturdy in
lemma State.upgradeDebug_latest (h : db.getLatest name = some s.descriptor) (depth : ℕ) :
    State.upgradeDebug db (depth + 1) s = .ok none := by
  rw [State.upgradeDebug, DescriptorDb.getLatest_self h]
  simp only [if_true]

omit hdb hsturdy in
/-- One variable is carried over, where the new one is default if the old one is. Only an old
one that is not default, of the type and count of the new one, changes it. -/
lemma Var.WellFormed.upgradeFromDebug {old new : Variable} (hold : old.WellFormed db) {b : Bool}
    (hb : old.isDefault = .ok b) (hnew : b = true → new.isDefault = .ok true) (depth : ℕ) :
    ∃ v, Variable.upgradeFromDebug (State.upgradeDebug db (depth + 1)) old new = .ok v ∧
      v.descriptor = new.descriptor ∧
      (v = new ∨ old.isDefault = .ok false ∧ old.descriptor.varType = new.descriptor.varType ∧
        old.descriptor.count = new.descriptor.count) := by
  rw [Variable.upgradeFromDebug, hb]
  cases b with
  | true =>
    refine ⟨new, ?_, rfl, .inl rfl⟩
    simp only [Except.bind, if_true, hnew rfl, debugAssert, Except.map]
  | false =>
    simp only [Except.bind, Bool.false_eq_true, if_false]
    by_cases hsame : new.descriptor.varType ≠ old.descriptor.varType ∨
        new.descriptor.count ≠ old.descriptor.count
    · refine ⟨new, ?_, rfl, .inl rfl⟩
      simp only [Variable.upgradeFrom, hb, Except.bind, Bool.false_eq_true, false_or, if_pos hsame]
    obtain ⟨values, hrun⟩ : ∃ values, Variable.upgradeFrom (State.upgradeDebug db (depth + 1))
        old new = .ok { new with values } := by
      simp only [Variable.upgradeFrom, hb, Except.bind, Bool.false_eq_true, false_or, if_neg hsame]
      rcases hold.cases with ⟨t, values, -, hv, -⟩ | ⟨name, states, -, hv, -, hall⟩
      · exact ⟨.simple t values, by simp only [hv]⟩
      · -- the states inside are of the latest version, so they stay
        have hmap : (states.mapM fun s => (State.upgradeDebug db (depth + 1) s).map
            fun upgraded => upgraded.getD s) = .ok states := by
          refine mapM_eq_ok.2 (List.forall₂_same.2 fun t ht => ?_)
          rw [State.upgradeDebug_latest (hall t ht).1]
          rfl
        exact ⟨.stateDesc states, by simp only [hv, hmap]; rfl⟩
    simp only [not_or, not_not] at hsame
    exact ⟨_, hrun, rfl, .inr ⟨trivial, hsame.1.symm, hsame.2.symm⟩⟩

omit hdb hsturdy in
lemma State.WellFormed.listed (h : s.WellFormed db) :
    (s.simpleVars ++ s.statedescVars).map Var.descriptor = s.descriptor.listed := by
  obtain ⟨⟨hsimple, -⟩, hstatedesc, -⟩ := State.wellFormed_iff.1 h
  rw [List.map_append, hsimple, hstatedesc, StateDescriptor.listed]

omit hdb hsturdy in
lemma State.WellFormed.find_listed (h : s.WellFormed db) (hv : s.getVar name = some v) :
    s.descriptor.listed.find? (fun var => var.name = name) = some v.descriptor := by
  rw [← h.listed, List.find?_map]
  exact Option.map_eq_some_iff.2 ⟨v, hv, rfl⟩

omit hdb hsturdy in
lemma State.mem_of_getVar (h : s.getVar name = some v) :
    v ∈ s.simpleVars ++ s.statedescVars ∧ v.name = name :=
  ⟨List.mem_of_find?_eq_some h, by simpa using List.find?_some h⟩

/-- Found under the name is the fresh variable `w` itself, or what one of the old variables,
which is not default, has made of it. -/
def Settled (olds : List Variable) (w : Variable) (found : Option Variable) : Prop :=
  found = some w ∨ ∃ old ∈ olds, old.name = w.name ∧ old.isDefault = .ok false ∧
    old.descriptor.varType = w.descriptor.varType ∧ old.descriptor.count = w.descriptor.count ∧
      ∃ v, found = some v ∧ v.descriptor = w.descriptor

/-- The state in the course of an upgrade. -/
structure Upgrading (fresh : State) (olds : List Variable) (t : State) : Prop where
  absent : ∀ name, fresh.getVar name = none → t.getVar name = none
  settled : ∀ name w, fresh.getVar name = some w → Settled olds w (t.getVar name)

omit hdb hsturdy in
lemma Settled.concat {olds : List Variable} {w : Variable} {found : Option Variable}
    (h : Settled olds w found) (old : Variable) : Settled (olds ++ [old]) w found := by
  rcases h with h | ⟨a, ha, h⟩
  · exact .inl h
  · exact .inr ⟨a, List.mem_append_left _ ha, h⟩

/-- What meets an old variable that is default is default: it is still fresh. -/
lemma Settled.isDefault {fresh : State} (hs : s.WellFormed db) (hd : db.Holds s.descriptor)
    {e : StateDescriptor} (he : db.getLatest s.descriptor.name = some e) (hne : e ≠ s.descriptor)
    {depth : ℕ} (hfresh : State.fromDefaults db depth e = .ok fresh) {before after : List Variable}
    {old : Variable} (hvars : s.simpleVars ++ s.statedescVars = before ++ old :: after)
    (hold : old.isDefault = .ok true) {w : Variable} (hw : fresh.getVar old.name = some w)
    (h : Settled before w (some v)) : v.isDefault = .ok true := by
  obtain ⟨hdesc, hwf⟩ := State.wellFormed_fromDefaults hfresh
  have hmem : old ∈ s.simpleVars ++ s.statedescVars := by simp [hvars]
  have hstays : db.Stays old.descriptor := by
    refine (hs.var hmem).stays (comparable_of_holds hdb hsturdy hd (hs.mem_vars hmem)) ?_ hold
    intro states hstates t ht
    exact ((hs.var hmem).nested states hstates t ht).stays hdb hsturdy
      (hs.holds_nested hmem hstates ht)
  have hlisted : s.descriptor.listed =
      before.map Var.descriptor ++ old.descriptor :: after.map Var.descriptor := by
    rw [← hs.listed, hvars, List.map_append, List.map_cons]
  obtain ⟨hfirst, hbefore⟩ := hsturdy.carries _ e hd he hne _ _ _ hlisted hstays w.descriptor
    (hdesc ▸ hwf.find_listed hw)
  rcases h with h | ⟨a, ha, hname, hfalse, htype, hcount, -⟩
  · obtain rfl : v = w := Option.some.inj h
    cases depth with
    | zero => cases hfresh
    | succ depth =>
      obtain ⟨vars, hvars, rfl⟩ := map_eq_ok.1 hfresh
      have hv : v ∈ vars := by
        rcases List.mem_append.1 (State.mem_of_getVar hw).1 with hv | hv
        · exact (List.mem_filter.1 hv).1
        · exact (List.mem_filter.1 hv).1
      obtain ⟨var, hvar, hbuilt⟩ := exists_of_mem_mapM hvars hv
      obtain ⟨rfl, -⟩ := Variable.wellFormed_fromDefaults
        (fun _ _ => State.wellFormed_fromDefaults) hbuilt
      exact hfirst.isDefault hdb hsturdy
        (comparable_of_holds hdb hsturdy (DescriptorDb.holds_of_getLatest he) hvar) hbuilt
  · -- an earlier variable was copied here, although it is always default
    have hamem : a ∈ s.simpleVars ++ s.statedescVars := by simp [hvars, ha]
    have halways := ((hbefore a.descriptor (List.mem_map_of_mem ha)
      (hname.trans (State.mem_of_getVar hw).2)).resolve_left (not_not.2 htype)).resolve_left
        (not_not.2 hcount)
    rw [(hs.var hamem).isDefault_of_alwaysDefault
      (comparable_of_holds hdb hsturdy hd (hs.mem_vars hamem)) halways] at hfalse
    cases hfalse

/-- **One old variable of an upgrade.** -/
lemma Upgrading.step {fresh t : State} (hs : s.WellFormed db) (hd : db.Holds s.descriptor)
    {e : StateDescriptor} (he : db.getLatest s.descriptor.name = some e) (hne : e ≠ s.descriptor)
    {depth : ℕ} (hfresh : State.fromDefaults db (depth + 1) e = .ok fresh)
    {before after : List Variable} {old : Variable}
    (hvars : s.simpleVars ++ s.statedescVars = before ++ old :: after)
    (h : Upgrading fresh before t) :
    ∃ t', t.modifyVar old.descriptor.name
        (Variable.upgradeFromDebug (State.upgradeDebug db (depth + 1)) old) = .ok t' ∧
      Upgrading fresh (before ++ [old]) t' := by
  have hmem : old ∈ s.simpleVars ++ s.statedescVars := by simp [hvars]
  cases hw : fresh.getVar old.name with
  | none =>
    exact ⟨t, State.modifyVar_of_getVar_none (h.absent _ hw) _, h.absent,
      fun name w hw => (h.settled name w hw).concat old⟩
  | some w =>
    have hsettled := h.settled _ w hw
    obtain ⟨new, hnew, hdesc⟩ : ∃ new, t.getVar old.name = some new ∧
        new.descriptor = w.descriptor := by
      rcases hsettled with hf | ⟨_, _, _, _, _, _, v, hf, hdesc⟩
      · exact ⟨w, hf, rfl⟩
      · exact ⟨v, hf, hdesc⟩
    obtain ⟨b, hb⟩ := (hs.exists_isDefault hdb hsturdy hd).1 old hmem
    obtain ⟨v, hrun, hvdesc, hchange⟩ := (hs.var hmem).upgradeFromDebug hb (fun hdefault =>
      Settled.isDefault hdb hsturdy hs hd he hne hfresh hvars (hdefault ▸ hb) hw
        (hnew ▸ hsettled)) depth
    have hvname : v.name = new.name := congrArg VarDescriptor.name hvdesc
    obtain ⟨t', hm, hfind, hother⟩ := State.modifyVar_of_getVar_some hnew hrun hvname
    refine ⟨t', hm, fun name hname => ?_, fun name w' hw' => ?_⟩
    · have hne : name ≠ old.name := by
        rintro rfl
        rw [hname] at hw
        cases hw
      exact (hother name hne).trans (h.absent name hname)
    · by_cases hname : name = old.name
      · subst hname
        obtain rfl : w = w' := Option.some.inj (hw.symm.trans hw')
        rw [hfind]
        rcases hchange with rfl | ⟨hfalse, htype, hcount⟩
        · exact hnew ▸ hsettled.concat old
        · rw [hdesc] at htype hcount
          exact .inr ⟨old, by simp, (State.mem_of_getVar hw).2.symm, hfalse, htype, hcount, v, rfl,
            hvdesc.trans hdesc⟩
      · rw [hother name hname]
        exact (h.settled name w' hw').concat old

/-- **No assertion fails in an upgrade**, given room on the stack for the new defaults; it is only
when the new defaults are more than a vector has room for that it panics. -/
lemma State.WellFormed.exists_upgradeDebug (hres : db.Resolves) (hacyclic : Acyclic db.Refers)
    (h : s.WellFormed db) (hd : db.Holds s.descriptor) :
    ∃ depth₀, ∀ depth ≥ depth₀, (∃ o, State.upgradeDebug db depth s = .ok o) ∨
      ¬ db.Fits ∧ State.upgradeDebug db depth s = .error Slices.capacityOverflow := by
  obtain ⟨e, he⟩ := DescriptorDb.exists_getLatest hd
  have hheld := DescriptorDb.holds_of_getLatest he
  obtain ⟨depth₀, hwalk⟩ := ends_references hacyclic e
  refine ⟨depth₀ + 2, fun depth hdepth => ?_⟩
  obtain ⟨k, rfl⟩ : ∃ k, depth = k + 1 + 1 := ⟨depth - 2, by omega⟩
  have hroom := walk_mono (show depth₀ ≤ k + 1 by omega) hwalk
  rw [State.upgradeDebug, he]
  by_cases hsame : e = s.descriptor
  · exact .inl ⟨none, by simp only [if_pos hsame]⟩
  · simp only [if_neg hsame]
    cases hfresh : State.fromDefaults db (k + 1) e with
    | error fault =>
      obtain rfl := State.fromDefaults_eq_error hdb hres hheld hroom hfresh
      refine .inr ⟨fun hfits => ?_, rfl⟩
      obtain ⟨fresh, hbuilt⟩ := (State.exists_fromDefaults hdb hfits hres _ hheld).2 hroom
      cases hfresh.symm.trans hbuilt
    | ok fresh =>
      have hstart : Upgrading fresh [] fresh := ⟨fun _ hn => hn, fun _ w hw => .inl hw⟩
      obtain ⟨t, ht, -⟩ := foldlM_exists (I := Upgrading fresh) hstart
        fun before old after t hvars hI =>
          Upgrading.step hdb hsturdy h hd he hsame hfresh hvars hI
      exact .inl ⟨some t, by simp only [Except.bind, ht, Except.map]⟩

end Wellformed

/-! ### Every state -/

inductive State.Contains : State → State → Prop
  | self (s : State) : Contains s s
  | inside {s t u : State} {v : Variable} {states : List State}
      (hv : v ∈ s.simpleVars ++ s.statedescVars) (hstates : v.values = .stateDesc states)
      (ht : t ∈ states) (h : Contains t u) : Contains s u

lemma State.WellFormed.contains {db : DescriptorDb X} {s t : State} (h : s.Contains t) :
    s.WellFormed db → db.Holds s.descriptor → t.WellFormed db ∧ db.Holds t.descriptor := by
  induction h with
  | self s => exact fun hs hd => ⟨hs, hd⟩
  | inside hv hstates ht _ ih =>
    exact fun hs hd => ih ((hs.var hv).nested _ hstates _ ht) (hs.holds_nested hv hstates ht)

/-- **No assertion fails on a state of a sturdy database**: whether it and its variables are
default can always be told, saving it returns an error at worst, and a debug build upgrades it,
given room on the stack, unless the new defaults are more than a vector has room for. The same goes
for all the states inside it. -/
theorem assertions_hold {X : Crates} {files : List Bytes} {db : DescriptorDb X}
    (hdb : DescriptorDb.empty.fromFiles files = .ok db) (hres : db.Resolves)
    (hacyclic : Acyclic db.Refers) (hsturdy : db.Sturdy) {s t : State} (hs : s.Reachable db)
    (hd : db.Holds s.descriptor) (ht : s.Contains t) :
    (∀ v ∈ t.simpleVars ++ t.statedescVars, ∃ b, v.isDefault = .ok b) ∧
    (∃ b, t.isDefault = .ok b) ∧
    (∀ Z e, t.toBlob Z = .error e → ∃ text, e = .error text) ∧
    ∃ depth₀, ∀ depth ≥ depth₀, (∃ o, State.upgradeDebug db depth t = .ok o) ∨
      ¬ db.Fits ∧ State.upgradeDebug db depth t = .error Slices.capacityOverflow := by
  have hparsed := DescriptorDb.Parsed.empty.fromFiles hdb
  obtain ⟨hwf, hheld⟩ := State.WellFormed.contains ht hs.wellFormed hd
  obtain ⟨hvars, hstate⟩ := hwf.exists_isDefault hparsed hsturdy hheld
  exact ⟨hvars, hstate, hwf.plain_toBlob hparsed hsturdy hheld,
    hwf.exists_upgradeDebug hparsed hsturdy hres hacyclic hheld⟩

lemma carries_of_nodup {db : DescriptorDb X} {d e : StateDescriptor}
    (hnames : (d.listed.map VarDescriptor.name).Nodup) (hstays : ∀ new ∈ e.listed, db.Stays new) :
    db.Carries d e := by
  intro before old after hlisted _ new hnew
  refine ⟨hstays new (List.mem_of_find?_eq_some hnew), fun earlier hearlier hname => ?_⟩
  rw [hlisted, List.map_append, List.map_cons] at hnames
  have hmem : old.name ∈ before.map VarDescriptor.name := hname ▸ List.mem_map_of_mem hearlier
  exact absurd rfl ((List.nodup_append.1 hnames).2.2 old.name hmem old.name (by simp))

lemma holds_testDb {d : StateDescriptor} (h : testDb.Holds d) : d = testV1 ∨ d = testV2 := by
  have hmem := DescriptorDb.mem_all_of_holds h
  rw [show testDb.all = [testV1, testV2] from rfl] at hmem
  simpa using hmem

lemma sturdy_testDb : testDb.Sturdy := by
  constructor
  · intro d hd var hvar hpoint
    have hnone : ∀ var ∈ testV1.vars ++ testV2.vars, var.varType ≠ .simple .point3 := by decide
    have hmem : var ∈ testV1.vars ++ testV2.vars := by
      rcases holds_testDb hd with rfl | rfl
      · exact List.mem_append_left _ hvar
      · exact List.mem_append_right _ hvar
    exact absurd hpoint (hnone var hmem)
  · intro d e hd he hne
    rcases holds_testDb hd with rfl | rfl
    · obtain rfl : testV2 = e := Option.some.inj he
      refine carries_of_nodup (by decide) fun new hnew => ?_
      have hcases : new = testV2.vars[0] ∨ new = testV2.vars[1] ∨ new = testV2.vars[2] := by
        rw [show testV2.listed = testV2.vars from rfl] at hnew
        simpa [testV2, testVars] using hnew
      rcases hcases with rfl | rfl | rfl
      · exact .simple rfl rfl fun t d ht hd => by cases ht; cases hd; rfl
      · exact .simple rfl rfl fun t d ht hd => by cases ht; cases hd; rfl
      · exact .simple rfl rfl fun t d ht hd => by cases ht; cases hd; rfl
    · exact absurd (Option.some.inj he).symm hne

/-- The upgrade of the repository's own test. -/
theorem testState_assertions_hold :
    (∃ b, (testDefaults.set (.setInt "iTestVar3" 0 6)).isDefault = .ok b) ∧
      ∃ depth₀, ∀ depth ≥ depth₀, ∃ o, State.upgradeDebug testDb depth
        (testDefaults.set (.setInt "iTestVar3" 0 6)) = .ok o := by
  have hbuilt : ∀ d, testDb.Holds d → ∃ depth s, State.fromDefaults testDb depth d = .ok s := by
    intro d hd
    rcases holds_testDb hd with rfl | rfl
    · exact ⟨1, _, rfl⟩
    · exact ⟨1, _, rfl⟩
  have hparsed := DescriptorDb.Parsed.empty.fromFiles fromFiles_testDescriptors
  have hs : State.fromDefaults testDb 1 testV1 = .ok testDefaults := rfl
  obtain ⟨hres, hfits⟩ := resolves_of_fromDefaults hbuilt
  obtain ⟨-, hstate, -, depth₀, hup⟩ := assertions_hold fromFiles_testDescriptors hres
    (acyclic_of_fromDefaults hparsed hbuilt) sturdy_testDb
    (.set (.setInt "iTestVar3" 0 6) (.fromDefaults hs)) rfl (.self _)
  exact ⟨hstate, depth₀, fun depth hdepth =>
    (hup depth hdepth).resolve_right fun hno => hno.1 hfits⟩

def pointFile : Bytes := String.toUTF8
  "STATEDESC Spot \x7b VERSION 1 VAR POINT3 place[1] \x7d" |>.data.toList

def spotV1 : StateDescriptor := ⟨"Spot", 1, [⟨"place", .simple .point3, some 1, none⟩]⟩

def pointDb : DescriptorDb Crates.plain := DescriptorDb.empty.mergeDescriptors [spotV1]

/-- The fresh state of a descriptor with one point. -/
def spotDefaults : State := ⟨spotV1, [freshOf spotV1.vars[0] .point3 ⟨0, 0, 0⟩], [], none, 0⟩

/-- Whether a point is default cannot be told, even when it is fresh. -/
theorem point_unreachable :
    DescriptorDb.empty.fromFiles [pointFile] = .ok pointDb ∧ pointDb.Resolves ∧
      Acyclic pointDb.Refers ∧ pointDb.Holds spotV1 ∧ spotDefaults.Reachable pointDb ∧
      spotDefaults.isDefault = .error (unreachable ": Wrong VarValues type") := by
  have hfile : DescriptorDb.empty.fromFiles [pointFile] = .ok pointDb := by
    have hparse : Parser.parse pointFile = .ok [spotV1] := by decide +kernel
    rw [DescriptorDb.fromFiles, hparse]
    rfl
  have hs : State.fromDefaults pointDb 1 spotV1 = .ok spotDefaults := rfl
  have hbuilt : ∀ d, pointDb.Holds d → ∃ depth s, State.fromDefaults pointDb depth d = .ok s := by
    intro d hd
    have hmem := DescriptorDb.mem_all_of_holds hd
    rw [show pointDb.all = [spotV1] from rfl, List.mem_singleton] at hmem
    exact ⟨1, _, hmem ▸ hs⟩
  exact ⟨hfile, (resolves_of_fromDefaults hbuilt).1,
    acyclic_of_fromDefaults (DescriptorDb.Parsed.empty.fromFiles hfile) hbuilt, rfl,
    .fromDefaults hs, rfl⟩

end Moulars.Sdl
