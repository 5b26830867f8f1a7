import Moulars.Sdl.Shape

/-!
What an upgrade makes of each variable.

A variable of the new version that has one namesake in the old version takes its values, if
they were set and the type and the count have not changed; in every other case it keeps the
defaults of the new version.
-/

namespace Moulars.Sdl

open Lib Lib.Wire Lib.Fallible Lib.Keyed
open Hashes

variable {X : Crates}

def StateDescriptor.Unambiguous (d : StateDescriptor) (name : String) : Prop :=
  (d.vars.map VarDescriptor.name).count name ≤ 1

instance (d : StateDescriptor) (name : String) : Decidable (d.Unambiguous name) :=
  inferInstanceAs (Decidable (_ ≤ _))

/-- The upgrade of a state has come to an end with `o`. -/
def State.UpgradesTo (db : DescriptorDb X) (s : State) (o : Option State) : Prop :=
  ∃ depth, State.upgrade db depth s = .ok o

/-- What the variable `v` of the upgraded state `t` is to be, by the variables of `s`. -/
structure Migrated (db : DescriptorDb X) (s t : State) (v : Variable) : Prop where
  descriptor : v.descriptor ∈ t.descriptor.vars
  copied : ∀ old ∈ s.simpleVars ++ s.statedescVars, old.name = v.name →
    HandsOver old v.descriptor → Copied (State.UpgradesTo db) old.values v.values
  default : (∀ old ∈ s.simpleVars ++ s.statedescVars, old.name = v.name →
      HandsNothing old v.descriptor) → v.AtDefaults db

/-! ### One variable -/

section Carried

variable {upgrade : State → Except Fault (Option State)}

lemma carried_of_ne {olds : List Variable} {b : Variable} (h : ∀ old ∈ olds, old.name ≠ b.name) :
    carried upgrade olds b = .ok b :=
  foldlM_of_fixed (fun old hold _ => if_neg (Ne.symm (h old hold))) b

lemma carried_of_once {olds : List Variable} {old b : Variable} (hold : old ∈ olds)
    (hname : old.name = b.name) (honce : (olds.map Var.name).count b.name ≤ 1) :
    carried upgrade olds b = Variable.upgradeFrom upgrade old b := by
  rw [← hname] at honce
  obtain ⟨before, after, rfl, hbefore, hafter⟩ := eq_append_of_once hold honce
  have hrest : ∀ v, after.foldlM (fun v old =>
      if b.name = old.name then Variable.upgradeFrom upgrade old v else .ok v) v = .ok v :=
    foldlM_of_fixed fun old' hold' _ => if_neg (hname ▸ (hafter old' hold').symm)
  have hb : carried upgrade before b = .ok b :=
    carried_of_ne fun old' hold' => hname ▸ hbefore old' hold'
  rw [carried] at hb ⊢
  rw [List.foldlM_append, hb]
  simp only [List.foldlM_cons]
  change Except.bind (ite _ _ _) _ = _
  rw [if_pos hname.symm]
  cases hup : Variable.upgradeFrom upgrade old b with
  | error e => rfl
  | ok v => exact hrest v

end Carried

/-! ### A whole state -/

lemma State.WellFormed.count_name {db : DescriptorDb X} {s : State} (h : s.WellFormed db)
    (name : String) : ((s.simpleVars ++ s.statedescVars).map Var.name).count name =
      (s.descriptor.vars.map VarDescriptor.name).count name := by
  obtain ⟨⟨hsimple, -⟩, hstatedesc, -⟩ := State.wellFormed_iff.1 h
  have hmap : (s.simpleVars ++ s.statedescVars).map Var.name =
      ((s.simpleVars ++ s.statedescVars).map Var.descriptor).map VarDescriptor.name := by
    rw [List.map_map]
    rfl
  rw [hmap, List.map_append, hsimple, hstatedesc]
  refine List.Perm.count_eq (List.Perm.map _ ?_) name
  exact List.perm_append_comm.trans (List.filter_append_perm _ _)

lemma Copied.imp {R R' : State → Option State → Prop} (hR : ∀ s o, R s o → R' s o)
    {values values' : VarValues State} (h : Copied R values values') :
    Copied R' values values' := by
  cases values with
  | simple t vs => exact h
  | stateDesc states =>
    obtain ⟨states', rfl, hall⟩ := h
    exact ⟨states', rfl, hall.imp fun s s' ⟨o, ho, heq⟩ => ⟨o, hR s o ho, heq⟩⟩

/-- **Every variable with a name of its own** is handed what its namesake has, or its default. -/
lemma CarriedOver.migrated {db : DescriptorDb X} {depth depth' : ℕ} {s fresh t : State}
    (hs : s.WellFormed db) (hfresh : State.fromDefaults db depth t.descriptor = .ok fresh)
    (h : CarriedOver (State.upgrade db depth') fresh (s.simpleVars ++ s.statedescVars) t)
    {v : Variable} (hv : v ∈ t.simpleVars ++ t.statedescVars)
    (hnew : t.descriptor.Unambiguous v.name) (hold : s.descriptor.Unambiguous v.name) :
    Migrated db s t v := by
  obtain ⟨hdesc, hwf⟩ := State.wellFormed_fromDefaults hfresh
  have hkeep : ∀ b w,
      carried (State.upgrade db depth') (s.simpleVars ++ s.statedescVars) b = .ok w →
      w.name = b.name := fun b w hw => by
    rw [carried_eq_ok hw]
    rfl
  rw [StateDescriptor.Unambiguous, ← hdesc, ← hwf.count_name] at hnew
  rw [StateDescriptor.Unambiguous, ← hs.count_name] at hold
  have hall := h.simple.append (by simpa using h.statedesc)
  obtain ⟨b, hb, hbv⟩ := hall.exists_of_once hkeep hv (Set.notMem_empty _) hnew
  have hname : v.name = b.name := hkeep b v hbv
  have hdescriptor : v.descriptor = b.descriptor := by rw [carried_eq_ok hbv]
  cases depth with
  | zero => cases hfresh
  | succ depth =>
    obtain ⟨hmem, hdefault⟩ := State.mem_fromDefaults hfresh hb
    rw [hname] at hold
    refine ⟨hdescriptor ▸ hmem, fun old hin hnamed hover => ?_, fun hnothing => ?_⟩
    · rw [carried_of_once hin (hnamed.trans hname) hold] at hbv
      rw [hdescriptor] at hover
      rcases Variable.upgradeFrom_cases hbv with ⟨-, hcopied⟩ | ⟨hnothing, -⟩
      · exact hcopied.imp fun s o ho => ⟨depth', ho⟩
      · exact absurd hnothing hover.not_handsNothing
    · refine ⟨depth, b, hdescriptor ▸ hdefault, ?_⟩
      by_cases hex : ∃ old ∈ s.simpleVars ++ s.statedescVars, old.name = b.name
      · obtain ⟨old, hin, hnamed⟩ := hex
        rw [carried_of_once hin hnamed hold] at hbv
        have hnone := hnothing old hin (hnamed.trans hname.symm)
        rw [hdescriptor] at hnone
        rcases Variable.upgradeFrom_cases hbv with ⟨hover, -⟩ | ⟨-, rfl⟩
        · exact absurd hnone hover.not_handsNothing
        · rfl
      · rw [carried_of_ne fun old hin hnamed => hex ⟨old, hin, hnamed⟩] at hbv
        rw [Except.ok.inj hbv]

/-- **What an upgrade does.** It gives nothing exactly if the state is of the latest version of its
descriptor. Otherwise the new state is of that version, and every variable whose name is not
ambiguous has the values of its namesake, with the states inside upgraded, or, where that one is at
its default, of another type or count, or missing, the defaults of the new version. -/
theorem upgrade_migrates {db : DescriptorDb X} {s : State} (hs : s.Reachable db) {depth : ℕ}
    {o : Option State} (h : State.upgrade db depth s = .ok o) :
    (o = none ↔ db.getLatest s.descriptor.name = some s.descriptor) ∧
      ∀ t, o = some t → db.getLatest s.descriptor.name = some t.descriptor ∧
        (∀ depth, State.upgrade db (depth + 1) t = .ok none) ∧
        ∀ v ∈ t.simpleVars ++ t.statedescVars, t.descriptor.Unambiguous v.name →
          s.descriptor.Unambiguous v.name → Migrated db s t v := by
  refine ⟨State.upgrade_eq_none h, ?_⟩
  rintro t rfl
  cases depth with
  | zero => cases h
  | succ depth =>
    obtain ⟨d, fresh, hd, -, hfresh, hcarried⟩ := State.upgrade_eq_some h
    obtain rfl : t.descriptor = d :=
      hcarried.descriptor.trans (State.fromDefaults_eq_ok hfresh).descriptor
    refine ⟨hd, fun depth' => ?_, fun v hv => hcarried.migrated hs.wellFormed hfresh hv⟩
    rw [State.upgrade, DescriptorDb.getLatest_self hd]
    exact if_pos rfl

/-- The state of the repository's own test, upgraded. -/
def testUpgraded : State := ⟨testV2, testFreshVars.set 1 testSix, [], none, 0⟩

/-- The value that was set is handed over, and the variable that is new has its default. -/
theorem testUpgraded_migrated :
    Migrated testDb (testDefaults.set (.setInt "iTestVar3" 0 6)) testUpgraded
        { freshOf testV2.vars[1] .int 0 with values := .simple .int [6] } ∧
      Migrated testDb (testDefaults.set (.setInt "iTestVar3" 0 6)) testUpgraded
        (freshOf testV2.vars[2] .byte 50) := by
  have hdefaults : State.fromDefaults testDb 1 testV1 = .ok testDefaults := rfl
  have hup : State.upgrade testDb 2 (testDefaults.set (.setInt "iTestVar3" 0 6)) =
    .ok (some testUpgraded) := rfl
  obtain ⟨-, -, hall⟩ := (upgrade_migrates (.set _ (.fromDefaults hdefaults)) hup).2 _ rfl
  exact ⟨hall _ (by simp [testUpgraded, testFreshVars, testSix]) (by decide) (by decide),
    hall _ (by simp [testUpgraded, testFreshVars]) (by decide) (by decide)⟩

end Moulars.Sdl
