import Mathlib.Logic.Relation
import Moulars.Plasma.Creatable

/-!
Which messages may be passed on to other clients.

A linking message never is. A message with callbacks asks each of them that can be asked, down
to any depth; what cannot be asked is no message, and has no messages inside.
-/

namespace Moulars.Plasma

namespace Creatable

mutual

/-- `make_net_safe`, by way of `net_safety_mut`: none where there is no such interface. None of
the messages is changed. -/
def makeNetSafe : Creatable → Option Bool
  | .animCmdMsg _ callbacks _ => some (callbacksNetSafe callbacks)
  | .messageWithCallbacks _ callbacks => some (callbacksNetSafe callbacks)
  | .linkingMgrMsg .. => some false
  | .genericValue _ => none

/-- `MessageWithCallbacks::make_net_safe`, up to the first callback that is not safe. -/
def callbacksNetSafe : List Creatable → Bool
  | [] => true
  | msg :: msgs => if msg.makeNetSafe.getD true then callbacksNetSafe msgs else false

end

/-! ### What is inside a message -/

def callbacks : Creatable → List Creatable
  | .animCmdMsg _ callbacks _ => callbacks
  | .messageWithCallbacks _ callbacks => callbacks
  | .linkingMgrMsg .. => []
  | .genericValue _ => []

/-- The objects right inside an object: callbacks, and the arguments of a linking message. -/
def parts : Creatable → List Creatable
  | .linkingMgrMsg _ _ _ _ items => items.map Prod.snd
  | c => c.callbacks

/-- A callback of a callback of the object, to any depth; the object itself included. -/
def Calls : Creatable → Creatable → Prop :=
  Relation.ReflTransGen fun c d => d ∈ c.callbacks

/-- Anywhere inside the object, or the object itself. -/
def Contains : Creatable → Creatable → Prop :=
  Relation.ReflTransGen fun c d => d ∈ c.parts

lemma sizeOf_lt_of_mem_callbacks {c d : Creatable} (h : d ∈ c.callbacks) : sizeOf d < sizeOf c := by
  cases c with
  | animCmdMsg base callbacks anim =>
    have hlt := List.sizeOf_lt_of_mem (show d ∈ callbacks from h)
    simp only [animCmdMsg.sizeOf_spec]
    omega
  | messageWithCallbacks base callbacks =>
    have hlt := List.sizeOf_lt_of_mem (show d ∈ callbacks from h)
    simp only [messageWithCallbacks.sizeOf_spec]
    omega
  | linkingMgrMsg base contentFlags cmd flags items => cases h
  | genericValue value => cases h

lemma parts_eq_callbacks {c : Creatable} (h : c.classID ≠ .linkingMgrMsg) :
    c.parts = c.callbacks := by
  cases c with
  | linkingMgrMsg base contentFlags cmd flags items => exact absurd rfl h
  | _ => rfl

/-! ### Unsafe messages -/

lemma callbacksNetSafe_eq_false {msgs : List Creatable} :
    callbacksNetSafe msgs = false ↔ ∃ msg ∈ msgs, msg.makeNetSafe = some false := by
  induction msgs with
  | nil => simp [callbacksNetSafe]
  | cons msg msgs ih =>
    rw [callbacksNetSafe, List.exists_mem_cons_iff, ← ih]
    cases h : msg.makeNetSafe with
    | none => simp
    | some safe => cases safe <;> simp

/-- **One level**: a message is not safe if it is a linking message, or if one of its callbacks
is not safe. -/
lemma makeNetSafe_eq_false {c : Creatable} : c.makeNetSafe = some false ↔
    c.classID = .linkingMgrMsg ∨ ∃ d ∈ c.callbacks, d.makeNetSafe = some false := by
  cases c with
  | animCmdMsg base callbacks anim =>
    simp [makeNetSafe, callbacksNetSafe_eq_false, classID, Creatable.callbacks]
  | messageWithCallbacks base callbacks =>
    simp [makeNetSafe, callbacksNetSafe_eq_false, classID, Creatable.callbacks]
  | linkingMgrMsg base contentFlags cmd flags items => simp [makeNetSafe, classID]
  | genericValue value => simp [makeNetSafe, classID, Creatable.callbacks]

/-- **All levels.** -/
lemma makeNetSafe_eq_false_iff {c : Creatable} : c.makeNetSafe = some false ↔
    ∃ d, c.Calls d ∧ d.classID = .linkingMgrMsg := by
  constructor
  · intro h
    induction hn : sizeOf c using Nat.strong_induction_on generalizing c with
    | _ n ih =>
      rcases makeNetSafe_eq_false.1 h with hlinking | ⟨d, hd, hunsafe⟩
      · exact ⟨c, .refl, hlinking⟩
      · obtain ⟨e, hcalls, hlinking⟩ := ih _ (hn ▸ sizeOf_lt_of_mem_callbacks hd) hunsafe rfl
        exact ⟨e, hcalls.head hd, hlinking⟩
  · rintro ⟨d, hcalls, hlinking⟩
    induction hcalls using Relation.ReflTransGen.head_induction_on with
    | refl => exact makeNetSafe_eq_false.2 (.inl hlinking)
    | head hd _ ih => exact makeNetSafe_eq_false.2 (.inr ⟨_, hd, ih⟩)

lemma not_unsafe_of_contains {c d : Creatable} (h : c.makeNetSafe ≠ some false)
    (hd : c.Contains d) : d.makeNetSafe ≠ some false := by
  induction hd with
  | refl => exact h
  | @tail d e _ he ih =>
    rw [Ne, makeNetSafe_eq_false, not_or] at ih
    rw [parts_eq_callbacks ih.1] at he
    exact fun hunsafe => ih.2 ⟨e, he, hunsafe⟩

/-- **A message is made safe exactly if it is no linking message and has none among its callbacks,
to any depth**; then there is none inside it at all. -/
theorem makeNetSafe_iff {msg : Creatable} {safe : Bool} (h : msg.makeNetSafe = some safe) :
    (safe = true ↔ ∀ d, msg.Calls d → d.classID ≠ .linkingMgrMsg) ∧
      (safe = true → ∀ d, msg.Contains d → d.classID ≠ .linkingMgrMsg) := by
  have hfalse : safe = false ↔ ∃ d, msg.Calls d ∧ d.classID = .linkingMgrMsg := by
    rw [← makeNetSafe_eq_false_iff, h, Option.some.injEq]
  refine ⟨?_, ?_⟩
  · rw [← Bool.not_eq_false, hfalse]
    simp only [not_exists, not_and, ne_eq]
  · rintro rfl d hd hlinking
    refine not_unsafe_of_contains (by simp [h]) hd ?_
    exact makeNetSafe_eq_false.2 (.inl hlinking)

/-- A linking message two callbacks deep, behind one that is harmless. -/
def hiddenLink : Creatable :=
  let base : Message := ⟨none, [], 0, 0⟩
  .messageWithCallbacks base
    [.messageWithCallbacks base [], .messageWithCallbacks base [.linkingMgrMsg base ⟨[]⟩ 0 1 []]]

theorem hiddenLink_not_safe : hiddenLink.makeNetSafe = some false ∧
    ¬ ∀ d, hiddenLink.Calls d → d.classID ≠ .linkingMgrMsg := by
  have h : hiddenLink.makeNetSafe = some false := rfl
  refine ⟨h, fun hall => ?_⟩
  cases (makeNetSafe_iff h).1.2 hall

end Creatable

end Moulars.Plasma
