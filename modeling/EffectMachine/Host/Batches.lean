import EffectMachine.Program.Action

/-!
# Open batches

The calls enrolled in open batches and the slots they await their answers in.  A slot is pending until
it is answered or closed, and neither is ever undone.  Main statements: `Batches.callsOf_enroll`, a call is enrolled
behind all others of its group; `Batches.opened_enroll_iff`, it opens a batch when there are no others; and
`Batches.settle_of_not_isPending`, a settled slot keeps its state.
-/

namespace EffectMachine

/-- The state of the slot of a batched call. -/
inductive SlotState where
  | pending
  | answered (outcome : Outcome)
  | closed
  deriving Inhabited

/-- Open batches and the slots of all calls that were ever enrolled. -/
structure Batches where
  groups : List (BatchGroup × List Enrolled) := []
  slots : List SlotState := []

namespace Batches

/-- The calls of the open batch of a group; none if it has no open batch. -/
def callsOf (batches : Batches) (group : BatchGroup) : List Enrolled :=
  ((batches.groups.find? fun entry => entry.1 = group).map Prod.snd).getD []

/-- Closes the batch of a group. -/
def remove (batches : Batches) (group : BatchGroup) : Batches :=
  { batches with groups := batches.groups.filter fun entry => entry.1 ≠ group }

/-- Adds a call to the batch of a group, which it opens if there is none. -/
def enroll (batches : Batches) (group : BatchGroup) (args : List Value) : Enrolment × Batches :=
  let slot : Slot := ⟨batches.slots.length⟩
  let calls := batches.callsOf group
  ({ slot, opened := calls.isEmpty },
    { groups := (batches.remove group).groups ++ [(group, calls ++ [⟨args, slot⟩])]
      slots := batches.slots ++ [.pending] })

/-- The state of a slot. -/
def stateOf (batches : Batches) (slot : Slot) : SlotState :=
  batches.slots[slot.index]?.getD .closed

/-- Whether a slot is pending. -/
def isPending (batches : Batches) (slot : Slot) : Bool :=
  match batches.stateOf slot with
  | .pending => true
  | _ => false

/-- Gives a pending slot its final state. -/
def settle (batches : Batches) (slot : Slot) (state : SlotState) : Batches :=
  if batches.isPending slot then { batches with slots := batches.slots.set slot.index state }
  else batches

/-- A closed group has no calls. -/
@[simp] theorem callsOf_remove (batches : Batches) (group : BatchGroup) :
    (batches.remove group).callsOf group = [] := by
  have absent : (batches.remove group).groups.find? (fun entry => entry.1 = group) = none := by
    rw [List.find?_eq_none]
    intro entry member
    have kept := (List.mem_filter.1 member).2
    simpa using kept
  simp [callsOf, absent]

/-- An enrolled call stands behind those that were enrolled before it. -/
@[simp] theorem callsOf_enroll (batches : Batches) (group : BatchGroup) (args : List Value) :
    (batches.enroll group args).2.callsOf group =
      batches.callsOf group ++ [⟨args, (batches.enroll group args).1.slot⟩] := by
  have absent : (batches.remove group).groups.find? (fun entry => entry.1 = group) = none := by
    rw [List.find?_eq_none]
    intro entry member
    have kept := (List.mem_filter.1 member).2
    simpa using kept
  simp [enroll, callsOf, List.find?_append, absent]

/-- A call opens a batch exactly when its group has no calls. -/
theorem opened_enroll_iff (batches : Batches) (group : BatchGroup) (args : List Value) :
    (batches.enroll group args).1.opened = true ↔ batches.callsOf group = [] := by
  simp [enroll]

/-- A settled slot keeps its state. -/
theorem settle_of_not_isPending {batches : Batches} {slot : Slot} (state : SlotState)
    (settled : batches.isPending slot = false) : batches.settle slot state = batches := by
  simp [settle, settled]

end Batches
end EffectMachine
