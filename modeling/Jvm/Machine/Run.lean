import Jvm.Machine.MachineError
import Jvm.Machine.Slot

/-! Runs of steps on a part of the machine. A step answers and leaves a new state behind, or fails
and leaves the state as it was; a run goes on either way. What the work for a step does to the
memory that the state lies in, also when it fails, is told in `Jvm.Proofs.Machine.Work`. -/

namespace Jvm

/-- What a step on a local table or an operand stack answers. -/
inductive Reply where
  | done
  | count (n : Nat)
  | flag (value : Bool)
  | slot (slot : Slot)
  | int (value : Int32)
  | float (value : Binary32)
  | long (value : Int64)
  | double (value : Binary64)
  | reference (value : Option ObjectRef)
  deriving DecidableEq

/-- How one kind of step acts on one kind of state. -/
abbrev Action (ι σ α : Type) : Type := ι → σ → Except MachineError (α × σ)

/-- What each step of a run answers, and the state after it. -/
def Action.run {ι σ α : Type} (action : Action ι σ α) (state : σ) :
    List ι → List (Except MachineError α × σ)
  | [] => []
  | step :: others =>
    match action step state with
    | .ok (reply, next) => (.ok reply, next) :: run action next others
    | .error fault => (.error fault, state) :: run action state others

end Jvm
