import Jvm.Machine.LocalsStep
import Jvm.Machine.StackStep
import Jvm.Machine.Thread

/-! Everything that can be done with a thread, as data. A step on the local variables or on the
operand stack means those of the current frame. -/

namespace Jvm

inductive ThreadStep where
  | pushFrame (maxLocals maxStack : Nat)
  | pushMethod (method : Member) (pool : ConstantPool)
  /-- Pushes a copy of the current frame. -/
  | pushCopy
  | popFrame
  | current
  | caller
  | frames
  | sameAsCaller
  | isEmpty
  | maxDepth
  | setPc (pc : Nat)
  | onLocals (step : LocalsStep)
  | onStack (step : StackStep)

/-- What a step on a thread answers. -/
inductive ThreadReply where
  | frame (frame : Frame)
  | caller (frame : Option Frame)
  | frames (frames : List Frame)
  /-- None where there is no caller. -/
  | sameAsCaller (answer : Option Bool)
  /-- A number of frames. -/
  | depth (frames : Nat)
  | part (reply : Reply)

namespace ThreadStep

/-- Pushes a frame, if there is one to push. -/
def pushing (thread : Thread) (frame : Except MachineError Frame) :
    Except MachineError ((ThreadReply × List Event) × Thread) := do
  let (thread, event) ← thread.push (← frame)
  return ((.part .done, [event]), thread)

/-- Answers without a change and without a report. -/
def watching (thread : Thread) (reply : ThreadReply) : (ThreadReply × List Event) × Thread :=
  ((reply, []), thread)

/-- What a step answers and reports, and the thread after it. -/
def act : Action ThreadStep Thread (ThreadReply × List Event)
  | pushFrame maxLocals maxStack, thread => pushing thread (.ok (.ofSizes maxLocals maxStack))
  | pushMethod method pool, thread => pushing thread (Frame.ofMethod method pool)
  | pushCopy, thread => pushing thread thread.current
  | popFrame, thread => do
    let (frame, thread, event) ← thread.pop
    return ((.frame frame, [event]), thread)
  | current, thread => return watching thread (.frame (← thread.current))
  | caller, thread => .ok (watching thread (.caller thread.caller?))
  | frames, thread => .ok (watching thread (.frames thread.frames))
  | sameAsCaller, thread => do
    let frame ← thread.current
    return watching thread (.sameAsCaller (thread.caller?.map (frame == ·)))
  | isEmpty, thread => .ok (watching thread (.part (.flag thread.isEmpty)))
  | maxDepth, thread => .ok (watching thread (.depth thread.maxDepth))
  | setPc pc, thread => .ok (watching (thread.setPc pc) (.part .done))
  | onLocals step, thread =>
    thread.edit fun frame => do
      let (reply, locals) ← step.act frame.locals
      return ((.part reply, []), { frame with locals })
  | onStack step, thread =>
    thread.edit fun frame => do
      let (reply, stack) ← step.act frame.stack
      return ((.part reply, []), { frame with stack })

end ThreadStep

end Jvm
