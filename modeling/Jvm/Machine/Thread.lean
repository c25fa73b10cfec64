import Jvm.Event
import Jvm.Machine.Frame

/-! Threads: a stack of frames of bounded depth and a program counter. A step that succeeds in
pushing or popping a frame reports it; a step that fails changes and reports nothing. -/

namespace Jvm

/-- The depth of a thread for which none is chosen. -/
def defaultMaxDepth : Nat := 1024

structure Thread where
  pc : Nat := 0
  maxDepth : Nat := defaultMaxDepth
  /-- The current frame first, then its caller, and so on. -/
  frames : List Frame := []

namespace Thread

def depth (thread : Thread) : Nat := thread.frames.length

def isEmpty (thread : Thread) : Bool := thread.frames.isEmpty

def setPc (thread : Thread) (pc : Nat) : Thread := { thread with pc }

/-- Makes the frame the current one. -/
def push (thread : Thread) (frame : Frame) : Except MachineError (Thread × Event) :=
  if thread.depth < thread.maxDepth then
    let pushed := { thread with frames := frame :: thread.frames }
    .ok (pushed, .framePushed pushed.depth)
  else .error (.stackOverflow thread.maxDepth)

/-- Takes the current frame off. -/
def pop (thread : Thread) : Except MachineError (Frame × Thread × Event) :=
  match thread.frames with
  | top :: below =>
    let popped := { thread with frames := below }
    .ok (top, popped, .framePopped popped.depth)
  | [] => .error .emptyStack

def current (thread : Thread) : Except MachineError Frame :=
  match thread.frames with
  | top :: _ => .ok top
  | [] => .error .emptyStack

/-- The frame that the current one returns to. -/
def caller? (thread : Thread) : Option Frame := thread.frames[1]?

/-- Works on the current frame. If that fails, the frame stays as it was. -/
def edit {α : Type} (thread : Thread) (work : Frame → Except MachineError (α × Frame)) :
    Except MachineError (α × Thread) :=
  match thread.frames with
  | top :: below => do
    let (value, top) ← work top
    return (value, { thread with frames := top :: below })
  | [] => .error .emptyStack

end Thread

end Jvm
