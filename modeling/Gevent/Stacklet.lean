import Gevent.Lib.Machine
import Gevent.Lib.Memory
import Gevent.Types

/-!
# The stacklet library

`stacklet.c` keeps the stacks of all cothreads on one C stack. The newest bytes
of a suspended stack are copied to the heap when another stack needs their
place, and copied back when it is resumed. The C stack grows downwards, from
`stop` (one past the oldest byte) to `start`. The assembly of `slp_switch` is
left to what its comments say: it calls `save_state` with the current stack
pointer, moves to the stack pointer that comes back unless it is `NULL`, and
calls `restore_state` there.
-/

namespace Gevent.Stacklet

abbrev Byte := UInt8
/-- The address of a `struct stacklet_s`. -/
abbrev Ptr := Nat

/-- `struct stacklet_s`, and the bytes after it. -/
structure StackletS where
  stackStart : Nat
  stackStop : Nat
  stackSaved : Nat
  stackPrev : Option Ptr
  copy : Nat → Byte

/-- `struct stacklet_thread_s` -/
structure ThreadS where
  gStackChainHead : Option Ptr
  gCurrentStackStop : Nat
  gCurrentStackMarker : Nat
  gSource : Handle
  gTarget : Ptr

/-- The C stack, the stacklets that `malloc` has given and `free` not taken
back, and the thread. -/
structure State where
  stack : Nat → Byte
  heap : Ptr → StackletS
  live : List Ptr
  thrd : ThreadS

inductive Fault where
  | assertion
  | wildPointer
  /-- a loop does not end -/
  | diverges
  deriving DecidableEq, Repr

namespace State

def deref (s : State) (p : Ptr) : Except Fault StackletS :=
  if p ∈ s.live then .ok (s.heap p) else .error .wildPointer

def set (s : State) (p : Ptr) (g : StackletS) : State :=
  { s with heap := Function.update s.heap p g }

def gSave (s : State) (g : Ptr) (stop : Nat) : Except Fault State := do
  let c ← s.deref g
  let sz1 := c.stackSaved
  let sz2 := stop - c.stackStart
  if stop ≤ c.stackStop then
    if sz1 < sz2 then
      .ok (s.set g { c with
        copy := copyRange c.copy sz1 s.stack (c.stackStart + sz1) (sz2 - sz1)
        stackSaved := sz2 })
    else .ok s
  else .error .assertion

/-- `malloc` gives `mem`, or fails. -/
def gAllocateSourceStacklet (s : State) (oldStackPointer : Nat) (mem : Option Ptr) : State × Bool :=
  match mem with
  | none => ({ s with thrd := { s.thrd with gSource := .null } }, false)
  | some p =>
    ({ s with
        heap := Function.update s.heap p
          { s.heap p with
            stackStart := oldStackPointer
            stackStop := s.thrd.gCurrentStackStop
            stackSaved := 0
            stackPrev := s.thrd.gStackChainHead }
        live := p :: s.live
        thrd := { s.thrd with gSource := .stack p, gStackChainHead := some p } }, true)

/-- The body of the loop of `g_clear_stack`. -/
def clear (s : State) (gTarget current : Ptr) (c : StackletS) : Except Fault State :=
  let s := s.set current { c with stackPrev := none }
  if current ≠ gTarget then s.gSave current c.stackStop else .ok s

/-- The loop of `g_clear_stack`; it takes at most as many turns as there are
stacklets, or does not end. -/
def clearLoop (gTarget : Ptr) (targetStop : Nat) :
    Nat → State → Option Ptr → Except Fault (State × Option Ptr)
  | _, s, none => .ok (s, none)
  | 0, _, some _ => .error .diverges
  | turns + 1, s, some current => do
    let c ← s.deref current
    if c.stackStop ≤ targetStop then
      let s ← s.clear gTarget current c
      clearLoop gTarget targetStop turns s c.stackPrev
    else .ok (s, some current)

/-- The end of `g_clear_stack`: the first stacklet that is left is moved in part. -/
def clearPart (s : State) (targetStop : Nat) (current : Ptr) : Except Fault State := do
  let c ← s.deref current
  if c.stackStart < targetStop then s.gSave current targetStop else .ok s

def setChainHead (s : State) (p : Option Ptr) : State :=
  { s with thrd := { s.thrd with gStackChainHead := p } }

def gClearStack (s : State) (gTarget : Ptr) : Except Fault State := do
  let t ← s.deref gTarget
  let (s, current) ← clearLoop gTarget t.stackStop s.live.length s s.thrd.gStackChainHead
  match current with
  | none => .ok (s.setChainHead none)
  | some p => do
    let s ← s.clearPart t.stackStop p
    .ok (s.setChainHead (some p))

/-- The end of `g_save_state` and `g_destroy_state`, with the stack pointer they return. -/
def clearForTarget (s : State) : Except Fault (State × Option Nat) := do
  let s ← s.gClearStack s.thrd.gTarget
  let t ← s.deref s.thrd.gTarget
  .ok (s, some t.stackStart)

def gSaveState (s : State) (oldStackPointer : Nat) (mem : Option Ptr) :
    Except Fault (State × Option Nat) :=
  match s.gAllocateSourceStacklet oldStackPointer mem with
  | (s, false) => .ok (s, none)
  | (s, true) => s.clearForTarget

def gInitialSaveState (s : State) (oldStackPointer : Nat) (mem : Option Ptr) : Except Fault State :=
  match s.gAllocateSourceStacklet oldStackPointer mem with
  | (s, false) => .ok s
  | (s, true) =>
    match s.thrd.gSource with
    | .stack p => s.gSave p s.thrd.gCurrentStackMarker
    | _ => .error .wildPointer

def gDestroyState (s : State) : Except Fault (State × Option Nat) :=
  clearForTarget { s with thrd := { s.thrd with gSource := .empty } }

def free (s : State) (p : Ptr) : State := { s with live := s.live.erase p }

def gRestoreState (s : State) (newStackPointer : Nat) : Except Fault State := do
  let g ← s.deref s.thrd.gTarget
  if newStackPointer = g.stackStart then
    let s := { s with
      stack := copyRange s.stack g.stackStart g.copy 0 g.stackSaved
      thrd := { s.thrd with gCurrentStackStop := g.stackStop } }
    .ok (s.free s.thrd.gTarget)
  else .error .assertion

/-- `slp_switch` -/
def slpSwitch (save : Except Fault (State × Option Nat)) : Except Fault State := do
  let (s, newStackPointer) ← save
  match newStackPointer with
  | none => .ok s
  | some sp => s.gRestoreState sp

/-- The stop of the main stack is one past the highest frame that has called. -/
def raiseStop (s : State) (stackmarker : Nat) : State :=
  if s.thrd.gCurrentStackStop ≤ stackmarker then
    { s with thrd := { s.thrd with gCurrentStackStop := stackmarker + 1 } }
  else s

/-- `g_initialstub` up to its call of `run`. -/
def gInitialstub (s : State) (sp : Nat) (mem : Option Ptr) : Except Fault State := do
  let s ← s.gInitialSaveState sp mem
  if s.thrd.gSource ≠ .null then
    .ok { s with thrd := { s.thrd with gCurrentStackStop := s.thrd.gCurrentStackMarker } }
  else .ok s

/-- `stacklet_new`, whose frame holds `stackmarker`, up to the call of `run`; its
result is `thrd->g_source`. -/
def stackletNew (s : State) (stackmarker sp : Nat) (mem : Option Ptr) : Except Fault State :=
  let s := s.raiseStop stackmarker
  gInitialstub { s with thrd := { s.thrd with gCurrentStackMarker := stackmarker } } sp mem

def stackletSwitch (s : State) (stackmarker sp : Nat) (mem : Option Ptr) (target : Ptr) :
    Except Fault State :=
  let s := s.raiseStop stackmarker
  let s := { s with thrd := { s.thrd with gTarget := target } }
  slpSwitch (s.gSaveState sp mem)

/-- `g_initialstub` from the return of `run`. -/
def runReturns (s : State) (result : Ptr) : Except Fault State :=
  slpSwitch (gDestroyState { s with thrd := { s.thrd with gTarget := result } })

/-- The loop of `stacklet_destroy`, from the pointer `*pp` on; `pp` is where it
is stored. -/
def unlinkLoop (target : Ptr) : Nat → State → Option Ptr → Option Ptr → Except Fault State
  | _, s, _, none => .ok s
  | 0, _, _, some _ => .error .diverges
  | turns + 1, s, pp, some p => do
    if p = target then
      let t ← s.deref target
      match pp with
      | none => .ok (s.setChainHead t.stackPrev)
      | some q => .ok (s.set q { s.heap q with stackPrev := t.stackPrev })
    else
      let c ← s.deref p
      unlinkLoop target turns s (some p) c.stackPrev

def stackletDestroy (s : State) (target : Ptr) : Except Fault State := do
  let s ← unlinkLoop target s.live.length s none s.thrd.gStackChainHead
  .ok (s.free target)

/-- Where a byte is stored. -/
inductive Place where
  | stack (a : Nat)
  | copy (p : Ptr) (i : Nat)
  deriving DecidableEq, Repr

/-- `_stacklet_translate_pointer` -/
def stackletTranslatePointer (s : State) (context : Option Ptr) (ptr : Nat) : Except Fault Place :=
  match context with
  | none => .ok (.stack ptr)
  | some p => do
    let c ← s.deref p
    let delta : Int := ptr - c.stackStart
    if 0 ≤ delta ∧ delta < c.stackSaved then .ok (.copy p delta.toNat)
    else if 0 ≤ delta ∧ delta < c.stackStop - c.stackStart then .ok (.stack ptr)
    else if 0 ≤ delta ∧ c.stackStop % 2 = 1 then .ok (.stack ptr)
    else .error .assertion

def load (s : State) : Place → Byte
  | .stack a => s.stack a
  | .copy p i => (s.heap p).copy i

end State
end Gevent.Stacklet
