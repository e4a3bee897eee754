import Gevent.Lib.Machine
import Gevent.Loop
import Gevent.RbTree

/-!
# The timers of libuv

src/unix/timer.c with its tree of pointers, as far as the loop and the timers
go. Every call of a red-black tree function gets `UvLoop.turns` turns for each
loop in it: twice the logarithm of the number of timers in the tree, and one.
-/

namespace Gevent
open RedBlack

inductive UvErr where
  | ok
  | einval
  deriving DecidableEq, Repr

/-- A failed assertion, or a pointer that leads nowhere. -/
inductive UvFault where
  | timerStart
  | timerSetRepeat
  | wildPointer
  deriving DecidableEq, Repr

/-- The members of `uv_loop_t` that timer.c uses, and the timers. `count` is the
number of timers in the tree, `inited` says which timers have been initialised
since their memory was used for something else, and `fired` lists the callbacks
made, latest first. -/
structure UvLoop where
  time : Nat
  timerHandles : RbTree Tid
  activeHandles : Nat
  lastErr : UvErr
  timer : Tid → Timer
  count : Nat
  inited : Tid → Bool
  fired : List Tid

/-- `uint64_t` to `int64_t` -/
def int64 (n : Nat) : Int := Int.bmod n (2 ^ 64)

namespace UvLoop

def require (p : Prop) [Decidable p] (f : UvFault) :
    Except UvFault Unit := if p then .ok () else .error f

@[simp] theorem require_pos {p : Prop} [Decidable p] {f : UvFault} (h : p) : require p f = .ok () :=
  if_pos h

def turns (u : UvLoop) : Nat := 2 * Nat.log 2 (u.count + 1) + 1

def setTimer (u : UvLoop) (t : Tid) (tm : Timer) : UvLoop :=
  { u with timer := Function.update u.timer t tm }

/-- `uv__handle_start` -/
def handleStart (u : UvLoop) (t : Tid) : UvLoop :=
  if (u.timer t).active then u
  else
    let u := u.setTimer t { u.timer t with active := true }
    if (u.timer t).ref then { u with activeHandles := u.activeHandles + 1 } else u

/-- `uv__handle_stop` -/
def handleStop (u : UvLoop) (t : Tid) : UvLoop :=
  if !(u.timer t).active then u
  else
    let u := u.setTimer t { u.timer t with active := false }
    if (u.timer t).ref then { u with activeHandles := u.activeHandles - 1 } else u

/-- `uv__handle_ref` -/
def handleRef (u : UvLoop) (t : Tid) : UvLoop :=
  if (u.timer t).ref then u
  else
    let u := u.setTimer t { u.timer t with ref := true }
    if (u.timer t).active then { u with activeHandles := u.activeHandles + 1 } else u

/-- `uv__handle_unref` -/
def handleUnref (u : UvLoop) (t : Tid) : UvLoop :=
  if !(u.timer t).ref then u
  else
    let u := u.setTimer t { u.timer t with ref := false }
    if (u.timer t).active then { u with activeHandles := u.activeHandles - 1 } else u

/-- `RB_INSERT(uv__timers, &handle->loop->timer_handles, handle);` -/
def insertTimer (u : UvLoop) (t : Tid) : Except UvFault UvLoop :=
  match u.timerHandles.insert (uvTimerCmp u.timer) u.turns t with
  | some (h, none) => .ok { u with timerHandles := h, count := u.count + 1 }
  | some (_, some _) => .ok u
  | none => .error .wildPointer

/-- `RB_REMOVE(uv__timers, &handle->loop->timer_handles, handle);` -/
def removeTimer (u : UvLoop) (t : Tid) : Except UvFault UvLoop :=
  match u.timerHandles.remove u.turns t with
  | some h => .ok { u with timerHandles := h, count := u.count - 1 }
  | none => .error .wildPointer

/-- `RB_MIN(uv__timers, &loop->timer_handles)` -/
def minTimer (u : UvLoop) : Except UvFault (Option Tid) :=
  match u.timerHandles.rbMin u.turns with
  | some t => .ok t
  | none => .error .wildPointer

/-- `uv_timer_init`, but for the insertion into `loop->handle_queue`, which cannot
fail and which no function of timer.c reads. -/
def timerInit (u : UvLoop) (t : Tid) : UvLoop :=
  let u := u.setTimer t { u.timer t with active := false, ref := true, timerCb := false }
  { u with inited := Function.update u.inited t true }

/-- `uv_timer_stop` -/
def timerStop (u : UvLoop) (t : Tid) : Except UvFault UvLoop :=
  if !(u.timer t).active then .ok u
  else do
    let u ← u.removeTimer t
    .ok (u.handleStop t)

/-- `uv_timer_start`; `cb` says whether the callback is not `NULL`. -/
def timerStart (u : UvLoop) (t : Tid) (cb : Bool) (timeout rpt : Int) : Except UvFault UvLoop := do
  require (0 ≤ timeout) .timerStart
  require (0 ≤ rpt) .timerStart
  let u ← if (u.timer t).active then u.timerStop t else .ok u
  let u := u.setTimer t
    { u.timer t with timerCb := cb, timeout := (u.time + timeout.toNat) % 2 ^ 64, rpt := rpt.toNat }
  let u ← u.insertTimer t
  .ok (u.handleStart t)

/-- `uv_timer_again`, with what it returns -/
def timerAgain (u : UvLoop) (t : Tid) : Except UvFault (UvLoop × Int) :=
  let tm := u.timer t
  if !tm.timerCb then .ok ({ u with lastErr := .einval }, -1)
  else if tm.rpt = 0 then .ok (u, 0)
  else do
    let u ← u.timerStop t
    let u ← u.timerStart t tm.timerCb (int64 tm.rpt) (int64 tm.rpt)
    .ok (u, 0)

/-- `uv_timer_set_repeat` -/
def timerSetRepeat (u : UvLoop) (t : Tid) (rpt : Int) : Except UvFault UvLoop := do
  require (0 ≤ rpt) .timerSetRepeat
  .ok (u.setTimer t { u.timer t with rpt := rpt.toNat })

/-- `uv__next_timeout`: the time is cut to an `int`. -/
def nextTimeout (u : UvLoop) : Except UvFault Int := do
  match ← u.minTimer with
  | none => .ok (-1)
  | some t =>
    if (u.timer t).timeout ≤ u.time then .ok 0
    else .ok (Int.bmod ((u.timer t).timeout - u.time) (2 ^ 32))

/-- A turn of the loop of `uv__run_timers`, up to the callback it makes; `none`
when the loop ends. -/
def runTimer (u : UvLoop) : Except UvFault (Option UvLoop) := do
  match ← u.minTimer with
  | none => .ok none
  | some t =>
    if (u.timer t).timeout > u.time then .ok none
    else do
      let u ← u.timerStop t
      let (u, _) ← u.timerAgain t
      require ((u.timer t).timerCb = true) .wildPointer
      .ok (some { u with fired := t :: u.fired })

/-- `uv__run_timers`, when no callback touches a timer. -/
def runTimers : Nat → UvLoop → Except UvFault UvLoop
  | 0, _ => .error .wildPointer
  | n + 1, u => do
    match ← u.runTimer with
    | none => .ok u
    | some u => runTimers n u

/-- The program uses the memory of a timer for something else. -/
def reuse (u : UvLoop) (t : Tid) (tm : Timer) (entry : Side → Option Tid) (parent : Option Tid)
    (color : Color) : UvLoop :=
  let h := (u.timerHandles.setChild .left t (entry .left)).setChild .right t (entry .right)
  { u.setTimer t tm with
    timerHandles := (h.setParent t parent).setColor t color
    inited := Function.update u.inited t false }

inductive Action where
  | reuse (t : Tid) (tm : Timer) (entry : Side → Option Tid) (parent : Option Tid) (color : Color)
  | init (t : Tid)
  | start (t : Tid) (timeout rpt : Int)
  | stop (t : Tid)
  | again (t : Tid)
  | setRepeat (t : Tid) (rpt : Int)
  | ref (t : Tid)
  | unref (t : Tid)
  | updateTime (time : Nat)
  /-- a turn of the loop of `uv__run_timers` -/
  | run

/-- The timer is set: its memory is the library's. -/
def Pending (u : UvLoop) (t : Tid) : Prop := u.inited t = true ∧ (u.timer t).active = true

instance (u : UvLoop) (t : Tid) : Decidable (u.Pending t) := inferInstanceAs (Decidable (_ ∧ _))

/-- What a program that uses the timers promises: it initialises them first, not
while they are set, and starts them with a callback and times that are not
negative, the second of type `int64_t`. uv.h asks for more, that a handle is closed
by `uv_close` before its memory is used again; gevent.c does not do that, and the
tree does not need it. -/
def Legal (u : UvLoop) : Action → Prop
  | .reuse t _ _ _ _ => ¬ u.Pending t
  | .init t => ¬ u.Pending t
  | .start t timeout rpt => u.inited t = true ∧ 0 ≤ timeout ∧ 0 ≤ rpt ∧ rpt < 2 ^ 63
  | .stop t | .again t | .ref t | .unref t => u.inited t = true
  | .setRepeat t rpt => u.inited t = true ∧ 0 ≤ rpt ∧ rpt < 2 ^ 63
  | .updateTime _ | .run => True

instance (u : UvLoop) : (a : Action) → Decidable (u.Legal a)
  | .reuse _ _ _ _ _ | .init _ => inferInstanceAs (Decidable (¬ _))
  | .start _ _ _ | .setRepeat _ _ => inferInstanceAs (Decidable (_ ∧ _))
  | .stop _ | .again _ | .ref _ | .unref _ => inferInstanceAs (Decidable (_ = _))
  | .updateTime _ | .run => inferInstanceAs (Decidable True)

def exec (u : UvLoop) : Action → Except UvFault UvLoop
  | .reuse t tm entry parent color => .ok (u.reuse t tm entry parent color)
  | .init t => .ok (u.timerInit t)
  | .start t timeout rpt => u.timerStart t true timeout rpt
  | .stop t => u.timerStop t
  | .again t => Prod.fst <$> u.timerAgain t
  | .setRepeat t rpt => u.timerSetRepeat t rpt
  | .ref t => .ok (u.handleRef t)
  | .unref t => .ok (u.handleUnref t)
  | .updateTime time => .ok { u with time := time }
  | .run => (·.getD u) <$> u.runTimer

structure Initial (u : UvLoop) : Prop where
  empty : u.timerHandles.root = none
  count : u.count = 0
  active : u.activeHandles = 0
  inited : ∀ t, u.inited t = false
  fired : u.fired = []

end UvLoop

/-- timer.c, called in any order. -/
def timerc : Machine UvLoop UvLoop.Action UvFault where
  start := UvLoop.Initial
  legal := UvLoop.Legal
  exec := UvLoop.exec

instance (u : UvLoop) (a : UvLoop.Action) : Decidable (timerc.legal u a) :=
  inferInstanceAs (Decidable (u.Legal a))

end Gevent
