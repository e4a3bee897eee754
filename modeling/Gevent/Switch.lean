import Gevent.Loop

/-!
# Switching between stacks

`gevent.c`, from `get_current` to `gevent_yield`, over the stacklet library as
`stacklet.h` describes it: a handle names a suspended stack and is valid once.
A call that gives up control passes on what it has left to do as a `Cont`; the
resumed stack continues with `_after_switch` and its own `Cont`.
-/

namespace Gevent
open Intrusive

/-- What the history keeps of the return of a call; the latest event is first. -/
def Frame.returns (f : Frame) (r : Result) (counter : Sem → Int) : List Event :=
  match f.caller with
  | .program => [.ret f.call f.self f.op r]
  | .acquire k s => [.ret k f.self (.acquire s) (.int (counter s)), .ret f.call f.self f.op r]
  | .release k s => [.ret k f.self (.release s) (.int (counter s)), .ret f.call f.self f.op r]

namespace Env

/-- `who_died && who_died->exit_fn` -/
def callExitFn (e : Env) (whoDied : Option Tid) : Env :=
  { e with log := ((whoDied.filter e.exitFn).map .exitFn).toList ++ e.log }

/-- The call returns to its caller, and a semaphore function to its own. -/
def returnCall (e : Env) (f : Frame) (r : Result) : Env :=
  { e with log := f.returns r e.counter ++ e.log }

end Env

namespace World

def getCurrent (w : World) : Except Fault Tid :=
  match w.hub.current with
  | none => .error (.assertion .getCurrent)
  | some current => do
    check ((w.co current).state = .current) (.assertion .getCurrent)
    .ok current

/-- `ngx_queue_data(q, gevent_cothread, op)` -/
def ngxQueueData : Word → Except Fault Tid
  | .op t => .ok t
  | _ => .error .wildPointer

def insertTail (w : World) (q : QueueId) (t : Tid) : World :=
  { w with links := w.links.insertTail (.head q) (.op t) }

def queueRemove (w : World) (t : Tid) : World := { w with links := w.links.remove (.op t) }

def queueEmpty (w : World) (q : QueueId) : Bool := w.links.links.isEmpty (.head q)

def queueHead (w : World) (q : QueueId) : Word := w.links.links.head (.head q)

/-- `_activate` -/
def activate (w : World) (t : Tid) : Except Fault World := do
  check ((w.co t).state = .current) (.assertion .activate)
  .ok ((w.setState t .ready).insertTail .ready t)

/-- `_before_switch` -/
def beforeSwitch (w : World) (new : Option Tid) : Except Fault Unit :=
  check (new.isSome ∨ w.hub.current.isSome) (.assertion .beforeSwitch)

/-- The first half of `_after_switch`: who was left, and what becomes of it. -/
def storeSource (w : World) (source : Handle) : Except Fault (World × Option Tid) :=
  match w.hub.current with
  | some current =>
    if source = .empty then do
      check (current ≠ w.hub.main) (.assertion .afterSwitch)
      check ((w.co current).state = .current) (.assertion .afterSwitch)
      .ok ((w.setState current .dead).setStacklet current .null, some current)
    else .ok (w.setStacklet current source, none)
  | none =>
    if source = .empty then .ok ({ w with hub := { w.hub with stacklet := .null } }, none)
    else .ok ({ w with hub := { w.hub with stacklet := source } }, none)

/-- `hub->current = new` and what goes with it. -/
def setCurrent (w : World) (new : Option Tid) : World :=
  let w := { w with hub := { w.hub with current := new } }
  let w := w.emit (.switched new)
  match new with
  | some t => (w.setState t .current).setStacklet t .null
  | none => { w with hub := { w.hub with stacklet := .null } }

def callExitFn (w : World) (whoDied : Option Tid) : World :=
  { w with env := w.env.callExitFn whoDied }

/-- `_after_switch` -/
def afterSwitch (w : World) (new : Option Tid) (source : Handle) : Except Fault World := do
  check (source ≠ .null) (.assertion .afterSwitch)
  let (w, whoDied) ← w.storeSource source
  check (w.hub.current ≠ new) (.assertion .afterSwitch)
  .ok ((w.setCurrent new).callExitFn whoDied)

def getNextStacklet (w : World) : Except Fault (World × Handle) :=
  if !w.queueEmpty .ready then do
    let tmp ← ngxQueueData (w.queueHead .ready)
    check ((w.co tmp).state = .ready) (.assertion .getNextStacklet)
    check ((w.co tmp).stacklet ≠ .null) (.assertion .getNextStacklet)
    let w := w.queueRemove tmp
    w.beforeSwitch (some tmp)
    .ok (w, (w.co tmp).stacklet)
  else if w.hub.stacklet ≠ .null then do
    check (w.hub.current.isSome) (.assertion .getNextStacklet)
    w.beforeSwitch none
    .ok (w, w.hub.stacklet)
  else do
    check ((w.co w.hub.main).stacklet ≠ .null) (.assertion .getNextStacklet)
    w.beforeSwitch (some w.hub.main)
    .ok (w.emit (.fallback (w.env.inCall w.hub.main)), (w.co w.hub.main).stacklet)

/-- What a call does after `gevent_yield` or `gevent_switch` returned to it. -/
def afterYield (w : World) (f : Frame) : Except Fault (World × Result) :=
  match f.pending with
  | .spawn => .ok (w, .unit)
  | .sleep => do
    let w ← w.uvTimerStop f.self
    .ok (w, .int 0)
  | .wait => .ok (w, .int 0)
  | .receive _ =>
    let w := w.queueRemove f.self
    .ok (w, .value (w.co f.self).third)
  | .received value => .ok (w, .value value)
  | .send _ _ => .ok (w.queueRemove f.self, .unit)
  | .sent => .ok (w, .unit)
  | .getaddrinfo =>
    let error := (w.co f.self).third
    let res := if error = .null then some (w.links.links.next (.op f.self)) else none
    .ok (w, .addrinfo error res)

/-- A resumed stack continues: `_after_switch`, then the rest of the call, up
to the cothread's own code; or back into the loop. -/
def resume (w : World) (s : Stack) (source : Handle) : Except Fault World := do
  let w ← w.afterSwitch s.current source
  match s.owner, s.cont with
  | some owner, .api f => do
    let (w, r) ← w.afterYield f
    .ok { w with env := w.env.returnCall f r, control := .user owner }
  | none, .callback phase => .ok { w with control := .hub phase }
  | _, _ => .error .notRunning

/-- The executing stack becomes a suspended one under a new handle. -/
def suspend (w : World) (current : Option Tid) (k : Cont) : World × Handle :=
  ({ w with thread := { w.thread with
      suspended := Function.update w.thread.suspended w.thread.next
        (some ⟨w.control.owner, current, k⟩)
      next := w.thread.next + 1 } }, .stack w.thread.next)

/-- The stack of `target` is consumed and continues. -/
def restore (w : World) (target source : Handle) : Except Fault World :=
  let w := { w with thread := { w.thread with used := target :: w.thread.used } }
  match target with
  | .stack n =>
    match w.thread.suspended n with
    | some s =>
      let w := { w with thread := { w.thread with
        suspended := Function.update w.thread.suspended n none } }
      w.resume s source
    | none => .error .badHandle
  | _ => .error .badHandle

def stackletSwitch (w : World) (current : Option Tid) (k : Cont) (target : Handle) :
    Except Fault World :=
  let (w, source) := w.suspend current k
  w.restore target source

/-- `cothread_starter_fn` up to its call of `run`. -/
def cothreadStarterFn (w : World) (source : Handle) (g : Tid) : Except Fault World := do
  check (source ≠ .null) (.assertion .cothreadStarterFn)
  check (w.links.links.prev (.op g) ≠ .null) (.assertion .cothreadStarterFn)
  check ((w.co g).state = .new) (.assertion .cothreadStarterFn)
  let w ← w.afterSwitch (some g) source
  .ok { w.emit (.start g) with control := .user g }

/-- `cothread_starter_fn` from the return of `run`. -/
def cothreadReturn (w : World) (g : Tid) : Except Fault World := do
  let w := (w.emit (.finish g)).setStacklet g .null
  let (w, target) ← w.getNextStacklet
  w.restore target .empty

/-- `hub_starter_fn` up to the first test of `uv_run`. -/
def hubStarterFn (w : World) (source : Handle) : Except Fault World := do
  check (source ≠ .null) (.assertion .hubStarterFn)
  let w ← w.afterSwitch none source
  let w := { w with hub := { w.hub with loopAlive := true } }
  .ok { w.emit .runStart with control := .hub .start }

/-- `hub_starter_fn` from the return of `uv_run`. -/
def hubReturn (w : World) : Except Fault World := do
  let w := w.emit .runEnd
  let w := { w with hub := { w.hub with loopAlive := false, stacklet := .null } }
  let (w, target) ← w.getNextStacklet
  w.restore target .empty

/-- `gevent_switch` -/
def switch (w : World) (t : Tid) (k : Cont) : Except Fault World := do
  let current := w.hub.current
  check (some t ≠ current) (.assertion .switch)
  check ((w.co t).state ≠ .current) (.assertion .switch)
  check ((w.co t).state ≠ .dead) (.assertion .switch)
  check ((w.co t).stacklet ≠ .empty) (.assertion .switch)
  w.beforeSwitch (some t)
  if (w.co t).state = .new then do
    check (w.links.links.prev (.op t) ≠ .null) (.assertion .switch)
    let (w, source) := w.suspend current k
    w.cothreadStarterFn source t
  else do
    check ((w.co t).stacklet ≠ .null) (.assertion .switch)
    w.stackletSwitch current k (w.co t).stacklet

/-- `gevent_switch_to_hub` -/
def switchToHub (w : World) (k : Cont) : Except Fault World := do
  let current := w.hub.current
  check (current.isSome) (.assertion .switchToHub)
  w.beforeSwitch none
  if w.hub.stacklet ≠ .null then do
    check (w.hub.stacklet ≠ .empty) (.assertion .switchToHub)
    w.stackletSwitch current k w.hub.stacklet
  else
    let (w, source) := w.suspend current k
    w.hubStarterFn source

/-- `gevent_yield` -/
def yield (w : World) (k : Cont) : Except Fault World :=
  if !w.queueEmpty .ready then do
    let tmp ← ngxQueueData (w.queueHead .ready)
    check ((w.co tmp).state = .ready) (.assertion .yield)
    (w.queueRemove tmp).switch tmp k
  else w.switchToHub k

end World
end Gevent
