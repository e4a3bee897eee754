import Gevent.Lib.Machine
import Gevent.Switch

/-!
# The API of gevent.h, and the loop that calls back into it

Each function runs until control is with some cothread's own code or with the
loop. `World.exec` performs one action of the environment: a call of the
executing cothread, the return of its run function, or a move of the loop.
-/

namespace Gevent
open Intrusive

namespace Env

/-- A call gets its number in the history. -/
def enter (e : Env) (t : Tid) (c : Call) : Env :=
  { e with
    calls := e.calls + 1
    inCall := Function.update e.inCall t e.calls
    log := .call e.calls t c :: e.log }

/-- Call `k` has started the timer of `t`. -/
def arm (e : Env) (t : Tid) (k : CallId) : Env :=
  { e with
    armedBy := Function.update e.armedBy t k
    log := .armed k t (e.timer t).timeout :: e.log }

def setCounter (e : Env) (s : Sem) (c : Int) : Env :=
  { e with counter := Function.update e.counter s c }

def mallocReq (e : Env) : Env :=
  { e with nextReq := e.nextReq + 1, log := .malloc e.nextReq :: e.log }

/-- `uv_getaddrinfo` succeeds for request `r` of `t`, and `req->data` is set. -/
def submit (e : Env) (t : Tid) (k : CallId) (r : ReqId) : Env :=
  { e with
    loop := { e.loop with activeReqs := e.loop.activeReqs ++ [r] }
    reqData := Function.update e.reqData r (some t)
    reqBy := Function.update e.reqBy r k
    log := .submitted k r :: e.log }

/-- `uv__getaddrinfo_done` unregisters the request, and its callback frees it. -/
def complete (e : Env) (r : ReqId) (error : Int) (res : Word) : Env :=
  { e with
    loop := { e.loop with activeReqs := e.loop.activeReqs.erase r }
    log := .free r :: .resolved r error res :: e.log }

/-- `gevent_cothread_init`, as far as the history and `exit_fn` go. -/
def initCothread (e : Env) (t : Tid) : Env :=
  { e with
    exitFn := Function.update e.exitFn t false
    known := t :: e.known
    log := .init t :: e.log }

def setExitFn (e : Env) (t : Tid) (b : Bool) : Env :=
  { e with exitFn := Function.update e.exitFn t b }

def setOthers (e : Env) (n : Nat) : Env := { e with loop := { e.loop with others := n } }

def tick (e : Env) (d : Nat) : Env := { e with clock := e.clock + d, log := .tick d :: e.log }

end Env

namespace World

def enter (w : World) (t : Tid) (c : Call) : World × CallId :=
  ({ w with env := w.env.enter t c }, w.env.calls)

/-- The call returns without having given up control. -/
def leave (w : World) (k : CallId) (t : Tid) (c : Call) (r : Result) : World :=
  w.emit (.ret k t c r)

/-- `gevent_cothread_init` -/
def cothreadInit (w : World) (t : Tid) (run : Word) : World :=
  let w := w.setState t .new
  let w := { w with links := w.links.writePrev (.op t) run }
  let w := w.setStacklet t .null
  { w with env := w.env.initCothread t }

/-- `gevent_hub_init`, called by the initial thread of execution. -/
def hubInit (w : World) (main : Tid) : World :=
  let w := { w with hub := { w.hub with main := main, loopAlive := true } }
  let w := { w with links := w.links.init (.head .ready) }
  let w := { w with hub := { w.hub with stacklet := .null } }
  let w := w.cothreadInit main .null
  let w := w.setState main .current
  let w := { w with hub := { w.hub with current := some main } }
  { w.emit (.start main) with control := .user main }

/-- `gevent_cothread_spawn` -/
def cothreadSpawn (w : World) (k : CallId) (t : Tid) : Except Fault World := do
  let current ← w.getCurrent
  let w ← w.activate current
  check ((w.co t).state = .new) (.assertion .spawn)
  w.switch t (.api ⟨current, k, .spawn t, .spawn, .program⟩)

/-- `_sleep_internal` -/
def sleepInternal (w : World) (k : CallId) (op : Call) (timeout : Int) (ref : Bool) :
    Except Fault World := do
  let current ← w.getCurrent
  let w := w.uvTimerInit current
  let w ← w.uvTimerStart current timeout 0
  let w := { w with env := w.env.arm current k }
  let w := if ref then w else w.uvUnref current
  let w := w.setState current .waitingTimer
  w.yield (.api ⟨current, k, op, .sleep, .program⟩)

/-- `gevent_sleep` -/
def sleep (w : World) (k : CallId) (timeout : Int) : Except Fault World :=
  w.sleepInternal k (.sleep timeout) timeout true

/-- `gevent_wait`; only the caller's frame remembers that it waits. -/
def wait (w : World) (k : CallId) (t : Tid) (timeout : Int) : Except Fault World :=
  if 0 < timeout then w.sleepInternal k (.wait timeout) timeout false
  else w.yield (.api ⟨t, k, .wait timeout, .wait, .program⟩)

/-- `gevent_channel_init` -/
def channelInit (w : World) (ch : Chan) : World :=
  let w := { w with links := w.links.init (.head (.receivers ch)) }
  { w with links := w.links.init (.head (.senders ch)) }

/-- The blocking branches queue the caller through `op.channel.queue`. -/
def enqueue (w : World) (q : QueueId) (k : CallId) (t : Tid) : World :=
  let w := { w with links := w.links.init (.op t) }
  (w.insertTail q t).emit (.blocked q k)

/-- `gevent_channel_receive` -/
def channelReceive (w : World) (k : CallId) (ch : Chan) (caller : Caller) : Except Fault World := do
  let current ← w.getCurrent
  if w.queueEmpty (.senders ch) then
    let w := w.enqueue (.receivers ch) k current
    let w := w.setState current .channelR
    w.yield (.api ⟨current, k, .receive ch, .receive ch, caller⟩)
  else do
    let sender ← ngxQueueData (w.queueHead (.senders ch))
    check ((w.co sender).state = .channelS) (.assertion .channelReceive)
    let value := (w.co sender).third
    let w ← w.activate current
    let w := w.emit (.handover ch (w.env.inCall sender) k value)
    w.switch sender (.api ⟨current, k, .receive ch, .received value, caller⟩)

/-- `gevent_channel_send` -/
def channelSend (w : World) (k : CallId) (ch : Chan) (value : Word) (caller : Caller) :
    Except Fault World := do
  let current ← w.getCurrent
  if w.queueEmpty (.receivers ch) then
    let w := w.enqueue (.senders ch) k current
    let w := w.setThird current value
    let w := w.setState current .channelS
    w.yield (.api ⟨current, k, .send ch value, .send ch value, caller⟩)
  else do
    let receiver ← ngxQueueData (w.queueHead (.receivers ch))
    check ((w.co receiver).state = .channelR) (.assertion .channelSend)
    let w := w.setThird receiver value
    let w ← w.activate current
    let w := w.emit (.handover ch k (w.env.inCall receiver) value)
    w.switch receiver (.api ⟨current, k, .send ch value, .sent, caller⟩)

def setCounter (w : World) (s : Sem) (c : Int) : World :=
  { w with env := w.env.setCounter s c }

/-- `gevent_semaphore_init` -/
def semaphoreInit (w : World) (s : Sem) (counter : Int) : World :=
  ((w.setCounter s counter).channelInit (.ofSem s)).emit (.semInit s counter)

/-- `gevent_semaphore_acquire` -/
def semaphoreAcquire (w : World) (k : CallId) (t : Tid) (s : Sem) : Except Fault World :=
  if 0 < w.env.counter s then
    let w := w.setCounter s (w.env.counter s - 1)
    .ok (w.leave k t (.acquire s) (.int (w.env.counter s)))
  else
    let (w, k') := w.enter t (.receive (.ofSem s))
    w.channelReceive k' (.ofSem s) (.acquire k s)

/-- The value of an `int` expression, reduced to its 32 bits. -/
def int32 (x : Int) : Int := x.bmod (2 ^ 32)

/-- `gevent_semaphore_release` -/
def semaphoreRelease (w : World) (k : CallId) (t : Tid) (s : Sem) : Except Fault World :=
  if !w.queueEmpty (.receivers (.ofSem s)) then
    let (w, k') := w.enter t (.send (.ofSem s) .null)
    w.channelSend k' (.ofSem s) .null (.release k s)
  else
    let w := w.setCounter s (int32 (w.env.counter s + 1))
    .ok (w.leave k t (.release s) (.int (w.env.counter s)))

/-- `malloc(sizeof(uv_getaddrinfo_t))` into `op.getaddrinfo.req`. -/
def mallocReq (w : World) (t : Tid) : World × ReqId :=
  let r := w.env.nextReq
  let w := { w with links := w.links.writePrev (.op t) (.req r) }
  ({ w with env := w.env.mallocReq }, r)

/-- `gevent_getaddrinfo` -/
def getaddrinfo (w : World) (k : CallId) (outcome : Submit) : Except Fault World := do
  let current ← w.getCurrent
  let failure := Result.addrinfo (.data (-1)) none
  match outcome with
  | .noMemory =>
    let w := { w with links := w.links.writePrev (.op current) .null }
    .ok (w.leave k current (.getaddrinfo outcome) failure)
  | .failed =>
    let (w, r) := w.mallocReq current
    let w := w.emit (.free r)
    .ok (w.leave k current (.getaddrinfo outcome) failure)
  | .submitted =>
    let (w, r) := w.mallocReq current
    let w := { w with env := w.env.submit current k r }
    let w := w.setState current .waitingGetaddrinfo
    w.yield (.api ⟨current, k, .getaddrinfo outcome, .getaddrinfo, .program⟩)

/-- The function that call `k` of cothread `t` enters. -/
def perform (w : World) (k : CallId) (t : Tid) : Call → Except Fault World
  | .spawn u => w.cothreadSpawn k u
  | .sleep timeout => w.sleep k timeout
  | .wait timeout => w.wait k t timeout
  | .receive ch => w.channelReceive k ch .program
  | .send ch value => w.channelSend k ch value .program
  | .acquire s => w.semaphoreAcquire k t s
  | .release s => w.semaphoreRelease k t s
  | .getaddrinfo outcome => w.getaddrinfo k outcome

def call (w : World) (c : Call) : Except Fault World :=
  match w.control with
  | .hub _ => .error .notRunning
  | .user t =>
    let (w, k) := w.enter t c
    w.perform k t c

/-- `sleep_cb` -/
def sleepCb (w : World) (paused : Tid) : Except Fault World := do
  check ((w.co paused).state = .waitingTimer) (.assertion .sleepCb)
  check (w.hub.current = none) (.assertion .sleepCb)
  w.switch paused (.callback .timers)

/-- One test of the condition of the loop in `uv__run_timers`, with the body
when it holds. -/
def uvRunTimers (w : World) : Except Fault World :=
  let done := { w.emit .poll with control := .hub .io }
  match w.env.loop.timerHandles with
  | [] => .ok done
  | t :: _ =>
    if (w.env.timer t).timeout > w.env.loop.time then .ok done
    else do
      let w ← w.uvTimerStop t
      let w ← w.uvTimerAgain t
      check ((w.env.timer t).timerCb) .wildPointer
      (w.emit (.fired (w.env.armedBy t))).sleepCb t

/-- `getaddrinfo_cb`, called by `uv__getaddrinfo_done`. -/
def getaddrinfoCb (w : World) (r : ReqId) (error : Int) (res : Word) : Except Fault World := do
  let w := { w with env := w.env.complete r error res }
  match w.env.reqData r with
  | none => .ok w
  | some my => do
    check ((w.co my).state = .waitingGetaddrinfo) (.assertion .getaddrinfoCb)
    let w := { w with links := w.links.writeNext (.op my) res }
    -- `op.getaddrinfo.error` is an `int`: the store fills half of word 2, here all of it,
    -- so that what is left there for later may differ from the real word in the other half
    let w := w.setThird my (.data error)
    w.switch my (.callback .io)

/-- The test of `uv__loop_alive` at the start of `uv_run2` and after each
iteration, with what follows it up to `uv__run_timers`. -/
def uvRunIterate (w : World) : Except Fault World :=
  if w.env.uvLoopAlive then
    .ok { w with env := w.env.uvUpdateTime, control := .hub .timers }
  else w.hubReturn

/-- What the environment can do: the executing cothread calls gevent or returns
from its run function, the program prepares objects, the loop takes its next
step, other users of the loop act, and time passes. -/
inductive Action where
  | call (c : Call)
  | finish
  | cothreadInit (t : Tid) (run : Nat)
  | setExitFn (t : Tid) (b : Bool)
  | channelInit (ch : Chan)
  | semaphoreInit (s : Sem) (counter : Int)
  | timers
  | resolve (r : ReqId) (error : Int) (res : Word)
  | iterate
  | updateTime
  | others (n : Nat)
  | handleInit (h : Nat)
  | handleClose (h : Nat)
  | tick (d : Nat)
  deriving DecidableEq, Repr

def exec (w : World) : Action → Except Fault World
  | .call c => w.call c
  | .finish =>
    match w.control with
    | .user t => w.cothreadReturn t
    | .hub _ => .error .notRunning
  | .cothreadInit t run => .ok (w.cothreadInit t (.fn run))
  | .setExitFn t b => .ok { w with env := w.env.setExitFn t b }
  | .channelInit ch => .ok (w.channelInit ch)
  | .semaphoreInit s counter => .ok (w.semaphoreInit s counter)
  | .timers => w.uvRunTimers
  | .resolve r error res => w.getaddrinfoCb r error res
  | .iterate => w.uvRunIterate
  | .updateTime => .ok { w with env := w.env.uvUpdateTime }
  | .others n => .ok { w with env := w.env.setOthers n }
  | .handleInit h =>
    .ok { w with handles :=
      { links := w.handles.links.insertTail .head (.other h), others := h :: w.handles.others } }
  | .handleClose h =>
    .ok { w with handles :=
      { links := w.handles.links.remove (.other h), others := w.handles.others.erase h } }
  | .tick d => .ok { w with env := w.env.tick d }

/-- Nobody is queued on the channel. -/
def channelFree (w : World) (ch : Chan) : Bool :=
  w.queueEmpty (.receivers ch) && w.queueEmpty (.senders ch)

/-- What the callers of gevent.c promise. Only cothreads call the API; what is
initialised is not in use, what is used is initialised; the main cothread does
not return; libuv completes a request that is under way, once, while it polls,
and closes open handles after that. -/
def Legal (w : World) : Action → Prop
  | .call (.spawn t) => w.control.owner.isSome ∧ t ∈ w.env.known
  | .call _ => w.control.owner.isSome
  | .finish => w.control.owner.isSome ∧ w.control.owner ≠ some w.hub.main
  | .cothreadInit t _ =>
    t ≠ w.hub.main ∧ (t ∈ w.env.known → (w.co t).state = .new ∨ (w.co t).state = .dead)
  | .setExitFn t _ => t ∈ w.env.known
  | .channelInit ch => w.channelFree ch
  | .semaphoreInit s counter =>
    w.channelFree (.ofSem s) ∧ -2 ^ 31 ≤ counter ∧ counter < 2 ^ 31
  | .timers => w.control = .hub .timers
  | .resolve r _ _ => w.control = .hub .io ∧ r ∈ w.env.loop.activeReqs
  | .iterate => w.control = .hub .io ∨ w.control = .hub .start
  | .updateTime => True
  | .others _ => True
  | .handleInit h => h ∉ w.handles.others
  | .handleClose h => w.control = .hub .io ∧ h ∈ w.handles.others
  | .tick _ => True

instance decidableLegal (w : World) : (a : Action) → Decidable (w.Legal a)
  | .call (.spawn t) => inferInstanceAs (Decidable (w.control.owner.isSome ∧ t ∈ w.env.known))
  | .call (.sleep _) | .call (.wait _) | .call (.receive _) | .call (.send _ _)
  | .call (.acquire _) | .call (.release _) | .call (.getaddrinfo _) =>
    inferInstanceAs (Decidable (w.control.owner.isSome = true))
  | .finish =>
    inferInstanceAs (Decidable (w.control.owner.isSome ∧ w.control.owner ≠ some w.hub.main))
  | .cothreadInit t _ => inferInstanceAs (Decidable (t ≠ w.hub.main ∧
      (t ∈ w.env.known → (w.co t).state = .new ∨ (w.co t).state = .dead)))
  | .setExitFn t _ => inferInstanceAs (Decidable (t ∈ w.env.known))
  | .channelInit ch => inferInstanceAs (Decidable (w.channelFree ch = true))
  | .semaphoreInit s counter => inferInstanceAs (Decidable
      (w.channelFree (.ofSem s) = true ∧ -2 ^ 31 ≤ counter ∧ counter < 2 ^ 31))
  | .timers => inferInstanceAs (Decidable (w.control = .hub .timers))
  | .resolve r _ _ => inferInstanceAs (Decidable (w.control = .hub .io ∧ r ∈ w.env.loop.activeReqs))
  | .iterate => inferInstanceAs (Decidable (w.control = .hub .io ∨ w.control = .hub .start))
  | .updateTime | .others _ | .tick _ => inferInstanceAs (Decidable True)
  | .handleInit h => inferInstanceAs (Decidable (h ∉ w.handles.others))
  | .handleClose h => inferInstanceAs (Decidable (w.control = .hub .io ∧ h ∈ w.handles.others))

/-- Memory before `gevent_hub_init`: a fresh loop, no stacks, channels that
`gevent_channel_init` has prepared; everything else is arbitrary. The handles that
the loop opens for itself, `child_watcher` and `wq_async`, are the first
`handleInit` of a run, as those of the program are later ones. -/
structure Raw (w : World) : Prop where
  history : w.links.history = []
  channel : ∀ q, w.links.links.prev (.head q) = .head q ∧ w.links.links.next (.head q) = .head q
  suspended : ∀ n, w.thread.suspended n = none
  used : w.thread.used = []
  handleList : w.handles.links.prev .head = .head ∧ w.handles.links.next .head = .head
  handles : w.handles.others = []
  timers : w.env.loop.timerHandles = []
  activeHandles : w.env.loop.activeHandles = 0
  activeReqs : w.env.loop.activeReqs = []
  known : w.env.known = []
  log : w.env.log = []

/-- A possible start: memory full of zeroes, but for the list heads. -/
def zeroed : World where
  hub := ⟨0, none, .null, false⟩
  links :=
    ⟨⟨fun x => match x with | .head q => .head q | _ => .null,
      fun x => match x with | .head q => .head q | _ => .null⟩, []⟩
  co _ := ⟨.current, .null, .null⟩
  thread := ⟨fun _ => none, 1, []⟩
  handles := ⟨⟨id, id⟩, []⟩
  env :=
    { loop := ⟨0, [], 0, [], 0⟩
      timer := fun _ => ⟨false, false, false, 0, 0⟩
      exitFn := fun _ => false
      counter := fun _ => 0
      reqData := fun _ => none
      nextReq := 0
      known := []
      clock := 0
      calls := 0
      inCall := fun _ => 0
      armedBy := fun _ => 0
      reqBy := fun _ => 0
      log := [] }
  control := .user 0

theorem zeroed_raw : zeroed.Raw :=
  { history := rfl
    channel := fun _ => ⟨rfl, rfl⟩
    suspended := fun _ => rfl
    used := rfl
    handleList := ⟨rfl, rfl⟩
    handles := rfl
    timers := rfl
    activeHandles := rfl
    activeReqs := rfl
    known := rfl
    log := rfl }

end World

open World in
/-- Every program of cothreads over one hub. -/
def gevent : Machine World Action Fault where
  start w := ∃ w₀ main, Raw w₀ ∧ w = w₀.hubInit main
  legal := Legal
  exec := exec

/-- The program starts on zeroed memory, with cothread 0 as the main one. -/
def zeroStart : World := World.zeroed.hubInit 0

theorem zeroStart_start : gevent.start zeroStart := ⟨World.zeroed, 0, World.zeroed_raw, rfl⟩

instance (w : World) (a : World.Action) : Decidable (gevent.legal w a) :=
  inferInstanceAs (Decidable (w.Legal a))

end Gevent
