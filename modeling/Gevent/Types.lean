import Mathlib.Algebra.Group.Int.Defs
import Mathlib.Algebra.Group.Nat.Defs
import Gevent.Lib.Ring

/-!
# The data of gevent.c

Cothreads, channels and semaphores are named by their addresses. The members
of a cothread's `op` union that gevent.c uses overlap in three words: word 0
is `ready.prev`, `channel.queue.prev`, `init.run`, `getaddrinfo.req`; word 1 is
`ready.next`, `channel.queue.next`, `getaddrinfo.res`; word 2 is
`channel.value`, `getaddrinfo.error`, `timer.loop`. Words 0 and 1 live in the
link memory under the node `Word.op t`, word 2 is `Cothread.third`; the rest of
`op.timer` shares no word with a member gevent.c writes.
-/

namespace Gevent

abbrev Tid := Nat
abbrev Sem := Nat
abbrev ReqId := Nat
abbrev CallId := Nat

/-- A channel of the program, or the channel inside a semaphore. -/
inductive Chan where
  | plain (n : Nat)
  | ofSem (s : Sem)
  deriving DecidableEq, Repr

inductive CothreadState where
  | current | new | ready | dead | channelR | channelS | waitingTimer | waitingGetaddrinfo
  deriving DecidableEq, Repr

/-- The list heads: `hub->ready`, `ch->receivers`, `ch->senders`. -/
inductive QueueId where
  | ready
  | receivers (ch : Chan)
  | senders (ch : Chan)
  deriving DecidableEq, Repr

/-- What a machine word can hold. `data` is everything that is no address of
this model: integers, pointers of the program, memory never written. -/
inductive Word where
  | head (q : QueueId)
  | op (t : Tid)
  | fn (f : Nat)
  | req (r : ReqId)
  | loop
  | data (v : Int)
  deriving DecidableEq, Repr

def Word.null : Word := .data 0

def Word.IsHead (x : Word) : Prop := ∃ q, x = .head q

@[simp] theorem Word.isHead_head (q : QueueId) : (Word.head q).IsHead := ⟨q, rfl⟩

@[simp] theorem Word.not_isHead_op (t : Tid) : ¬ (Word.op t).IsHead := by
  rintro ⟨_, h⟩; cases h

/-- `stacklet_handle`; `empty` is `EMPTY_STACKLET_HANDLE`. -/
inductive Handle where
  | null
  | empty
  | stack (n : Nat)
  deriving DecidableEq, Repr

/-- `op.timer` without its `loop` and `handle_queue` members. -/
structure Timer where
  active : Bool
  ref : Bool
  timerCb : Bool
  timeout : Nat
  rpt : Nat
  deriving DecidableEq, Repr

structure Cothread where
  state : CothreadState
  third : Word
  stacklet : Handle

/-- What the callees of `gevent_getaddrinfo` do: `malloc` fails,
`uv_getaddrinfo` fails, or the request is under way. -/
inductive Submit where
  | noMemory
  | failed
  | submitted
  deriving DecidableEq, Repr

/-- The `gevent_*` functions, with the arguments their behaviour depends on. -/
inductive Call where
  | spawn (t : Tid)
  | sleep (timeout : Int)
  | wait (timeout : Int)
  | receive (ch : Chan)
  | send (ch : Chan) (value : Word)
  | acquire (s : Sem)
  | release (s : Sem)
  | getaddrinfo (outcome : Submit)
  deriving DecidableEq, Repr

inductive Result where
  | unit
  | int (i : Int)
  | value (v : Word)
  | addrinfo (error : Word) (res : Option Word)
  deriving DecidableEq, Repr

/-- What a suspended `gevent_*` call still has to do once its stack is resumed
and `_after_switch` has run. -/
inductive Pending where
  /-- `gevent_cothread_spawn` -/
  | spawn
  /-- `_sleep_internal`, after `gevent_yield` -/
  | sleep
  /-- `gevent_wait` with `timeout <= 0` -/
  | wait
  /-- blocking branch of `gevent_channel_receive` -/
  | receive (ch : Chan)
  /-- partner branch of `gevent_channel_receive`: `*result` is already set -/
  | received (value : Word)
  /-- blocking branch of `gevent_channel_send` -/
  | send (ch : Chan) (value : Word)
  /-- partner branch of `gevent_channel_send` -/
  | sent
  | getaddrinfo
  deriving DecidableEq, Repr

/-- The caller of a channel function: the program, or a semaphore function
whose own call is the one given. -/
inductive Caller where
  | program
  | acquire (call : CallId) (s : Sem)
  | release (call : CallId) (s : Sem)
  deriving DecidableEq, Repr

/-- The frames of a `gevent_*` call on a suspended stack. `self` is its local
variable `current`; `call` and `op` say which call of the program it is. -/
structure Frame where
  self : Tid
  call : CallId
  op : Call
  pending : Pending
  caller : Caller
  deriving DecidableEq, Repr

/-- Where the loop is: before the first test of `uv_run2`, in
`uv__run_timers`, or in the rest of an iteration (`uv__io_poll` included). -/
inductive Phase where
  | start
  | timers
  | io
  deriving DecidableEq, Repr

/-- The caller of `gevent_switch` on a suspended stack: a call of the program,
or a callback of the loop. -/
inductive Cont where
  | api (frame : Frame)
  | callback (phase : Phase)
  deriving DecidableEq, Repr

/-- A stack suspended inside `stacklet_new` or `stacklet_switch`. `owner` is the
cothread it runs (`none` for the hub's); `current` is the local variable of the
`gevent_switch` or `gevent_switch_to_hub` on its top. -/
structure Stack where
  owner : Option Tid
  current : Option Tid
  cont : Cont
  deriving DecidableEq, Repr

/-- Whose stack is executing, and which code of it is next: the cothread's own
code, or the loop's. -/
inductive Control where
  | user (t : Tid)
  | hub (phase : Phase)
  deriving DecidableEq, Repr

def Control.owner : Control → Option Tid
  | .user t => some t
  | .hub _ => none

/-- History of a run, for stating what happened in which order. -/
inductive Event where
  | init (t : Tid)
  | start (t : Tid)
  | finish (t : Tid)
  | exitFn (t : Tid)
  /-- `hub->current` is assigned -/
  | switched (new : Option Tid)
  | call (k : CallId) (t : Tid) (c : Call)
  | ret (k : CallId) (t : Tid) (c : Call) (r : Result)
  /-- call `k` queues itself on a channel -/
  | blocked (q : QueueId) (k : CallId)
  /-- the send call and the receive call meet, and the value passes -/
  | handover (ch : Chan) (sender receiver : CallId) (value : Word)
  | armed (k : CallId) (t : Tid) (deadline : Nat)
  /-- `sleep_cb` runs for the timer that call `k` armed -/
  | fired (k : CallId)
  | malloc (r : ReqId)
  | free (r : ReqId)
  | submitted (k : CallId) (r : ReqId)
  /-- `getaddrinfo_cb` runs for request `r` -/
  | resolved (r : ReqId) (error : Int) (res : Word)
  | runStart
  | poll
  | runEnd
  /-- `_get_next_stacklet` falls back on the main cothread, whose unfinished call is `k` -/
  | fallback (k : CallId)
  | semInit (s : Sem) (counter : Int)
  | tick (d : Nat)
  deriving DecidableEq, Repr

/-- The loop of libuv. `timerHandles` lists the timer tree in the order of
`uv__timer_cmp`; `others` is what the program's other handles and requests add
to `uv__loop_alive`. -/
structure Loop where
  time : Nat
  timerHandles : List Tid
  activeHandles : Nat
  activeReqs : List ReqId
  others : Nat

/-- The plain data of a run: libuv's loop, timers and requests, the counters,
and the history (`calls`, `inCall`, `armedBy`, `reqBy`, `log`). -/
structure Env where
  loop : Loop
  timer : Tid → Timer
  exitFn : Tid → Bool
  counter : Sem → Int
  reqData : ReqId → Option Tid
  nextReq : ReqId
  known : List Tid
  clock : Nat
  calls : CallId
  inCall : Tid → CallId
  armedBy : Tid → CallId
  reqBy : ReqId → CallId
  log : List Event

/-- Nodes of `loop->handle_queue`: its head, `t->op.timer.handle_queue`, and
the same member of the program's other handles. -/
inductive HandleNode where
  | head
  | timer (t : Tid)
  | other (h : Nat)
  deriving DecidableEq, Repr

structure Hub where
  main : Tid
  current : Option Tid
  stacklet : Handle
  loopAlive : Bool

/-- The stacklet library: the suspended stacks by handle, the next handle, and
the handles given back so far, latest first. -/
structure Stacklets where
  suspended : Nat → Option Stack
  next : Nat
  used : List Handle

/-- The handles of the loop: their list, and the program's other handles
initialised and not yet closed. -/
structure Handles where
  links : Intrusive.Links HandleNode
  others : List Nat

structure World where
  hub : Hub
  links : Intrusive.Traced Word
  co : Tid → Cothread
  thread : Stacklets
  handles : Handles
  env : Env
  control : Control

inductive Site where
  | getCurrent | activate | spawn | beforeSwitch | afterSwitch | getNextStacklet | hubStarterFn
  | cothreadStarterFn | switch | switchToHub | yield | sleepCb | channelReceive | channelSend
  | getaddrinfoCb | uvTimerStart
  deriving DecidableEq, Repr

/-- How a run can end: a failed assertion, a stacklet handle that names no
suspended stack, or a pointer to something of another kind. -/
inductive Fault where
  | assertion (site : Site)
  | badHandle
  | wildPointer
  | notRunning
  deriving DecidableEq, Repr

def check (p : Prop) [Decidable p] (f : Fault) : Except Fault Unit :=
  if p then .ok () else .error f

@[simp] theorem check_pos {p : Prop} [Decidable p] {f : Fault} (h : p) : check p f = .ok () := by
  simp [check, h]

@[simp] theorem check_neg {p : Prop} [Decidable p] {f : Fault} (h : ¬ p) :
    check p f = .error f := by
  simp [check, h]

@[simp] theorem ok_bind {α β ε : Type} (a : α) (f : α → Except ε β) :
    (Except.ok a >>= f) = f a := rfl

@[simp] theorem error_bind {α β ε : Type} (e : ε) (f : α → Except ε β) :
    (Except.error e >>= f) = Except.error e := rfl

def Env.emit (e : Env) (ev : Event) : Env := { e with log := ev :: e.log }

namespace World

def emit (w : World) (ev : Event) : World := { w with env := w.env.emit ev }

def modify (w : World) (t : Tid) (f : Cothread → Cothread) : World :=
  { w with co := Function.update w.co t (f (w.co t)) }

def setState (w : World) (t : Tid) (st : CothreadState) : World :=
  w.modify t fun c => { c with state := st }

def setThird (w : World) (t : Tid) (v : Word) : World := w.modify t fun c => { c with third := v }

def setStacklet (w : World) (t : Tid) (h : Handle) : World :=
  w.modify t fun c => { c with stacklet := h }

end World
end Gevent
