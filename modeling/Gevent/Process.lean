import Gevent.Refine.Views
import Gevent.StackNames

/-!
# gevent.c over stacklet.c

The two libraries in one process. `World` takes the stacks of cothreads as what
stacklet.h promises; here every call that it makes of the library is a call of
the functions in stacklet.c, which copy the bytes. `ptr` is the address of the
stacklet that each handle stands for.
-/

namespace Gevent
open Stacklet (Ptr Byte Program Represents)

/-- The call of the library that leads from `w` to `w'`. -/
def World.called (w w' : World) : Option LibraryCall :=
  match w'.thread.used with
  | .stack n :: used =>
    if used.length = w.thread.used.length then
      if w'.thread.next = w.thread.next then some (.finish n) else some (.switch n)
    else if w'.thread.next = w.thread.next then none else some .new
  | _ => if w'.thread.next = w.thread.next then none else some .new

/-- The handle that `_after_switch` gets: what was left, unless it has ended. -/
def LibraryCall.source (p : Ptr) : LibraryCall → Handle
  | .finish _ => .empty
  | _ => .stack p

structure Process where
  world : World
  program : Program
  ptr : Nat → Ptr

namespace Process

inductive Fault where
  | gevent (f : Gevent.Fault)
  | stacklet (f : Stacklet.Fault)

/-- A step of gevent.c, with the frame of the library function that it calls, if
it calls one: `stackmarker` is in that frame, `sp` the stack pointer in
`slp_switch`, `p` what `malloc` gives. Or the code that executes writes to its stack. -/
inductive Action where
  | step (a : World.Action) (stackmarker sp : Nat) (p : Ptr)
  | write (a : Nat) (b : Byte)

def Legal (x : Process) : Action → Prop
  | .step a stackmarker sp p => x.world.Legal a ∧ x.program.Below stackmarker ∧ sp ≤ stackmarker ∧
    p ∉ x.program.state.live
  | .write a _ => x.program.Below a

instance (x : Process) : (a : Action) → Decidable (x.Legal a)
  | .step .. => inferInstanceAs (Decidable (_ ∧ _ ∧ _ ∧ _))
  | .write a _ => inferInstanceAs (Decidable (x.program.Below a))

/-- The call of the library, with the addresses of the stacklets. -/
def library (x : Process) (stackmarker sp : Nat) (p : Ptr) : LibraryCall → Stacklet.Action
  | .new => .new stackmarker sp (some p)
  | .switch n => .switch stackmarker sp (some p) (x.ptr n)
  | .finish n => .finish (x.ptr n)

/-- The address of the stacklet that the call makes. -/
def named (x : Process) (p : Ptr) : LibraryCall → Nat → Ptr
  | .new | .switch _ => Function.update x.ptr x.world.thread.next p
  | .finish _ => x.ptr

def after (w : World) (ptr : Nat → Ptr) : Except Stacklet.Fault Program → Except Fault Process
  | .ok r => .ok ⟨w, r, ptr⟩
  | .error f => .error (.stacklet f)

def exec (x : Process) : Action → Except Fault Process
  | .step a stackmarker sp p =>
    match x.world.exec a with
    | .error f => .error (.gevent f)
    | .ok w =>
      match x.world.called w with
      | none => .ok { x with world := w }
      | some c => after w (x.named p c) (x.program.exec (x.library stackmarker sp p c))
  | .write a b => after x.world x.ptr (x.program.exec (.write a b))

end Process

/-- Every program of cothreads, on stacks that stacklet.c keeps. -/
def process : Machine Process Process.Action Process.Fault where
  start x := gevent.start x.world ∧ Stacklet.stackletc.start x.program
  legal := Process.Legal
  exec := Process.exec

instance (x : Process) (a : Process.Action) : Decidable (process.legal x a) :=
  inferInstanceAs (Decidable (x.Legal a))

/-- The call is read off correctly. -/
theorem World.Stacked.called {w w' : World} {c : Option LibraryCall}
    (h : w.Stacked w' c) : w.called w' = c := by
  cases h with
  | stay thread =>
    simp only [World.called, thread]
    split
    · next n used eq => simp [eq]
    · simp
  | new st left thread =>
    simp only [World.called, thread]
    split
    · next n used eq => simp [eq]
    · simp
  | switch st resumed n left target ne thread => simp [World.called, thread]
  | finish resumed n ended target thread => simp [World.called, thread]

/-! ## The two libraries keep in step -/

/-- Every stack has one owner, who does not run while it is suspended. -/
structure World.Apart (w : World) : Prop where
  unused : w.thread.suspended w.thread.next = none
  once : ∀ i j si sj, w.thread.suspended i = some si → w.thread.suspended j = some sj →
    si.owner = sj.owner → i = j
  idle : ∀ n st, w.thread.suspended n = some st → st.owner ≠ w.control.owner

theorem Paired.apart {w : World} {s : Sched} (p : Paired w s) : w.Apart where
  unused := p.fresh _ (Nat.le_refl _)
  once i j si sj hi hj same := by
    have handle := (p.owned i si hi).1
    rw [same, (p.owned j sj hj).1] at handle
    cases handle
    rfl
  idle n st hst := by
    obtain ⟨-, expects⟩ := p.owned n st hst
    cases ho : st.owner with
    | none =>
      simp only [Sched.Expects, ho] at expects
      obtain ⟨ph, hub, -⟩ := expects
      intro control
      rw [p.hub_iff.mpr control.symm] at hub
      cases hub
    | some u =>
      simp only [Sched.Expects, ho] at expects
      obtain ⟨f, blocked, -⟩ := expects
      intro control
      have running : s.place u = .running := by
        apply p.running_iff.mpr
        cases hc : w.control with
        | user v =>
          rw [hc] at control
          cases control
          rfl
        | hub ph =>
          rw [hc] at control
          cases control
      rw [running] at blocked
      cases blocked

namespace Process
variable {x x' : Process} {w : World} {t : Stacklet.Stacks} {stackmarker sp : Nat} {p : Ptr}

structure Linked (x : Process) : Prop where
  names : Names x.world.thread.suspended x.ptr (· ∈ x.program.state.live) x.program.main
    x.world.hub.main
  running : x.program.main = none ↔ x.world.control.owner = some x.world.hub.main

/-- The library was called as the step of gevent.c says, by its rules, and names
the stack that gevent.c was told of. -/
inductive Called (x x' : Process) (stackmarker sp : Nat) (p : Ptr) : Option LibraryCall → Prop
  | none (same : x'.program = x.program) : Called x x' stackmarker sp p none
  | some {c : LibraryCall} (legal : x.program.Legal (x.library stackmarker sp p c))
      (exec : x.program.exec (x.library stackmarker sp p c) = .ok x'.program)
      (source : x'.program.state.thrd.gSource = c.source p) :
      Called x x' stackmarker sp p (some c)

/-- The library runs the main stack when gevent.c runs the main cothread. -/
theorem Linked.of_names {r : Program} {live : Ptr → Prop} {main : Option Ptr} {source : Handle}
    (apart : x.world.Apart)
    (names : Names x.world.thread.suspended x.ptr live main x.world.hub.main)
    (became : Stacklet.Became r x.program live main source)
    (resumed : x.program.main = none → x.world.control.owner = some x.world.hub.main) :
    x.Linked := by
  have names : Names x.world.thread.suspended x.ptr (· ∈ x.program.state.live) x.program.main
      x.world.hub.main := by
    rw [became.main, show (· ∈ x.program.state.live) = live from funext fun q =>
      propext (became.live q)]
    exact names
  refine ⟨names, resumed, fun owner => ?_⟩
  obtain ⟨t, represents⟩ := became.kept
  cases hm : x.program.main with
  | none => rfl
  | some q =>
    obtain ⟨n, st, hst, rfl⟩ := (names.live q).mp (represents.main_live hm)
    exact absurd (((names.main n st hst).mp hm).trans owner.symm) (apart.idle n st hst)

theorem filter_ne_none {o : Option Ptr} {q : Ptr} (present : o ≠ none)
    (left : o.filter (· ≠ q) = none) : o = some q := by
  cases o with
  | none => exact absurd rfl present
  | some v => simpa using left

theorem Linked.live (h : x.Linked) {n : Nat} {st : Stack}
    (hn : x.world.thread.suspended n = some st) : x.ptr n ∈ x.program.state.live :=
  (h.names.live _).mpr ⟨n, st, hn, rfl⟩

theorem Linked.step (h : x.Linked) (represents : Stacklet.Represents x.program t)
    (apart : x.world.Apart) (apart' : w.Apart) {a : World.Action}
    (legal : x.Legal (.step a stackmarker sp p))
    (exec : x.world.exec a = .ok w) :
    ∃ x', x.exec (.step a stackmarker sp p) = .ok x' ∧ x'.world = w ∧
      x'.Linked ∧ x.Called x' stackmarker sp p (x.world.called w) := by
  obtain ⟨legal, below, order, fresh⟩ := legal
  obtain ⟨c, stacked, main⟩ := World.exec_calls legal exec
  have called := stacked.called
  rw [called]
  have suspend := fun st (left : st.owner = x.world.control.owner) =>
    h.names.suspend x.world.thread.next st p apart.unused fresh
      (left ▸ h.running) (fun q hq => represents.main_live hq) (left ▸ apart.idle)
  cases stacked with
  | stay thread owner =>
    refine ⟨{ x with world := w }, by simp only [Process.exec, exec, called], rfl, ⟨?_, ?_⟩,
      .none rfl⟩
    · simpa [thread, main] using h.names
    · simpa [owner, main] using h.running
  | new st left thread =>
    have legal' : x.program.Legal (.new stackmarker sp (some p)) :=
      ⟨below, order, by simpa [Program.Fresh] using fresh⟩
    obtain ⟨r', exec', became⟩ := represents.became_new legal'
    refine ⟨⟨w, r', x.named p .new⟩, ?_, rfl, .of_names apart' ?_ became ?_,
      .some legal' exec' became.source⟩
    · simp only [Process.exec, exec, called, library, exec', after]
    · simpa only [thread, main, named] using suspend st left
    · intro none
      rw [became.main] at none
      simp at none
  | switch st resumed n left target ne thread owner =>
    have live := h.live target
    have legal' : x.program.Legal (.switch stackmarker sp (some p) (x.ptr n)) :=
      ⟨below, order, by simpa [Program.Fresh] using fresh, live⟩
    obtain ⟨r', exec', became⟩ := represents.became_switch legal'
    have names := suspend st left
    have found : Function.update x.world.thread.suspended x.world.thread.next (some st) n =
        some resumed := by
      rw [Function.update_of_ne ne, target]
    have named : Function.update x.ptr x.world.thread.next p n = x.ptr n :=
      Function.update_of_ne ne ..
    refine ⟨⟨w, r', x.named p (.switch n)⟩, ?_, rfl, .of_names apart' ?_ became ?_,
      .some legal' exec' became.source⟩
    · simp only [Process.exec, exec, called, library, exec', after]
    · have consumed := names.consume found
      rw [named] at consumed
      simpa only [thread, main, Process.named] using consumed
    · intro none
      have owned := names.main n resumed found
      rw [named] at owned
      rw [became.main] at none
      rw [owner, main]
      exact owned.mp (filter_ne_none (by simp) none)
  | finish resumed n ended target thread owner =>
    have live := h.live target
    have aside : x.program.main ≠ none := by
      rw [Ne, h.running]
      exact ended
    have legal' : x.program.Legal (.finish (x.ptr n)) := ⟨aside, live⟩
    obtain ⟨r', exec', became⟩ := represents.became_finish legal'
    refine ⟨⟨w, r', x.named p (.finish n)⟩, ?_, rfl, .of_names apart' ?_ became ?_,
      .some legal' exec' became.source⟩
    · simp only [Process.exec, exec, called, library, exec', after]
    · simpa only [thread, main, named] using h.names.consume target
    · intro none
      rw [became.main] at none
      rw [owner, main]
      exact (h.names.main n resumed target).mp (filter_ne_none aside none)

/-- Writing to the stack changes nothing else. -/
theorem Linked.write (h : x.Linked) {y : Nat} {b : Byte} (exec : x.exec (.write y b) = .ok x') :
    x'.Linked ∧ x'.world = x.world ∧ x'.program.main = x.program.main := by
  cases exec
  exact ⟨⟨h.names, h.running⟩, rfl, rfl⟩

/-- What holds at every state of a run. -/
structure Sound (x : Process) : Prop where
  gevent : gevent.Reach anyStep x.world
  stacklet : Stacklet.stackletc.Reach anyStep x.program
  linked : x.Linked

theorem Sound.apart (h : x.Sound) : x.world.Apart := by
  obtain ⟨s, p⟩ := reach_paired h.gevent
  exact p.apart

/-- A step of gevent.c that succeeds there succeeds with the library, too. -/
theorem Sound.step (h : x.Sound) {a : World.Action} (legal : x.Legal (.step a stackmarker sp p))
    (exec : x.world.exec a = .ok w) :
    ∃ x', x.exec (.step a stackmarker sp p) = .ok x' ∧ x'.world = w ∧
      x'.Sound ∧ x.Called x' stackmarker sp p (x.world.called w) := by
  have reach : Gevent.gevent.Reach anyStep w := .step h.gevent legal.1 trivial exec
  obtain ⟨s, pair⟩ := reach_paired reach
  obtain ⟨t, -, represents⟩ := Stacklet.reach_represents h.stacklet
  obtain ⟨x', run, world, linked, called⟩ := h.linked.step represents h.apart pair.apart legal exec
  refine ⟨x', run, world, ⟨by rwa [world], ?_, linked⟩, called⟩
  generalize x.world.called w = c at called
  cases called with
  | none same =>
    rw [same]
    exact h.stacklet
  | some legal' exec' => exact .step h.stacklet legal' trivial exec'

theorem Sound.exec (h : x.Sound) {a : Action} (legal : x.Legal a) :
    (∃ f, x.exec a = .error (.gevent f)) ∨ ∃ x', x.exec a = .ok x' ∧ x'.Sound := by
  cases a with
  | step a stackmarker sp p =>
    cases exec : x.world.exec a with
    | error f => exact .inl ⟨f, by simp only [Process.exec, exec]⟩
    | ok w =>
      obtain ⟨x', run, -, sound, -⟩ := h.step legal exec
      exact .inr ⟨x', run, sound⟩
  | write y b =>
    refine .inr ⟨_, rfl, h.gevent, ?_, ?_⟩
    · exact .step (a := .write y b) h.stacklet legal trivial rfl
    · exact (h.linked.write rfl).1

theorem Sound.run (h : x.Sound) {a : Action} (legal : x.Legal a)
    (exec : x.exec a = .ok x') : x'.Sound := by
  obtain ⟨f, fails⟩ | ⟨x₁, run, sound⟩ := h.exec legal
  · rw [fails] at exec
    cases exec
  · have same := Except.ok.inj (run.symm.trans exec)
    rwa [← same]

/-- What a step of gevent.c that succeeds does to the stacks of both. -/
structure Ran (x x' : Process) (stackmarker sp : Nat) (p : Ptr) (c : Option LibraryCall) :
    Prop where
  stacked : x.world.Stacked x'.world c
  called : x.Called x' stackmarker sp p c
  ptr : x'.ptr = c.elim x.ptr (x.named p)
  sound : x'.Sound

theorem Sound.ran (h : x.Sound) {a : World.Action} (legal : x.Legal (.step a stackmarker sp p))
    (exec : x.exec (.step a stackmarker sp p) = .ok x') : ∃ c, x.Ran x' stackmarker sp p c := by
  cases run : x.world.exec a with
  | error f =>
    simp only [Process.exec, run] at exec
    cases exec
  | ok w =>
    obtain ⟨_, exec', rfl, sound, called⟩ := h.step legal run
    obtain rfl := Except.ok.inj (exec'.symm.trans exec)
    obtain ⟨c, stacked, -⟩ := World.exec_calls legal.1 run
    rw [stacked.called] at called
    refine ⟨c, stacked, called, ?_, sound⟩
    simp only [Process.exec, run, stacked.called] at exec
    cases called with
    | none =>
      have same := Except.ok.inj exec
      rw [← same]
      rfl
    | some legal' exec'' =>
      simp only [exec'', after] at exec
      have same := Except.ok.inj exec
      rw [← same]
      rfl

end Process

open Process in
theorem reach_sound {x : Process} (r : process.Reach anyStep x) : x.Sound := by
  apply r.invariant (P := Sound)
  · rintro x ⟨hw, hr⟩
    refine ⟨.start hw, .start hr, ?_⟩
    obtain ⟨w₀, main, raw, eq⟩ := hw
    have suspended : ∀ n, x.world.thread.suspended n = none := by
      rw [eq]
      exact raw.suspended
    refine ⟨⟨fun q => ?_, fun i j si sj hi => ?_, fun n st hn => ?_⟩, ?_⟩
    · simp [hr.1, suspended]
    · simp [suspended] at hi
    · simp [suspended] at hn
    · rw [hr.2.2, eq]
      exact iff_of_true rfl rfl
  · intro x a x' _ sound legal _ exec
    exact sound.run legal exec

/-- gevent.c calls the library by its rules in every run, and the library never
fails it. -/
theorem gevent_keeps_stacklet_rules {x : Process} (r : process.Reach anyStep x) :
    gevent.Reach anyStep x.world ∧ Stacklet.stackletc.Reach anyStep x.program ∧
    (x.program.main = none ↔ x.world.control.owner = some x.world.hub.main) ∧
    (∀ q, q ∈ x.program.state.live ↔ ∃ n st, x.world.thread.suspended n = some st ∧ x.ptr n = q) ∧
    (∀ i j si sj, x.world.thread.suspended i = some si → x.world.thread.suspended j = some sj →
      x.ptr i = x.ptr j → i = j) ∧
    (∀ a, x.Legal a → ∀ f, x.exec a ≠ .error (.stacklet f)) ∧
    ∀ a stackmarker sp p x', x.Legal (.step a stackmarker sp p) →
      x.exec (.step a stackmarker sp p) = .ok x' →
      x.Called x' stackmarker sp p (x.world.called x'.world) := by
  have sound := reach_sound r
  refine ⟨sound.gevent, sound.stacklet, sound.linked.running, sound.linked.names.live,
    sound.linked.names.distinct,
    fun a legal f fails => ?_, fun a stackmarker sp p x' legal exec => ?_⟩
  · obtain ⟨g, exec⟩ | ⟨x', exec, -⟩ := sound.exec legal
    · rw [exec] at fails
      cases fails
    · rw [exec] at fails
      cases fails
  · obtain ⟨c, ran⟩ := sound.ran legal exec
    rw [ran.stacked.called]
    exact ran.called

/-- The program before its first call. -/
def Process.init : Process := ⟨zeroStart, Stacklet.Program.init, fun _ => 0⟩

theorem Process.init_start : process.start Process.init := ⟨zeroStart_start, rfl, rfl, rfl⟩

theorem gevent_keeps_stacklet_rules_run : ∃ x, process.Reach anyStep x ∧ x.program.main = some 3 ∧
    x.world.control.owner ≠ some x.world.hub.main ∧ x.program.state.live ≠ [] := by
  have h : (process.play anyStep Process.init [.write 95 7, .step (.cothreadInit 1 1) 100 90 1,
      .step (.call (.spawn 1)) 100 90 1, .write 95 9, .step (.call (.sleep 1)) 60 50 2,
      .step (.call (.sleep 3)) 100 80 3]).any (fun x => decide (x.program.main = some 3)) =
        true := by decide
  obtain ⟨x, reach, main⟩ := Machine.Reach.of_play Process.init_start h
  obtain ⟨-, library, running, -⟩ := gevent_keeps_stacklet_rules reach
  refine ⟨x, reach, main, fun owner => ?_, fun none => ?_⟩
  · rw [running.mpr owner] at main
    cases main
  · obtain ⟨t, -, represents⟩ := Stacklet.reach_represents library
    have live := represents.main_live main
    rw [none] at live
    cases live

end Gevent
