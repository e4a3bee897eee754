import Gevent.UvTimers.Kept
import Mathlib.Data.Set.Card

/-!
# timer.c is an alarm clock

`AlarmClock` says what timers are for: each alarm that is set has a deadline,
and the one with the earliest deadline rings first, never early. timer.c, with
its red-black tree of pointers, its flags and its count of active handles,
does nothing else, and never goes wrong (`timerc_is_alarm_clock`); and
`uv__run_timers` makes the callbacks of the due timers, each once and in order
(`run_timers_rings_due`).
-/

namespace Gevent
open RedBlack RbTree

/-- `period` is the time after which an alarm is set again when it rings, and 0
for an alarm that rings once; an alarm never set has none. `holds` says whether
the loop goes on as long as the alarm is set. -/
@[ext]
structure AlarmClock where
  now : Nat
  deadline : Tid → Option Nat
  period : Tid → Option Nat
  holds : Tid → Bool
  rung : List Tid

namespace AlarmClock

/-- Times are counted in 64 bits. -/
def later (c : AlarmClock) (timeout : Nat) : Nat := (c.now + timeout) % 2 ^ 64

def setAt (c : AlarmClock) (t : Tid) (deadline : Option Nat) : AlarmClock :=
  { c with deadline := Function.update c.deadline t deadline }

def withPeriod (c : AlarmClock) (t : Tid) (period : Option Nat) : AlarmClock :=
  { c with period := Function.update c.period t period }

def hold (c : AlarmClock) (t : Tid) (holds : Bool) : AlarmClock :=
  { c with holds := Function.update c.holds t holds }

/-- Set again, one period from now. -/
def again (c : AlarmClock) (t : Tid) : AlarmClock :=
  match c.period t with
  | none | some 0 => c
  | some (p + 1) => c.setAt t (some (c.later (p + 1)))

/-- The alarm that rings next: no other has an earlier deadline, and of two
with the same deadline the one with the lower address rings first. -/
structure First (c : AlarmClock) (t : Tid) (d : Nat) : Prop where
  set : c.deadline t = some d
  least : ∀ t' d', c.deadline t' = some d' → d < d' ∨ d = d' ∧ t ≤ t'

open UvLoop in
inductive Step (c : AlarmClock) : Action → AlarmClock → Prop
  | reuse (t : Tid) (tm : Timer) (entry : Side → Option Tid) (parent : Option Tid) (color : Color) :
      Step c (.reuse t tm entry parent color) ((c.withPeriod t none).hold t false)
  | init (t : Tid) : Step c (.init t) ((c.withPeriod t none).hold t true)
  | start (t : Tid) (timeout rpt : Int) : Step c (.start t timeout rpt)
      ((c.setAt t (some (c.later timeout.toNat))).withPeriod t (some rpt.toNat))
  | stop (t : Tid) : Step c (.stop t) (c.setAt t none)
  | again (t : Tid) : Step c (.again t) (c.again t)
  | setRepeat (t : Tid) (rpt : Int) :
      Step c (.setRepeat t rpt) (c.withPeriod t ((c.period t).map fun _ => rpt.toNat))
  | ref (t : Tid) : Step c (.ref t) (c.hold t true)
  | unref (t : Tid) : Step c (.unref t) (c.hold t false)
  | updateTime (time : Nat) : Step c (.updateTime time) { c with now := time }
  | ring {t : Tid} {d : Nat} (first : c.First t d) (due : d ≤ c.now) :
      Step c .run { (c.setAt t none).again t with rung := t :: c.rung }
  | quiet (later : ∀ t d, c.deadline t = some d → c.now < d) : Step c .run c

/-- How long the loop may wait, in an `int`; -1 is for ever. -/
inductive MayWait (c : AlarmClock) : Int → Prop
  | forever (unset : ∀ t, c.deadline t = none) : MayWait c (-1)
  | due {t : Tid} {d : Nat} (first : c.First t d) (due : d ≤ c.now) : MayWait c 0
  | until {t : Tid} {d : Nat} (first : c.First t d) (later : c.now < d) :
      MayWait c (Int.bmod (d - c.now) (2 ^ 32))

end AlarmClock

namespace UvLoop
variable {u v : UvLoop} {l : List Tid} {t : Tid} {tm : Timer} {d : Nat}

/-- The alarm clock that the loop's timers are. -/
def alarms (u : UvLoop) : AlarmClock where
  now := u.time
  deadline t := if u.inited t && (u.timer t).active then some (u.timer t).timeout else none
  period t := if u.inited t && (u.timer t).timerCb then some (u.timer t).rpt else none
  holds t := u.inited t && (u.timer t).ref
  rung := u.fired

theorem deadline_eq_some :
    u.alarms.deadline t = some d ↔ u.Pending t ∧ (u.timer t).timeout = d := by
  simp [alarms, Pending, and_assoc]

theorem Wrote.alarms (a : u.Wrote v t tm) (ht : u.inited t = true) : v.alarms =
    { u.alarms with
      deadline := Function.update u.alarms.deadline t (if tm.active then some tm.timeout else none)
      period := Function.update u.alarms.period t (if tm.timerCb then some tm.rpt else none)
      holds := Function.update u.alarms.holds t tm.ref } := by
  ext1
  · exact a.time
  · funext x
    by_cases hx : x = t
    · simp [UvLoop.alarms, hx, a.inited, a.self, ht]
    · simp [UvLoop.alarms, hx, a.inited, a.other hx]
  · funext x
    by_cases hx : x = t
    · simp [UvLoop.alarms, hx, a.inited, a.self, ht]
    · simp [UvLoop.alarms, hx, a.inited, a.other hx]
  · funext x
    by_cases hx : x = t
    · simp [UvLoop.alarms, hx, a.inited, a.self, ht]
    · simp [UvLoop.alarms, hx, a.inited, a.other hx]
  · exact a.fired

namespace Kept

theorem first {ts : List Tid} (k : u.Kept (t :: ts)) : u.alarms.First t (u.timer t).timeout where
  set := deadline_eq_some.mpr ⟨(k.pending t).mp List.mem_cons_self, rfl⟩
  least x d hx := by
    obtain ⟨set, rfl⟩ := deadline_eq_some.mp hx
    rcases List.mem_cons.mp ((k.pending x).mpr set) with rfl | hx
    · exact .inr ⟨rfl, Nat.le_refl _⟩
    · rcases uvTimerCmp_lt.mp ((List.pairwise_cons.mp k.sorted).1 x hx) with less | ⟨same, less⟩
      · exact .inl less
      · exact .inr ⟨same, Nat.le_of_lt less⟩

theorem nextTimeout (k : u.Kept l) : ∃ p, u.nextTimeout = .ok p ∧ u.alarms.MayWait p := by
  rw [UvLoop.nextTimeout, k.minTimer, ok_bind]
  cases l with
  | nil =>
    refine ⟨-1, rfl, .forever fun t => ?_⟩
    have unset : ¬ u.Pending t := fun h => by cases (k.pending t).mpr h
    simpa [alarms, Pending] using unset
  | cons t ts =>
    by_cases due : (u.timer t).timeout ≤ u.time
    · exact ⟨0, by simp [due], .due k.first due⟩
    · exact ⟨_, by simp [due]; rfl, .until k.first (Nat.lt_of_not_le due)⟩

/-- The handles that keep the loop going. -/
theorem activeHandles (k : u.Kept l) :
    u.activeHandles = {t | u.alarms.deadline t ≠ none ∧ u.alarms.holds t = true}.ncard := by
  have set : {t | u.alarms.deadline t ≠ none ∧ u.alarms.holds t = true} =
      ((l.filter fun t => (u.timer t).ref).toFinset : Set Tid) := by
    ext t
    simp only [alarms, Set.mem_ofPred_eq, List.coe_toFinset, List.mem_filter, k.pending, Pending]
    grind
  rw [set, Set.ncard_coe_finset, List.toFinset_card_of_nodup (k.nodup.filter _), k.active]

theorem deadline_none (k : u.Kept l) (ht : t ∉ l) : u.alarms.deadline t = none := by
  have unset : ¬ u.Pending t := fun h => ht ((k.pending t).mpr h)
  simpa [alarms, Pending] using unset

/-- A timer that is written while it is not set. -/
theorem aside_alarms (k : u.Kept l) (unset : t ∉ l) (k' : v.Kept l) (time : v.time = u.time)
    (fired : v.fired = u.fired)
    (timer : ∀ x, x ≠ t → v.timer x = u.timer x) (inited : ∀ x, x ≠ t → v.inited x = u.inited x) :
    v.alarms = (u.alarms.withPeriod t (v.alarms.period t)).hold t (v.alarms.holds t) := by
  ext1
  · exact time
  · funext x
    by_cases hx : x = t
    · subst hx
      exact (k'.deadline_none unset).trans (k.deadline_none unset).symm
    · simp [alarms, AlarmClock.hold, AlarmClock.withPeriod, timer x hx, inited x hx]
  · funext x
    by_cases hx : x = t
    · simp [AlarmClock.hold, AlarmClock.withPeriod, hx]
    · simp [alarms, AlarmClock.hold, AlarmClock.withPeriod, timer x hx, inited x hx, hx]
  · funext x
    by_cases hx : x = t
    · simp [AlarmClock.hold, hx]
    · simp [alarms, AlarmClock.hold, AlarmClock.withPeriod, timer x hx, inited x hx, hx]
  · exact fired

end Kept

theorem deadline_self (ht : u.inited t = true) :
    Function.update u.alarms.deadline t
      (if (u.timer t).active then some (u.timer t).timeout else none) = u.alarms.deadline := by
  rw [Function.update_eq_self_iff]
  simp [alarms, ht]

theorem period_self (ht : u.inited t = true) :
    Function.update u.alarms.period t (if (u.timer t).timerCb then some (u.timer t).rpt else none) =
      u.alarms.period := by
  rw [Function.update_eq_self_iff]
  simp [alarms, ht]

theorem holds_self (ht : u.inited t = true) :
    Function.update u.alarms.holds t (u.timer t).ref = u.alarms.holds := by
  rw [Function.update_eq_self_iff]
  simp [alarms, ht]

theorem Wrote.same (a : u.Wrote v t tm) (ht : u.inited t = true)
    (callback : tm.timerCb = (u.timer t).timerCb)
    (rpt : tm.rpt = (u.timer t).rpt) (ref : tm.ref = (u.timer t).ref) :
    v.alarms = u.alarms.setAt t (if tm.active then some tm.timeout else none) := by
  rw [a.alarms ht, callback, rpt, ref, period_self ht, holds_self ht]
  rfl

theorem Wrote.start {timeout rpt : Nat} (ht : u.inited t = true)
    (a : u.Wrote v t ⟨true, (u.timer t).ref, true, (u.time + timeout) % 2 ^ 64, rpt⟩) :
    v.alarms = (u.alarms.setAt t (some (u.alarms.later timeout))).withPeriod t (some rpt) := by
  rw [a.alarms ht]
  simp only [holds_self ht, if_true]
  rfl

theorem Wrote.setRepeat {rpt : Nat} (ht : u.inited t = true)
    (a : u.Wrote v t { u.timer t with rpt := rpt }) :
    v.alarms = u.alarms.withPeriod t ((u.alarms.period t).map fun _ => rpt) := by
  have period : (u.alarms.period t).map (fun _ => rpt) =
      if (u.timer t).timerCb then some rpt else none := by
    cases callback : (u.timer t).timerCb <;> simp [UvLoop.alarms, ht, callback]
  rw [a.alarms ht, period]
  simp only [deadline_self ht, holds_self ht]
  rfl

theorem Wrote.hold {b : Bool} (ht : u.inited t = true)
    (a : u.Wrote v t { u.timer t with ref := b }) :
    v.alarms = u.alarms.hold t b := by
  rw [a.alarms ht]
  simp only [deadline_self ht, period_self ht]
  rfl

theorem Wrote.again {b : Bool} (ht : u.inited t = true)
    (a : u.Wrote v t (rearmed { u.timer t with active := b } u.time)) :
    v.alarms = (u.alarms.setAt t (if b then some (u.timer t).timeout else none)).again t := by
  have period : u.alarms.period t = if (u.timer t).timerCb then some (u.timer t).rpt else none := by
    simp [UvLoop.alarms, ht]
  by_cases rearms : (u.timer t).timerCb = true ∧ (u.timer t).rpt ≠ 0
  · have same := a.same ht (by simp [rearmed, rearms]) (by simp [rearmed, rearms])
      (by simp [rearmed, rearms])
    obtain ⟨p, hp⟩ := Nat.exists_eq_succ_of_ne_zero rearms.2
    have next : (u.alarms.setAt t (if b then some (u.timer t).timeout else none)).period t =
        some (p + 1) := by
      simp [AlarmClock.setAt, period, rearms.1, hp]
    rw [same, AlarmClock.again, next]
    simp [rearmed, rearms, AlarmClock.setAt, AlarmClock.later, UvLoop.alarms, hp]
  · have same := a.same ht (by simp [rearmed, rearms]) (by simp [rearmed, rearms])
      (by simp [rearmed, rearms])
    have next : (u.alarms.setAt t (if b then some (u.timer t).timeout else none)).again t =
        u.alarms.setAt t (if b then some (u.timer t).timeout else none) := by
      rw [AlarmClock.again, show (u.alarms.setAt t _).period t = u.alarms.period t from rfl, period]
      cases callback : (u.timer t).timerCb with
      | true =>
        have once : (u.timer t).rpt = 0 := by simpa [callback] using rearms
        simp [once]
      | false => rfl
    rw [same, next]
    simp [rearmed, rearms]

theorem Kept.rings {ts : List Tid} (k : u.Kept (t :: ts)) (due : (u.timer t).timeout ≤ u.time) :
    ∃ v, u.runTimer = .ok (some v) ∧
      v.alarms = { (u.alarms.setAt t none).again t with rung := t :: u.alarms.rung } ∧
      v.Kept (if (u.timer t).rpt ≠ 0 then rbInsert (uvTimerCmp v.timer) t ts else ts) := by
  obtain ⟨v, run, time, inited, fired, timer, kept⟩ := k.ring due
  have ht := ((k.pending t).mp List.mem_cons_self).1
  have wrote : u.Wrote { v with fired := u.fired } t
    (rearmed { u.timer t with active := false } u.time) :=
    ⟨time, inited, rfl, timer⟩
  have step := wrote.again ht
  refine ⟨v, run, ?_, kept⟩
  have unset : u.alarms.setAt t none =
      u.alarms.setAt t (if false then some (u.timer t).timeout else none) := rfl
  rw [unset, ← step]
  simp [UvLoop.alarms, fired]

/-- Every call does what the alarm clock does. -/
theorem Kept.step (k : u.Kept l) {a : Action} (legal : u.Legal a) :
    ∃ v l', u.exec a = .ok v ∧ v.Kept l' ∧ u.alarms.Step a v.alarms := by
  cases a with
  | reuse t tm entry parent color =>
    have ht : t ∉ l := fun h => legal ((k.pending t).mp h)
    have kept := k.reuse legal tm entry parent color
    have step := k.aside_alarms ht kept rfl rfl (fun x hx => by simp [UvLoop.reuse, setTimer, hx])
      (fun x hx => by simp [UvLoop.reuse, setTimer, hx])
    refine ⟨_, l, rfl, kept, ?_⟩
    rw [step]
    have written : (u.reuse t tm entry parent color).inited t = false := by simp [UvLoop.reuse]
    simpa [alarms, written] using AlarmClock.Step.reuse (c := u.alarms) t tm entry parent color
  | init t =>
    have ht : t ∉ l := fun h => legal ((k.pending t).mp h)
    have kept := k.init legal
    have step := k.aside_alarms ht kept rfl rfl (fun x hx => by simp [timerInit, setTimer, hx])
      (fun x hx => by simp [timerInit, setTimer, hx])
    refine ⟨_, l, rfl, kept, ?_⟩
    rw [step]
    simpa [alarms, timerInit, setTimer] using AlarmClock.Step.init (c := u.alarms) t
  | start t timeout rpt =>
    obtain ⟨ht, nonneg, positive, low⟩ := legal
    obtain ⟨v, run, wrote, kept⟩ := k.start ht timeout rpt nonneg positive low
    refine ⟨v, _, run, kept, ?_⟩
    rw [wrote.start ht]
    exact .start t timeout rpt
  | stop t =>
    obtain ⟨v, run, wrote, kept⟩ := k.stop legal
    refine ⟨v, _, run, kept, ?_⟩
    rw [wrote.same legal rfl rfl rfl]
    exact .stop t
  | again t =>
    obtain ⟨v, r, l', run, wrote, kept, -⟩ := k.again legal
    refine ⟨v, l', by simp [exec, run], kept, ?_⟩
    have step := wrote.again (b := (u.timer t).active) legal
    rw [AlarmClock.setAt, deadline_self legal] at step
    rw [step]
    exact .again t
  | setRepeat t rpt =>
    obtain ⟨ht, nonneg, low⟩ := legal
    obtain ⟨v, run, wrote, kept⟩ := k.setRepeat nonneg low (t := t)
    refine ⟨v, l, run, kept, ?_⟩
    rw [wrote.setRepeat ht]
    exact .setRepeat t rpt
  | ref t =>
    obtain ⟨v, run, wrote, kept⟩ := k.setRef legal true
    refine ⟨v, l, congrArg Except.ok run, kept, ?_⟩
    rw [wrote.hold legal]
    exact .ref t
  | unref t =>
    obtain ⟨v, run, wrote, kept⟩ := k.setRef legal false
    refine ⟨v, l, congrArg Except.ok run, kept, ?_⟩
    rw [wrote.hold legal]
    exact .unref t
  | updateTime time => exact ⟨_, l, rfl, k.updateTime time, .updateTime time⟩
  | run =>
    cases l with
    | nil =>
      refine ⟨u, [], by simp [exec, k.quiet], k, .quiet fun t d set => ?_⟩
      simp [k.deadline_none (t := t)] at set
    | cons t ts =>
      by_cases due : (u.timer t).timeout ≤ u.time
      · obtain ⟨v, run, alarms, kept⟩ := k.rings due
        refine ⟨v, _, by simp [exec, run], kept, ?_⟩
        rw [alarms]
        exact .ring k.first due
      · have later : ∀ x d, u.alarms.deadline x = some d → u.time < d := by
          intro x d set
          have := k.first.least x d set
          omega
        refine ⟨u, t :: ts, ?_, k, .quiet later⟩
        have quiet := k.quiet fun x hx => later x _
          (deadline_eq_some.mpr ⟨(k.pending x).mp hx, rfl⟩)
        simp [exec, quiet]

/-- `uv__run_timers` has called back every timer that was due. -/
structure RanDue (u v : UvLoop) (due : List Tid) : Prop where
  time : v.time = u.time
  inited : v.inited = u.inited
  fired : v.fired = due.reverse ++ u.fired
  rearmed : ∀ t ∈ due, v.timer t = rearmed { u.timer t with active := false } u.time
  others : ∀ t, t ∉ due → v.timer t = u.timer t

/-- The timers that are due, in order. -/
def dueOf (u : UvLoop) (l : List Tid) : List Tid :=
  l.filter fun t => decide ((u.timer t).timeout ≤ u.time)

theorem filter_rbInsert {cmp : Tid → Tid → Ordering} {p : Tid → Bool} (out : p t = false) :
    (rbInsert cmp t l).filter p = l.filter p := by
  induction l with
  | nil => simp [rbInsert, out]
  | cons x xs ih =>
    simp only [rbInsert]
    cases cmp t x with
    | lt => rw [List.filter_cons, out]; rfl
    | gt => simp only [List.filter_cons, ih]
    | eq => rfl

theorem Kept.runTimers (k : u.Kept l) (fits : ∀ t ∈ u.dueOf l, u.time + (u.timer t).rpt < 2 ^ 64) :
    ∃ v l', u.runTimers ((u.dueOf l).length + 1) = .ok v ∧ v.Kept l' ∧ u.RanDue v (u.dueOf l) := by
  induction hn : (u.dueOf l).length generalizing u l with
  | zero =>
    have none_due := List.eq_nil_of_length_eq_zero hn
    have quiet : u.runTimer = .ok none := k.quiet fun t ht => by
      simp only [dueOf, List.filter_eq_nil_iff, decide_eq_true_eq] at none_due
      exact Nat.lt_of_not_le (none_due t ht)
    rw [none_due]
    exact ⟨u, l, by simp [UvLoop.runTimers, quiet], k, rfl, rfl, rfl, by simp, fun t _ => rfl⟩
  | succ n ih =>
    cases l with
    | nil => simp [dueOf] at hn
    | cons t ts =>
      have due : (u.timer t).timeout ≤ u.time := by
        by_contra later
        have none_due : u.dueOf (t :: ts) = [] := by
          simp only [dueOf, List.filter_eq_nil_iff, decide_eq_true_eq]
          intro x hx
          have := k.first.least x _ (deadline_eq_some.mpr ⟨(k.pending x).mp hx, rfl⟩)
          omega
        simp [none_due] at hn
      have fresh := (List.nodup_cons.mp k.nodup).1
      have first : u.dueOf (t :: ts) = t :: u.dueOf ts := by simp [dueOf, due]
      obtain ⟨w, run, time, inited, fired, timer, kept⟩ := k.ring due
      have self : w.timer t = UvLoop.rearmed { u.timer t with active := false } u.time := by
        rw [timer, Function.update_self]
      have other : ∀ x, x ≠ t → w.timer x = u.timer x :=
        fun x hx => by rw [timer, Function.update_of_ne hx]
      have rest : w.dueOf ts = u.dueOf ts := by
        apply List.filter_congr
        intro x hx
        rw [other x (by rintro rfl; exact fresh hx), time]
      have callback := k.callback t List.mem_cons_self
      -- the timer that rang is not due again
      have same : w.dueOf (if (u.timer t).rpt ≠ 0 then rbInsert (uvTimerCmp w.timer) t ts else ts) =
          u.dueOf ts := by
        split
        · next rearms =>
          rw [← rest]
          apply filter_rbInsert
          have := fits t (by simp [first])
          simp only [self, UvLoop.rearmed, callback, rearms, time, ne_eq, not_false_eq_true,
            and_self, if_true,
            Nat.mod_eq_of_lt this]
          simp
          omega
        · exact rest
      have out : t ∉ u.dueOf ts := fun h => fresh (List.mem_of_mem_filter h)
      rw [first, List.length_cons, Nat.add_right_cancel_iff] at hn
      obtain ⟨v, l', run', kept', ran⟩ := ih kept (by
        rw [same]
        intro x hx
        rw [time, other x (by rintro rfl; exact out hx)]
        exact fits x (by simp [first, hx])) (by rw [same, hn])
      rw [same] at ran
      refine ⟨v, l', ?_, kept', ran.time.trans time, ran.inited.trans inited, ?_, fun x hx => ?_,
        fun x hx => ?_⟩
      · rw [UvLoop.runTimers, run]
        exact run'
      · rw [ran.fired, fired, first]
        simp
      · rw [first] at hx
        rcases List.mem_cons.mp hx with rfl | later
        · rw [ran.others x out, self]
        · have ne : x ≠ t := by
            rintro rfl
            exact out later
          rw [ran.rearmed x later, other x ne, time]
      · rw [first, List.mem_cons, not_or] at hx
        rw [ran.others x hx.2, other x hx.1]

end UvLoop

open UvLoop

variable {u : UvLoop}

theorem reach_kept (r : timerc.Reach anyStep u) : ∃ l, u.Kept l := by
  apply r.invariant (P := fun u => ∃ l, u.Kept l)
  · intro u start
    exact ⟨[], .initial start⟩
  · rintro u a v - ⟨l, kept⟩ legal - exec
    obtain ⟨v', l', exec', kept', -⟩ := kept.step legal
    obtain rfl := Except.ok.inj (exec'.symm.trans exec)
    exact ⟨l', kept'⟩

/-- In every run each call does what the alarm clock does; the loop may wait as
long as the alarm clock says, and goes on for the alarms that hold it. -/
theorem timerc_is_alarm_clock (r : timerc.Reach anyStep u) :
    (∀ a, u.Legal a → ∃ v, u.exec a = .ok v ∧ u.alarms.Step a v.alarms) ∧
    (∃ p, u.nextTimeout = .ok p ∧ u.alarms.MayWait p) ∧
    u.activeHandles = {t | u.alarms.deadline t ≠ none ∧ u.alarms.holds t = true}.ncard := by
  obtain ⟨l, kept⟩ := reach_kept r
  refine ⟨fun a legal => ?_, kept.nextTimeout, kept.activeHandles⟩
  obtain ⟨v, -, exec, -, step⟩ := kept.step legal
  exact ⟨v, exec, step⟩

/-- A loop without timers. -/
def UvLoop.init : UvLoop where
  time := 0
  timerHandles := ⟨none, fun _ _ => none, fun _ => none, fun _ => .black⟩
  activeHandles := 0
  lastErr := .ok
  timer _ := ⟨true, true, true, 0, 0⟩
  count := 0
  inited _ := false
  fired := []

theorem timerc_is_alarm_clock_run : ∃ u : UvLoop, u.fired = [3] ∧ u.alarms.deadline 3 = some 9 ∧
    (∃ p, u.nextTimeout = .ok p ∧ u.alarms.MayWait p) := by
  have start : timerc.start .init := ⟨rfl, rfl, rfl, fun _ => rfl, rfl⟩
  have h : (timerc.play anyStep .init
      [.init 7, .init 3, .start 7 10 0, .start 3 5 4, .updateTime 5, .run]).any
        (fun u => decide (u.fired = [3] ∧ u.alarms.deadline 3 = some 9)) = true := by decide
  obtain ⟨u, reach, fired, deadline⟩ := Machine.Reach.of_play start h
  exact ⟨u, fired, deadline, (timerc_is_alarm_clock reach).2.1⟩

/-- In every run the pointers and colours of the timers make up a red-black
tree, in order, of the timers that are set. -/
theorem timer_tree_is_red_black (r : timerc.Reach anyStep u) :
    ∃ t : ColorTree Tid, RbTree.Holds u.timerHandles [] t ∧
    (∃ m, t.Balanced .black m) ∧ t.toList.Pairwise (fun a b => uvTimerCmp u.timer a b = .lt) ∧
    (∀ x, x ∈ t.toList ↔ u.alarms.deadline x ≠ none) ∧
    t.depth ≤ 2 * Nat.log 2 (t.toList.length + 1) := by
  obtain ⟨l, kept⟩ := reach_kept r
  obtain ⟨t, m, holds, balanced, rfl⟩ := kept.tree
  refine ⟨t, holds, ⟨m, balanced⟩, kept.sorted, fun x => ?_, balanced.depth_le⟩
  rw [kept.pending, Option.ne_none_iff_exists']
  simp [deadline_eq_some]

theorem timer_tree_is_red_black_run : ∃ u : UvLoop,
    u.timerHandles.root = some 1 ∧ u.timerHandles.color 2 = .red ∧
    ∃ t : ColorTree Tid, RbTree.Holds u.timerHandles [] t ∧ (∃ m, t.Balanced .black m) ∧
      t.toList.Pairwise (fun a b => uvTimerCmp u.timer a b = .lt) ∧
      (∀ x, x ∈ t.toList ↔ u.alarms.deadline x ≠ none) ∧
      t.depth ≤ 2 * Nat.log 2 (t.toList.length + 1) := by
  have start : timerc.start .init := ⟨rfl, rfl, rfl, fun _ => rfl, rfl⟩
  have h : (timerc.play anyStep .init
      [.init 0, .init 1, .init 2, .start 0 5 0, .start 1 6 0, .start 2 7 0]).any
        (fun u => decide (u.timerHandles.root = some 1 ∧ u.timerHandles.color 2 = .red)) =
          true := by decide
  obtain ⟨u, reach, root, color⟩ := Machine.Reach.of_play start h
  exact ⟨u, root, color, timer_tree_is_red_black reach⟩

/-- When no callback touches a timer, `uv__run_timers` makes the callback of
each timer that is due, once and in order, and leaves no timer due. -/
theorem run_timers_rings_due (r : timerc.Reach anyStep u)
    (fits : ∀ t d p, u.alarms.deadline t = some d → d ≤ u.time → u.alarms.period t = some p →
      u.time + p < 2 ^ 64) :
    ∃ v, ∃ due : List Tid, u.runTimers (due.length + 1) = .ok v ∧ v.fired = due.reverse ++ u.fired ∧
      due.Pairwise (fun a b => uvTimerCmp u.timer a b = .lt) ∧
      (∀ t, t ∈ due ↔ ∃ d, u.alarms.deadline t = some d ∧ d ≤ u.time) ∧
      ∀ t, v.alarms.deadline t =
        if t ∈ due then ((u.alarms.period t).filter (· ≠ 0)).map (u.time + ·)
        else u.alarms.deadline t := by
  obtain ⟨l, kept⟩ := reach_kept r
  have due : ∀ t, t ∈ u.dueOf l ↔ ∃ d, u.alarms.deadline t = some d ∧ d ≤ u.time := fun t => by
    simp [dueOf, kept.pending, deadline_eq_some]
  have period : ∀ t ∈ u.dueOf l, u.alarms.period t = some (u.timer t).rpt := fun t ht => by
    have hl := List.mem_of_mem_filter ht
    simp [alarms, ((kept.pending t).mp hl).1, kept.callback t hl]
  have fits' : ∀ t ∈ u.dueOf l, u.time + (u.timer t).rpt < 2 ^ 64 := by
    intro t ht
    obtain ⟨d, set, le⟩ := (due t).mp ht
    exact fits t d _ set le (period t ht)
  obtain ⟨v, l', run, kept', ran⟩ := kept.runTimers fits'
  refine ⟨v, u.dueOf l, run, ran.fired, kept.sorted.sublist List.filter_sublist, due, fun t => ?_⟩
  split
  · next ht =>
    have hl := List.mem_of_mem_filter ht
    rw [period t ht]
    by_cases once : (u.timer t).rpt = 0
    · simp [alarms, ran.inited, ran.rearmed t ht, rearmed, once]
    · have low := fits' t ht
      simp [alarms, ran.inited, ran.rearmed t ht, rearmed, once, kept.callback t hl,
        ((kept.pending t).mp hl).1]
      omega
  · next ht => simp [alarms, ran.inited, ran.others t ht]

theorem run_timers_rings_due_run : ∃ u v, ∃ due : List Tid, timerc.Reach anyStep u ∧
    u.runTimers (due.length + 1) = .ok v ∧ v.fired = due.reverse ++ u.fired ∧ 3 ∈ due ∧
    v.alarms.deadline 3 = some 9 := by
  have start : timerc.start .init := ⟨rfl, rfl, rfl, fun _ => rfl, rfl⟩
  have h : (timerc.play anyStep .init [.init 3, .start 3 5 4, .updateTime 5]).any
      (fun u => decide (u.time = 5 ∧ u.count = 1 ∧ u.alarms.deadline 3 = some 5 ∧
        u.alarms.period 3 = some 4)) = true := by decide
  obtain ⟨u, reach, time, count, deadline, period⟩ := Machine.Reach.of_play start h
  obtain ⟨l, kept⟩ := reach_kept reach
  have hl : 3 ∈ l := (kept.pending 3).mpr (deadline_eq_some.mp deadline).1
  obtain ⟨t, rfl⟩ := List.length_eq_one_iff.mp (kept.count.symm.trans count)
  obtain rfl : 3 = t := by simpa using hl
  have fits : ∀ t d p, u.alarms.deadline t = some d → d ≤ u.time → u.alarms.period t = some p →
      u.time + p < 2 ^ 64 := by
    intro t d p set _ hp
    obtain rfl : t = 3 := by simpa using (kept.pending t).mpr (deadline_eq_some.mp set).1
    rw [period] at hp
    cases hp
    omega
  obtain ⟨v, due, run, fired, -, mem, later⟩ := run_timers_rings_due reach fits
  have rang : 3 ∈ due := (mem 3).mpr ⟨5, deadline, by omega⟩
  refine ⟨u, v, due, reach, run, fired, rang, ?_⟩
  simp [later, rang, period, time]

end Gevent
