import Gevent.Refine.Handles

/-!
# The loop's list of handles

`_sleep_internal` initialises the timer anew in every sleep and never closes it.
So `loop->handle_queue` holds the open handles, each once and none in freed
memory, as long as nobody sleeps twice and nobody who has slept is given to its
exit function (`handles_listed`).
-/

namespace Gevent
open Intrusive

namespace World

/-- The handle has been initialised on the loop and not closed. gevent.c never
closes the timer of a cothread. -/
def Open (w : World) : HandleNode → Prop
  | .head => False
  | .timer t => slept t w.env.log = true
  | .other h => h ∈ w.handles.others

/-- `loop->handle_queue` is the circular list of `xs`. -/
structure HandleList (w : World) (xs : List HandleNode) : Prop where
  opened : ∀ n, n ∈ xs ↔ w.Open n
  once : xs.Nodup
  walk : ∀ i (hi : i < xs.length), w.handles.links.next^[i + 1] .head = xs[i]
  closed : w.handles.links.next^[xs.length + 1] .head = .head
  inverse : ∀ n, n = .head ∨ w.Open n →
    w.handles.links.prev (w.handles.links.next n) = n ∧
      w.handles.links.next (w.handles.links.prev n) = n
  exited : ∀ t, w.Exited t → .timer t ∉ xs

/-- The running cothread has slept before. -/
def CallerSlept (w : World) : Prop := ∃ t, w.control = .user t ∧ slept t w.env.log = true

/-- Nobody sleeps twice, and nobody who has slept is given to its exit function. -/
def SleepsOnce (w : World) : Action → Prop
  | .call (.sleep _) => ¬ w.CallerSlept
  | .call (.wait timeout) => 0 < timeout → ¬ w.CallerSlept
  | .finish => ∀ t, w.control = .user t → slept t w.env.log = true → w.env.exitFn t = false
  | _ => True

instance (w : World) : Decidable w.CallerSlept :=
  match h : w.control with
  | .user t => decidable_of_iff (slept t w.env.log = true) (by simp [CallerSlept, h])
  | .hub _ => .isFalse (by simp [CallerSlept, h])

instance (w : World) : (a : Action) → Decidable (w.SleepsOnce a)
  | .call (.sleep _) => inferInstanceAs (Decidable (¬ w.CallerSlept))
  | .call (.wait timeout) => inferInstanceAs (Decidable (0 < timeout → ¬ w.CallerSlept))
  | .finish =>
    match h : w.control with
    | .user t => decidable_of_iff (slept t w.env.log = true → w.env.exitFn t = false)
        (by simp [SleepsOnce, h])
    | .hub _ => .isTrue (by simp [SleepsOnce, h])
  | .call (.spawn _) | .call (.receive _) | .call (.send _ _) | .call (.acquire _)
  | .call (.release _) | .call (.getaddrinfo _) | .cothreadInit _ _ | .setExitFn _ _
  | .channelInit _ | .semaphoreInit _ _ | .timers | .resolve _ _ _ | .iterate | .updateTime
  | .others _ | .handleInit _ | .handleClose _ | .tick _ => inferInstanceAs (Decidable True)

/-- What keeps the list in order. -/
structure Listed (w : World) : Prop where
  ring : ∃ xs, w.handles.links.Ring .head xs ∧ ∀ n, n ∈ xs ↔ w.Open n
  others : w.handles.others.Nodup
  exited : ∀ t, w.Exited t → slept t w.env.log = false

theorem Listed.handleList {w : World} (h : w.Listed) : ∃ xs, w.HandleList xs := by
  obtain ⟨xs, ring, opened⟩ := h.ring
  refine ⟨xs, opened, (List.nodup_cons.mp ring.nodup).2, ring.next_iterate.1, ring.next_iterate.2,
    fun n hn => ?_, fun t ht hmem => ?_⟩
  · rw [← opened] at hn
    exact ring.prev_next (List.mem_cons.mpr hn)
  · have hslept : slept t w.env.log = true := (opened _).mp hmem
    rw [h.exited t ht] at hslept
    cases hslept

theorem sleepsOnce_of_sleeps {w : World} {a : Action} {t : Tid} (hc : w.control = .user t)
    (sleeps : a.Sleeps) : w.SleepsOnce a ↔ slept t w.env.log = false := by
  have hcaller : w.CallerSlept ↔ slept t w.env.log = true := by simp [CallerSlept, hc]
  rcases sleeps with ⟨d, rfl⟩ | ⟨d, hd, rfl⟩
  · simp [SleepsOnce, hcaller]
  · simp [SleepsOnce, hcaller, hd]

end World

namespace Paired
variable {w w' : World} {s : Sched} {a : World.Action} {t : Tid}

/-- What a step does to the timers armed and the cothreads exited so far. -/
theorem progress (p : Paired w s) (legal : w.Legal a) (exec : gevent.exec w a = .ok w') :
    (∀ u, slept u w'.env.log = true ↔
      slept u w.env.log = true ∨ w.control = .user u ∧ a.Sleeps) ∧
    ∀ u, w'.Exited u ↔ w.Exited u ∧ (∀ run, a ≠ .cothreadInit u run) ∨
      a = .finish ∧ w.control = .user u ∧ w.env.exitFn u = true := by
  obtain ⟨valid, x, p'⟩ := p.exec_next legal exec
  have step := Sched.progress_next p.base.core p.settled (p.toCorr.allowed p.base legal) valid x
  simp only [World.Exited, p'.env, p.env, p.control]
  exact ⟨step.slept_iff, step.exited_iff p.stages⟩

/-- The list stays in order. -/
theorem listed_next (p : Paired w s) (h : w.Listed) (legal : w.Legal a) (once : w.SleepsOnce a)
    (exec : gevent.exec w a = .ok w') : w'.Listed := by
  obtain ⟨hslept, hexited⟩ := p.progress legal exec
  obtain ⟨xs, ring, opened⟩ := h.ring
  have handles := p.exec_handles legal exec
  have hquiet : ∀ t, (¬ a.Sleeps ∨ w.control ≠ .user t) → slept t w'.env.log = slept t w.env.log := by
    intro t ht
    rw [Bool.eq_iff_iff, hslept]
    tauto
  have hopen : w'.handles.others = w.handles.others → (∀ t, slept t w'.env.log = slept t w.env.log) →
      ∀ n, w'.Open n ↔ w.Open n := by
    intro ho hs n
    cases n <;> simp [World.Open, ho, hs]
  by_cases sleeps : a.Sleeps
  · obtain ⟨t, hc⟩ := World.sleeps_caller legal sleeps
    have fresh : slept t w.env.log = false := (World.sleepsOnce_of_sleeps hc sleeps).mp once
    rw [World.handlesAfter_sleeps hc sleeps] at handles
    have hout : HandleNode.timer t ∉ xs := by simp [opened, World.Open, fresh]
    refine ⟨⟨xs ++ [.timer t], ?_, fun n => ?_⟩, by rw [handles]; exact h.others, fun u hu => ?_⟩
    · rw [handles]
      exact ring.insertTail (by simpa using hout)
    · rw [List.mem_append, opened, List.mem_singleton]
      cases n with
      | head => simp [World.Open]
      | other k => simp [World.Open, handles, Handles.linkTimer]
      | timer u =>
        simp only [World.Open, hslept, hc, sleeps, and_true, Control.user.injEq,
          HandleNode.timer.injEq, eq_comm (a := t)]
    · have hw : w.Exited u := by
        rcases (hexited u).mp hu with ⟨hw, -⟩ | ⟨rfl, -⟩
        · exact hw
        · rcases sleeps with ⟨d, hd⟩ | ⟨d, -, hd⟩ <;> cases hd
      have hut : u ≠ t := by
        rintro rfl
        have dead := p.exited_dead hw
        rw [p.running_iff.mpr hc] at dead
        cases dead
      rw [hquiet u (.inr (by rw [hc]; simpa using Ne.symm hut))]
      exact h.exited u hw
  · have hsame : ∀ t, slept t w'.env.log = slept t w.env.log := fun t => hquiet t (.inl sleeps)
    have exited : ∀ t, w'.Exited t → slept t w'.env.log = false := by
      intro t ht
      rw [hsame]
      rcases (hexited t).mp ht with ⟨hw, -⟩ | ⟨rfl, hc, hfn⟩
      · exact h.exited t hw
      · cases hs : slept t w.env.log with
        | false => rfl
        | true =>
          rw [once t hc hs] at hfn
          cases hfn
    cases a with
    | handleInit k =>
      have hout : HandleNode.other k ∉ xs := by rw [opened]; exact legal
      refine ⟨⟨xs ++ [.other k], ?_, fun n => ?_⟩, ?_, exited⟩
      · rw [handles]
        exact ring.insertTail (by simpa using hout)
      · rw [List.mem_append, opened, List.mem_singleton]
        cases n with
        | head => simp [World.Open]
        | timer t => simp [World.Open, hsame]
        | other j => simp [World.Open, handles, World.handlesAfter, or_comm]
      · rw [handles]
        exact List.nodup_cons.mpr ⟨legal, h.others⟩
    | handleClose k =>
      refine ⟨⟨xs.erase (.other k), ?_, fun n => ?_⟩, ?_, exited⟩
      · rw [handles]
        exact ring.remove ((opened _).mpr legal.2)
      · rw [(List.nodup_cons.mp ring.nodup).2.mem_erase_iff, opened]
        cases n with
        | head => simp [World.Open]
        | timer t => simp [World.Open, hsame]
        | other j => simp [World.Open, handles, World.handlesAfter, h.others.mem_erase_iff]
      · rw [handles]
        exact h.others.erase k
    | _ =>
      rw [World.handlesAfter_eq sleeps (by simp) (by simp)] at handles
      refine ⟨⟨xs, by rw [handles]; exact ring, fun n => ?_⟩, by rw [handles]; exact h.others, exited⟩
      rw [opened, hopen (by rw [handles]) hsame]

/-- A second sleep, or an exit after a sleep, leaves no list in order. -/
theorem unlisted (p : Paired w s) (h : w.Listed) (legal : w.Legal a)
    (exec : gevent.exec w a = .ok w') {xs' : List HandleNode} (list : w'.HandleList xs') :
    w.SleepsOnce a := by
  obtain ⟨hslept, hexited⟩ := p.progress legal exec
  by_cases sleeps : a.Sleeps
  · obtain ⟨t, hc⟩ := World.sleeps_caller legal sleeps
    refine (World.sleepsOnce_of_sleeps hc sleeps).mpr (Bool.eq_false_iff.mpr fun again => ?_)
    obtain ⟨xs, ring, opened⟩ := h.ring
    have handles := p.exec_handles legal exec
    rw [World.handlesAfter_sleeps hc sleeps] at handles
    have hx : HandleNode.timer t ∈ xs := (opened _).mpr again
    have hback := ring.insertTail_twice hx
    have hnode : w.handles.links.prev (.timer t) = .head ∨ w'.Open (w.handles.links.prev (.timer t)) := by
      rcases List.mem_cons.mp (ring.prev_mem (List.mem_cons_of_mem _ hx)) with hp | hp
      · exact .inl hp
      · refine .inr ?_
        rw [opened] at hp
        revert hp
        cases w.handles.links.prev (.timer t) with
        | head => exact id
        | timer u => exact fun hu => (hslept u).mpr (.inl hu)
        | other k => exact fun hk => by rw [World.Open, handles]; exact hk
    have hinv := (list.inverse _ hnode).1
    rw [handles] at hinv
    exact hback hinv
  · cases a with
    | finish =>
      intro t hc hs
      refine Bool.eq_false_iff.mpr fun hfn => ?_
      refine list.exited t ((hexited t).mpr (.inr ⟨rfl, hc, hfn⟩)) ((list.opened _).mpr ?_)
      exact (hslept t).mpr (.inl hs)
    | call c =>
      cases c with
      | sleep d => exact absurd (.inl ⟨d, rfl⟩) sleeps
      | wait d => exact fun pos => absurd (.inr ⟨d, pos, rfl⟩) sleeps
      | _ => trivial
    | _ => trivial

end Paired

theorem listed {w : World} (r : gevent.Reach World.SleepsOnce w) : w.Listed := by
  refine Machine.Reach.invariant ?_ (fun w a w' r h legal once exec => ?_) r
  · rintro w ⟨w₀, main, raw, rfl⟩
    have log : (w₀.hubInit main).env.log = [.start main, .init main] := by
      simp [World.hubInit, World.cothreadInit, World.setState, World.setStacklet, World.modify,
        World.emit, Env.emit, Env.initCothread, raw.log]
    have handles : (w₀.hubInit main).handles = w₀.handles := rfl
    refine ⟨⟨[], ?_, fun n => ?_⟩, by rw [handles, raw.handles]; exact List.nodup_nil, fun t ht => ?_⟩
    · rw [handles]
      exact ⟨by simp, raw.handleList.2, raw.handleList.1⟩
    · cases n <;> simp [World.Open, log, slept, latest, Event.arms, handles, raw.handles]
    · rw [log]
      rfl
  · obtain ⟨s, p⟩ := reach_paired r
    exact p.listed_next h legal once exec

/-- The list of handles is in order while everybody sleeps at most once, and
nobody who has slept is given to its exit function; a step that breaks this
breaks the list. -/
theorem handles_listed {w : World} (r : gevent.Reach World.SleepsOnce w) :
    (∃ xs, w.HandleList xs) ∧ ∀ a w', w.Legal a → gevent.exec w a = .ok w' →
      (w.SleepsOnce a ↔ ∃ xs, w'.HandleList xs) := by
  have h := listed r
  obtain ⟨s, p⟩ := reach_paired r
  refine ⟨h.handleList, fun a w' legal exec => ⟨fun once => ?_, fun hlist => ?_⟩⟩
  · exact (p.listed_next h legal once exec).handleList
  · obtain ⟨xs', list⟩ := hlist
    exact p.unlisted h legal exec list

set_option maxRecDepth 100000 in
/-- 1 and the main cothread sleep, and a handle of the program comes and goes. -/
theorem handles_listed_run : ∃ w, gevent.Reach World.SleepsOnce w ∧ w.Open (.timer 1) ∧
    w.Open (.timer 0) ∧ ¬ w.Open (.other 3) ∧ ∃ xs, w.HandleList xs := by
  have h : (gevent.play World.SleepsOnce zeroStart [.handleInit 0, .handleInit 1, .handleInit 3,
      .cothreadInit 1 1, .call (.spawn 1), .call (.sleep 5), .call (.wait 2), .iterate, .timers,
      .handleClose 3]).any
      (fun w => decide (slept 1 w.env.log = true ∧ slept 0 w.env.log = true ∧
        3 ∉ w.handles.others)) = true := by decide
  obtain ⟨w, r, one, main, closed⟩ := Machine.Reach.of_play zeroStart_start h
  exact ⟨w, r, one, main, closed, (handles_listed r).1⟩

set_option maxRecDepth 100000 in
/-- The main cothread sleeps twice, and its timer becomes its own predecessor. The
handles before it are those of the loop itself, `child_watcher` and `wq_async`. -/
theorem sleeping_twice_unlisted :
    ¬ ∀ w, gevent.Reach anyStep w → ∃ xs, w.HandleList xs := by
  intro all
  have h : (gevent.play anyStep zeroStart [.handleInit 0, .handleInit 1, .call (.sleep 0),
      .iterate, .timers, .call (.sleep 0)]).any (fun w => decide (1 ∈ w.handles.others ∧
        w.handles.links.prev (w.handles.links.next (.other 1)) ≠ .other 1)) = true := by decide
  obtain ⟨w, r, opened, hne⟩ := Machine.Reach.of_play zeroStart_start h
  obtain ⟨xs, list⟩ := all w r
  exact hne (list.inverse (.other 1) (.inr opened)).1

end Gevent
