import Gevent.RbTree.Ordered
import Gevent.UvTimers

/-!
# What timer.c keeps

`Kept u l`: the timer tree is a red-black tree, and lists the timers that are
set, `l`, by deadline and address. One lemma for each function says what it
does to the loop, and that it keeps this.
-/

namespace Gevent
open RedBlack RbTree

instance (tm : Tid → Timer) : Std.TransCmp (uvTimerCmp tm) where
  eq_swap {a b} := by
    cases h : uvTimerCmp tm b a with
    | lt => exact uvTimerCmp_gt.mpr h
    | gt => exact uvTimerCmp_gt.mp h
    | eq =>
      obtain ⟨same, rfl⟩ := uvTimerCmp_eq.mp h
      exact h
  isLE_trans {a b c} := by
    simp only [uvTimerCmp, Ordering.isLE]
    grind

theorem uvTimerCmp_ne {tm : Tid → Timer} {l : List Tid} {t : Tid} (fresh : t ∉ l) :
    ∀ y ∈ l, uvTimerCmp tm t y ≠ .eq := by
  intro y hy he
  obtain ⟨-, rfl⟩ := uvTimerCmp_eq.mp he
  exact fresh hy

theorem rbInsert_between {cmp : Tid → Tid → Ordering} {x : Tid} {before after : List Tid}
    (h : Between cmp x before after) : rbInsert cmp x (before ++ after) = before ++ x :: after := by
  obtain ⟨greater, less⟩ := h
  induction before with
  | nil =>
    cases after with
    | nil => rfl
    | cons y ys => simp [rbInsert, less y List.mem_cons_self]
  | cons y ys ih =>
    simp only [List.cons_append, rbInsert, greater y List.mem_cons_self]
    rw [ih fun z hz => greater z (List.mem_cons_of_mem _ hz)]

namespace UvLoop
variable {u : UvLoop} {l : List Tid} {t : Tid}

structure Ordered (u : UvLoop) (l : List Tid) : Prop where
  tree : u.timerHandles.Lists l
  sorted : l.Pairwise fun a b => uvTimerCmp u.timer a b = .lt
  count : u.count = l.length

namespace Ordered

theorem enough (o : u.Ordered l) : 2 * Nat.log 2 (l.length + 1) < u.turns := by
  rw [turns, o.count]
  omega

theorem minTimer (o : u.Ordered l) : u.minTimer = .ok l.head? := by
  simp [UvLoop.minTimer, o.tree.rbMin o.enough]

theorem insertTimer (o : u.Ordered l) (fresh : t ∉ l) : ∃ h,
    u.insertTimer t = .ok { u with timerHandles := h, count := u.count + 1 } ∧
      Ordered { u with timerHandles := h, count := u.count + 1 }
        (rbInsert (uvTimerCmp u.timer) t l) := by
  obtain ⟨h, before, after, run, split, tree, between⟩ :=
    o.tree.insert o.sorted (uvTimerCmp_ne fresh) o.enough
  have list := rbInsert_between between
  rw [← split] at list
  refine ⟨h, by simp [UvLoop.insertTimer, run], ?_, ?_, ?_⟩
  · rw [list]
    exact tree
  · exact pairwise_rbInsert o.sorted
  · have length : l.length = before.length + after.length := by simp [split]
    simp only [list, o.count, length, List.length_append, List.length_cons]
    omega

theorem removeTimer (o : u.Ordered l) (ht : t ∈ l) : ∃ h,
    u.removeTimer t = .ok { u with timerHandles := h, count := u.count - 1 } ∧
      Ordered { u with timerHandles := h, count := u.count - 1 } (l.erase t) := by
  obtain ⟨h, run, tree⟩ := o.tree.remove ht o.enough
  refine ⟨h, by simp [UvLoop.removeTimer, run], tree, o.sorted.sublist List.erase_sublist, ?_⟩
  simp [List.length_erase_of_mem ht, o.count]

/-- What is no deadline of a set timer, nor the tree, does not matter. -/
theorem congr {v : UvLoop} (o : u.Ordered l) (tree : v.timerHandles = u.timerHandles)
    (count : v.count = u.count)
    (timer : ∀ x ∈ l, (v.timer x).timeout = (u.timer x).timeout) : v.Ordered l where
  tree := by
    rw [tree]
    exact o.tree
  sorted := o.sorted.imp_of_mem fun {a b} ha hb h => by
    rw [uvTimerCmp_lt] at h ⊢
    rw [timer a ha, timer b hb]
    exact h
  count := count.trans o.count

end Ordered

/-- Of the timers only `t` is written. -/
structure Wrote (u v : UvLoop) (t : Tid) (tm : Timer) : Prop where
  time : v.time = u.time
  inited : v.inited = u.inited
  fired : v.fired = u.fired
  timer : v.timer = Function.update u.timer t tm

theorem Wrote.trans {v w : UvLoop} {tm tm' : Timer} (a : u.Wrote v t tm) (b : v.Wrote w t tm') :
    u.Wrote w t tm' where
  time := b.time.trans a.time
  inited := b.inited.trans a.inited
  fired := b.fired.trans a.fired
  timer := by
    rw [b.timer, a.timer, Function.update_idem]

theorem Wrote.self {v : UvLoop} {tm : Timer} (a : u.Wrote v t tm) : v.timer t = tm := by
  rw [a.timer, Function.update_self]

theorem Wrote.other {v : UvLoop} {tm : Timer} (a : u.Wrote v t tm) {x : Tid} (hx : x ≠ t) :
    v.timer x = u.timer x := by
  rw [a.timer, Function.update_of_ne hx]

structure Kept (u : UvLoop) (l : List Tid) : Prop extends Ordered u l where
  pending : ∀ t, t ∈ l ↔ u.Pending t
  callback : ∀ t ∈ l, (u.timer t).timerCb = true
  active : u.activeHandles = (l.filter fun t => (u.timer t).ref).length
  rpt : ∀ t, u.inited t = true → (u.timer t).timerCb = true → (u.timer t).rpt < 2 ^ 63

theorem length_filter_erase {p : Tid → Bool} (ht : t ∈ l) :
    (l.filter p).length = ((l.erase t).filter p).length + if p t then 1 else 0 := by
  rw [((List.perm_cons_erase ht).filter p).length_eq, List.filter_cons]
  split <;> rfl

theorem length_filter_insert {p : Tid → Bool} {tm : Tid → Timer} (fresh : t ∉ l) :
    ((rbInsert (uvTimerCmp tm) t l).filter p).length =
      (l.filter p).length + if p t then 1 else 0 := by
  have perm : (rbInsert (uvTimerCmp tm) t l).Perm (t :: l) :=
    perm_rbInsert (fun _ _ he => (uvTimerCmp_eq.mp he).2) fresh
  rw [(perm.filter p).length_eq, List.filter_cons]
  split <;> rfl

theorem mem_insert {tm : Tid → Timer} {x : Tid} :
    x ∈ rbInsert (uvTimerCmp tm) t l ↔ x = t ∨ x ∈ l :=
  mem_rbInsert fun _ _ he => (uvTimerCmp_eq.mp he).2

namespace Kept

theorem nodup (k : u.Kept l) : l.Nodup := k.tree.nodup

theorem set (k : u.Kept l) (ht : u.inited t = true) : (u.timer t).active = true ↔ t ∈ l := by
  rw [k.pending, Pending]
  simp [ht]

theorem initial (h : u.Initial) : u.Kept [] where
  tree := .nil h.empty
  sorted := .nil
  count := h.count
  pending t := by simp [Pending, h.inited]
  callback t ht := by cases ht
  active := h.active
  rpt t ht := by simp [h.inited] at ht

/-- A timer leaves the tree, and its flag says so. -/
theorem stop (k : u.Kept l) (ht : u.inited t = true) : ∃ v, u.timerStop t = .ok v ∧
    u.Wrote v t { u.timer t with active := false } ∧ v.Kept (l.erase t) := by
  by_cases set : (u.timer t).active = true
  · have hl := (k.set ht).mp set
    obtain ⟨h, run, ordered⟩ := k.removeTimer hl
    let v : UvLoop :=
      { u with
        timerHandles := h
        count := u.count - 1
        timer := Function.update u.timer t { u.timer t with active := false }
        activeHandles := u.activeHandles - if (u.timer t).ref then 1 else 0 }
    have wrote : u.Wrote v t { u.timer t with active := false } := ⟨rfl, rfl, rfl, rfl⟩
    have ref : ∀ x, (v.timer x).ref = (u.timer x).ref := fun x => by
      by_cases hx : x = t <;> simp [v, hx]
    refine ⟨v, ?_, wrote, ?_⟩
    · cases hr : (u.timer t).ref <;> simp [timerStop, set, run, handleStop, setTimer, hr, v]
    · refine ⟨ordered.congr rfl rfl fun x hx => ?_, fun x => ?_, fun x hx => ?_, ?_,
        fun x hx hcb => ?_⟩
      · by_cases hx : x = t <;> simp [v, hx]
      · rw [k.nodup.mem_erase_iff, k.pending]
        by_cases hx : x = t <;> simp [v, Pending, hx]
      · rw [k.nodup.mem_erase_iff] at hx
        rw [wrote.other hx.1]
        exact k.callback x hx.2
      · have counted := k.active
        rw [length_filter_erase hl] at counted
        rw [show (fun x => (v.timer x).ref) = fun x => (u.timer x).ref from funext ref]
        show u.activeHandles - _ = _
        omega
      · by_cases hxt : x = t
        · subst hxt
          rw [wrote.self] at hcb ⊢
          exact k.rpt x ht hcb
        · rw [wrote.other hxt] at hcb ⊢
          exact k.rpt x hx hcb
  · have idle : (u.timer t).active = false := by simpa using set
    refine ⟨u, by simp [timerStop, idle], ⟨rfl, rfl, rfl, ?_⟩, ?_⟩
    · rw [← idle, Function.update_eq_self]
    · rwa [List.erase_of_not_mem (fun hl => set ((k.set ht).mpr hl))]

/-- A timer that is not set gets its callback and its times, and enters the tree. -/
theorem enter (k : u.Kept l) (ht : u.inited t = true) (idle : (u.timer t).active = false)
    (tm : Timer)
    (ref : tm.ref = (u.timer t).ref) (active : tm.active = false) (callback : tm.timerCb = true)
    (low : tm.rpt < 2 ^ 63) : 
    ∃ v, (u.setTimer t tm).insertTimer t >>= (fun u => .ok (u.handleStart t)) = .ok v ∧
      u.Wrote v t { tm with active := true } ∧ v.Kept (rbInsert (uvTimerCmp v.timer) t l) := by
  have fresh : t ∉ l := fun hl => by
    have set := (k.set ht).mpr hl
    simp [idle] at set
  have ne : ∀ x ∈ l, x ≠ t := fun x hx e => fresh (e ▸ hx)
  have ordered : Ordered (u.setTimer t tm) l :=
    k.toOrdered.congr rfl rfl fun x hx => by simp [setTimer, ne x hx]
  obtain ⟨h, run, ordered'⟩ := ordered.insertTimer fresh
  let v : UvLoop :=
    { u with
      timerHandles := h
      count := u.count + 1
      timer := Function.update u.timer t { tm with active := true }
      activeHandles := u.activeHandles + if tm.ref then 1 else 0 }
  have wrote : u.Wrote v t { tm with active := true } := ⟨rfl, rfl, rfl, rfl⟩
  have cmp : uvTimerCmp v.timer = uvTimerCmp (u.setTimer t tm).timer := by
    apply uvTimerCmp_congr
    intro x
    by_cases hx : x = t <;> simp [v, setTimer, hx]
  refine ⟨v, ?_, wrote, ?_⟩
  · rw [run]
    cases hr : tm.ref <;> simp [handleStart, setTimer, active, hr, v, Bind.bind, Except.bind]
  · rw [cmp]
    refine ⟨ordered'.congr rfl rfl fun x _ => ?_, fun x => ?_, fun x hx => ?_, ?_,
      fun x hx hcb => ?_⟩
    · by_cases hx : x = t <;> simp [v, setTimer, hx]
    · rw [mem_insert, k.pending]
      by_cases hx : x = t <;> simp [v, Pending, hx, ht]
    · rcases mem_insert.mp hx with rfl | hx
      · simpa [wrote.self] using callback
      · rw [wrote.other (ne x hx)]
        exact k.callback x hx
    · have old : l.filter (fun x => (v.timer x).ref) = l.filter fun x => (u.timer x).ref :=
        List.filter_congr fun x hx => by rw [wrote.other (ne x hx)]
      rw [length_filter_insert fresh, old, wrote.self, ← k.active]
    · by_cases hxt : x = t
      · subst hxt
        simpa [wrote.self] using low
      · rw [wrote.other hxt] at hcb ⊢
        exact k.rpt x hx hcb

theorem start (k : u.Kept l) (ht : u.inited t = true) (timeout rpt : Int) (nonneg : 0 ≤ timeout)
    (positive : 0 ≤ rpt) (low : rpt < 2 ^ 63) : ∃ v, u.timerStart t true timeout rpt = .ok v ∧
      u.Wrote v t ⟨true, (u.timer t).ref, true, (u.time + timeout.toNat) % 2 ^ 64, rpt.toNat⟩ ∧
      v.Kept (rbInsert (uvTimerCmp v.timer) t (l.erase t)) := by
  obtain ⟨w, run, stopped, kept⟩ := k.stop ht
  let tm : Timer := ⟨false, (u.timer t).ref, true, (u.time + timeout.toNat) % 2 ^ 64, rpt.toNat⟩
  obtain ⟨v, entered, wrote, kept'⟩ := kept.enter (stopped.inited ▸ ht) (by rw [stopped.self]) tm
    (by rw [stopped.self]) rfl rfl (show rpt.toNat < 2 ^ 63 by omega)
  refine ⟨v, ?_, stopped.trans wrote, kept'⟩
  have fields : w.setTimer t { w.timer t with
      timerCb := true, timeout := (w.time + timeout.toNat) % 2 ^ 64, rpt := rpt.toNat } =
        w.setTimer t tm := by
    rw [stopped.self, stopped.time]
  simp only [timerStart, require_pos nonneg, require_pos positive, ok_bind]
  split
  · rw [run, ok_bind, fields]
    exact entered
  · next idle =>
    obtain rfl : u = w := by simpa [timerStop, idle] using run
    rw [fields]
    exact entered

/-- A timer whose callback and repeat stay as they are. -/
theorem write (k : u.Kept l) {v : UvLoop} {tm : Timer} (wrote : u.Wrote v t tm)
    (tree : v.timerHandles = u.timerHandles)
    (count : v.count = u.count) (timeout : tm.timeout = (u.timer t).timeout)
      (active : tm.active = (u.timer t).active)
    (callback : tm.timerCb = (u.timer t).timerCb) (low : tm.timerCb = true → tm.rpt < 2 ^ 63)
    (counted : v.activeHandles = (l.filter fun t => (v.timer t).ref).length) : v.Kept l where
  toOrdered := k.toOrdered.congr tree count fun x _ => by
    by_cases hx : x = t
    · rw [hx, wrote.self, timeout]
    · rw [wrote.other hx]
  pending x := by
    rw [k.pending, Pending, Pending, wrote.inited]
    by_cases hx : x = t
    · rw [hx, wrote.self, active]
    · rw [wrote.other hx]
  callback x hx := by
    have := k.callback x hx
    by_cases hxt : x = t
    · rwa [hxt, wrote.self, callback, ← hxt]
    · rwa [wrote.other hxt]
  active := counted
  rpt x hx hcb := by
    rw [wrote.inited] at hx
    by_cases hxt : x = t
    · rw [hxt, wrote.self] at hcb ⊢
      exact low hcb
    · rw [wrote.other hxt] at hcb ⊢
      exact k.rpt x hx hcb

theorem setRepeat (k : u.Kept l) {rpt : Int} (nonneg : 0 ≤ rpt) (low : rpt < 2 ^ 63) :
    ∃ v, u.timerSetRepeat t rpt = .ok v ∧ u.Wrote v t { u.timer t with rpt := rpt.toNat } ∧
      v.Kept l := by
  have wrote : u.Wrote (u.setTimer t { u.timer t with rpt := rpt.toNat }) t
      { u.timer t with rpt := rpt.toNat } :=
    ⟨rfl, rfl, rfl, rfl⟩
  refine ⟨_, by simp [timerSetRepeat, nonneg], wrote, ?_⟩
  refine k.write wrote rfl rfl rfl rfl rfl (fun _ => show rpt.toNat < 2 ^ 63 by omega) ?_
  refine k.active.trans (congrArg List.length (List.filter_congr fun x _ => ?_))
  by_cases hx : x = t
  · rw [hx, wrote.self]
  · rw [wrote.other hx]

theorem length_filter_update {p : Tid → Bool} (nodup : l.Nodup) (b : Bool) :
    (l.filter (Function.update p t b)).length + (if t ∈ l ∧ p t = true then 1 else 0) =
      (l.filter p).length + if t ∈ l ∧ b = true then 1 else 0 := by
  by_cases ht : t ∈ l
  · have rest : (l.erase t).filter (Function.update p t b) = (l.erase t).filter p := by
      apply List.filter_congr
      intro x hx
      rw [Function.update_of_ne (nodup.mem_erase_iff.mp hx).1]
    rw [length_filter_erase ht, length_filter_erase (p := p) ht, rest, Function.update_self]
    simp only [ht, true_and]
    omega
  · have rest : l.filter (Function.update p t b) = l.filter p := by
      apply List.filter_congr
      rintro x hx
      rw [Function.update_of_ne]
      rintro rfl
      exact ht hx
    simp [rest, ht]

theorem setRef (k : u.Kept l) (ht : u.inited t = true) (b : Bool) :
    ∃ v, (if b then u.handleRef t else u.handleUnref t) = v ∧
      u.Wrote v t { u.timer t with ref := b } ∧ v.Kept l := by
  by_cases same : (u.timer t).ref = b
  · refine ⟨u, ?_, ⟨rfl, rfl, rfl, ?_⟩, k⟩
    · cases b <;> simp [handleRef, handleUnref, same]
    · rw [← same, Function.update_eq_self]
  · let v : UvLoop :=
      { u.setTimer t { u.timer t with ref := b } with
        activeHandles := (l.filter (Function.update (fun t => (u.timer t).ref) t b)).length }
    have wrote : u.Wrote v t { u.timer t with ref := b } := ⟨rfl, rfl, rfl, rfl⟩
    have refs : (fun x => (v.timer x).ref) = Function.update (fun t => (u.timer t).ref) t b := by
      funext x
      by_cases hx : x = t <;> simp [v, setTimer, hx]
    have counted := length_filter_update (p := fun t => (u.timer t).ref) k.nodup b (t := t)
    simp only [← k.active, ← k.set ht] at counted
    refine ⟨v, ?_, wrote, k.write wrote rfl rfl rfl rfl rfl (fun hcb => k.rpt t ht hcb) (by rw [refs])⟩
    cases b with
    | true =>
      have loose : (u.timer t).ref = false := by simpa using same
      cases active : (u.timer t).active <;> simp [loose, active] at counted <;>
        simp [handleRef, loose, active, setTimer, v, counted]
    | false =>
      have held : (u.timer t).ref = true := by simpa using same
      cases active : (u.timer t).active <;> simp [held, active] at counted
      · simp [handleUnref, held, active, setTimer, v, counted]
      · simp [handleUnref, held, active, setTimer, v, ← counted]

/-- The memory of a timer that is not set is written. -/
theorem aside (k : u.Kept l) {v : UvLoop} (unset : t ∉ l) (tree : v.timerHandles.Lists l)
    (count : v.count = u.count)
    (active : v.activeHandles = u.activeHandles) (timer : ∀ x, x ≠ t → v.timer x = u.timer x)
    (inited : ∀ x, x ≠ t → v.inited x = u.inited x) (idle : ¬ v.Pending t)
    (low : v.inited t = true → (v.timer t).timerCb = true → (v.timer t).rpt < 2 ^ 63) :
    v.Kept l := by
  have ne : ∀ x ∈ l, x ≠ t := by
    rintro x hx rfl
    exact unset hx
  refine ⟨⟨tree, k.sorted.imp_of_mem fun {a b} ha hb h => ?_, count.trans k.count⟩, fun x => ?_,
    fun x hx => ?_,
    active.trans (k.active.trans (congrArg List.length (List.filter_congr fun x hx => ?_))),
      fun x hx hcb => ?_⟩
  · rw [uvTimerCmp_lt] at h ⊢
    rwa [timer a (ne a ha), timer b (ne b hb)]
  · by_cases hx : x = t
    · subst hx
      exact iff_of_false unset idle
    · rw [k.pending, Pending, Pending, timer x hx, inited x hx]
  · rw [timer x (ne x hx)]
    exact k.callback x hx
  · rw [timer x (ne x hx)]
  · by_cases hxt : x = t
    · subst hxt
      exact low hx hcb
    · rw [inited x hxt] at hx
      rw [timer x hxt] at hcb ⊢
      exact k.rpt x hx hcb

theorem init (k : u.Kept l) (unset : ¬ u.Pending t) : (u.timerInit t).Kept l := by
  have ht : t ∉ l := fun h => unset ((k.pending t).mp h)
  refine k.aside ht k.tree rfl rfl (fun x hx => ?_) (fun x hx => ?_) ?_ ?_
  · simp [timerInit, setTimer, hx]
  · simp [timerInit, setTimer, hx]
  · simp [timerInit, setTimer, Pending]
  · simp [timerInit, setTimer]

theorem reuse (k : u.Kept l) (unset : ¬ u.Pending t) (tm : Timer) (entry : Side → Option Tid)
    (parent : Option Tid)
    (color : Color) : (u.reuse t tm entry parent color).Kept l := by
  have ht : t ∉ l := fun h => unset ((k.pending t).mp h)
  refine k.aside ht (k.tree.congr rfl fun z hz => ?_) rfl rfl (fun x hx => ?_)
    (fun x hx => ?_) ?_ ?_
  · have ne : z ≠ t := by
      rintro rfl
      exact ht hz
    exact (agree_setChild ne).trans <| (agree_setChild ne).trans <| (agree_setParent ne).trans
      (agree_setColor ne)
  · simp [UvLoop.reuse, setTimer, hx]
  · simp [UvLoop.reuse, setTimer, hx]
  · simp [UvLoop.reuse, Pending]
  · simp [UvLoop.reuse]

theorem updateTime (k : u.Kept l) (time : Nat) : Kept { u with time := time } l :=
  ⟨⟨k.tree, k.sorted, k.count⟩, k.pending, k.callback, k.active, k.rpt⟩

theorem error (k : u.Kept l) (err : UvErr) : Kept { u with lastErr := err } l :=
  ⟨⟨k.tree, k.sorted, k.count⟩, k.pending, k.callback, k.active, k.rpt⟩

theorem fire (k : u.Kept l) (fired : List Tid) : Kept { u with fired := fired } l :=
  ⟨⟨k.tree, k.sorted, k.count⟩, k.pending, k.callback, k.active, k.rpt⟩

end Kept

theorem bmod_eq {n k m : Nat} (half : m = 2 * k) (low : n < k) : Int.bmod n m = n := by
  apply Int.bmod_eq_of_le
  · omega
  · omega

theorem int64_eq {n : Nat} (low : n < 2 ^ 63) : int64 n = n := bmod_eq (by decide) low

/-- The timer after `uv_timer_again`. -/
def rearmed (tm : Timer) (time : Nat) : Timer :=
  if tm.timerCb = true ∧ tm.rpt ≠ 0 then
    { tm with active := true, timeout := (time + tm.rpt) % 2 ^ 64 }
  else tm

namespace Kept

theorem again (k : u.Kept l) (ht : u.inited t = true) : ∃ v r l', u.timerAgain t = .ok (v, r) ∧
    u.Wrote v t (rearmed (u.timer t) u.time) ∧ v.Kept l' ∧
    l' = if (u.timer t).timerCb = true ∧ (u.timer t).rpt ≠ 0 then rbInsert (uvTimerCmp v.timer) t
      (l.erase t) else l := by
  by_cases callback : (u.timer t).timerCb = true
  · by_cases once : (u.timer t).rpt = 0
    · refine ⟨u, 0, l, by simp [timerAgain, callback, once], ⟨rfl, rfl, rfl, ?_⟩, k, by simp [once]⟩
      simp [rearmed, once]
    · have low := k.rpt t ht callback
      obtain ⟨w, run, stopped, kept⟩ := k.stop ht
      obtain ⟨v, run', started, kept'⟩ := kept.start (stopped.inited ▸ ht) (u.timer t).rpt
        (u.timer t).rpt (by omega) (by omega) (by omega)
      have wrote := stopped.trans started
      rw [stopped.self, stopped.time] at wrote
      refine ⟨v, 0, _, ?_, ?_, kept', ?_⟩
      · simp [timerAgain, callback, once, run, int64_eq low, run']
      · simpa [rearmed, callback, once] using wrote
      · rw [if_pos ⟨callback, once⟩, List.erase_of_not_mem (a := t) k.nodup.not_mem_erase]
  · have callback : (u.timer t).timerCb = false := by simpa using callback
    refine ⟨{ u with lastErr := .einval }, -1, l, by simp [timerAgain, callback],
      ⟨rfl, rfl, rfl, ?_⟩, k.error _,
      by simp [callback]⟩
    simp [rearmed, callback]

/-- No timer is due. -/
theorem quiet (k : u.Kept l) (later : ∀ t ∈ l, u.time < (u.timer t).timeout) :
    u.runTimer = .ok none := by
  rw [runTimer, k.minTimer, ok_bind]
  cases l with
  | nil => rfl
  | cons t ts => simp [later t List.mem_cons_self]

/-- The first timer is due, and its callback is made. -/
theorem ring {ts : List Tid} (k : u.Kept (t :: ts)) (due : (u.timer t).timeout ≤ u.time) : ∃ v,
    u.runTimer = .ok (some v) ∧ v.time = u.time ∧ v.inited = u.inited ∧ v.fired = t :: u.fired ∧
    v.timer = Function.update u.timer t (rearmed { u.timer t with active := false } u.time) ∧
    v.Kept (if (u.timer t).rpt ≠ 0 then rbInsert (uvTimerCmp v.timer) t ts else ts) := by
  have ht := ((k.pending t).mp List.mem_cons_self).1
  have callback := k.callback t List.mem_cons_self
  obtain ⟨w, run, stopped, kept⟩ := k.stop ht
  obtain ⟨v, r, l', run', rung, kept', list⟩ := kept.again (stopped.inited ▸ ht)
  have wrote := stopped.trans rung
  rw [stopped.self, stopped.time] at wrote
  rw [List.erase_cons_head] at kept
  have fresh := (List.nodup_cons.mp k.nodup).1
  rw [stopped.self, List.erase_cons_head, List.erase_of_not_mem fresh] at list
  have called : (v.timer t).timerCb = true := by
    rw [wrote.self, rearmed]
    split <;> exact callback
  refine ⟨{ v with fired := t :: v.fired }, ?_, wrote.time, wrote.inited, by rw [wrote.fired],
    wrote.timer, ?_⟩
  · have first : ¬ u.time < (u.timer t).timeout := by omega
    simp [runTimer, k.minTimer, first, run, run', called]
  · have list : l' = if (u.timer t).rpt ≠ 0 then rbInsert (uvTimerCmp v.timer) t ts else ts := by
      simpa [callback] using list
    rw [← list]
    exact kept'.fire _

end Kept

end UvLoop
end Gevent
