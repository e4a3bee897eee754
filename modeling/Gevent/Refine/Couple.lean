import Gevent.Sched

/-!
# Coupling the program with the scheduler

`Couple w s h` relates everything but the code that is executing. `h` gives the
handle of every suspended stack; it is what the structs store (`World.stored`)
except while a switch is under way, when the handle of the stack just left has
not been stored yet. A cothread whose place is `running` may be in the middle of
a gevent call: nothing is said about its struct.
-/

namespace Gevent
open Intrusive

/-- The handles stored in the structs: `t->stacklet` and `hub->stacklet`. -/
def World.stored (w : World) : Option Tid → Handle
  | some t => (w.co t).stacklet
  | none => w.hub.stacklet

theorem World.stored_congr {w w' : World} (hhub : w'.hub.stacklet = w.hub.stacklet)
    (hco : w'.co = w.co) : w'.stored = w.stored := by
  funext o
  cases o <;> simp [stored, hhub, hco]

/-- What the struct of `t` says about its place. -/
def Cell (w : World) (t : Tid) : Place → Prop
  | .unborn => True
  | .new => (w.co t).state = .new ∧ w.links.links.prev (.op t) ≠ .null ∧ (w.co t).stacklet = .null
  | .running => True
  | .blocked f => (w.co t).state = f.pending.state ∧
      (∀ ch v, f.pending = .send ch v → (w.co t).third = v) ∧
      (f.pending = .sleep → (w.co t).third = .loop)
  | .dead => (w.co t).state = .dead ∨ w.hub.current = some t

theorem Cell.congr {w w' : World} {t : Tid} {p : Place} (hc : Cell w t p) (hco : w'.co t = w.co t)
    (hcurrent : w'.hub.current = w.hub.current)
    (hprev : p = .new → w'.links.links.prev (.op t) = w.links.links.prev (.op t)) : Cell w' t p := by
  cases p with
  | new => simpa only [Cell, hco, hprev rfl] using hc
  | unborn | running => trivial
  | blocked f => simpa only [Cell, hco] using hc
  | dead => simpa only [Cell, hco, hcurrent] using hc

/-- The stack of `o` is the suspended one that the scheduler expects. -/
def Sched.Expects (s : Sched) (st : Stack) : Prop :=
  match st.owner with
  | some t => ∃ f, s.place t = .blocked f ∧ st = ⟨some t, some t, .api f⟩
  | none => ∃ ph, s.hub = .suspended ph ∧ st = ⟨none, none, .callback ph⟩

structure Couple (w : World) (s : Sched) (h : Option Tid → Handle) : Prop where
  main : w.hub.main = s.main
  env : w.env = s.env
  good : w.links.Good Word.IsHead
  contents : ∀ q, contents w.links.history (.head q) = (s.queue q).map .op
  linked : ∀ q t, t ∈ s.queue q → s.place t ≠ .new
  fresh : ∀ n, w.thread.next ≤ n → w.thread.suspended n = none
  parked : ∀ t f, s.place t = .blocked f →
    ∃ n, h (some t) = .stack n ∧ w.thread.suspended n = some ⟨some t, some t, .api f⟩
  hubParked : ∀ ph, s.hub = .suspended ph →
    ∃ n, h none = .stack n ∧ w.thread.suspended n = some ⟨none, none, .callback ph⟩
  hubIdle : s.hub = .idle → w.hub.stacklet = .null
  owned : ∀ n st, w.thread.suspended n = some st → h st.owner = .stack n ∧ s.Expects st
  usedNodup : w.thread.used.Nodup
  used : ∀ x ∈ w.thread.used, ∃ n, x = .stack n ∧ n < w.thread.next ∧ w.thread.suspended n = none
  cell : ∀ t, Cell w t (s.place t)

/-- At a point where own code of a cothread or of the loop is next. -/
structure Corr (w : World) (s : Sched) : Prop extends Couple w s w.stored where
  control : w.control = s.control
  current : w.hub.current = s.control.owner
  running : ∀ t, s.place t = .running → (w.co t).state = .current ∧ (w.co t).stacklet = .null
  hubRunning : s.hub = .running → w.hub.stacklet = .null

namespace Couple
variable {w : World} {s : Sched} {h h' : Option Tid → Handle} {t u : Tid} {q : QueueId} {f : Frame}

theorem mapEnv (c : Couple w s h) (g : Env → Env) :
    Couple { w with env := g w.env } { s with env := g s.env } h :=
  { c with env := congrArg g c.env }

theorem emit (c : Couple w s h) (e : Event) : Couple (w.emit e) (s.emit e) h :=
  c.mapEnv fun env => env.emit e

theorem withControl (c : Couple w s h) (a b : Control) :
    Couple { w with control := a } { s with control := b } h :=
  { c with }

/-- `h` only matters for stacks that are suspended. -/
theorem withHandles (c : Couple w s h) (hco : ∀ t f, s.place t = .blocked f → h' (some t) = h (some t))
    (hhub : ∀ ph, s.hub = .suspended ph → h' none = h none) : Couple w s h' :=
  { c with
    parked := fun t f hp => by rw [hco t f hp]; exact c.parked t f hp
    hubParked := fun ph hp => by rw [hhub ph hp]; exact c.hubParked ph hp
    owned := fun n st hst => by
      obtain ⟨ho, he⟩ := c.owned n st hst
      refine ⟨?_, he⟩
      obtain ⟨owner, current, k⟩ := st
      cases owner with
      | some t =>
        obtain ⟨f, hp, -⟩ := he
        exact (hco t f hp).trans ho
      | none =>
        obtain ⟨ph, hp, -⟩ := he
        exact (hhub ph hp).trans ho }

/-- The struct of a running cothread is its own business. -/
theorem modify (c : Couple w s h) (ht : s.place t = .running) (g : Cothread → Cothread) :
    Couple (w.modify t g) s h :=
  { c with
    cell := fun u => by
      by_cases hu : u = t
      · subst hu; rw [ht]; trivial
      · exact (c.cell u).congr (Function.update_of_ne hu _ _) rfl fun _ => rfl }

/-! ## Queues -/

theorem mem_contents (c : Couple w s h) : Word.op t ∈ Intrusive.contents w.links.history (.head q) ↔
    t ∈ s.queue q := by
  simp [c.contents]

theorem unlinked (c : Couple w s h) (ht : ∀ q, t ∉ s.queue q) :
    Unlinked w.links.history (.op t) := by
  intro x hx
  obtain ⟨q, rfl⟩ := (c.good.member _ _ hx).1
  exact ht q (c.mem_contents.mp hx)

theorem new_unlinked (c : Couple w s h) (ht : s.place t = .new) :
    Unlinked w.links.history (.op t) :=
  c.unlinked fun q hq => c.linked q t hq ht

theorem queueEmpty (c : Couple w s h) (q : QueueId) : w.queueEmpty q = true ↔ s.queue q = [] := by
  rw [World.queueEmpty, (c.good.ring _ ⟨q, rfl⟩).isEmpty_iff, c.contents]
  simp

theorem queueEmpty_cons (c : Couple w s h) {us : List Tid} (hq : s.queue q = u :: us) :
    w.queueEmpty q = false := by
  cases he : w.queueEmpty q with
  | false => rfl
  | true => rw [(c.queueEmpty q).mp he] at hq; cases hq

theorem queueHead (c : Couple w s h) {us : List Tid} (hq : s.queue q = u :: us) :
    w.queueHead q = .op u := by
  have hr := c.good.ring (.head q) ⟨q, rfl⟩
  rw [c.contents, hq, List.map_cons] at hr
  exact hr.head_eq

theorem push (c : Couple w s h) (ht : s.place t = .running) (hq : ∀ q, t ∉ s.queue q) :
    Couple (w.insertTail q t) (s.push q t) h :=
  have hu := c.unlinked hq
  { c with
    good := c.good.insertTail (Word.isHead_head q) (Word.not_isHead_op t) hu
    contents := fun q' => by
      by_cases he : q = q'
      · subst he
        simp [World.insertTail, Traced.insertTail, Sched.push, Intrusive.contents, c.contents]
      · have hne : (Word.head q : Word) ≠ .head q' := fun h => he (Word.head.inj h)
        simp [World.insertTail, Traced.insertTail, Sched.push, Intrusive.contents, c.contents, he,
          Function.update_of_ne (Ne.symm he)]
    linked := fun q' u hm => by
      by_cases he : q' = q
      · subst he
        simp only [Sched.push, Function.update_self, List.mem_append, List.mem_singleton] at hm
        rcases hm with hm | rfl
        · exact c.linked q' u hm
        · exact fun hn => by rw [Sched.push] at hn; simp [ht] at hn
      · simp only [Sched.push, Function.update_of_ne he] at hm
        exact c.linked q' u hm
    cell := fun u => (c.cell u).congr rfl rfl fun hp => by
      have hne : (Word.op u) ≠ .op t := by
        intro he
        rw [Word.op.inj he, ht] at hp
        cases hp
      exact Traced.insertTail_prev w.links (Word.isHead_head q) (Word.not_isHead_op u) hne }

theorem unlink (c : Couple w s h) (ht : t ∈ s.queue q) :
    Couple (w.queueRemove t) (s.unlink q t) h :=
  have hm := c.mem_contents.mpr ht
  { c with
    good := c.good.remove hm
    contents := fun q' => by
      by_cases he : q' = q
      · subst he
        simp only [World.queueRemove, Traced.remove, Intrusive.contents, c.contents, Sched.unlink,
          Function.update_self]
        exact (List.map_erase (fun a b h => Word.op.inj h) _).symm
      · have hnot : Word.op t ∉ Intrusive.contents w.links.history (.head q') := by
          intro hm'
          exact he (Word.head.inj (c.good.apart _ _ _ hm' hm))
        simp only [World.queueRemove, Traced.remove, Intrusive.contents, Sched.unlink,
          Function.update_of_ne he, List.erase_of_not_mem hnot]
        exact c.contents q'
    linked := fun q' u hm' => by
      by_cases he : q' = q
      · subst he
        simp only [Sched.unlink, Function.update_self] at hm'
        exact c.linked q' u (List.mem_of_mem_erase hm')
      · simp only [Sched.unlink, Function.update_of_ne he] at hm'
        exact c.linked q' u hm'
    cell := fun u => (c.cell u).congr rfl rfl fun hp =>
      c.good.remove_prev hm (Word.not_isHead_op u) (c.new_unlinked hp) }

/-- Link words may be written through other members while their node is in no queue. -/
theorem overwrite (c : Couple w s h) (ht : s.place t ≠ .new) {l : Traced Word}
    (good : l.Good Word.IsHead)
    (hcontents : ∀ x, Intrusive.contents l.history x = Intrusive.contents w.links.history x)
    (hprev : ∀ u, u ≠ t → l.links.prev (.op u) = w.links.links.prev (.op u)) :
    Couple { w with links := l } s h :=
  { c with
    good := good
    contents := fun q => (hcontents _).trans (c.contents q)
    cell := fun u => (c.cell u).congr rfl rfl fun hp => hprev u fun he => ht (he ▸ hp) }

theorem writePrev (c : Couple w s h) (ht : s.place t ≠ .new) (hq : ∀ q, t ∉ s.queue q) (v : Word) :
    Couple { w with links := w.links.writePrev (.op t) v } s h :=
  c.overwrite ht (c.good.writePrev (Word.not_isHead_op t) (c.unlinked hq) v) (fun _ => rfl)
    fun u hu => by
      have hne : (Word.op u) ≠ .op t := fun h => hu (Word.op.inj h)
      simp [Traced.writePrev, Links.setPrev, Function.update_of_ne hne]

theorem writeNext (c : Couple w s h) (ht : s.place t ≠ .new) (hq : ∀ q, t ∉ s.queue q) (v : Word) :
    Couple { w with links := w.links.writeNext (.op t) v } s h :=
  c.overwrite ht (c.good.writeNext (Word.not_isHead_op t) (c.unlinked hq) v) (fun _ => rfl)
    fun _ _ => rfl

theorem contents_op (c : Couple w s h) (t : Tid) :
    Intrusive.contents w.links.history (.op t) = [] := by
  cases hl : Intrusive.contents w.links.history (.op t) with
  | nil => rfl
  | cons x xs =>
    have := (c.good.member (.op t) x (by simp [hl])).1
    exact absurd this (Word.not_isHead_op t)

theorem initNode (c : Couple w s h) (ht : s.place t ≠ .new) (hq : ∀ q, t ∉ s.queue q) :
    Couple { w with links := w.links.init (.op t) } s h :=
  c.overwrite ht (c.good.init (c.unlinked hq) (c.contents_op t)) (fun _ => rfl)
    fun u hu => by
      have hne : (Word.op u) ≠ .op t := fun h => hu (Word.op.inj h)
      simp [Traced.init, Links.init, Links.setPrev, Links.setNext, Function.update_of_ne hne]

theorem head_unlinked (c : Couple w s h) (q : QueueId) :
    Unlinked w.links.history (.head q) := fun x hx =>
  (c.good.member x _ hx).2 (Word.isHead_head q)

theorem initHead (c : Couple w s h) (hq : s.queue q = []) :
    Couple { w with links := w.links.init (.head q) } s h :=
  { c with
    good := c.good.init (c.head_unlinked q) (by simp [c.contents, hq])
    contents := c.contents
    cell := fun u => (c.cell u).congr rfl rfl fun _ => by
      simp [Traced.init, Links.init, Links.setPrev, Links.setNext] }

end Couple
end Gevent
