import Gevent.Refine.Views

/-!
# The intrusive lists agree with the states

Following `next` from each list head visits exactly the cothreads whose state
says so, in the order in which they were enqueued; and no link word of a linked
node was ever written except by the queue operations (`queues_are_fifo_lists`).
-/

namespace Gevent
open Intrusive

/-- `t` waits in `q`, as its `state` and the call on its stack say. -/
def World.WaitsIn (w : World) (t : Tid) : QueueId → Prop
  | .ready => (w.co t).state = .ready
  | .receivers ch => (w.co t).state = .channelR ∧ ∃ f, w.frame t = some f ∧ f.pending = .receive ch
  | .senders ch =>
    (w.co t).state = .channelS ∧ ∃ f v, w.frame t = some f ∧ f.pending = .send ch v

/-- The list at `q` as plain first-in first-out operations leave it. -/
def World.enqueued (w : World) (q : QueueId) : List Word := contents w.links.history (.head q)

structure World.QueueLists (w : World) : Prop where
  visits : ∀ q x, w.links.links.Visits (.head q) x ↔
    ∃ t, x = .op t ∧ t ∈ w.env.known ∧ w.WaitsIn t q
  order : ∀ q i (hi : i < (w.enqueued q).length),
    w.links.links.next^[i + 1] (.head q) = (w.enqueued q)[i]
  closed : ∀ q, w.links.links.next^[(w.enqueued q).length + 1] (.head q) = .head q
  once : ∀ q, (w.enqueued q).Nodup
  back : ∀ q x, x = .head q ∨ w.links.links.Visits (.head q) x →
    w.links.links.prev (w.links.links.next x) = x ∧ w.links.links.next (w.links.links.prev x) = x
  apart : ∀ q q' x, w.links.links.Visits (.head q) x → w.links.links.Visits (.head q') x → q = q'
  disciplined : Disciplined w.links.history

namespace Paired
variable {w : World} {s : Sched} {t : Tid} {q : QueueId}

theorem ring (p : Paired w s) (q : QueueId) : w.links.links.Ring (.head q) (w.enqueued q) :=
  p.good.ring _ ⟨q, rfl⟩

theorem visits_iff (p : Paired w s) {x : Word} :
    w.links.links.Visits (.head q) x ↔ ∃ t, x = .op t ∧ t ∈ s.queue q := by
  rw [(p.ring q).visits_iff, World.enqueued, p.contents, List.mem_map]
  exact ⟨fun ⟨t, ht, he⟩ => ⟨t, he.symm, ht⟩, fun ⟨t, he, ht⟩ => ⟨t, ht, he.symm⟩⟩

/-- The states say who is queued where. -/
theorem queued_iff (p : Paired w s) (known : t ∈ w.env.known) : t ∈ s.queue q ↔ w.WaitsIn t q := by
  have hs := p.state_eq (t := t)
  rw [p.base.core.queues.queued q t]
  cases hp : s.place t with
  | unborn => exact absurd hp (p.known_iff.mp known)
  | new | running | dead => cases q <;> simp [World.WaitsIn, hs, hp]
  | blocked f =>
    rw [hp] at hs
    have hf := (p.frame_eq t).mpr hp
    obtain ⟨self, call, op, pending, caller⟩ := f
    cases q <;> cases pending <;> simp [World.WaitsIn, hs, hf, Pending.queue, Pending.state]

theorem queueLists (p : Paired w s) : w.QueueLists where
  visits q x := by
    rw [p.visits_iff]
    constructor
    · rintro ⟨t, rfl, ht⟩
      have known : t ∈ w.env.known := by
        obtain ⟨f, hf, -⟩ := (p.base.core.queues.queued q t).mp ht
        rw [p.known_iff, show s.place t = .blocked f from hf]
        simp
      exact ⟨t, rfl, known, (p.queued_iff known).mp ht⟩
    · rintro ⟨t, rfl, known, ht⟩
      exact ⟨t, rfl, (p.queued_iff known).mpr ht⟩
  order q := (p.ring q).next_iterate.1
  closed q := (p.ring q).next_iterate.2
  once q := (List.nodup_cons.mp (p.ring q).nodup).2
  back q x hx := by
    rw [(p.ring q).visits_iff] at hx
    exact (p.ring q).prev_next (List.mem_cons.mpr hx)
  apart q q' x h h' := by
    rw [(p.ring _).visits_iff] at h h'
    exact Word.head.inj (p.good.apart _ _ _ h h')
  disciplined := p.good.disciplined

end Paired

/-- At every point where own code of a cothread or the loop runs, the lists that
gevent.c keeps inside the `op` unions are first-in first-out lists of exactly the
cothreads whose state says that they wait there. -/
theorem queues_are_fifo_lists {w : World} (r : gevent.Reach anyStep w) : w.QueueLists := by
  obtain ⟨s, p⟩ := reach_paired r
  exact p.queueLists

set_option maxRecDepth 100000 in
/-- Two receivers wait on one channel, a ready cothread in the ready list. -/
theorem queues_are_fifo_lists_run : ∃ w, gevent.Reach anyStep w ∧
    w.enqueued (.receivers (.plain 0)) = [.op 1, .op 2] ∧ w.enqueued .ready = [.op 0] ∧
    w.QueueLists := by
  have h : (gevent.play anyStep zeroStart [.cothreadInit 1 1, .cothreadInit 2 1,
      .cothreadInit 3 1, .call (.spawn 1), .call (.receive (.plain 0)), .call (.spawn 2),
      .call (.receive (.plain 0)), .call (.spawn 3)]).any (fun w =>
        decide (w.enqueued (.receivers (.plain 0)) = [.op 1, .op 2] ∧
          w.enqueued .ready = [.op 0])) = true := by decide
  obtain ⟨w, r, hr, hready⟩ := Machine.Reach.of_play zeroStart_start h
  exact ⟨w, r, hr, hready, queues_are_fifo_lists r⟩

end Gevent
