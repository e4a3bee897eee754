import Gevent.Refine.Views
import Gevent.Sched.Meetings
import Gevent.Sched.Resorts
import Gevent.Sched.Returns

/-!
# Histories of runs

What is in order in the history of every run of the program (`Paired.ordered`),
and what follows for a call that returned: it was served, or it was given up on
in a resort to the main cothread (`Ordered.served`, `Ordered.resorted`).
-/

namespace Gevent

structure Ordered (main : Tid) (log : List Event) : Prop where
  fresh : Hist Event.Fresh log
  turns : Hist Event.InTurn log
  returns : Hist (Event.Returns main) log

namespace Ordered
variable {main : Tid} {log l₁ l₂ : List Event} {ch : Chan} {k k' : CallId} {v : Word} {t : Tid}
  {c : Call} {r : Result}

theorem past (h : Ordered main (l₁ ++ l₂)) : Ordered main l₂ :=
  ⟨h.fresh.past, h.turns.past, h.returns.past⟩

/-- A call returns after a fall-back only on the main cothread. -/
theorem served (h : Ordered main (l₁ ++ .ret k t c r :: l₂)) (channel : c ≠ .getaddrinfo .submitted) :
    Served k r l₂ c ∨ t = main ∧ .fallback k ∈ l₂ := by
  obtain ⟨hcall, why⟩ := h.returns.at
  refine why.imp id fun hw => ?_
  have hfall : .fallback k ∈ l₂ := hw.resolve_right fun hl => channel hl.1
  have h₂ : Ordered main l₂ := Ordered.past (show Ordered main ([.ret k t c r] ++ l₂) from h.past)
  obtain ⟨a, b, rfl, ⟨⟨d, hd⟩, -⟩⟩ := h₂.returns.of_mem hfall
  have hd : Event.call k main d ∈ a ++ .fallback k :: b :=
    List.mem_append_right _ (List.mem_cons_of_mem _ hd)
  exact ⟨(call_unique h₂.fresh hcall hd).1, hfall⟩

/-- How the main cothread came to be resumed in the middle of call `k`. -/
theorem resorted {B D : Frame → Prop} (h : Ordered main log)
    (spared : Hist (Event.Spared B D main) log) (hfall : .fallback k ∈ log)
    (hc : .call k t c ∈ log) : ∃ a b, ∃ f : Frame, log = a ++ .fallback k :: b ∧
      .call k t c ∈ b ∧ f.op = c ∧ f.Fits ∧ f.pending.queue ≠ some .ready ∧
      ((∃ u l, b = .finish u :: l) ∧ ¬ B f ∨
        (∃ l, b = .runEnd :: l) ∧ ¬ D f ∧ (∀ d, c ≠ .sleep d) ∧ c ≠ .getaddrinfo .submitted) := by
  obtain ⟨a, b, rfl, ⟨f, rfl, -, fits, hready, hmade, reason⟩, -, why⟩ :=
    (spared.and h.returns).of_mem hfall
  have hf := hmade _ f.call_mem_made
  have up : Event.call f.call f.self f.op ∈ a ++ .fallback f.call :: b :=
    List.mem_append_right _ (List.mem_cons_of_mem _ hf)
  obtain ⟨rfl, rfl⟩ := call_unique h.fresh hc up
  refine ⟨a, b, f, rfl, hf, rfl, fits, hready, reason.imp id ?_⟩
  rintro ⟨⟨l, rfl⟩, hD⟩
  refine ⟨⟨l, rfl⟩, hD, ?_⟩
  rcases why with ⟨u, l', hl⟩ | ⟨-, hop⟩
  · cases hl
  · exact hop _ _ hf

end Ordered

theorem scheduler_meetings {R : Rules} {s : Sched} (r : scheduler.Reach R.Admit s) :
    Meetings ⟨s, none⟩ :=
  scheduler_invariant (fun _ h => .initial h) (fun _ _ b h hm => h.move b.core b.calls hm) r

theorem scheduler_returns {R : Rules} {s : Sched} (r : scheduler.Reach R.Admit s) :
    Returns ⟨s, none⟩ :=
  scheduler_invariant (fun _ h => .initial h)
    (fun _ _ b h hm => h.move b.core b.timers b.calls b.lookups hm) r

theorem Paired.ordered {w : World} {s : Sched} (p : Paired w s) : Ordered w.hub.main w.env.log := by
  rw [p.env, p.main]
  have r := Rules.reach_any p.reach
  exact ⟨p.base.calls.ordered, (scheduler_meetings r).ordered, (scheduler_returns r).ordered⟩

end Gevent
