import Gevent.Histories
import Gevent.QueueLists

/-!
# Channels

In every run hand-overs are first-in first-out, exactly-once and
value-preserving, and spawned cothreads return from a channel only after one
(`channels_rendezvous`). The main cothread does too as long as it is not resumed
as a last resort in the middle of a channel call (`main_rendezvous`).
-/

namespace Gevent

/-- What the history of a run says about its hand-overs. -/
structure Rendezvous (main : Tid) (log : List Event) : Prop where
  once : ∀ l₁ ch k k' v l₂, log = l₁ ++ .handover ch k k' v :: l₂ →
    k ≠ k' ∧ ∀ ch' i i' v', .handover ch' i i' v' ∈ l₁ ++ l₂ → i ≠ k ∧ i ≠ k' ∧ i' ≠ k ∧ i' ≠ k'
  longest : ∀ l₁ ch k k' v l₂, log = l₁ ++ .handover ch k k' v :: l₂ →
    LongestBlocked (.senders ch) k l₂ ∨ LongestBlocked (.receivers ch) k' l₂
  made : ∀ l₁ ch k k' v l₂, log = l₁ ++ .handover ch k k' v :: l₂ →
    (∃ t, .call k t (.send ch v) ∈ l₂) ∧ ∃ t, .call k' t (.receive ch) ∈ l₂
  value : ∀ ch k k' v t c r, .handover ch k k' v ∈ log → .ret k' t c r ∈ log → r = .value v
  sends : ∀ l₁ k t ch v r l₂, log = l₁ ++ .ret k t (.send ch v) r :: l₂ → t ≠ main →
    ∃ k', .handover ch k k' v ∈ l₂
  receives : ∀ l₁ k t ch r l₂, log = l₁ ++ .ret k t (.receive ch) r :: l₂ → t ≠ main →
    ∃ k' v, .handover ch k' k v ∈ l₂ ∧ r = .value v

namespace Ordered
variable {main : Tid} {log : List Event}

theorem rendezvous (h : Ordered main log) : Rendezvous main log where
  once l₁ ch k k' v l₂ hlog := by
    subst hlog
    refine ⟨(h.turns.at : Event.InTurn _ _).2.2.1, fun ch' i i' v' hm => ?_⟩
    have hev : Event.handover ch k k' v ∈ l₁ ++ .handover ch k k' v :: l₂ := by simp
    have hev' : Event.handover ch' i i' v' ∈ l₁ ++ .handover ch k k' v :: l₂ := by
      rcases List.mem_append.mp hm with hm | hm <;> simp [hm]
    -- two events that wake one call are the same, and the event occurs once
    have hne : ∀ j, j ∈ (Event.handover ch k k' v).wakes →
        j ∉ (Event.handover ch' i i' v').wakes := by
      intro j hj hj'
      have he := wakes_unique h.turns hev' hev hj' hj
      rw [he] at hm
      rcases List.mem_append.mp hm with hm | hm
      · obtain ⟨a, b, rfl⟩ := List.append_of_mem hm
        have ht : Hist Event.InTurn (a ++ .handover ch k k' v :: (b ++ .handover ch k k' v :: l₂)) := by
          simpa using h.turns
        exact ht.at.1 ⟨_, List.mem_append_right _ List.mem_cons_self, by simp [Event.wakes]⟩
      · exact h.turns.at.1 ⟨_, hm, by simp [Event.wakes]⟩
    have hk := hne k (by simp [Event.wakes])
    have hk' := hne k' (by simp [Event.wakes])
    simp only [Event.wakes, List.mem_cons, List.not_mem_nil, or_false, not_or] at hk hk'
    exact ⟨Ne.symm hk.1, Ne.symm hk'.1, Ne.symm hk.2, Ne.symm hk'.2⟩
  longest l₁ ch k k' v l₂ hlog := by
    subst hlog
    obtain ⟨-, -, -, ends, -, -, head⟩ := h.turns.at
    exact head.imp (fun hd => longest_blocked hd fun ev hev => (ends ev hev).1)
      fun hd => longest_blocked hd fun ev hev => (ends ev hev).2
  made l₁ ch k k' v l₂ hlog := by
    subst hlog
    obtain ⟨-, -, -, -, sender, receiver, -⟩ := h.turns.at
    exact ⟨sender, receiver⟩
  value ch k k' v t c r hh hr := by
    obtain ⟨l₁, l₂, rfl⟩ := List.append_of_mem hr
    have hwake : k' ∈ (Event.handover ch k k' v).wakes := by simp [Event.wakes]
    have up : ∀ ev ∈ l₂, ev ∈ l₁ ++ .ret k' t c r :: l₂ := by
      intro ev hev
      exact List.mem_append_right _ (List.mem_cons_of_mem _ hev)
    obtain ⟨hcall, -⟩ := h.returns.at
    have hc : c = .receive ch := by
      obtain ⟨a, b, hab, hturn⟩ := h.turns.of_mem hh
      obtain ⟨-, -, -, -, -, ⟨u, hu⟩, -⟩ := hturn
      have hu : Event.call k' u (.receive ch) ∈ l₁ ++ .ret k' t c r :: l₂ := by
        rw [hab]
        exact List.mem_append_right _ (List.mem_cons_of_mem _ hu)
      exact (call_unique h.fresh (up _ hcall) hu).2
    subst hc
    rcases h.served (by simp) with ⟨i, v', hh', rfl⟩ | ⟨-, hfall⟩
    · have := wakes_unique h.turns hh (up _ hh') hwake (by simp [Event.wakes])
      cases this
      rfl
    · have := wakes_unique h.turns hh (up _ hfall) hwake (by simp [Event.wakes])
      cases this
  sends l₁ k t ch v r l₂ hlog hne := by
    subst hlog
    exact (h.served (by simp)).resolve_right fun hm => hne hm.1
  receives l₁ k t ch r l₂ hlog hne := by
    subst hlog
    exact (h.served (by simp)).resolve_right fun hm => hne hm.1

end Ordered

namespace Paired
variable {w : World} {s : Sched}

/-- Senders and receivers do not wait on one channel. -/
theorem one_sided (p : Paired w s) {ch : Chan} {t u : Tid} (ht : t ∈ w.env.known)
    (hu : u ∈ w.env.known) (receives : w.WaitsIn t (.receivers ch)) :
    ¬ w.WaitsIn u (.senders ch) := by
  intro sends
  have hr := (p.queued_iff ht).mpr receives
  have hs := (p.queued_iff hu).mpr sends
  rcases p.base.core.oneSided ch with h | h <;> simp_all

end Paired

/-- For every run: each call takes part in at most one hand-over, the partner is
the one blocked longest, the value passes unchanged, spawned cothreads return
only after their hand-over, and no channel has blocked senders and blocked
receivers at once. -/
theorem channels_rendezvous {w : World} (r : gevent.Reach anyStep w) :
    Rendezvous w.hub.main w.env.log ∧ ∀ ch t u, t ∈ w.env.known → u ∈ w.env.known →
      w.WaitsIn t (.receivers ch) → ¬ w.WaitsIn u (.senders ch) := by
  obtain ⟨s, p⟩ := reach_paired r
  exact ⟨p.ordered.rendezvous, fun ch t u => p.one_sided⟩

set_option maxRecDepth 100000 in
/-- A receiver that waits meets a sender, then a sender that waits meets a receiver. -/
theorem channels_rendezvous_run : ∃ w, gevent.Reach anyStep w ∧
    .handover (.plain 0) 2 1 (.data 7) ∈ w.env.log ∧
    .handover (.plain 0) 3 4 (.data 8) ∈ w.env.log ∧
    Rendezvous w.hub.main w.env.log ∧ ∀ ch t u, t ∈ w.env.known → u ∈ w.env.known →
      w.WaitsIn t (.receivers ch) → ¬ w.WaitsIn u (.senders ch) := by
  have h : (gevent.play anyStep zeroStart [.cothreadInit 1 1, .call (.spawn 1),
      .call (.receive (.plain 0)), .call (.send (.plain 0) (.data 7)),
      .call (.send (.plain 0) (.data 8)), .call (.receive (.plain 0))]).any (fun w => decide
        (.handover (.plain 0) 2 1 (.data 7) ∈ w.env.log ∧
          .handover (.plain 0) 3 4 (.data 8) ∈ w.env.log)) = true := by decide
  obtain ⟨w, r, h1, h2⟩ := Machine.Reach.of_play zeroStart_start h
  exact ⟨w, r, h1, h2, channels_rendezvous r⟩

/-! ## The main cothread -/

/-- The call is blocked on a channel. -/
def Frame.InChannel (f : Frame) : Prop :=
  match f.pending with
  | .receive _ | .send _ _ => True
  | _ => False

instance : DecidablePred Frame.InChannel
  | ⟨_, _, _, .receive _, _⟩ | ⟨_, _, _, .send _ _, _⟩ => isTrue trivial
  | ⟨_, _, _, .spawn, _⟩ | ⟨_, _, _, .sleep, _⟩ | ⟨_, _, _, .wait, _⟩ | ⟨_, _, _, .received _, _⟩
  | ⟨_, _, _, .sent, _⟩ | ⟨_, _, _, .getaddrinfo, _⟩ => isFalse id

theorem Frame.inChannel_of {f : Frame} (fits : f.Fits) (ready : f.pending.queue ≠ some .ready)
    (channel : (∃ ch, f.op = .receive ch) ∨ ∃ ch v, f.op = .send ch v) : f.InChannel := by
  have hop := fits.2
  obtain ⟨self, call, op, pending, caller⟩ := f
  cases pending with
  | receive ch | send ch v => trivial
  | spawn | received v | sent => exact absurd rfl ready
  | sleep =>
    rcases hop with ⟨d, rfl⟩ | ⟨d, -, rfl⟩ <;> simp at channel
  | wait =>
    obtain ⟨d, -, rfl⟩ := hop
    simp at channel
  | getaddrinfo =>
    cases hop
    simp at channel

/-- The main cothread is never resumed as a last resort while it is blocked on a channel. -/
def keepsChannels : World → World.Action → Prop := World.Spares Frame.InChannel Frame.InChannel

instance (w : World) (a : World.Action) : Decidable (keepsChannels w a) :=
  inferInstanceAs (Decidable (w.Spares _ _ a))

/-- Channel calls of the main cothread end with a hand-over: a receive call
returns the value of a send call on its channel, and one receive call has
obtained the value of a send call. -/
structure MainRendezvous (main : Tid) (log : List Event) : Prop where
  receives : ∀ l₁ k ch r l₂, log = l₁ ++ .ret k main (.receive ch) r :: l₂ →
    ∃ k' t v, .call k' t (.send ch v) ∈ l₂ ∧ .handover ch k' k v ∈ l₂ ∧ r = .value v
  sends : ∀ l₁ k ch v r l₂, log = l₁ ++ .ret k main (.send ch v) r :: l₂ →
    ∃ k', (∃ t, .call k' t (.receive ch) ∈ l₂) ∧ .handover ch k k' v ∈ l₂ ∧
      ∀ ch' i v', .handover ch' k i v' ∈ log → i = k'

namespace Ordered
variable {main : Tid} {log l₁ l₂ : List Event} {k : CallId} {t : Tid} {c : Call} {r : Result}

/-- A channel call was not given up on. -/
theorem not_resorted {B D : Frame → Prop} (h : Ordered main log)
    (spared : Hist (Event.Spared B D main) log)
    (channel : (∃ ch, c = .receive ch) ∨ ∃ ch v, c = .send ch v) (hc : .call k t c ∈ log)
    (bad : ∀ f : Frame, f.InChannel → B f ∧ D f) : .fallback k ∉ log := by
  intro hfall
  obtain ⟨a, b, f, -, -, rfl, fits, hready, reason⟩ := h.resorted spared hfall hc
  have hin := bad f (Frame.inChannel_of fits hready channel)
  rcases reason with ⟨-, hB⟩ | ⟨-, hD, -⟩
  · exact hB hin.1
  · exact hD hin.2

theorem mainRendezvous {B D : Frame → Prop} (h : Ordered main log)
    (spared : Hist (Event.Spared B D main) log) (bad : ∀ f : Frame, f.InChannel → B f ∧ D f) :
    MainRendezvous main log := by
  have rv := h.rendezvous
  have sub : ∀ {l₁ l₂ : List Event} {e : Event}, log = l₁ ++ e :: l₂ → ∀ ev ∈ l₂, ev ∈ log := by
    intro l₁ l₂ e hlog ev hev
    rw [hlog]
    exact List.mem_append_right _ (List.mem_cons_of_mem _ hev)
  have fair : ∀ {l₁ l₂ k c r}, log = l₁ ++ .ret k main c r :: l₂ →
      ((∃ ch, c = .receive ch) ∨ ∃ ch v, c = .send ch v) → Served k r l₂ c := by
    intro l₁ l₂ k c r hlog hch
    have h' := hlog ▸ h
    have hcall := sub hlog _ h'.returns.at.1
    refine (h'.served ?_).resolve_right fun ⟨_, hfall⟩ =>
      h.not_resorted spared hch hcall bad (sub hlog _ hfall)
    rintro rfl
    rcases hch with ⟨ch, hc⟩ | ⟨ch, v, hc⟩ <;> cases hc
  constructor
  · intro l₁ k ch r l₂ hlog
    obtain ⟨k', v, hh, hr⟩ := fair hlog (.inl ⟨ch, rfl⟩)
    obtain ⟨a, b, rfl⟩ := List.append_of_mem hh
    obtain ⟨⟨t, ht⟩, -⟩ := rv.made (l₁ ++ .ret k main (.receive ch) r :: a) ch k' k v b (by simp [hlog])
    exact ⟨k', t, v, List.mem_append_right _ (List.mem_cons_of_mem _ ht), hh, hr⟩
  · intro l₁ k ch v r l₂ hlog
    obtain ⟨k', hh⟩ := fair hlog (.inr ⟨ch, v, rfl⟩)
    have hmem := sub hlog _ hh
    obtain ⟨a, b, rfl⟩ := List.append_of_mem hh
    obtain ⟨-, t, ht⟩ := rv.made (l₁ ++ .ret k main (.send ch v) r :: a) ch k k' v b (by simp [hlog])
    refine ⟨k', ⟨t, List.mem_append_right _ (List.mem_cons_of_mem _ ht)⟩, hh, fun ch' i v' hi => ?_⟩
    have := wakes_unique h.turns hi hmem (k := k) (by simp [Event.wakes]) (by simp [Event.wakes])
    cases this
    rfl

end Ordered

/-- In every run in which the main cothread is never resumed as a last resort
while it is blocked on a channel, its channel calls end with a hand-over. -/
theorem main_rendezvous {w : World} (r : gevent.Reach keepsChannels w) :
    MainRendezvous w.hub.main w.env.log := by
  obtain ⟨s, rs, p⟩ := reach_rules (R := Rules.sparing (fun _ _ => True) _ _)
    (fun w s a p legal h => p.admits legal h fun _ _ _ _ => trivial) r
  have spared := scheduler_spared rs
  rw [← p.env, ← p.main_eq] at spared
  exact p.ordered.mainRendezvous spared fun f hf => ⟨hf, hf⟩

set_option maxRecDepth 100000 in
/-- The main cothread receives from a cothread that sends. -/
theorem main_rendezvous_run : ∃ w, gevent.Reach keepsChannels w ∧
    .ret 2 0 (.receive (.plain 0)) (.value (.data 7)) ∈ w.env.log ∧
    MainRendezvous w.hub.main w.env.log := by
  have h : (gevent.play keepsChannels zeroStart [.cothreadInit 1 1, .call (.spawn 1),
      .call (.send (.plain 0) (.data 7)), .call (.receive (.plain 0)), .finish]).any (fun w => decide
        (.ret 2 0 (.receive (.plain 0)) (.value (.data 7)) ∈ w.env.log)) = true := by decide
  obtain ⟨w, r, hr⟩ := Machine.Reach.of_play zeroStart_start h
  exact ⟨w, r, hr, main_rendezvous r⟩

set_option maxRecDepth 100000 in
/-- The main cothread receives on a channel that nobody ever sends to: `uv_run`
has nothing to do, returns, and so does the receive call. -/
theorem main_receives_nothing : ¬ ∀ w, gevent.Reach anyStep w →
    MainRendezvous w.hub.main w.env.log := by
  intro all
  have h : (gevent.play anyStep zeroStart [.call (.receive (.plain 0)), .iterate]).any (fun w =>
      decide (w.hub.main = 0 ∧ .ret 0 0 (.receive (.plain 0)) (.value .null) ∈ w.env.log ∧
        ∀ ev ∈ w.env.log, 0 ∈ ev.wakes → ev = .fallback 0)) = true := by decide
  obtain ⟨w, r, hmain, hret, honly⟩ := Machine.Reach.of_play zeroStart_start h
  obtain ⟨l₁, l₂, hlog⟩ := List.append_of_mem hret
  obtain ⟨k', t, v, -, hh, -⟩ := (hmain ▸ all w r).receives l₁ 0 (.plain 0) _ l₂ hlog
  have hin : Event.handover (.plain 0) k' 0 v ∈ w.env.log := by
    rw [hlog]
    exact List.mem_append_right _ (List.mem_cons_of_mem _ hh)
  cases honly _ hin (by simp [Event.wakes])

end Gevent
