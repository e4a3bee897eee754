import Gevent.Histories

/-!
# Loop waits of the main cothread

`gevent_sleep`, `gevent_getaddrinfo` and `gevent_wait` return to the main
cothread only after what they wait for, as long as no cothread ends while nobody
else is ready, no `uv_run` is suspended and the main cothread is in one of them
(`main_waits`).
-/

namespace Gevent

/-- What the history says about the loop waits of the main cothread. -/
structure MainWaits (main : Tid) (log : List Event) : Prop where
  sleep : ∀ l₁ k d r l₂, log = l₁ ++ .ret k main (.sleep d) r :: l₂ → .fired k ∈ l₂
  getaddrinfo : ∀ l₁ k r l₂, log = l₁ ++ .ret k main (.getaddrinfo .submitted) r :: l₂ →
    ∃ q error res, .submitted k q ∈ l₂ ∧ .resolved q error res ∈ l₂
  wait : ∀ l₁ k d r l₂, log = l₁ ++ .ret k main (.wait d) r :: l₂ →
    (∃ a b, l₂ = a ++ .call k main (.wait d) :: b ∧ .runEnd ∈ a) ∨ 0 < d ∧ .fired k ∈ l₂

/-- `getaddrinfo_cb` will find the requester of every request in the state it asserts. -/
def World.Answerable (w : World) : Prop :=
  ∀ r ∈ w.env.loop.activeReqs, ∃ my, w.env.reqData r = some my ∧ my ∈ w.env.known ∧
    (w.co my).state = .waitingGetaddrinfo

/-- The call waits for the loop. -/
def Frame.InLoop (f : Frame) : Prop :=
  match f.pending with
  | .sleep | .wait | .getaddrinfo => True
  | _ => False

instance : DecidablePred Frame.InLoop := fun f => by
  unfold Frame.InLoop
  split <;> infer_instance

theorem Frame.inLoop_of {f : Frame} (fits : f.Fits)
    (loop : (∃ d, f.op = .sleep d) ∨ (∃ d, f.op = .wait d) ∨ f.op = .getaddrinfo .submitted) :
    f.InLoop := by
  have hop := fits.2
  obtain ⟨self, call, op, pending, caller⟩ := f
  cases pending with
  | sleep | wait | getaddrinfo => trivial
  | spawn | received v =>
    obtain ⟨u, rfl⟩ := hop
    simp at loop
  | sent =>
    obtain ⟨ch, v, rfl⟩ := hop
    simp at loop
  | receive ch | send ch v =>
    cases hop
    simp at loop

/-- No cothread finishes while nobody is ready, no `uv_run` is suspended, and the
main cothread waits for the loop. -/
def keepsLoopWaits : World → World.Action → Prop := World.Spares Frame.InLoop fun _ => False

instance (w : World) (a : World.Action) : Decidable (keepsLoopWaits w a) :=
  inferInstanceAs (Decidable (w.Spares _ _ a))

namespace Ordered
variable {main : Tid} {log : List Event} {k : CallId} {t : Tid} {c : Call} {r : Result}

/-- Only `uv_run` returning ends a loop wait early, and only a `gevent_wait`. -/
theorem loop_resorted (h : Ordered main log)
    (spared : Hist (Event.Spared Frame.InLoop (fun _ => False) main) log)
    (loop : (∃ d, c = .sleep d) ∨ (∃ d, c = .wait d) ∨ c = .getaddrinfo .submitted)
    (hfall : .fallback k ∈ log) (hc : .call k t c ∈ log) :
    (∃ a b, log = a ++ .runEnd :: b ∧ .call k t c ∈ b) ∧ (∀ d, c ≠ .sleep d) ∧
      c ≠ .getaddrinfo .submitted := by
  obtain ⟨a, b, f, hlog, hcb, rfl, fits, -, reason⟩ := h.resorted spared hfall hc
  rcases reason with ⟨-, hD⟩ | ⟨⟨l, rfl⟩, -, hop⟩
  · exact absurd (Frame.inLoop_of fits loop) hD
  · refine ⟨⟨a ++ [.fallback k], l, by simp [hlog], ?_⟩, hop⟩
    exact (List.mem_cons.mp hcb).resolve_left (by simp)

theorem not_lost (h : Ordered main log)
    (spared : Hist (Event.Spared Frame.InLoop (fun _ => False) main) log) : ¬ Lost log := by
  rintro ⟨k, t, hfall, hc⟩
  exact (h.loop_resorted spared (.inr (.inr rfl)) hfall hc).2.2 rfl

theorem mainWaits (h : Ordered main log)
    (spared : Hist (Event.Spared Frame.InLoop (fun _ => False) main) log) :
    MainWaits main log := by
  have rest : ∀ {l₁ l₂ k c r}, log = l₁ ++ .ret k main c r :: l₂ → Ordered main l₂ ∧
      Hist (Event.Spared Frame.InLoop (fun _ => False) main) l₂ ∧ .call k main c ∈ l₂ ∧
      (Served k r l₂ c ∨ .fallback k ∈ l₂ ∨
        c = .getaddrinfo .submitted ∧ main = main ∧ Lost l₂) := by
    intro l₁ l₂ k c r hlog
    subst hlog
    have h' : Ordered main (.ret k main c r :: l₂) := h.past
    have h₂ : Ordered main l₂ := Ordered.past (show Ordered main ([.ret k main c r] ++ l₂) from h')
    exact ⟨h₂, (Hist.past spared).2, h.returns.at⟩
  constructor
  · intro l₁ k d r l₂ hlog
    obtain ⟨h₂, sp, hc, why⟩ := rest hlog
    rcases why with hs | hfall | ⟨hop, -, -⟩
    · exact hs
    · exact absurd rfl ((h₂.loop_resorted sp (.inl ⟨d, rfl⟩) hfall hc).2.1 d)
    · cases hop
  · intro l₁ k r l₂ hlog
    obtain ⟨h₂, sp, hc, why⟩ := rest hlog
    rcases why with ⟨q, error, res, h1, h2, -⟩ | hfall | ⟨-, -, hl⟩
    · exact ⟨q, error, res, h1, h2⟩
    · exact absurd rfl (h₂.loop_resorted sp (.inr (.inr rfl)) hfall hc).2.2
    · exact absurd hl (h₂.not_lost sp)
  · intro l₁ k d r l₂ hlog
    obtain ⟨h₂, sp, hc, why⟩ := rest hlog
    rcases why with hs | hfall | ⟨hop, -, -⟩
    · exact .inr hs
    · left
      obtain ⟨⟨a, b, rfl, hcb⟩, -⟩ := h₂.loop_resorted sp (.inr (.inl ⟨d, rfl⟩)) hfall hc
      obtain ⟨b₁, b₂, rfl⟩ := List.append_of_mem hcb
      exact ⟨a ++ .runEnd :: b₁, b₂, by simp, by simp⟩
    · cases hop

end Ordered

theorem Paired.answerable {w : World} {s : Sched} (p : Paired w s) (fair : ¬ Lost w.env.log) :
    w.Answerable := by
  intro r hr
  rw [p.env] at hr fair ⊢
  obtain ⟨my, hd, ho⟩ := p.base.lookups.owner_at hr
  obtain ⟨f, hf, hp, -⟩ := ho.resolve_right fun h => fair h.2
  have known : my ∈ w.env.known := by
    rw [p.known_iff, hf]
    simp
  exact ⟨my, hd, p.env ▸ known, (p.state_getaddrinfo known).mpr ⟨f, hf, hp⟩⟩

/-- In every run in which no cothread finishes with nobody ready and no `uv_run`
suspended while the main cothread waits for the loop, its loop waits end only
with what they wait for, and `getaddrinfo_cb` always finds its requester waiting. -/
theorem main_waits {w : World} (r : gevent.Reach keepsLoopWaits w) :
    MainWaits w.hub.main w.env.log ∧ w.Answerable := by
  obtain ⟨s, rs, p⟩ := reach_rules (R := Rules.sparing (fun _ _ => True) _ _)
    (fun w s a p legal h => p.admits legal h fun _ _ _ _ => trivial) r
  have spared := scheduler_spared rs
  rw [← p.env, ← p.main_eq] at spared
  exact ⟨p.ordered.mainWaits spared, p.answerable (p.ordered.not_lost spared)⟩

set_option maxRecDepth 100000 in
/-- The main cothread sleeps until its timer fires. -/
theorem main_waits_run : ∃ w, gevent.Reach keepsLoopWaits w ∧
    .ret 0 0 (.sleep 0) (.int 0) ∈ w.env.log ∧ MainWaits w.hub.main w.env.log ∧ w.Answerable := by
  have h : (gevent.play keepsLoopWaits zeroStart [.call (.sleep 0), .iterate, .timers]).any
      (fun w => decide (.ret 0 0 (.sleep 0) (.int 0) ∈ w.env.log)) = true := by decide
  obtain ⟨w, r, hr⟩ := Machine.Reach.of_play zeroStart_start h
  exact ⟨w, r, hr, main_waits r⟩

set_option maxRecDepth 100000 in
/-- Cothread 1, spawned before the hub has started, is ready when the main one
starts to sleep, and finishes: nothing is left to run but the sleeper. -/
theorem main_sleep_cut_short : ¬ ∀ w, gevent.Reach anyStep w →
    MainWaits w.hub.main w.env.log ∧ w.Answerable := by
  intro all
  have h : (gevent.play anyStep zeroStart [.cothreadInit 1 1, .cothreadInit 2 1, .call (.spawn 1),
      .call (.spawn 2), .finish, .call (.sleep 100), .finish]).any (fun w => decide
        (w.hub.main = 0 ∧ .ret 2 0 (.sleep 100) (.int 0) ∈ w.env.log ∧
          .fired 2 ∉ w.env.log)) = true := by decide
  obtain ⟨w, r, hmain, hret, hnot⟩ := Machine.Reach.of_play zeroStart_start h
  obtain ⟨l₁, l₂, hlog⟩ := List.append_of_mem hret
  have hfired := (hmain ▸ (all w r).1).sleep l₁ 2 100 _ l₂ hlog
  refine hnot ?_
  rw [hlog]
  exact List.mem_append_right _ (List.mem_cons_of_mem _ hfired)

end Gevent
