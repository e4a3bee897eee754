import Gevent.Sched.Calls

/-!
# Waiting, as the history tells it

Which calls wait on a channel, and in which order, can be read off the history
(`waiting`), and so can whose wait has ended (`Woken`). `Event.InTurn` is the
rule for hand-overs: between a call just made and the one that has waited
longest, and never twice for one call.
-/

namespace Gevent

/-- The calls queued on `q` that have not returned, the longest waiting first. -/
def waiting (q : QueueId) : List Event → List CallId
  | [] => []
  | .blocked q' k :: l => if q' = q then waiting q l ++ [k] else waiting q l
  | .ret k _ _ _ :: l => (waiting q l).erase k
  | _ :: l => waiting q l

/-- The calls whose wait the event ends. -/
def Event.wakes : Event → List CallId
  | .handover _ k k' _ => [k, k']
  | .fallback k => [k]
  | _ => []

/-- The wait of call `k` has ended. -/
def Woken (k : CallId) (log : List Event) : Prop := ∃ ev ∈ log, k ∈ ev.wakes

/-- A hand-over is between two calls that have neither been woken nor returned,
it passes the value of the send call, and one of the two has waited longest on
the channel. -/
def Event.InTurn : Event → List Event → Prop
  | .handover ch k k' v, past =>
    ¬ Woken k past ∧ ¬ Woken k' past ∧ k ≠ k' ∧
    (∀ ev ∈ past, ev.ends ≠ some k ∧ ev.ends ≠ some k') ∧
    (∃ t, .call k t (.send ch v) ∈ past) ∧ (∃ t, .call k' t (.receive ch) ∈ past) ∧
    ((waiting (.senders ch) past).head? = some k ∨ (waiting (.receivers ch) past).head? = some k')
  | .fallback k, past => ¬ Woken k past
  | _, _ => True

/-- The event changes nothing about who waits. -/
def Event.Plain (waiters : List CallId) (ev : Event) : Prop :=
  match ev with
  | .blocked _ _ | .handover _ _ _ _ | .fallback _ => False
  | .ret k _ _ _ => k ∉ waiters
  | _ => True

section
variable {q : QueueId} {es log : List Event} {k : CallId} {waiters : List CallId} {ev : Event}

theorem waiting_append (h : ∀ ev ∈ es, ev.Plain (waiting q log)) :
    waiting q (es ++ log) = waiting q log := by
  induction es with
  | nil => rfl
  | cons ev es ih =>
    have hes := ih fun e he => h e (List.mem_cons_of_mem _ he)
    have hev := h ev List.mem_cons_self
    rw [List.cons_append]
    cases ev with
    | blocked | handover | fallback => exact hev.elim
    | ret k t c r =>
      rw [waiting, hes]
      exact List.erase_of_not_mem hev
    | _ => exact hes

theorem Event.Plain.wakes (h : ev.Plain waiters) : ev.wakes = [] := by
  cases ev with
  | handover | fallback => exact h.elim
  | _ => rfl

theorem Event.Plain.inTurn (h : ev.Plain waiters) (past : List Event) : ev.InTurn past := by
  cases ev with
  | handover | fallback => exact h.elim
  | _ => trivial

@[simp] theorem woken_cons : Woken k (ev :: log) ↔ k ∈ ev.wakes ∨ Woken k log := by simp [Woken]

theorem woken_append (h : ∀ ev ∈ es, ev.Plain waiters) : Woken k (es ++ log) ↔ Woken k log := by
  induction es with
  | nil => rfl
  | cons ev es ih =>
    rw [List.cons_append, woken_cons, (h ev List.mem_cons_self).wakes,
      ih fun e he => h e (List.mem_cons_of_mem _ he)]
    simp

theorem Event.wakes_sub (h : k ∈ ev.wakes) : k ∈ ev.ids := by
  cases ev with
  | handover | fallback => exact h
  | _ => cases h

end

/-- Every wait ends once. -/
theorem wakes_unique {log : List Event} (h : Hist Event.InTurn log) {k : CallId} {ev ev' : Event}
    (hev : ev ∈ log) (hev' : ev' ∈ log) (hk : k ∈ ev.wakes) (hk' : k ∈ ev'.wakes) : ev = ev' := by
  have first : ∀ {e : Event} {past}, e.InTurn past → k ∈ e.wakes → ¬ Woken k past := by
    intro e past he hke
    cases e with
    | handover ch i i' v =>
      rcases List.mem_pair.mp hke with rfl | rfl
      · exact he.1
      · exact he.2.1
    | fallback i =>
      rw [List.mem_singleton.mp hke]
      exact he
    | _ => cases hke
  induction log with
  | nil => cases hev
  | cons e l ih =>
    rcases List.mem_cons.mp hev with rfl | h1 <;> rcases List.mem_cons.mp hev' with rfl | h2
    · rfl
    · exact absurd ⟨ev', h2, hk'⟩ (first h.1 hk)
    · exact absurd ⟨ev, h1, hk⟩ (first h.1 hk')
    · exact ih h.2 h1 h2

/-- Call `k` is blocked on `q`, and every call blocked there before it has returned. -/
def LongestBlocked (q : QueueId) (k : CallId) (past : List Event) : Prop :=
  (∀ ev ∈ past, ev.ends ≠ some k) ∧ ∃ newer older, past = newer ++ .blocked q k :: older ∧
    ∀ k', .blocked q k' ∈ older → ∃ ev ∈ past, ev.ends = some k'

theorem waiting_or_ended {q : QueueId} {k : CallId} {log : List Event} (h : .blocked q k ∈ log) :
    k ∈ waiting q log ∨ ∃ ev ∈ log, ev.ends = some k := by
  induction log with
  | nil => cases h
  | cons e l ih =>
    rcases List.mem_cons.mp h with rfl | h
    · simp [waiting]
    · rcases ih h with hw | ⟨ev, hev, he⟩
      · cases e with
        | blocked q' k' =>
          left
          simp only [waiting]
          split <;> simp [hw]
        | ret k' t c r =>
          by_cases hk : k = k'
          · subst hk
            exact .inr ⟨_, List.mem_cons_self, rfl⟩
          · exact .inl ((List.mem_erase_of_ne hk).mpr hw)
        | _ => exact .inl hw
      · exact .inr ⟨ev, List.mem_cons_of_mem _ hev, he⟩

/-- Whoever was blocked before a waiting call has returned or waits ahead of it. -/
theorem waiting_order {q : QueueId} {k : CallId} {log : List Event} {ahead behind : List CallId}
    (h : waiting q log = ahead ++ k :: behind) : ∃ newer older, log = newer ++ .blocked q k :: older ∧
      ∀ k', .blocked q k' ∈ older → k' ∈ ahead ∨ ∃ ev ∈ log, ev.ends = some k' := by
  induction log generalizing ahead behind with
  | nil => simp [waiting] at h
  | cons e l ih =>
    have skip : ∀ {ahead' behind' : List CallId}, waiting q l = ahead' ++ k :: behind' →
        (∀ k' ∈ ahead', k' ∈ ahead ∨ e.ends = some k') →
        ∃ newer older, e :: l = newer ++ .blocked q k :: older ∧
          ∀ k', .blocked q k' ∈ older → k' ∈ ahead ∨ ∃ ev ∈ e :: l, ev.ends = some k' := by
      intro ahead' behind' hw sub
      obtain ⟨newer, older, rfl, hold⟩ := ih hw
      refine ⟨e :: newer, older, rfl, fun k' hk' => ?_⟩
      rcases hold k' hk' with ha | ⟨ev, hev, hend⟩
      · exact (sub k' ha).imp id fun he => ⟨e, List.mem_cons_self, he⟩
      · exact .inr ⟨ev, List.mem_cons_of_mem _ hev, hend⟩
    cases e with
    | blocked q' k' =>
      simp only [waiting] at h
      split at h
      · next hq =>
        subst hq
        rcases List.append_eq_append_iff.mp h with ⟨m, hm, hk⟩ | ⟨m, hm, hk⟩
        · -- the event itself blocks the call
          have hnil : m = [] := by
            cases m with
            | nil => rfl
            | cons a m => simp at hk
          subst hnil
          simp only [List.append_nil] at hm
          simp only [List.nil_append, List.cons.injEq] at hk
          obtain ⟨rfl, -⟩ := hk
          refine ⟨[], l, rfl, fun i hi => ?_⟩
          rw [hm]
          exact (waiting_or_ended hi).imp id fun ⟨ev, hev, he⟩ => ⟨ev, List.mem_cons_of_mem _ hev, he⟩
        · cases m with
          | nil =>
            simp only [List.nil_append, List.cons.injEq] at hk
            obtain ⟨rfl, -⟩ := hk
            refine ⟨[], l, rfl, fun i hi => ?_⟩
            simp only [List.append_nil] at hm
            rw [← hm]
            exact (waiting_or_ended hi).imp id fun ⟨ev, hev, he⟩ =>
              ⟨ev, List.mem_cons_of_mem _ hev, he⟩
          | cons a m =>
            simp only [List.cons_append, List.cons.injEq] at hk
            obtain ⟨rfl, -⟩ := hk
            exact skip hm fun i hi => .inl hi
      · exact skip h fun i hi => .inl hi
    | ret k' t c r =>
      simp only [waiting] at h
      by_cases hm : k' ∈ waiting q l
      · obtain ⟨a, b, -, hw, he⟩ := List.exists_erase_eq hm
        rw [he] at h
        rcases List.append_eq_append_iff.mp h with ⟨m, rfl, hk⟩ | ⟨m, rfl, hk⟩
        · -- the call that returned was ahead
          have hw : waiting q l = (a ++ k' :: m) ++ k :: behind := by simp [hw, hk]
          refine skip hw fun i hi => ?_
          rcases List.mem_append.mp hi with hi | hi
          · exact .inl (List.mem_append_left _ hi)
          · rcases List.mem_cons.mp hi with rfl | hi
            · exact .inr rfl
            · exact .inl (List.mem_append_right _ hi)
        · cases m with
          | nil =>
            simp only [List.nil_append] at hk
            have hw : waiting q l = (ahead ++ [k']) ++ k :: behind := by simp [hw, hk]
            refine skip hw fun i hi => ?_
            rcases List.mem_append.mp hi with hi | hi
            · exact .inl hi
            · exact .inr (congrArg some (List.mem_singleton.mp hi).symm)
          | cons a m =>
            simp only [List.cons_append, List.cons.injEq] at hk
            obtain ⟨rfl, rfl⟩ := hk
            have hw : waiting q l = ahead ++ k :: (m ++ k' :: b) := by simp [hw]
            exact skip hw fun i hi => .inl hi
      · rw [List.erase_of_not_mem hm] at h
        exact skip h fun i hi => .inl hi
    | _ => exact skip h fun i hi => .inl hi

theorem longest_blocked {q : QueueId} {k : CallId} {past : List Event}
    (head : (waiting q past).head? = some k) (ends : ∀ ev ∈ past, ev.ends ≠ some k) :
    LongestBlocked q k past := by
  cases hw : waiting q past with
  | nil => simp [hw] at head
  | cons k' behind =>
    rw [hw] at head
    cases head
    obtain ⟨newer, older, rfl, hold⟩ := waiting_order (List.nil_append _ ▸ hw : waiting q past = [] ++ k :: behind)
    refine ⟨ends, newer, older, rfl, fun i hi => ?_⟩
    exact (hold i hi).resolve_left (by simp)

end Gevent
