import Gevent.Sched.Resorts

/-!
# Permits of a semaphore

A semaphore on whose internal channel only release calls send: what one move can
do to its counter, its queue and the count of its permits (`Move.sem`).
-/

namespace Gevent

/-! ## Counting since the last `gevent_semaphore_init` -/

def Event.inits (m : Sem) : Event → Bool
  | .semInit m' _ => m' = m
  | _ => false

/-- The events of a kind since the semaphore was initialised. -/
def countSince (m : Sem) (p : Event → Bool) : List Event → Nat
  | [] => 0
  | e :: l => if e.inits m then 0 else countSince m p l + if p e then 1 else 0

/-- `gevent_semaphore_acquire` has returned. -/
def Event.acquired (m : Sem) : Event → Bool
  | .ret _ _ (.acquire m') _ => m' = m
  | _ => false

/-- `gevent_semaphore_release` has been called. -/
def Event.released (m : Sem) : Event → Bool
  | .call _ _ (.release m') => m' = m
  | _ => false

def acquired (m : Sem) (log : List Event) : Nat := countSince m (Event.acquired m) log

def released (m : Sem) (log : List Event) : Nat := countSince m (Event.released m) log

/-- The counter that `gevent_semaphore_init` was given. -/
def initialCounter (m : Sem) (log : List Event) : Option Int :=
  latest (fun e => match e with
    | .semInit m' c => if m' = m then some (some c) else none
    | _ => none) none log

/-- The event has no part in the account of the semaphore. -/
def Event.Neutral (m : Sem) (ev : Event) : Prop :=
  ev.inits m = false ∧ ev.acquired m = false ∧ ev.released m = false

/-- Initialisations, returns from acquire calls and release calls are the account. -/
@[simp] theorem Event.neutral_iff {m : Sem} {ev : Event} : ev.Neutral m ↔
    match ev with
    | .semInit m' _ => m' ≠ m
    | .ret _ _ (.acquire m') _ => m' ≠ m
    | .call _ _ (.release m') => m' ≠ m
    | _ => True := by
  unfold Neutral
  cases ev with
  | ret k t c r => cases c <;> simp [inits, acquired, released]
  | call k t c => cases c <;> simp [inits, acquired, released]
  | _ => simp [inits, acquired, released]

section
variable {m : Sem} {es l : List Event}

theorem countSince_append {p : Event → Bool} (hi : ∀ ev ∈ es, ev.inits m = false)
    (hp : ∀ ev ∈ es, p ev = false) : countSince m p (es ++ l) = countSince m p l := by
  induction es with
  | nil => rfl
  | cons e es ih =>
    have h1 := hi e List.mem_cons_self
    have h2 := hp e List.mem_cons_self
    simp only [List.cons_append, countSince, h1, h2]
    simpa using ih (fun ev hev => hi ev (List.mem_cons_of_mem _ hev))
      fun ev hev => hp ev (List.mem_cons_of_mem _ hev)

theorem acquired_append (h : ∀ ev ∈ es, ev.Neutral m) : acquired m (es ++ l) = acquired m l :=
  countSince_append (fun ev hev => (h ev hev).1) fun ev hev => (h ev hev).2.1

theorem released_append (h : ∀ ev ∈ es, ev.Neutral m) : released m (es ++ l) = released m l :=
  countSince_append (fun ev hev => (h ev hev).1) fun ev hev => (h ev hev).2.2

theorem initialCounter_append (h : ∀ ev ∈ es, ev.inits m = false) :
    initialCounter m (es ++ l) = initialCounter m l := by
  refine latest_append fun ev hev => ?_
  have := h ev hev
  cases ev with
  | semInit m' c => simpa [Event.inits] using this
  | _ => rfl

end

/-! ## 32-bit counters -/

theorem int32_of_range {x : Int} (low : -2 ^ 31 ≤ x) (high : x < 2 ^ 31) : World.int32 x = x := by
  unfold World.int32
  exact Int.bmod_eq_of_le (by omega) (by omega)

theorem int32_range (x : Int) : -2 ^ 31 ≤ World.int32 x ∧ World.int32 x < 2 ^ 31 := by
  unfold World.int32
  have h1 := Int.le_bmod (x := x) (m := 2 ^ 32) (by omega)
  have h2 := Int.bmod_lt (x := x) (m := 2 ^ 32) (by omega)
  omega

theorem int32_succ (x : Int) : World.int32 (World.int32 x + 1) = World.int32 (x + 1) := by
  simp [World.int32]

theorem int32_pred {x : Int} (h : 0 < World.int32 x) : World.int32 (x - 1) = World.int32 x - 1 := by
  have hr := int32_range x
  have h1 : World.int32 (World.int32 x - 1) = World.int32 (x - 1) := by
    simp [World.int32]
  rw [← h1]
  exact int32_of_range (by omega) (by omega)

/-! ## What the moves do to a semaphore -/

/-- The program does not send on the internal channel of the semaphore. -/
def Rules.Sealed (R : Rules) (m : Sem) : Prop := ∀ s v, ¬ R.call s (.send (.ofSem m) v)

/-- The call of the frame is made by `gevent_semaphore_acquire`. -/
def Frame.Acquires (m : Sem) (f : Frame) : Prop := ∃ k, f.caller = .acquire k m

/-- The cothreads that wait for a permit. -/
def Sched.waiters (s : Sched) (m : Sem) : List Tid := s.queue (.receivers (.ofSem m))

def Event.isCall : Event → Bool
  | .call _ _ _ => true
  | _ => false

/-- The last event is a call. -/
def CallLast (log : List Event) : Prop := ∃ k t c l, log = .call k t c :: l

/-- A permit is on its way from a release call to the one who takes it. -/
def Granting (m : Sem) (o : Moment) : Prop :=
  (∃ k t l, o.sched.env.log = .call k t (.release m) :: l) ∨
  (∃ k t v l, o.sched.env.log = .call k t (.send (.ofSem m) v) :: l) ∨
  ∃ u x f, o.waking = some (u, x) ∧ o.sched.place u = .blocked f ∧ f.Acquires m

/-- A call is about to wait for a permit. -/
def Entering (m : Sem) (o : Moment) : Prop :=
  ∃ k t l, o.sched.env.log = .call k t (.receive (.ofSem m)) :: l

/-- The channel of the semaphore only has receivers. -/
structure Ledger (m : Sem) (o : Moment) : Prop where
  senders : o.sched.queue (.senders (.ofSem m)) = []
  sending : ∀ k t v l, o.sched.env.log = .call k t (.send (.ofSem m) v) :: l → o.sched.waiters m ≠ []
  acquirers : ∀ t f, o.sched.place t = .blocked f → f.Acquires m → f.pending = .receive (.ofSem m)

/-- Everything that a move can do to the semaphore. -/
inductive SemMove (R : Rules) (m : Sem) (o o' : Moment) : Prop
  | still (es : List Event) (log : o'.sched.env.log = es ++ o.sched.env.log)
      (neutral : ∀ ev ∈ es, ev.Neutral m) (counter : o'.sched.env.counter m = o.sched.env.counter m)
      (waiters : o'.sched.waiters m = o.sched.waiters m)
      (granting : Granting m o' → Granting m o)
      (entering : Entering m o' → Entering m o ∨ o.sched.env.counter m ≤ 0 ∨
        ∃ s, R.call s (.receive (.ofSem m)))
  | take (k : CallId) (t : Tid) (r : Result) (free : 0 < o.sched.env.counter m)
      (log : o'.sched.env.log = .ret k t (.acquire m) r :: o.sched.env.log)
      (counter : o'.sched.env.counter m = o.sched.env.counter m - 1)
      (waiters : o'.sched.waiters m = o.sched.waiters m) (waking : o'.waking = none)
  | give (k : CallId) (t : Tid) (r : Result) (alone : o.sched.waiters m = [])
      (may : R.call o.sched (.release m)) (granting : Granting m o)
      (log : o'.sched.env.log = .ret k t (.release m) r :: o.sched.env.log)
      (counter : o'.sched.env.counter m = World.int32 (o.sched.env.counter m + 1))
      (waiters : o'.sched.waiters m = o.sched.waiters m) (waking : o'.waking = none)
  | release (k : CallId) (t : Tid)
      (log : o'.sched.env.log = .call k t (.release m) :: o.sched.env.log)
      (counter : o'.sched.env.counter m = o.sched.env.counter m)
      (waiters : o'.sched.waiters m = o.sched.waiters m)
  | init (c : Int) (low : -2 ^ 31 ≤ c) (high : c < 2 ^ 31)
      (log : o'.sched.env.log = .semInit m c :: o.sched.env.log)
      (counter : o'.sched.env.counter m = c) (waiters : o'.sched.waiters m = [])
      (waking : o'.waking = none)
  | wait (t : Tid) (k : CallId) (entering : Entering m o)
      (log : o'.sched.env.log = .blocked (.receivers (.ofSem m)) k :: o.sched.env.log)
      (counter : o'.sched.env.counter m = o.sched.env.counter m)
      (waiters : o'.sched.waiters m = o.sched.waiters m ++ [t]) (waking : o'.waking = none)
  | grant (u : Tid) (es : List Event) (k : CallId) (r : Result) (granting : Granting m o)
      (log : o'.sched.env.log = .ret k u (.acquire m) r :: es ++ o.sched.env.log)
      (neutral : ∀ ev ∈ es, ev.Neutral m)
      (counter : o'.sched.env.counter m = o.sched.env.counter m)
      (waiters : o'.sched.waiters m = (o.sched.waiters m).erase u) (waking : o'.waking = none)
  /-- Somebody leaves the queue who is in no acquire call. -/
  | leave (u : Tid) (es : List Event) (log : o'.sched.env.log = es ++ o.sched.env.log)
      (last : ¬ CallLast o'.sched.env.log) (neutral : ∀ ev ∈ es, ev.Neutral m)
      (counter : o'.sched.env.counter m = o.sched.env.counter m)
      (waiters : o'.sched.waiters m = (o.sched.waiters m).erase u) (waking : o'.waking = none)
  /-- The main cothread is resumed as a last resort while it waits for a permit. -/
  | resort (f : Frame) (place : o.sched.place o.sched.main = .blocked f) (acquires : f.Acquires m)
      (may : R.last o.sched)
      (reason : (∃ t l, o.sched.env.log = .finish t :: l) ∨ ∃ l, o.sched.env.log = .runEnd :: l)
      (log : o'.sched.env.log = .fallback f.call :: o.sched.env.log)
      (counter : o'.sched.env.counter m = o.sched.env.counter m)
      (waiters : o'.sched.waiters m = o.sched.waiters m)

section
variable {R : Rules} {m : Sem} {s s' : Sched} {o o' : Moment} {k k' : Option (Tid × Leftover)} {f : Frame}

theorem not_callLast {ev : Event} {l : List Event} (h : ev.isCall = false) :
    ¬ CallLast (ev :: l) := by
  rintro ⟨k, t, c, l', hl⟩
  cases hl
  cases h

theorem not_callLast_append {es l : List Event} (ne : es ≠ []) (h : ∀ ev ∈ es, ev.isCall = false) :
    ¬ CallLast (es ++ l) := by
  cases es with
  | nil => exact absurd rfl ne
  | cons ev es => exact not_callLast (h ev List.mem_cons_self)

theorem Env.switching_calls (e : Env) (new died : Option Tid) :
    ∀ ev ∈ e.switching new died, ev.isCall = false := by
  intro ev hev
  rcases Env.mem_switching.mp hev with rfl | ⟨t, -, -, rfl⟩ <;> rfl

theorem Frame.returns_calls (f : Frame) (r : Result) (counter : Sem → Int) :
    ∀ ev ∈ f.returns r counter, ev.isCall = false := by
  intro ev hev
  obtain ⟨k, c, r', rfl, -⟩ := Frame.mem_returns hev
  rfl

theorem Frame.returns_ne (f : Frame) (r : Result) (counter : Sem → Int) : f.returns r counter ≠ [] := by
  obtain ⟨self, call, op, pending, caller⟩ := f
  cases caller <;> simp [Frame.returns]

/-- After a resumption the last event is a return. -/
theorem Sched.resume_last {s : Sched} {u : Tid} {f : Frame} (hp : s.place u = .blocked f)
    (x : Leftover) (died : Option Tid) : ¬ CallLast (s.resume u x died).env.log := by
  obtain ⟨tm, hs, n, he⟩ := Sched.resume_shape hp x died
  rw [he]
  exact not_callLast_append (f.returns_ne _ _) (f.returns_calls _ _)

theorem Sched.enterHub_last {s : Sched} (died : Option Tid) : ¬ CallLast (s.enterHub died).env.log := by
  rw [Sched.enterHub_eq, ← List.append_assoc]
  refine not_callLast_append ?_ fun ev hev => ?_
  · simp [Env.switching]
  · rcases List.mem_append.mp hev with hev | hev
    · rw [Sched.mem_entryEvents hev]
      rfl
    · exact Env.switching_calls _ _ _ ev hev

theorem not_granting (h : ¬ CallLast o.sched.env.log) (hw : o.waking = none) : ¬ Granting m o := by
  rintro (⟨k, t, l, hl⟩ | ⟨k, t, v, l, hl⟩ | ⟨u, x, f, hk, -⟩)
  · exact h ⟨_, _, _, _, hl⟩
  · exact h ⟨_, _, _, _, hl⟩
  · rw [hw] at hk
    cases hk

theorem not_entering (h : ¬ CallLast o.sched.env.log) : ¬ Entering m o :=
  fun ⟨_, _, _, hl⟩ => h ⟨_, _, _, _, hl⟩

/-- Who is chosen is in no acquire call, and something else than a call happened last. -/
theorem SemMove.choose (es : List Event) (log : s'.env.log = es ++ s.env.log)
    (last : ¬ CallLast s'.env.log) (neutral : ∀ ev ∈ es, ev.Neutral m)
    (counter : s'.env.counter = s.env.counter) (waiters : s'.waiters m = s.waiters m)
    (waking : ∀ u x f, k' = some (u, x) → s'.place u = .blocked f → ¬ f.Acquires m) :
    SemMove R m ⟨s, k⟩ ⟨s', k'⟩ := by
  refine .still es log neutral (by rw [counter]) waiters ?_ fun h => absurd h (not_entering last)
  rintro (⟨i, t, l, hl⟩ | ⟨i, t, v, l, hl⟩ | ⟨u, x, f, hw, hf, ha⟩)
  · exact absurd ⟨_, _, _, _, hl⟩ last
  · exact absurd ⟨_, _, _, _, hl⟩ last
  · exact absurd ha (waking u x f hw hf)

/-- Nothing happened that the history tells. -/
theorem SemMove.idle (log : s'.env.log = s.env.log) (counter : s'.env.counter = s.env.counter)
    (waiters : s'.waiters m = s.waiters m)
    (waking : ∀ u x f, k' = some (u, x) → s'.place u = .blocked f → ¬ f.Acquires m) :
    SemMove R m ⟨s, none⟩ ⟨s', k'⟩ := by
  refine .still [] log (by simp) (by rw [counter]) waiters ?_ ?_
  · rintro (⟨i, t, l, hl⟩ | ⟨i, t, v, l, hl⟩ | ⟨u, x, f, hw, hf, ha⟩)
    · exact .inl ⟨i, t, l, log ▸ hl⟩
    · exact .inr (.inl ⟨i, t, v, l, log ▸ hl⟩)
    · exact absurd ha (waking u x f hw hf)
  · rintro ⟨i, t, l, hl⟩
    exact .inl ⟨i, t, l, log ▸ hl⟩

/-- The cothread that is chosen is in no acquire call. -/
theorem Ledger.chosen {u : Tid} {x : Leftover} (h : Ledger m ⟨s, k⟩) (place : s.place u = .blocked f)
    (other : f.pending ≠ .receive (.ofSem m)) (same : s'.place u = s.place u) :
    ∀ u' x' f', some (u, x) = some (u', x') → s'.place u' = .blocked f' → ¬ f'.Acquires m :=
  Sched.chosen (same.trans place) fun acquires => other (h.acquirers u f place acquires)

/-- The last event is a call, and starts neither a permit's way nor a wait for one. -/
theorem not_granting_call {i : CallId} {t : Tid} {c : Call} {l : List Event}
    (log : o.sched.env.log = .call i t c :: l) (waking : o.waking = none) (release : c ≠ .release m)
    (send : ∀ v, c ≠ .send (.ofSem m) v) : ¬ Granting m o := by
  rintro (⟨_, _, _, hl⟩ | ⟨_, _, v, _, hl⟩ | ⟨_, _, _, hk, -⟩)
  · rw [log] at hl
    cases hl
    exact release rfl
  · rw [log] at hl
    cases hl
    exact send v rfl
  · rw [waking] at hk
    cases hk

/-- A call of `gevent_semaphore_acquire` is a receive call on the channel inside. -/
theorem Frame.Acquires.op (h : f.Acquires m) (fits : f.Fits) : f.op = .receive (.ofSem m) := by
  obtain ⟨self, call, op, pending, caller⟩ := f
  obtain ⟨k, rfl⟩ := h
  exact fits.1

theorem Frame.Acquires.kind (h : f.Acquires m) (fits : f.Fits) :
    f.pending = .receive (.ofSem m) ∨ ∃ v, f.pending = .received v := by
  have hop := h.op fits
  have fits := fits.2
  obtain ⟨self, call, op, pending, caller⟩ := f
  cases hop
  cases pending <;> simp_all

end

end Gevent
