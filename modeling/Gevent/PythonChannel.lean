import Gevent.Histories
import Gevent.Sched.Alarms
import Gevent.Sched.Deliveries

/-!
# Objects in the channels of Python

`gevent2.channel` passes a pointer to an object through a channel of gevent.c.
The call of `channel.send` holds a reference to the object until it returns;
`channel.receive` takes one of its own when the pointer has arrived. When every
receive call waits for its sender, the object is still alive then
(`items_stay_alive`).
-/

namespace Gevent

/-- An object of the interpreter, by its address. -/
abbrev Obj := Int

/-- `ob_refcnt` of every object, the objects there have been, the references
that calls of `channel.send` hold, and the pointers that `channel.receive` has
converted, with whether an object was alive there. -/
structure Objects where
  refs : Obj → Nat
  made : List Obj
  held : List (CallId × Obj)
  received : List (Word × Bool)

namespace Objects

def init : Objects := ⟨fun _ => 0, [], [], []⟩

def new (s : Objects) (o : Obj) : Objects :=
  { s with refs := Function.update s.refs o 1, made := o :: s.made }

/-- `Py_INCREF` -/
def incref (s : Objects) (o : Obj) : Objects :=
  { s with refs := Function.update s.refs o (s.refs o + 1) }

/-- `Py_DECREF`: an object without references is freed. -/
def decref (s : Objects) (o : Obj) : Objects :=
  { s with refs := Function.update s.refs o (s.refs o - 1) }

/-- `<object>obj` -/
def convert (s : Objects) : Word → Objects
  | .data o =>
    if 0 < s.refs o then { s.incref o with received := (.data o, true) :: s.received }
    else { s with received := (.data o, false) :: s.received }
  | v => { s with received := (v, false) :: s.received }

/-- What the calls of `gevent_channel_send` and `gevent_channel_receive` in the
binding go with. -/
def observe (s : Objects) : Event → Objects
  | .call k _ (.send (.plain _) (.data o)) => { s.incref o with held := (k, o) :: s.held }
  | .ret k _ (.send (.plain _) (.data o)) _ => { s.decref o with held := s.held.erase (k, o) }
  | .ret _ _ (.receive (.plain _)) (.value v) => s.convert v
  | _ => s

def observeAll (s : Objects) : List Event → Objects
  | [] => s
  | ev :: past => (s.observeAll past).observe ev

/-- Every pointer that was converted led to an object that was alive. -/
def Sound (s : Objects) : Prop := ∀ r ∈ s.received, r.2 = true

instance (s : Objects) : Decidable s.Sound := inferInstanceAs (Decidable (∀ _ ∈ _, _))

/-- The references to `o` that calls of `channel.send` hold. -/
def holds (s : Objects) (o : Obj) : Nat := s.held.countP fun h => h.2 = o

end Objects

/-- A Python program over one hub. -/
structure Interp where
  world : World
  objects : Objects

/-- The call is one of `gevent_channel_send` or `gevent_channel_receive`. -/
def World.Action.onChannel : World.Action → Bool
  | .call (.send _ _) | .call (.receive _) => true
  | _ => false

namespace Interp

inductive Action where
  /-- an object is made, with one reference -/
  | new (o : Obj)
  | incref (o : Obj)
  | decref (o : Obj)
  /-- `channel.send` -/
  | send (n : Nat) (item : Obj)
  /-- `channel.receive` -/
  | receive (n : Nat)
  | other (a : World.Action)
  deriving DecidableEq

/-- The events of a step of gevent.c. -/
def news (w w' : World) : List Event := w'.env.log.take (w'.env.log.length - w.env.log.length)

def run (p : Interp) (a : World.Action) : Except Fault Interp := do
  let w ← gevent.exec p.world a
  .ok ⟨w, p.objects.observeAll (news p.world w)⟩

def exec (p : Interp) : Action → Except Fault Interp
  | .new o => .ok { p with objects := p.objects.new o }
  | .incref o => .ok { p with objects := p.objects.incref o }
  | .decref o => .ok { p with objects := p.objects.decref o }
  | .send n item => p.run (.call (.send (.plain n) (.data item)))
  | .receive n => p.run (.call (.receive (.plain n)))
  | .other a => p.run a

/-- Objects are told apart by their addresses, so none is used again. Who passes
an object on has a reference to it, and nobody drops those that calls of
`channel.send` hold. -/
def Legal (p : Interp) : Action → Prop
  | .new o => o ∉ p.objects.made ∧ p.objects.refs o = 0
  | .incref o => 0 < p.objects.refs o
  | .decref o => p.objects.holds o < p.objects.refs o
  | .send n item => 0 < p.objects.refs item ∧ p.world.Legal (.call (.send (.plain n) (.data item)))
  | .receive n => p.world.Legal (.call (.receive (.plain n)))
  | .other a => a.onChannel = false ∧ p.world.Legal a

instance decidableLegal (p : Interp) : (a : Action) → Decidable (p.Legal a)
  | .new _ => inferInstanceAs (Decidable (_ ∧ _))
  | .incref _ | .decref _ => inferInstanceAs (Decidable (_ < _))
  | .send n item =>
    inferInstanceAs (Decidable (_ ∧ p.world.Legal (.call (.send (.plain n) (.data item)))))
  | .receive n => inferInstanceAs (Decidable (p.world.Legal (.call (.receive (.plain n)))))
  | .other a => inferInstanceAs (Decidable (a.onChannel = false ∧ p.world.Legal a))

end Interp

def python : Machine Interp Interp.Action Fault where
  start p := gevent.start p.world ∧ p.objects = .init
  legal := Interp.Legal
  exec := Interp.exec

instance (p : Interp) (a : Interp.Action) : Decidable (python.legal p a) :=
  inferInstanceAs (Decidable (p.Legal a))

/-! ## References that calls hold -/

/-- An object, not a pointer of gevent.c. -/
def Word.IsItem (v : Word) : Prop := ∃ o, v = .data o

/-- The event is in order for the binding: calls return once and were made
before, and a receive call returns an object that is being sent. -/
def Event.Passes (ev : Event) (past : List Event) : Prop :=
  ev.Delivers Word.IsItem past ∧ ∀ k t c r, ev = .ret k t c r → .call k t c ∈ past

/-- Every call of `channel.send` under way holds a reference, and the count
covers them. -/
structure Objects.Balanced (s : Objects) (log : List Event) : Prop where
  counted : ∀ o, s.holds o ≤ s.refs o
  sending : ∀ k t n o, .call k t (.send (.plain n) (.data o)) ∈ log →
    (∀ ev ∈ log, ev.ends ≠ some k) → (k, o) ∈ s.held
  sound : s.Sound

namespace Objects.Balanced
variable {s : Objects} {log es : List Event} {ev : Event} {o : Obj}

theorem holds_pos {k : CallId} (h : (k, o) ∈ s.held) : 0 < s.holds o :=
  List.countP_pos_iff.mpr ⟨_, h, by simp⟩

/-- What is offered is alive. -/
theorem offered (h : s.Balanced log) {n : Nat} (offered : Offered n (.data o) log) :
    0 < s.refs o := by
  obtain ⟨k, t, hc, unreturned⟩ := offered
  exact Nat.lt_of_lt_of_le (holds_pos (h.sending k t n o hc unreturned)) (h.counted o)

/-- An event that changes nothing but perhaps ends a call. -/
theorem skip (h : s.Balanced log) (hs : s.observe ev = s)
    (hev : ∀ k t n o, ev ≠ .call k t (.send (.plain n) (.data o))) :
    (s.observe ev).Balanced (ev :: log) := by
  rw [hs]
  refine ⟨h.counted, fun k t n o hc unreturned => ?_, h.sound⟩
  rcases List.mem_cons.mp hc with he | hc
  · exact absurd he.symm (hev k t n o)
  · exact h.sending k t n o hc fun e he => unreturned e (List.mem_cons_of_mem _ he)

/-- A send call takes its reference. -/
theorem send (h : s.Balanced log) (k : CallId) (t : Tid) (n : Nat) (o : Obj) :
    (s.observe (.call k t (.send (.plain n) (.data o)))).Balanced
      (.call k t (.send (.plain n) (.data o)) :: log) := by
  refine ⟨fun o' => ?_, fun k' t' n' o' hc unreturned => ?_, h.sound⟩
  · have counted := h.counted o'
    by_cases ho : o' = o
    · subst ho
      simpa [Objects.observe, Objects.incref, Objects.holds] using counted
    · simpa [Objects.observe, Objects.incref, Objects.holds, ho, Ne.symm ho] using counted
  · rcases List.mem_cons.mp hc with he | hc
    · cases he
      exact List.mem_cons_self
    · exact List.mem_cons_of_mem _
        (h.sending k' t' n' o' hc fun e he => unreturned e (List.mem_cons_of_mem _ he))

/-- A send call returns, and gives its reference back. -/
theorem sent (h : s.Balanced log) {k : CallId} (hk : (k, o) ∈ s.held) (t : Tid) (n : Nat)
    (r : Result) : (s.observe (.ret k t (.send (.plain n) (.data o)) r)).Balanced
      (.ret k t (.send (.plain n) (.data o)) r :: log) := by
  refine ⟨fun o' => ?_, fun k' t' n' o' hc unreturned => ?_, h.sound⟩
  · have counted := h.counted o'
    have erased : s.holds o' = (s.held.erase (k, o)).countP (fun h => h.2 = o') +
        if o = o' then 1 else 0 := by
      rw [Objects.holds, (List.perm_cons_erase hk).countP_eq, List.countP_cons]
      simp
    change (s.held.erase (k, o)).countP (fun h => h.2 = o') ≤ (s.decref o).refs o'
    by_cases ho : o' = o
    · subst ho
      simp only [if_true] at erased
      simp only [Objects.decref, Function.update_self]
      omega
    · simp only [Ne.symm ho, if_false] at erased
      simp only [Objects.decref, Function.update_of_ne ho]
      omega
  · have hc : .call k' t' (.send (.plain n') (.data o')) ∈ log :=
      (List.mem_cons.mp hc).resolve_left (by simp)
    have hne : k' ≠ k := by
      rintro rfl
      exact unreturned _ List.mem_cons_self rfl
    refine (List.mem_erase_of_ne (by simp [hne])).mpr ?_
    exact h.sending k' t' n' o' hc fun e he => unreturned e (List.mem_cons_of_mem _ he)

/-- A receive call takes a reference to an object that is alive. -/
theorem received (h : s.Balanced log) (alive : 0 < s.refs o) (k : CallId) (t : Tid) (n : Nat) :
    (s.observe (.ret k t (.receive (.plain n)) (.value (.data o)))).Balanced
      (.ret k t (.receive (.plain n)) (.value (.data o)) :: log) := by
  simp only [Objects.observe, Objects.convert, if_pos alive]
  refine ⟨fun o' => ?_, fun k' t' n' o' hc unreturned => ?_, ?_⟩
  · have counted := h.counted o'
    by_cases ho : o' = o
    · subst ho
      simp only [Objects.incref, Objects.holds, Function.update_self] at counted ⊢
      omega
    · simpa [Objects.incref, Objects.holds, ho] using counted
  · exact h.sending k' t' n' o' ((List.mem_cons.mp hc).resolve_left (by simp))
      fun e he => unreturned e (List.mem_cons_of_mem _ he)
  · intro c hc
    rcases List.mem_cons.mp hc with rfl | hc
    · rfl
    · exact h.sound c hc

theorem observe (h : s.Balanced log) (ordered : Hist Event.Passes (ev :: log)) :
    (s.observe ev).Balanced (ev :: log) := by
  obtain ⟨⟨delivers, made⟩, past⟩ := ordered
  cases ev with
  | call k t c =>
    cases c with
    | send ch v =>
      cases ch with
      | plain n =>
        cases v with
        | data o => exact h.send k t n o
        | _ => exact h.skip rfl (by simp)
      | ofSem => exact h.skip rfl (by simp)
    | _ => exact h.skip rfl (by simp)
  | ret k t c r =>
    cases c with
    | send ch v =>
      cases ch with
      | plain n =>
        cases v with
        | data o =>
          exact h.sent (h.sending k t n o (made k t _ r rfl) (delivers.once k rfl)) t n r
        | _ => exact h.skip rfl (by simp)
      | ofSem => exact h.skip rfl (by simp)
    | receive ch =>
      cases ch with
      | plain n =>
        obtain ⟨v, rfl, hv⟩ := delivers.offered k t n r rfl
        -- what is being sent is an object
        obtain ⟨o, rfl⟩ : v.IsItem := by
          obtain ⟨i, u, hc, -⟩ := hv
          obtain ⟨l₁, l₂, -, hd, -⟩ := past.of_mem hc
          exact hd.item i u n v rfl
        exact h.received (h.offered hv) k t n
      | ofSem => exact h.skip rfl (by simp)
    | _ => exact h.skip rfl (by simp)
  | _ => exact h.skip rfl (by simp)

theorem observeAll (h : s.Balanced log) (ordered : Hist Event.Passes (es ++ log)) :
    (s.observeAll es).Balanced (es ++ log) := by
  induction es with
  | nil => exact h
  | cons ev es ih => exact (ih ordered.2).observe ordered

/-- Events that concern no channel of the program. -/
theorem aside {s' : Objects} (h : s.Balanced log) (held : s'.held = s.held)
    (received : s'.received = s.received) (counted : ∀ o, s.holds o ≤ s'.refs o) :
    s'.Balanced log where
  counted o := by
    rw [Objects.holds, held]
    exact counted o
  sending k t n o hc unreturned := by
    rw [held]
    exact h.sending k t n o hc unreturned
  sound := by
    rw [Objects.Sound, received]
    exact h.sound

end Objects.Balanced

/-! ## Receive calls that wait for their senders -/

/-- No receive call finds a blocked sender, and the main cothread is not resumed
as a last resort in the middle of one. More than needed: a sender may return first
as long as another reference keeps its object. -/
def Interp.receiversFirst (p : Interp) : Interp.Action → Prop
  | .receive n => p.world.queueEmpty (.senders (.plain n)) = true
  | .other a => p.world.Spares Frame.Receives Frame.Receives a
  | .new _ | .incref _ | .decref _ | .send _ _ => True

instance (p : Interp) : (a : Interp.Action) → Decidable (p.receiversFirst a)
  | .receive _ => inferInstanceAs (Decidable (_ = true))
  | .other _ => inferInstanceAs (Decidable (World.Spares _ _ _ _))
  | .new _ | .incref _ | .decref _ | .send _ _ => inferInstanceAs (Decidable True)

/-- The same of the steps of gevent.c. -/
structure World.ReceiversFirst (w : World) (a : World.Action) : Prop where
  alone : ∀ n, a = .call (.receive (.plain n)) → w.queueEmpty (.senders (.plain n)) = true
  item : ∀ n v, a = .call (.send (.plain n) v) → v.IsItem
  spares : w.Spares Frame.Receives Frame.Receives a

/-- The calls that such a program makes. -/
def receiversFirstRules : Rules := Rules.sparing (fun s c =>
  (∀ n, c = .receive (.plain n) → s.queue (.senders (.plain n)) = []) ∧
    ∀ n v, c = .send (.plain n) v → v.IsItem) Frame.Receives Frame.Receives

theorem receiversFirstRules_receiversFirst : receiversFirstRules.ReceiversFirst Word.IsItem where
  item _ n v h := h.2 n v rfl
  call _ n h := h.1 n rfl
  last _ f hf hr why may := why.elim (fun h => may.1 h ⟨f, hf, hr⟩) fun h => may.2 h ⟨f, hf, hr⟩

theorem Paired.admits_receiversFirst {w : World} {s : Sched} {a : World.Action} (p : Paired w s)
    (legal : w.Legal a) (h : w.ReceiversFirst a) : receiversFirstRules.Admit s a := by
  refine p.admits legal h.spares ?_
  rintro t c rfl -
  refine ⟨?_, fun n v hc => h.item n v (congrArg World.Action.call hc)⟩
  rintro n rfl
  exact (p.queueEmpty _).mp (h.alone n rfl)

theorem passes_in_order {w : World} (r : gevent.Reach World.ReceiversFirst w) :
    Hist Event.Passes w.env.log := by
  obtain ⟨s, rs, p⟩ := reach_rules (fun w s a p legal h => p.admits_receiversFirst legal h) r
  have deliveries := (scheduler_deliveries receiversFirstRules_receiversFirst rs).ordered
  have returns := (scheduler_returns (Rules.reach_any rs)).ordered
  rw [p.env]
  refine (deliveries.and returns).imp fun ev past h => ⟨h.1, ?_⟩
  rintro k t c r rfl
  exact h.2.1

namespace Interp
variable {p p' : Interp} {a : Action} {b : World.Action}

/-- A step of gevent.c in a Python program. -/
theorem run_ok (h : p.run b = .ok p') : gevent.exec p.world b = .ok p'.world ∧
    p'.objects = p.objects.observeAll (news p.world p'.world) := by
  simp only [run] at h
  cases he : gevent.exec p.world b with
  | error f => simp [he] at h
  | ok w =>
    rw [he, ok_bind] at h
    cases h
    exact ⟨rfl, rfl⟩

theorem news_eq {w w' : World} {es : List Event} (h : w'.env.log = es ++ w.env.log) :
    news w w' = es := by
  simp [news, h]

/-- What a step does, to gevent.c or to the objects. -/
theorem exec_cases (legal : python.legal p a) (meets : p.receiversFirst a)
    (h : python.exec p a = .ok p') :
    (∃ b, p.world.Legal b ∧ p.world.ReceiversFirst b ∧ p.run b = .ok p') ∨
      p'.world = p.world ∧ p'.objects.held = p.objects.held ∧
        p'.objects.received = p.objects.received ∧
        ((∀ o, p.objects.holds o ≤ p.objects.refs o) →
          ∀ o, p.objects.holds o ≤ p'.objects.refs o) := by
  cases a with
  | send n item =>
    refine .inl ⟨_, legal.2, ⟨by simp, ?_, trivial⟩, h⟩
    rintro n' v ⟨⟩
    exact ⟨item, rfl⟩
  | receive n =>
    refine .inl ⟨.call (.receive (.plain n)), legal, ⟨?_, by simp, trivial⟩, h⟩
    rintro n' ⟨⟩
    exact meets
  | other b =>
    obtain ⟨channel, legal⟩ := legal
    refine .inl ⟨b, legal, ⟨?_, ?_, meets⟩, h⟩
    · rintro n rfl
      cases channel
    · rintro n v rfl
      cases channel
  | new o =>
    cases h
    refine .inr ⟨rfl, rfl, rfl, fun counted o' => ?_⟩
    have := counted o'
    by_cases ho : o' = o
    · subst ho
      simp only [legal.2] at this
      omega
    · simpa [Objects.new, ho] using this
  | incref o =>
    cases h
    refine .inr ⟨rfl, rfl, rfl, fun counted o' => ?_⟩
    have := counted o'
    by_cases ho : o' = o
    · subst ho
      simp only [Objects.incref, Function.update_self]
      omega
    · simpa [Objects.incref, ho] using this
  | decref o =>
    cases h
    refine .inr ⟨rfl, rfl, rfl, fun counted o' => ?_⟩
    have := counted o'
    by_cases ho : o' = o
    · subst ho
      have legal : p.objects.holds o' < p.objects.refs o' := legal
      simp only [Objects.decref, Function.update_self]
      omega
    · simpa [Objects.decref, ho] using this

theorem reach_world (r : python.Reach receiversFirst p) :
    gevent.Reach World.ReceiversFirst p.world := by
  have start : ∀ p, python.start p → gevent.start p.world := fun _ h => h.1
  refine r.project start fun p a p' legal meets exec => ?_
  rcases exec_cases legal meets exec with ⟨b, legal', meets', hr⟩ | ⟨h, -⟩
  · exact .inr ⟨b, legal', meets', (run_ok hr).1⟩
  · exact .inl h

theorem balanced (r : python.Reach receiversFirst p) : p.objects.Balanced p.world.env.log := by
  refine r.invariant (P := fun p => p.objects.Balanced p.world.env.log) ?_ ?_
  · rintro p ⟨hw, hobj⟩
    obtain ⟨s, hs, c⟩ := gevent_refines.start _ hw
    rw [hobj, c.env, hs.log]
    exact ⟨fun o => Nat.le_refl 0, by simp, by simp [Objects.Sound, Objects.init]⟩
  · intro p a p' r h legal meets exec
    rcases exec_cases legal meets exec with ⟨b, legal', meets', hr⟩ | ⟨hw, held, received, counted⟩
    · obtain ⟨hexec, hobj⟩ := run_ok hr
      have hp := reach_world r
      obtain ⟨s, ps⟩ := reach_paired hp
      obtain ⟨valid, x, ps'⟩ := ps.exec_next legal' hexec
      obtain ⟨es, hes⟩ := Sched.step_log ps.reach ⟨ps.toCorr.allowed ps.base legal', valid, x, rfl⟩
      have log : p'.world.env.log = es ++ p.world.env.log := by
        rw [ps.env, ps'.env]
        exact hes
      rw [hobj, news_eq log, log]
      exact h.observeAll (log ▸ passes_in_order (.step hp legal' meets' hexec))
    · rw [hw]
      exact h.aside held received (counted h.counted)

end Interp

/-- In every run in which no receive call finds a blocked sender, and the main
cothread is never resumed as a last resort in the middle of one, every pointer
that `channel.receive` converts leads to an object that is alive. -/
theorem items_stay_alive {p : Interp} (r : python.Reach Interp.receiversFirst p) :
    p.objects.Sound :=
  (Interp.balanced r).sound

set_option maxRecDepth 100000 in
/-- A receiver that waits gets the object of a sender. -/
theorem items_stay_alive_run : ∃ p, python.Reach Interp.receiversFirst p ∧
    p.objects.received = [(.data 5, true)] ∧ p.objects.refs 5 = 1 ∧ p.objects.Sound := by
  have start : python.start ⟨zeroStart, .init⟩ := ⟨zeroStart_start, rfl⟩
  have h : (python.play Interp.receiversFirst ⟨zeroStart, .init⟩ [.new 5,
      .other (.cothreadInit 1 1), .other (.call (.spawn 1)), .receive 0, .send 0 5,
      .other .finish, .decref 5]).any (fun p =>
        decide (p.objects.received = [(.data 5, true)] ∧ p.objects.refs 5 = 1)) = true := by decide
  obtain ⟨p, r, h1, h2⟩ := Machine.Reach.of_play start h
  exact ⟨p, r, h1, h2, items_stay_alive r⟩

set_option maxRecDepth 100000 in
/-- The main cothread receives from a sender that waits: the sender runs on
first and drops the last reference. -/
theorem item_freed_in_passing : ¬ ∀ p, python.Reach anyStep p → p.objects.Sound := by
  intro all
  have start : python.start ⟨zeroStart, .init⟩ := ⟨zeroStart_start, rfl⟩
  have h : (python.play anyStep ⟨zeroStart, .init⟩ [.new 5, .other (.cothreadInit 1 1),
      .other (.call (.spawn 1)), .send 0 5, .decref 5, .receive 0, .other .finish]).any (fun p =>
        decide (¬ p.objects.Sound)) = true := by decide
  obtain ⟨p, r, hp⟩ := Machine.Reach.of_play start h
  exact hp (all p r)

end Gevent
