import Gevent.Stacklet.Chain

/-!
# The interface of the stacklet library

`Stacks` is what stacklet.h promises: a handle stands for a suspended stack, and
the stack that is resumed is as it was. The program may use the C stack below
`base`, and the main stack also above. `stackletc` is the library in
the hands of a program that keeps to the rules, and it refines the interface
(`stackletc_refines`).
-/

namespace Gevent.Stacklet

/-- A suspended stack, as it was when it was suspended. -/
structure Image where
  start : Nat
  stop : Nat
  contents : Nat → Byte
  main : Bool

structure Stacks where
  stack : Nat → Byte
  /-- one past the oldest byte of the running stack -/
  base : Nat
  /-- the main stack runs -/
  main : Bool
  suspended : Ptr → Option Image
  /-- what the call that has come back returns: the stack we come from -/
  source : Handle

/-- What a program does: its own code writes to the C stack and calls the
library. `stackmarker` is in the frame of the library function, `sp` the stack
pointer in `slp_switch`, `mem` what `malloc` gives. -/
inductive Action where
  | write (a : Nat) (b : Byte)
  | new (stackmarker sp : Nat) (mem : Option Ptr)
  | switch (stackmarker sp : Nat) (mem : Option Ptr) (target : Ptr)
  /-- `run` returns -/
  | finish (result : Ptr)
  | destroy (target : Ptr)

namespace Stacks

/-- The running stack becomes a suspended one. -/
def suspend (t : Stacks) (stackmarker sp : Nat) (p : Ptr) : Ptr → Option Image :=
  Function.update t.suspended p (some ⟨sp, max t.base (stackmarker + 1), t.stack, t.main⟩)

/-- `t'` runs the stack that was suspended under `target`, with all its bytes. -/
def Resumes (suspended : Ptr → Option Image) (target : Ptr) (source : Handle) (t' : Stacks) :
    Prop :=
  ∃ img, suspended target = some img ∧ t'.suspended = Function.update suspended target none ∧
    t'.base = img.stop ∧ t'.main = img.main ∧ t'.source = source ∧
    ∀ a, img.start ≤ a → a < img.stop → t'.stack a = img.contents a

def step (t : Stacks) (a : Action) (t' : Stacks) : Prop :=
  match a with
  | .write a b => t' = { t with stack := Function.update t.stack a b }
  | .new stackmarker _ none | .switch stackmarker _ none _ =>
    t' = { t with base := max t.base (stackmarker + 1), source := .null }
  | .new stackmarker sp (some p) =>
    t' = ⟨t.stack, stackmarker, false, t.suspend stackmarker sp p, .stack p⟩
  | .switch stackmarker sp (some p) target => Resumes (t.suspend stackmarker sp p) target
      (.stack p) t'
  | .finish result => Resumes t.suspended result .empty t'
  | .destroy target => t' = { t with suspended := Function.update t.suspended target none }

end Stacks

def stackleth : Spec Stacks Action where
  start t := t.base = 0 ∧ t.main = true ∧ ∀ p, t.suspended p = none
  step := Stacks.step

/-- The library, and the handle of the main stack when it is suspended. -/
structure Program where
  state : State
  main : Option Ptr

namespace Program

/-- `malloc` gives memory that is not in use, or none. -/
def Fresh (r : Program) (mem : Option Ptr) : Prop := ∀ p ∈ mem, p ∉ r.state.live

/-- The running code is below its base, unless it is that of the main stack. -/
def Below (r : Program) (a : Nat) : Prop := a < r.state.thrd.gCurrentStackStop ∨ r.main = none

def Legal (r : Program) : Action → Prop
  | .write a _ => r.Below a
  | .new stackmarker sp mem => r.Below stackmarker ∧ sp ≤ stackmarker ∧ r.Fresh mem
  | .switch stackmarker sp mem target =>
    r.Below stackmarker ∧ sp ≤ stackmarker ∧ r.Fresh mem ∧ target ∈ r.state.live
  | .finish result => r.main ≠ none ∧ result ∈ r.state.live
  | .destroy target => target ∈ r.state.live ∧ r.main ≠ some target

instance (r : Program) (a : Nat) : Decidable (r.Below a) := inferInstanceAs (Decidable (_ ∨ _))

instance (r : Program) (mem : Option Ptr) : Decidable (r.Fresh mem) :=
  inferInstanceAs (Decidable (∀ p ∈ mem, p ∉ r.state.live))

instance (r : Program) : (a : Action) → Decidable (r.Legal a)
  | .write a _ => inferInstanceAs (Decidable (r.Below a))
  | .new .. => inferInstanceAs (Decidable (_ ∧ _ ∧ _))
  | .switch .. => inferInstanceAs (Decidable (_ ∧ _ ∧ _ ∧ _))
  | .finish _ | .destroy _ => inferInstanceAs (Decidable (_ ∧ _))

/-- The handle of the main stack once the running stack is suspended under `p`. -/
def mainAfter (r : Program) (p : Ptr) : Option Ptr := r.main.or (some p)

def exec (r : Program) (a : Action) : Except Fault Program :=
  match a with
  | .write a b => .ok { r with state := { r.state with stack := Function.update r.state.stack a b } }
  | .new stackmarker sp mem => do
    let s ← r.state.stackletNew stackmarker sp mem
    .ok ⟨s, mem.elim r.main r.mainAfter⟩
  | .switch stackmarker sp mem target => do
    let s ← r.state.stackletSwitch stackmarker sp mem target
    .ok ⟨s, mem.elim r.main fun p => (r.mainAfter p).filter (· ≠ target)⟩
  | .finish result => do
    let s ← r.state.runReturns result
    .ok ⟨s, r.main.filter (· ≠ result)⟩
  | .destroy target => do
    let s ← r.state.stackletDestroy target
    .ok ⟨s, r.main⟩

end Program

/-- `stacklet_newthread`: all fields are zero. -/
def newthread : ThreadS := ⟨none, 0, 0, .null, 0⟩

def stackletc : Machine Program Action Fault where
  start r := r.state.live = [] ∧ r.state.thrd = newthread ∧ r.main = none
  legal := Program.Legal
  exec := Program.exec

instance (r : Program) (a : Action) : Decidable (stackletc.legal r a) :=
  inferInstanceAs (Decidable (r.Legal a))

/-! ## What the library keeps -/

namespace State

/-- The stacklet at `p` has all the bytes of the suspended stack. -/
structure Holds (s : State) (p : Ptr) (img : Image) : Prop where
  start : (s.heap p).stackStart = img.start
  stop : (s.heap p).stackStop = img.stop
  order : img.start < img.stop
  bound : (s.heap p).stackSaved ≤ img.stop - img.start
  image : ∀ a, img.start ≤ a → a < img.stop → (s.heap p).segment.image s.stack a = img.contents a

/-- The suspended stacks; `ps` are in part on the C stack, above `low`. -/
structure Keeps (s : State) (suspended : Ptr → Option Image) (low : Nat) (ps : List Ptr) :
    Prop where
  nodup : s.live.Nodup
  live : ∀ p, p ∈ s.live ↔ (suspended p).isSome
  holds : ∀ p img, suspended p = some img → s.Holds p img
  chain : s.Chain low s.thrd.gStackChainHead ps
  saved : ∀ p ∈ s.live, p ∉ ps → (s.heap p).Saved

section
variable {s s' : State} {suspended : Ptr → Option Image} {low : Nat} {ps rest : List Ptr}
  {p target : Ptr} {img : Image}

/-- What has not moved is above `low`. -/
theorem Keeps.unsaved (h : s.Keeps suspended low ps) (hp : suspended p = some img) {a : Nat}
    (above : img.start ≤ a) (below : a < img.stop) (left : (s.heap p).stackSaved ≤ a - img.start) :
    p ∈ ps ∧ low ≤ a := by
  have holds := h.holds p img hp
  by_cases hps : p ∈ ps
  · have := (h.chain.mem hps).2
    rw [holds.start] at this
    exact ⟨hps, by omega⟩
  · have full := h.saved p ((h.live p).mpr (by simp [hp])) hps
    rw [StackletS.Saved, holds.start, holds.stop] at full
    omega

theorem Holds.moved (h : s.Holds p img) (m : s.Moved s') : s'.Holds p img where
  start := (m.start p).trans h.start
  stop := (m.stop p).trans h.stop
  order := h.order
  bound := by
    have := m.bound p (by rw [h.start, h.stop]; exact h.bound)
    rwa [h.start, h.stop] at this
  image a above below := by
    rw [m.stack, m.image p a (by rwa [h.start])]
    exact h.image a above below

/-- The bytes that are on the C stack stay. -/
theorem Holds.stay (h : s.Holds p img) (heap : s'.heap p = s.heap p)
    (stack : ∀ a, img.start ≤ a → a < img.stop → (s.heap p).stackSaved ≤ a - img.start →
      s'.stack a = s.stack a) : s'.Holds p img where
  start := heap ▸ h.start
  stop := heap ▸ h.stop
  order := h.order
  bound := heap ▸ h.bound
  image a above below := by
    rw [heap, ← h.image a above below]
    refine Segment.image_congr fun left => stack a above below ?_
    rwa [show (s.heap p).segment.start = img.start from h.start] at left

/-- The running code writes below its base. -/
theorem Keeps.write (h : s.Keeps suspended low ps) {a : Nat} {b : Byte} (free : a < low ∨ ps = []) :
    State.Keeps { s with stack := Function.update s.stack a b } suspended low ps where
  nodup := h.nodup
  live := h.live
  holds p img hp := by
    refine (h.holds p img hp).stay rfl fun a' above below left => Function.update_of_ne ?_ ..
    rintro rfl
    obtain ⟨hps, high⟩ := h.unsaved hp above below left
    rcases free with free | rfl
    · omega
    · cases hps
  chain := h.chain.congr (fun _ _ => rfl) fun _ hp => (h.chain.mem hp).1
  saved := h.saved

theorem Keeps.raise (h : s.Keeps suspended low ps) {low' : Nat} (free : low' ≤ low ∨ ps = []) :
    s.Keeps suspended low' ps where
  nodup := h.nodup
  live := h.live
  holds := h.holds
  chain := by
    rcases free with le | rfl
    · exact h.chain.weaken le
    · have := h.chain
      cases hh : s.thrd.gStackChainHead with
      | none => trivial
      | some p =>
        rw [hh] at this
        exact this.elim
  saved := h.saved

/-- Only the thread changes, and the list stays. -/
theorem Keeps.withThrd (h : s.Keeps suspended low ps) (thrd : ThreadS)
    (head : thrd.gStackChainHead = s.thrd.gStackChainHead) :
    State.Keeps { s with thrd := thrd } suspended low ps where
  nodup := h.nodup
  live := h.live
  holds p img hp := (h.holds p img hp).stay rfl fun _ _ _ _ => rfl
  chain := by
    rw [head]
    exact h.chain.congr (fun _ _ => rfl) fun _ hp => (h.chain.mem hp).1
  saved := h.saved

/-- The running stack is suspended, with no byte saved yet. -/
theorem Keeps.allocate (h : s.Keeps suspended s.thrd.gCurrentStackStop ps) {sp : Nat} {main : Bool}
    (fresh : p ∉ s.live) (order : sp < s.thrd.gCurrentStackStop) :
    (s.gAllocateSourceStacklet sp (some p)).1.Keeps
      (Function.update suspended p (some ⟨sp, s.thrd.gCurrentStackStop, s.stack, main⟩)) sp
        (p :: ps) := by
  have others : ∀ q ∈ s.live, (s.gAllocateSourceStacklet sp (some p)).1.heap q = s.heap q := by
    intro q hq
    refine Function.update_of_ne ?_ ..
    rintro rfl
    exact fresh hq
  refine ⟨List.nodup_cons.mpr ⟨fresh, h.nodup⟩, fun q => ?_, fun q img hq => ?_, ?_,
    fun q hq hqs => ?_⟩
  · by_cases hqp : q = p
    · subst hqp
      simp [gAllocateSourceStacklet]
    · simp [gAllocateSourceStacklet, hqp, h.live q]
  · by_cases hqp : q = p
    · subst hqp
      rw [Function.update_self] at hq
      cases hq
      refine ⟨?_, ?_, order, ?_, fun a above below => ?_⟩ <;>
        simp [gAllocateSourceStacklet, StackletS.segment, Segment.image]
    · rw [Function.update_of_ne hqp] at hq
      have live : q ∈ s.live := (h.live q).mpr (by simp [hq])
      exact (h.holds q img hq).stay (others q live) fun _ _ _ _ => rfl
  · refine ⟨rfl, List.mem_cons_self, ?_, ?_, ?_⟩
    · simp [gAllocateSourceStacklet]
    · simpa [gAllocateSourceStacklet] using order
    · have tail : (s.gAllocateSourceStacklet sp (some p)).1.Chain _ _ ps :=
        h.chain.congr (fun q hq => others q (h.chain.mem hq).1)
          fun q hq => List.mem_cons_of_mem _ (h.chain.mem hq).1
      simpa [gAllocateSourceStacklet] using tail
  · obtain ⟨hqp, hqs⟩ := not_or.mp (mt List.mem_cons.mpr hqs)
    have live : q ∈ s.live := (List.mem_cons.mp hq).resolve_left hqp
    rw [others q live]
    exact h.saved q live hqs

/-- Room is made for the target. -/
theorem Keeps.clear (h : s.Keeps suspended low ps) (ht : target ∈ s.live) :
    ∃ s' rest, s.gClearStack target = .ok s' ∧ s.Cleared s' target ps rest ∧
      (∀ p img, suspended p = some img → s'.Holds p img) ∧
      ∀ p ∈ s.live, p ∉ rest → p ≠ target → (s'.heap p).Saved := by
  obtain ⟨s', rest, run, cleared⟩ := gClearStack_spec h.chain ht
  refine ⟨s', rest, run, cleared, fun p img hp => (h.holds p img hp).moved cleared.toMoved, ?_⟩
  intro p hp hrest hne
  by_cases hps : p ∈ ps
  · exact (cleared.gone p hps hrest).2 hne
  · rw [cleared.same p hps]
    exact h.saved p hp hps

/-- The target runs again, and the other stacks are kept. -/
structure Resumed (s s' : State) (suspended : Ptr → Option Image) (target : Ptr) (img : Image)
    (ps rest : List Ptr) : Prop where
  keeps : s'.Keeps (Function.update suspended target none) img.stop rest
  base : s'.thrd.gCurrentStackStop = img.stop
  stack : ∀ a, img.start ≤ a → a < img.stop → s'.stack a = img.contents a
  source : s'.thrd.gSource = s.thrd.gSource
  sub : rest ⊆ ps
  above : ∀ q ∈ rest, img.stop < (s.heap q).stackStop
  gone : ∀ q ∈ ps, q ∉ rest → (s.heap q).stackStop ≤ img.stop

theorem Keeps.resume (h : s.Keeps suspended low ps) (ht : suspended s.thrd.gTarget = some img) :
    ∃ s' rest, slpSwitch s.clearForTarget = .ok s' ∧
      s.Resumed s' suspended s.thrd.gTarget img ps rest := by
  have live : s.thrd.gTarget ∈ s.live := (h.live _).mpr (by simp [ht])
  obtain ⟨s₁, rest, run, cleared, holds, saved⟩ := h.clear live
  have target := holds _ img ht
  have live₁ : s.thrd.gTarget ∈ s₁.live := cleared.live ▸ live
  have same : s₁.thrd.gTarget = s.thrd.gTarget := by rw [cleared.thrd]
  have stop : (s.heap s.thrd.gTarget).stackStop = img.stop := (h.holds _ img ht).stop
  let c := s₁.heap s.thrd.gTarget
  let s' : State := State.free { s₁ with
    stack := copyRange s₁.stack c.stackStart c.copy 0 c.stackSaved
    thrd := { s₁.thrd with gCurrentStackStop := c.stackStop } } s.thrd.gTarget
  -- the bytes of other stacks on the C stack are above the target
  have outside : ∀ q img', suspended q = some img' → q ≠ s.thrd.gTarget → ∀ a, img'.start ≤ a →
      a < img'.stop → (s₁.heap q).stackSaved ≤ a - img'.start → s'.stack a = s₁.stack a := by
    intro q img' hq hne a above below left
    have hq' := holds q img' hq
    have qlive : q ∈ s.live := (h.live q).mpr (by simp [hq])
    have hrest : q ∈ rest := by
      by_contra hrest
      have full := saved q qlive hrest hne
      rw [StackletS.Saved, hq'.start, hq'.stop] at full
      omega
    have high := (cleared.chain.mem hrest).2.1
    rw [stop, hq'.start] at high
    refine copyRange_outside (.inr ?_)
    have order := target.order
    have bound : c.stackSaved ≤ img.stop - img.start := target.bound
    have start : c.stackStart = img.start := target.start
    omega
  have free : ∀ q, q ∈ s'.live ↔ q ≠ s.thrd.gTarget ∧ q ∈ s.live := fun q => by
    have nodup : s₁.live.Nodup := cleared.live ▸ h.nodup
    rw [show s'.live = s₁.live.erase s.thrd.gTarget from rfl, nodup.mem_erase_iff, cleared.live]
  have out : ∀ q ∈ rest, q ≠ s.thrd.gTarget := by
    rintro q hq rfl
    exact Nat.lt_irrefl _ (cleared.above _ hq)
  refine ⟨s', rest, ?_, ⟨⟨?_, fun q => ?_, fun q img' hq => ?_, ?_, fun q hq hrest => ?_⟩, ?_, ?_, ?_,
    cleared.sub, ?_, ?_⟩⟩
  · simp [slpSwitch, clearForTarget, run, same, deref_ok live₁, gRestoreState, s', c]
  · exact (cleared.live ▸ h.nodup : s₁.live.Nodup).erase _
  · rw [free]
    by_cases hq : q = s.thrd.gTarget
    · simp [hq]
    · simp [hq, h.live q]
  · have hne : q ≠ s.thrd.gTarget := by
      rintro rfl
      simp at hq
    rw [Function.update_of_ne hne] at hq
    exact (holds q img' hq).stay rfl (outside q img' hq hne)
  · have chain := cleared.chain
    rw [stop] at chain
    have head : s'.thrd.gStackChainHead = rest.head? := by simp [s', State.free, cleared.thrd]
    rw [head]
    exact chain.congr (fun _ _ => rfl) fun q hq =>
      (free q).mpr ⟨out q hq, cleared.live ▸ (chain.mem hq).1⟩
  · obtain ⟨hne, hq⟩ := (free q).mp hq
    exact saved q hq hrest hne
  · exact target.stop
  · intro a above below
    rw [← target.image a above below]
    have start : c.segment.start = img.start := target.start
    exact Segment.restore_image (g := c.segment) (by rwa [start])
  · simp [s', State.free, cleared.thrd]
  · intro q hq
    rw [← stop]
    exact cleared.above q hq
  · intro q hq hrest
    rw [← stop]
    exact (cleared.gone q hq hrest).1

theorem Keeps.destroy (h : s.Keeps suspended low ps) (live : target ∈ s.live) :
    ∃ s', s.stackletDestroy target = .ok s' ∧
      s'.Keeps (Function.update suspended target none) low (ps.erase target) ∧
      s'.stack = s.stack ∧ s'.thrd.gCurrentStackStop = s.thrd.gCurrentStackStop ∧
      s'.thrd.gSource = s.thrd.gSource := by
  have enough : ps.length ≤ s.live.length :=
    (h.chain.nodup.subperm fun p hp => (h.chain.mem hp).1).length_le
  obtain ⟨s₁, head, run, moved, thrd, saved, chain, link, -, -⟩ :=
    unlinkLoop_spec target h.chain enough (show s.Link _ none from rfl) (by simp)
  have free : ∀ q, q ∈ (s₁.free target).live ↔ q ≠ target ∧ q ∈ s.live := fun q => by
    have nodup : s₁.live.Nodup := moved.live ▸ h.nodup
    rw [show (s₁.free target).live = s₁.live.erase target from rfl, nodup.mem_erase_iff, moved.live]
  refine ⟨s₁.free target, by simp [stackletDestroy, run], ⟨?_, fun q => ?_, fun q img hq => ?_, ?_,
    fun q hq hps => ?_⟩, moved.stack, by rw [State.free, thrd], by rw [State.free, thrd]⟩
  · exact (moved.live ▸ h.nodup : s₁.live.Nodup).erase _
  · rw [free]
    by_cases hq : q = target
    · simp [hq]
    · simp [hq, h.live q]
  · have hne : q ≠ target := by
      rintro rfl
      simp at hq
    rw [Function.update_of_ne hne] at hq
    exact ((h.holds q img hq).moved moved).stay rfl fun _ _ _ _ => rfl
  · rw [show (s₁.free target).thrd.gStackChainHead = head from link]
    refine chain.congr (fun _ _ => rfl) fun q hq => (free q).mpr ⟨?_, moved.live ▸ (chain.mem hq).1⟩
    rintro rfl
    exact (h.chain.nodup.mem_erase_iff.mp hq).1 rfl
  · obtain ⟨hne, hq⟩ := (free q).mp hq
    have hps : q ∉ ps := fun hm => hps ((List.mem_erase_of_ne hne).mpr hm)
    have full := h.saved q hq hps
    rw [StackletS.Saved] at full ⊢
    rw [show (s₁.free target).heap = s₁.heap from rfl, saved, moved.stop, moved.start]
    exact full

end
end State

/-! ## The refinement -/

/-- The main stack is suspended under `m`, in part on the C stack, and above all others. -/
structure Highest (suspended : Ptr → Option Image) (ps : List Ptr) (m : Ptr) (img : Image) :
    Prop where
  image : suspended m = some img
  main : img.main = true
  mem : m ∈ ps
  others : ∀ q img', suspended q = some img' → q ≠ m → img'.main = false ∧ img'.stop < img.stop

/-- Which stack is the main one, and where it is. -/
def Placed (main : Option Ptr) (t : Stacks) (ps : List Ptr) : Prop :=
  match main with
  | none => t.main = true ∧ ps = [] ∧ ∀ p img, t.suspended p = some img → img.main = false ∧
      img.stop < t.base
  | some m => t.main = false ∧ ∃ img, Highest t.suspended ps m img ∧ t.base < img.stop

/-- The stacks of the interface, and those of the library. -/
structure Represents (r : Program) (t : Stacks) : Prop where
  stack : t.stack = r.state.stack
  base : t.base = r.state.thrd.gCurrentStackStop
  source : t.source = r.state.thrd.gSource
  keeps : ∃ ps, r.state.Keeps t.suspended t.base ps ∧ Placed r.main t ps

section
variable {r : Program} {t : Stacks} {s s' : State} {suspended : Ptr → Option Image} {low : Nat}
  {ps rest : List Ptr} {m p target : Ptr} {img imgT : Image}

/-- The stop of the main stack rises; that of another is above its frames already. -/
theorem Represents.raise (h : Represents r t) {stackmarker : Nat} (below : r.Below stackmarker) :
    Represents ⟨r.state.raiseStop stackmarker, r.main⟩
        { t with base := max t.base (stackmarker + 1) } ∧
      stackmarker < (r.state.raiseStop stackmarker).thrd.gCurrentStackStop := by
  obtain ⟨ps, keeps, placed⟩ := h.keeps
  by_cases high : r.state.thrd.gCurrentStackStop ≤ stackmarker
  · have main : r.main = none := below.resolve_left (by omega)
    have hbase : max t.base (stackmarker + 1) = stackmarker + 1 := by
      rw [h.base]
      omega
    simp only [main, Placed] at placed
    obtain ⟨running, rfl, lower⟩ := placed
    simp only [State.raiseStop, if_pos high, hbase]
    refine ⟨⟨h.stack, rfl, h.source, [], (keeps.raise (.inr rfl)).withThrd _ rfl, ?_⟩,
      Nat.lt_succ_self _⟩
    simp only [main, Placed]
    refine ⟨running, trivial, fun p img hp => ?_⟩
    obtain ⟨hm, hs⟩ := lower p img hp
    rw [h.base] at hs
    exact ⟨hm, by omega⟩
  · have hbase : max t.base (stackmarker + 1) = t.base := by
      rw [h.base]
      omega
    simp only [State.raiseStop, if_neg high, hbase]
    exact ⟨h, by omega⟩

@[simp] theorem State.raiseStop_live (s : State) (stackmarker : Nat) :
    (s.raiseStop stackmarker).live = s.live := by
  rw [raiseStop]
  split <;> rfl

/-- The running stack is suspended under `p`, and the main stack is the highest. -/
theorem Represents.setAside (h : Represents r t) {sp : Nat}
    (below : sp < r.state.thrd.gCurrentStackStop)
    (fresh : p ∉ r.state.live) : ∃ ps,
      (r.state.gAllocateSourceStacklet sp (some p)).1.Keeps
        (Function.update t.suspended p (some ⟨sp, t.base, t.stack, t.main⟩)) sp (p :: ps) ∧
      ∃ m img, r.mainAfter p = some m ∧ t.base ≤ img.stop ∧
        Highest (Function.update t.suspended p (some ⟨sp, t.base, t.stack, t.main⟩))
          (p :: ps) m img := by
  obtain ⟨ps, keeps, placed⟩ := h.keeps
  have free : t.suspended p = none := by
    have := mt (keeps.live p).mpr fresh
    simpa using this
  refine ⟨ps, ?_, ?_⟩
  · rw [h.base] at keeps ⊢
    rw [h.stack]
    exact keeps.allocate fresh (by omega)
  · cases hm : r.main with
    | none =>
      simp only [hm, Placed] at placed
      obtain ⟨running, rfl, lower⟩ := placed
      refine ⟨p, ⟨sp, t.base, t.stack, t.main⟩, by simp [Program.mainAfter, hm], Nat.le_refl _,
        ⟨by simp, running, by simp, fun q img' hq hne => ?_⟩⟩
      rw [Function.update_of_ne hne] at hq
      exact lower q img' hq
    | some m =>
      simp only [hm, Placed] at placed
      obtain ⟨running, img, highest, hb⟩ := placed
      have hmp : m ≠ p := by
        rintro rfl
        have := highest.image
        rw [free] at this
        cases this
      refine ⟨m, img, by simp [Program.mainAfter, hm], Nat.le_of_lt hb, ⟨?_, highest.main,
        List.mem_cons_of_mem _ highest.mem, fun q img' hq hne => ?_⟩⟩
      · rw [Function.update_of_ne hmp]
        exact highest.image
      · by_cases hqp : q = p
        · subst hqp
          rw [Function.update_self] at hq
          cases hq
          exact ⟨running, hb⟩
        · rw [Function.update_of_ne hqp] at hq
          exact highest.others q img' hq hne

/-- The target is the main stack, and nothing else is left on the C stack; or
the main stack stays where it is. -/
theorem Highest.resume (h : Highest suspended ps m img) (keeps : s.Keeps suspended low ps)
    (ht : suspended target = some imgT) (resumed : s.Resumed s' suspended target imgT ps rest) :
    Placed ((some m).filter (· ≠ target))
      ⟨s'.stack, imgT.stop, imgT.main, Function.update suspended target none,
        s'.thrd.gSource⟩ rest := by
  have stop : ∀ q img', suspended q = some img' → (s.heap q).stackStop = img'.stop :=
    fun q img' hq => (keeps.holds q img' hq).stop
  by_cases hm : m = target
  · subst hm
    obtain rfl : imgT = img := Option.some.inj (ht.symm.trans h.image)
    have left : (some m).filter (· ≠ m) = none := by simp
    rw [left]
    refine ⟨h.main, ?_, fun q img' hq => ?_⟩
    · refine List.eq_nil_iff_forall_not_mem.mpr fun q hq => ?_
      have above := resumed.above q hq
      have live := (keeps.chain.mem (resumed.sub hq)).1
      obtain ⟨img', hq'⟩ := Option.isSome_iff_exists.mp ((keeps.live q).mp live)
      rw [stop q img' hq'] at above
      by_cases hqm : q = m
      · subst hqm
        rw [ht] at hq'
        cases hq'
        omega
      · have := (h.others q img' hq' hqm).2
        omega
    · have hq : Function.update suspended m none q = some img' := hq
      have hqm : q ≠ m := by
        rintro rfl
        simp at hq
      rw [Function.update_of_ne hqm] at hq
      exact h.others q img' hq hqm
  · have left : (some m).filter (· ≠ target) = some m := by simp [hm]
    rw [left]
    obtain ⟨notMain, lower⟩ := h.others target imgT ht (Ne.symm hm)
    refine ⟨notMain, img, ⟨?_, h.main, ?_, fun q img' hq hqm => ?_⟩, lower⟩
    · exact (Function.update_of_ne hm ..).trans h.image
    · by_contra hrest
      have := resumed.gone m h.mem hrest
      rw [stop m img h.image] at this
      omega
    · have hq : Function.update suspended target none q = some img' := hq
      have hqt : q ≠ target := by
        rintro rfl
        simp at hq
      rw [Function.update_of_ne hqt] at hq
      exact h.others q img' hq hqm

/-- Only the thread changes. -/
theorem Represents.withThrd (h : Represents r t) (thrd : ThreadS)
    (head : thrd.gStackChainHead = r.state.thrd.gStackChainHead)
    (stop : thrd.gCurrentStackStop = r.state.thrd.gCurrentStackStop) :
    Represents ⟨{ r.state with thrd := thrd }, r.main⟩ { t with source := thrd.gSource } := by
  obtain ⟨ps, keeps, placed⟩ := h.keeps
  exact ⟨h.stack, h.base.trans stop.symm, rfl, ps, keeps.withThrd thrd head, placed⟩

/-- `g_initial_save_state` moves what is below the marker, and leaves the rest. -/
theorem State.Keeps.gSave (h : s.Keeps suspended low (p :: ps)) {stop : Nat}
    (inside : stop < (s.heap p).stackStop) : ∃ g, s.gSave p stop = .ok (s.set p g) ∧
      (s.set p g).Keeps suspended stop (p :: ps) := by
  have nodup := h.chain.nodup
  have head := h.chain.head_eq
  have chain := h.chain
  rw [head] at chain
  obtain ⟨-, live, -, left, tail⟩ := chain
  obtain ⟨g, hg, moved, saved, prev⟩ := gSave_spec live (Nat.le_of_lt inside)
  have start := moved.start p
  have stop' := moved.stop p
  have others : ∀ q ∈ ps, (s.set p g).heap q = s.heap q := by
    intro q hq
    apply set_heap_ne
    rintro rfl
    exact (List.nodup_cons.mp nodup).1 hq
  rw [set_heap_self] at start stop'
  refine ⟨g, hg, h.nodup, h.live, fun q img hq => (h.holds q img hq).moved moved, ?_,
    fun q hq hqs => ?_⟩
  · rw [show (s.set p g).thrd = s.thrd from rfl, head]
    refine ⟨rfl, live, ?_, ?_, ?_⟩
    · rw [set_heap_self, start, saved]
      omega
    · rw [set_heap_self, start, stop', saved]
      omega
    · rw [set_heap_self, stop', prev]
      exact tail.congr others fun q hq => (tail.mem hq).1
  · have hqp : q ≠ p := by
      rintro rfl
      exact hqs List.mem_cons_self
    rw [set_heap_ne hqp]
    exact h.saved q hq hqs

/-- `g_initialstub` suspends the running stack, and a new one begins below the marker. -/
theorem Represents.initialstub (h : Represents r t) {sp : Nat}
    (below : r.state.thrd.gCurrentStackMarker < r.state.thrd.gCurrentStackStop)
    (order : sp ≤ r.state.thrd.gCurrentStackMarker) (fresh : p ∉ r.state.live) :
    ∃ s', r.state.gInitialstub sp (some p) = .ok s' ∧
      Represents ⟨s', r.mainAfter p⟩ ⟨t.stack, r.state.thrd.gCurrentStackMarker, false,
        Function.update t.suspended p (some ⟨sp, t.base, t.stack, t.main⟩), .stack p⟩ := by
  obtain ⟨ps, keeps, m, img, hm, le, highest⟩ := h.setAside (Nat.lt_of_le_of_lt order below) fresh
  have inside : r.state.thrd.gCurrentStackMarker <
      ((r.state.gAllocateSourceStacklet sp (some p)).1.heap p).stackStop := by
    simpa [State.gAllocateSourceStacklet] using below
  obtain ⟨g, save, saved⟩ := keeps.gSave inside
  let s₁ := (r.state.gAllocateSourceStacklet sp (some p)).1.set p g
  let s' : State := { s₁ with
    thrd := { s₁.thrd with gCurrentStackStop := r.state.thrd.gCurrentStackMarker } }
  have run : r.state.gInitialstub sp (some p) = .ok s' := by
    have first : r.state.gInitialSaveState sp (some p) = .ok s₁ := save
    have source : s₁.thrd.gSource ≠ .null := by
      simp [s₁, State.set, State.gAllocateSourceStacklet]
    simp only [State.gInitialstub, first, ok_bind, if_pos source]
    rfl
  refine ⟨s', run, h.stack, rfl, rfl, p :: ps, saved.withThrd _ rfl, ?_⟩
  simp only [hm, Placed]
  have lower := h.base ▸ below
  exact ⟨trivial, img, highest, by omega⟩

/-- `stacklet_new` for a stack whose oldest frame is below `stackmarker`. -/
theorem Represents.new (h : Represents r t) {stackmarker sp : Nat} {mem : Option Ptr}
    (legal : r.Legal (.new stackmarker sp mem)) :
    ∃ r' t', r.exec (.new stackmarker sp mem) = .ok r' ∧ t.step (.new stackmarker sp mem) t' ∧
      Represents r' t' := by
  obtain ⟨below, order, fresh⟩ := legal
  obtain ⟨raised, high⟩ := h.raise below
  cases mem with
  | none => exact ⟨_, _, rfl, rfl, raised.withThrd _ rfl rfl⟩
  | some p =>
    let marked : ThreadS :=
      { (r.state.raiseStop stackmarker).thrd with gCurrentStackMarker := stackmarker }
    have ready := raised.withThrd marked rfl rfl
    have fresh : p ∉ (r.state.raiseStop stackmarker).live := by
      rw [State.raiseStop_live]
      exact fresh p rfl
    obtain ⟨s', run, represents⟩ := ready.initialstub high order fresh
    refine ⟨⟨s', r.mainAfter p⟩, _, ?_, rfl, represents⟩
    have run : r.state.stackletNew stackmarker sp (some p) = .ok s' := run
    simp [Program.exec, run]

/-- The stack of the target runs again, after the running one was suspended or ended. -/
theorem Represents.resumed (keeps : s.Keeps suspended low ps)
    (ht : suspended s.thrd.gTarget = some imgT) (highest : Highest suspended ps m img) :
    ∃ s' t', State.slpSwitch s.clearForTarget = .ok s' ∧
      Stacks.Resumes suspended s.thrd.gTarget s.thrd.gSource t' ∧
      Represents ⟨s', (some m).filter (· ≠ s.thrd.gTarget)⟩ t' := by
  obtain ⟨s', rest, run, resumed⟩ := keeps.resume ht
  refine ⟨s', ⟨s'.stack, imgT.stop, imgT.main, Function.update suspended s.thrd.gTarget none,
    s'.thrd.gSource⟩, run, ?_, rfl, resumed.base.symm, rfl, rest, resumed.keeps,
    highest.resume keeps ht resumed⟩
  exact ⟨imgT, ht, rfl, rfl, rfl, resumed.source, resumed.stack⟩

/-- `stacklet_switch`: the running stack is suspended. -/
theorem Represents.switch (h : Represents r t) {stackmarker sp : Nat} {mem : Option Ptr}
    (legal : r.Legal (.switch stackmarker sp mem target)) :
    ∃ r' t', r.exec (.switch stackmarker sp mem target) = .ok r' ∧
      t.step (.switch stackmarker sp mem target) t' ∧ Represents r' t' := by
  obtain ⟨below, order, fresh, live⟩ := legal
  obtain ⟨raised, high⟩ := h.raise below
  let aimed : ThreadS := { (r.state.raiseStop stackmarker).thrd with gTarget := target }
  have ready := raised.withThrd aimed rfl rfl
  cases mem with
  | none => exact ⟨_, _, rfl, rfl, ready.withThrd _ rfl rfl⟩
  | some p =>
    have fresh : p ∉ r.state.live := fresh p rfl
    have fresh' : p ∉ (r.state.raiseStop stackmarker).live := by
      rwa [State.raiseStop_live]
    obtain ⟨ps, keeps, m, img, hm, -, highest⟩ :=
      ready.setAside (show sp < (r.state.raiseStop stackmarker).thrd.gCurrentStackStop by omega) fresh'
    obtain ⟨imgT, ht⟩ : ∃ imgT, t.suspend stackmarker sp p target = some imgT := by
      obtain ⟨qs, keeps, -⟩ := h.keeps
      have hne : target ≠ p := by
        rintro rfl
        exact fresh live
      rw [Stacks.suspend, Function.update_of_ne hne]
      exact Option.isSome_iff_exists.mp ((keeps.live target).mp live)
    obtain ⟨s', t', run, resumes, represents⟩ := Represents.resumed keeps ht highest
    have hm : r.mainAfter p = some m := hm
    refine ⟨⟨s', (r.mainAfter p).filter (· ≠ target)⟩, t', ?_, resumes, hm ▸ represents⟩
    have run : r.state.stackletSwitch stackmarker sp (some p) target = .ok s' := run
    simp [Program.exec, run]

/-- The end of `run`. -/
theorem Represents.finish (h : Represents r t) (legal : r.Legal (.finish target)) :
    ∃ r' t', r.exec (.finish target) = .ok r' ∧ t.step (.finish target) t' ∧ Represents r' t' := by
  obtain ⟨aside, live⟩ := legal
  obtain ⟨ps, keeps, placed⟩ := h.keeps
  cases hm : r.main with
  | none => exact absurd hm aside
  | some m =>
    simp only [hm, Placed] at placed
    obtain ⟨-, img, highest, -⟩ := placed
    obtain ⟨imgT, ht⟩ := Option.isSome_iff_exists.mp ((keeps.live target).mp live)
    let ended : ThreadS := { r.state.thrd with gSource := .empty, gTarget := target }
    obtain ⟨s', t', run, resumes, represents⟩ :=
      Represents.resumed (keeps.withThrd ended rfl) ht highest
    refine ⟨⟨s', r.main.filter (· ≠ target)⟩, t', ?_, resumes, hm ▸ represents⟩
    have run : r.state.runReturns target = .ok s' := run
    simp [Program.exec, run]

theorem Represents.destroy (h : Represents r t) (legal : r.Legal (.destroy target)) :
    ∃ r' t', r.exec (.destroy target) = .ok r' ∧ t.step (.destroy target) t' ∧
      Represents r' t' := by
  obtain ⟨live, aside⟩ := legal
  obtain ⟨ps, keeps, placed⟩ := h.keeps
  obtain ⟨s', run, keeps', stack, stop, source⟩ := keeps.destroy live
  refine ⟨⟨s', r.main⟩, _, by simp [Program.exec, run], rfl, h.stack.trans stack.symm,
    h.base.trans stop.symm, h.source.trans source.symm, ps.erase target, keeps', ?_⟩
  have others : ∀ q img, Function.update t.suspended target none q = some img →
      t.suspended q = some img := by
    intro q img hq
    by_cases hqt : q = target
    · subst hqt
      simp at hq
    · rwa [Function.update_of_ne hqt] at hq
  cases hm : r.main with
  | none =>
    simp only [hm, Placed] at placed ⊢
    obtain ⟨running, rfl, lower⟩ := placed
    exact ⟨running, rfl, fun q img hq => lower q img (others q img hq)⟩
  | some m =>
    simp only [hm, Placed] at placed ⊢
    obtain ⟨running, img, highest, above⟩ := placed
    have hne : m ≠ target := by
      rintro rfl
      exact aside hm
    refine ⟨running, img, ⟨?_, highest.main, (List.mem_erase_of_ne hne).mpr highest.mem, ?_⟩, above⟩
    · rw [Function.update_of_ne hne]
      exact highest.image
    · exact fun q img' hq => highest.others q img' (others q img' hq)

theorem Represents.write (h : Represents r t) {a : Nat} {b : Byte} (legal : r.Legal (.write a b)) :
    ∃ r' t', r.exec (.write a b) = .ok r' ∧ t.step (.write a b) t' ∧ Represents r' t' := by
  obtain ⟨ps, keeps, placed⟩ := h.keeps
  refine ⟨_, _, rfl, rfl, ?_, h.base, h.source, ps, keeps.write ?_, placed⟩
  · rw [h.stack]
  · rcases legal with below | main
    · left
      rwa [h.base]
    · right
      simp only [main, Placed] at placed
      exact placed.2.1

/-- No call fails, and each does to the stacks what the interface says. -/
theorem Represents.exec (h : Represents r t) {a : Action} (legal : r.Legal a) :
    ∃ r' t', r.exec a = .ok r' ∧ t.step a t' ∧ Represents r' t' := by
  cases a with
  | write a b => exact h.write legal
  | new stackmarker sp mem => exact h.new legal
  | switch stackmarker sp mem target => exact h.switch legal
  | finish result => exact h.finish legal
  | destroy target => exact h.destroy legal

end

end Gevent.Stacklet
