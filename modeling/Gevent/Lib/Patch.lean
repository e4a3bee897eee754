import Gevent.Lib.Ring

/-!
# Patched memory

A patch gives some cells of a memory other contents and spares the rest. An
operation that commutes with every patch of a cell neither reads nor writes
that cell. Here the operations on intrusive lists commute with the patches that
spare the nodes they use.
-/

section
variable {A B : Type} {p : A → Option B} {f : A → B} {a : A} {b : B}

def patched (p : A → Option B) (f : A → B) (a : A) : B := (p a).getD (f a)

theorem patched_of_none (h : p a = none) : patched p f a = f a := by simp [patched, h]

theorem patched_of_some (h : p a = some b) : patched p f a = b := by simp [patched, h]

@[simp] theorem patched_none : patched (fun _ => none) f = f := rfl

theorem patched_update [DecidableEq A] (h : p a = none) :
    Function.update (patched p f) a b = patched p (Function.update f a b) := by
  funext x
  by_cases hx : x = a
  · subst hx
    simp [patched, h]
  · simp [patched, hx]

/-- A patch with what is there already. -/
theorem patched_self (h : ∀ a b, p a = some b → f a = b) : patched p f = f := by
  funext a
  cases hp : p a with
  | none => exact patched_of_none hp
  | some b => exact (patched_of_some hp).trans (h a b hp).symm

end

namespace Intrusive

structure LinkPatch (N : Type) where
  prev : N → Option N
  next : N → Option N

def LinkPatch.none {N : Type} : LinkPatch N := ⟨fun _ => .none, fun _ => .none⟩

structure LinkPatch.Spares {N : Type} (p : LinkPatch N) (x : N) : Prop where
  prev : p.prev x = .none
  next : p.next x = .none

namespace Links
variable {N : Type}

def patch (l : Links N) (p : LinkPatch N) : Links N := ⟨patched p.prev l.prev, patched p.next l.next⟩

variable {l : Links N} {p : LinkPatch N} {h x y : N}

theorem patch_prev (hx : p.Spares x) : (l.patch p).prev x = l.prev x := patched_of_none hx.prev

theorem patch_next (hx : p.Spares x) : (l.patch p).next x = l.next x := patched_of_none hx.next

@[simp] theorem patch_none : l.patch .none = l := rfl

variable [DecidableEq N]

theorem patch_setPrev (hx : p.Spares x) : (l.patch p).setPrev x y = (l.setPrev x y).patch p := by
  simp only [patch, setPrev, patched_update hx.prev]

theorem patch_setNext (hx : p.Spares x) : (l.patch p).setNext x y = (l.setNext x y).patch p := by
  simp only [patch, setNext, patched_update hx.next]

theorem patch_init (hx : p.Spares x) : (l.patch p).init x = (l.init x).patch p := by
  simp only [init, patch_setPrev hx, patch_setNext hx]

theorem patch_insertTail (hh : p.Spares h) (hx : p.Spares x) (hlast : p.Spares (l.prev h)) :
    (l.patch p).insertTail h x = (l.insertTail h x).patch p := by
  have hback : (l.setPrev x (l.prev h)).prev x = l.prev h := by simp [setPrev]
  simp only [insertTail, patch_prev hh, patch_setPrev hx, patch_prev hx, hback, patch_setNext hlast,
    patch_setNext hx, patch_setPrev hh]

theorem patch_remove (hx : p.Spares x) (hprev : p.Spares (l.prev x)) (hnext : p.Spares (l.next x)) :
    (l.patch p).remove x = (l.remove x).patch p := by
  have hkeep : (l.setPrev (l.next x) (l.prev x)).next x = l.next x := rfl
  have hback : (l.setPrev (l.next x) (l.prev x)).prev x = l.prev x := by
    by_cases h : x = l.next x
    · rw [← h]
      simp [setPrev]
    · simp [setPrev, h]
  simp only [remove, patch_next hx, patch_prev hx, patch_setPrev hnext, hkeep, hback,
    patch_setNext hprev]

theorem patch_isEmpty (hh : p.Spares h) : (l.patch p).isEmpty h = l.isEmpty h := by
  simp only [isEmpty, patch_prev hh]

omit [DecidableEq N] in
theorem patch_head (hh : p.Spares h) : (l.patch p).head h = l.head h := patch_next hh

end Links

namespace Traced
variable {N : Type} [DecidableEq N] {m : Traced N} {p : LinkPatch N} {heads : N → Prop} {h x v : N}

omit [DecidableEq N] in
def patch (m : Traced N) (p : LinkPatch N) : Traced N := ⟨m.links.patch p, m.history⟩

theorem patch_init (hx : p.Spares x) : (m.patch p).init x = (m.init x).patch p := by
  simp only [patch, init, Links.patch_init hx]

theorem patch_insertTail (hh : p.Spares h) (hx : p.Spares x) (hlast : p.Spares (m.links.prev h)) :
    (m.patch p).insertTail h x = (m.insertTail h x).patch p := by
  simp only [patch, insertTail, Links.patch_insertTail hh hx hlast]

theorem patch_remove (hx : p.Spares x) (hprev : p.Spares (m.links.prev x))
    (hnext : p.Spares (m.links.next x)) : (m.patch p).remove x = (m.remove x).patch p := by
  simp only [patch, remove, Links.patch_remove hx hprev hnext]

theorem patch_writePrev (hx : p.Spares x) : (m.patch p).writePrev x v = (m.writePrev x v).patch p := by
  simp only [patch, writePrev, Links.patch_setPrev hx]

theorem patch_writeNext (hx : p.Spares x) : (m.patch p).writeNext x v = (m.writeNext x v).patch p := by
  simp only [patch, writeNext, Links.patch_setNext hx]

/-- The neighbours of what a queue holds are its head and what it holds. -/
theorem Good.neighbours (g : m.Good heads) (hh : heads h) (hx : x ∈ h :: contents m.history h)
    (spared : ∀ y ∈ h :: contents m.history h, p.Spares y) :
    p.Spares (m.links.prev x) ∧ p.Spares (m.links.next x) :=
  ⟨spared _ ((g.ring h hh).prev_mem hx), spared _ ((g.ring h hh).next_mem hx)⟩

end Traced
end Intrusive
