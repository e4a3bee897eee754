import Mathlib.Data.List.Basic

/-!
# Histories

A history is the list of the events of a run, latest first. `Hist P log` says
that every event was in order when it happened: `P e past` for each event `e`
with `past` before it. A step that adds events keeps `Hist P` when the new
events are in order (`hist_cons`); `Hist.at` reads the property back. `latest`
is a value that some events set.
-/

section
variable {E : Type}

def Hist (P : E → List E → Prop) : List E → Prop
  | [] => True
  | e :: past => P e past ∧ Hist P past

variable {P Q : E → List E → Prop} {e : E} {l l₁ l₂ : List E}

@[simp] theorem hist_nil : Hist P [] := trivial

@[simp] theorem hist_cons : Hist P (e :: l) ↔ P e l ∧ Hist P l := Iff.rfl

theorem Hist.past (h : Hist P (l₁ ++ l₂)) : Hist P l₂ := by
  induction l₁ with
  | nil => exact h
  | cons e l ih => exact ih h.2

theorem Hist.at (h : Hist P (l₁ ++ e :: l₂)) : P e l₂ := (Hist.past h).1

theorem Hist.of_mem (h : Hist P l) (he : e ∈ l) : ∃ l₁ l₂, l = l₁ ++ e :: l₂ ∧ P e l₂ := by
  obtain ⟨l₁, l₂, rfl⟩ := List.append_of_mem he
  exact ⟨l₁, l₂, rfl, h.at⟩

theorem Hist.imp (h : Hist P l) (hPQ : ∀ e l, P e l → Q e l) : Hist Q l := by
  induction l with
  | nil => trivial
  | cons e l ih => exact ⟨hPQ _ _ h.1, ih h.2⟩

/-- New events that are in order whatever came before. -/
theorem Hist.extend (h : Hist P l₂) (new : ∀ e ∈ l₁, ∀ l, P e l) : Hist P (l₁ ++ l₂) := by
  induction l₁ with
  | nil => exact h
  | cons e l ih => exact ⟨new e List.mem_cons_self _, ih fun e' he' => new e' (List.mem_cons_of_mem _ he')⟩

/-- Orders that were kept separately are kept together. -/
theorem Hist.and (h : Hist P l) (h' : Hist Q l) : Hist (fun e l => P e l ∧ Q e l) l := by
  induction l with
  | nil => trivial
  | cons e l ih => exact ⟨⟨h.1, h'.1⟩, ih h.2 h'.2⟩

/-- The value that the latest event with a say gives. -/
def latest {A : Type} (f : E → Option A) (default : A) : List E → A
  | [] => default
  | e :: l => (f e).getD (latest f default l)

theorem latest_append {A : Type} {f : E → Option A} {default : A} (h : ∀ e ∈ l₁, f e = none) :
    latest f default (l₁ ++ l₂) = latest f default l₂ := by
  induction l₁ with
  | nil => rfl
  | cons e l ih =>
    have he : f e = none := h e List.mem_cons_self
    simp only [List.cons_append, latest, he, Option.getD_none]
    exact ih fun e' he' => h e' (List.mem_cons_of_mem _ he')

end
