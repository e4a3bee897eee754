import Gevent.RbTree.Remove

/-!
# The tree as a list

`Lists h l`: the pointers make up a red-black tree whose elements are `l`, in
order. `RB_INSERT`, `RB_REMOVE` and `RB_MIN` are insertion in order, `erase` and
`head?`; their loops are as short as the tree is deep.
-/

namespace Gevent.RbTree
open RedBlack

variable {A : Type} {h h' : RbTree A} {l : List A} {x : A} {turns : Nat} {cmp : A → A → Ordering}

def Lists (h : RbTree A) (l : List A) : Prop :=
  ∃ t m, Holds h [] t ∧ t.Balanced .black m ∧ t.toList = l

namespace Lists

theorem nil (empty : h.root = none) : h.Lists [] :=
  ⟨.nil, 0, ⟨empty, trivial, List.nodup_nil⟩, .nil, rfl⟩

theorem nodup (a : h.Lists l) : l.Nodup := by
  obtain ⟨t, m, holds, -, rfl⟩ := a
  exact holds.nodup

/-- What is written to other elements does not matter. -/
theorem congr (a : h.Lists l) (root : h'.root = h.root) (same : ∀ z ∈ l, Agree h h' z) :
    h'.Lists l := by
  obtain ⟨t, m, holds, balanced, rfl⟩ := a
  exact ⟨t, m, ⟨holds.around.congr root (by simp [labels]), holds.fits.congr same, holds.nodup⟩,
    balanced, rfl⟩

theorem rbMin (a : h.Lists l) (enough : 2 * Nat.log 2 (l.length + 1) < turns) :
    h.rbMin turns = some l.head? := by
  obtain ⟨t, m, holds, balanced, rfl⟩ := a
  exact rbMin_spec holds balanced enough

variable [DecidableEq A]

theorem insert [Std.TransCmp cmp] (a : h.Lists l) (sorted : l.Pairwise fun a b => cmp a b = .lt)
    (fresh : ∀ y ∈ l, cmp x y ≠ .eq) (enough : 2 * Nat.log 2 (l.length + 1) < turns) :
    ∃ h' before after, h.insert cmp turns x = some (h', none) ∧ l = before ++ after ∧
      h'.Lists (before ++ x :: after) ∧ Between cmp x before after := by
  obtain ⟨t, m, holds, balanced, rfl⟩ := a
  have new : x ∉ t.toList := fun hx => fresh x hx Std.ReflCmp.compare_self
  obtain ⟨h', found, t', before, after, run, holds', ⟨m', balanced'⟩, inserted | equal⟩ :=
    insert_spec holds balanced sorted new enough
  · obtain ⟨rfl, split, split', between⟩ := inserted
    exact ⟨h', before, after, run, split, ⟨t', m', holds', balanced', split'⟩, between⟩
  · obtain ⟨y, -, -, -, split, -, equal⟩ := equal
    exact absurd equal (fresh y (by simp [split]))

theorem remove (a : h.Lists l) (hx : x ∈ l) (enough : 2 * Nat.log 2 (l.length + 1) < turns) :
    ∃ h', h.remove turns x = some h' ∧ h'.Lists (l.erase x) := by
  obtain ⟨t, m, holds, balanced, rfl⟩ := a
  obtain ⟨h', t', run, holds', same, m', balanced'⟩ := remove_spec holds balanced hx enough
  exact ⟨h', run, t', m', holds', balanced', same⟩

end Lists
end Gevent.RbTree
