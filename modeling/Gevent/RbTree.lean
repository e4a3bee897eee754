import Gevent.Lib.RedBlack
import Mathlib.Logic.Function.Basic

/-!
# The red-black trees of tree.h

The macros that `RB_GENERATE` makes functions of, on the members of
`RB_ENTRY`. `RB_LEFT` and `RB_RIGHT` are `child .left` and `child .right`: where
the source has a piece of code twice, once for each side, it is written here
once with the side `d` as a parameter. A function gives `none` when it follows
`NULL`, or when one of its loops does not end within `turns` turns.
-/

namespace Gevent
open RedBlack

/-- `RB_HEAD`, and the `RB_ENTRY` of every element. -/
structure RbTree (A : Type) where
  root : Option A
  child : Side → A → Option A
  parent : A → Option A
  color : A → Color

namespace RbTree
variable {A : Type} [DecidableEq A]

def setChild (h : RbTree A) (d : Side) (x : A) (v : Option A) : RbTree A :=
  { h with child := Function.update h.child d (Function.update (h.child d) x v) }

def setParent (h : RbTree A) (x : A) (v : Option A) : RbTree A :=
  { h with parent := Function.update h.parent x v }

def setColor (h : RbTree A) (x : A) (c : Color) : RbTree A :=
  { h with color := Function.update h.color x c }

/-- `if (x) RB_PARENT(x, field) = v;` -/
def setParentOf (h : RbTree A) (x v : Option A) : RbTree A :=
  match x with
  | some x => h.setParent x v
  | none => h

/-- `if (x) RB_COLOR(x, field) = RB_BLACK;` -/
def blacken (h : RbTree A) (x : Option A) : RbTree A :=
  match x with
  | some x => h.setColor x .black
  | none => h

/-- `x && RB_COLOR(x, field) == RB_RED` -/
def isRed (h : RbTree A) (x : Option A) : Bool :=
  match x with
  | some x => decide (h.color x = .red)
  | none => false

/-- `RB_SET` -/
def set (h : RbTree A) (elm : A) (parent : Option A) : RbTree A :=
  let h := h.setParent elm parent
  let h := (h.setChild .left elm none).setChild .right elm none
  h.setColor elm .red

/-- `RB_SET_BLACKRED` -/
def setBlackred (h : RbTree A) (black red : A) : RbTree A :=
  (h.setColor black .black).setColor red .red

/-- The place of `old` under `parent`, or at the root, is given to `new`. -/
def relink (h : RbTree A) (parent : Option A) (old : A) (new : Option A) : RbTree A :=
  match parent with
  | some p => if h.child .left p = some old then h.setChild .left p new else h.setChild .right p new
  | none => { h with root := new }

/-- `RB_ROTATE_LEFT` and `RB_ROTATE_RIGHT` -/
def rotate (h : RbTree A) (d : Side) (elm : A) : Option (RbTree A) := do
  let tmp ← h.child d.other elm
  let h := h.setChild d.other elm (h.child d tmp)
  let h := h.setParentOf (h.child d tmp) (some elm)
  let h := h.setParent tmp (h.parent elm)
  let h := h.relink (h.parent elm) elm (some tmp)
  let h := h.setChild d tmp (some elm)
  some (h.setParent elm (some tmp))

/-- The side of `parent` on which `elm` is, by the test of the source. -/
def sideOf (h : RbTree A) (parent : A) (elm : Option A) : Side :=
  if h.child .left parent = elm then .left else .right

/-- The body of the loop of `RB_INSERT_COLOR`, with the next `elm`. -/
def insertTurn (h : RbTree A) (gparent parent elm : A) : Option (RbTree A × A) :=
  let d := h.sideOf gparent (some parent)
  let tmp := h.child d.other gparent
  if h.isRed tmp then
    let h := h.blacken tmp
    some (h.setBlackred parent gparent, gparent)
  else do
    let (h, parent, elm) ←
      if h.child d.other parent = some elm then do
        let h ← h.rotate d parent
        some (h, elm, parent)
      else some (h, parent, elm)
    let h := h.setBlackred parent gparent
    let h ← h.rotate d.other gparent
    some (h, elm)

/-- `RB_INSERT_COLOR` -/
def insertColor : Nat → RbTree A → A → Option (RbTree A)
  | 0, _, _ => none
  | turns + 1, h, elm =>
    match h.parent elm with
    | some parent =>
      if h.color parent = .red then do
        let gparent ← h.parent parent
        let (h, elm) ← h.insertTurn gparent parent elm
        insertColor turns h elm
      else do
        let root ← h.root
        some (h.setColor root .black)
    | none => do
      let root ← h.root
      some (h.setColor root .black)

/-- The loop of `RB_INSERT`: the element that equals `elm`, the last one
visited, and what it was compared with. -/
def descend (h : RbTree A) (cmp : A → A → Ordering) (elm : A) :
    Nat → Option A → Option A → Ordering → Option (Option A × Option A × Ordering)
  | _, none, parent, comp => some (none, parent, comp)
  | 0, some _, _, _ => none
  | turns + 1, some tmp, _, _ =>
    match cmp elm tmp with
    | .lt => descend h cmp elm turns (h.child .left tmp) (some tmp) .lt
    | .gt => descend h cmp elm turns (h.child .right tmp) (some tmp) .gt
    | .eq => some (some tmp, some tmp, .eq)

/-- In `RB_INSERT`: `elm` becomes a child of `parent`, on the side that `comp` says. -/
def hang (h : RbTree A) (parent : Option A) (comp : Ordering) (elm : A) : RbTree A :=
  match parent with
  | some p => h.setChild (if comp = .lt then .left else .right) p (some elm)
  | none => { h with root := some elm }

/-- `RB_INSERT` -/
def insert (h : RbTree A) (cmp : A → A → Ordering) (turns : Nat) (elm : A) :
    Option (RbTree A × Option A) := do
  let (tmp, parent, comp) ← h.descend cmp elm turns h.root none .eq
  match tmp with
  | some tmp => some (h, some tmp)
  | none => do
    let h := (h.set elm parent).hang parent comp elm
    let h ← insertColor turns h elm
    some (h, none)

/-- In the loop of `RB_REMOVE_COLOR`: a red sibling is rotated away. -/
def removeSibling (h : RbTree A) (d : Side) (parent : A) : Option (RbTree A × A) := do
  let tmp ← h.child d.other parent
  if h.color tmp = .red then do
    let h := h.setBlackred tmp parent
    let h ← h.rotate d parent
    let tmp ← h.child d.other parent
    some (h, tmp)
  else some (h, tmp)

/-- In the loop of `RB_REMOVE_COLOR`: the far child of the sibling `tmp` is red. -/
def rotateAway (h : RbTree A) (d : Side) (parent tmp : A) : Option (RbTree A) :=
  let h := h.setColor tmp (h.color parent)
  let h := h.setColor parent .black
  let h := h.blacken (h.child d.other tmp)
  h.rotate d parent

/-- In the loop of `RB_REMOVE_COLOR`: the sibling `tmp` has a red child. -/
def removeRotate (h : RbTree A) (d : Side) (parent tmp : A) : Option (RbTree A) := do
  let (h, tmp) ←
    if !h.isRed (h.child d.other tmp) then do
      let h := h.blacken (h.child d tmp)
      let h := h.setColor tmp .red
      let h ← h.rotate d.other tmp
      let tmp ← h.child d.other parent
      some (h, tmp)
    else some (h, tmp)
  h.rotateAway d parent tmp

/-- `RB_REMOVE_COLOR` -/
def removeColor : Nat → RbTree A → Option A → Option A → Option (RbTree A)
  | 0, _, _, _ => none
  | turns + 1, h, parent, elm =>
    if !h.isRed elm ∧ elm ≠ h.root then do
      let p ← parent
      let d := h.sideOf p elm
      let (h, tmp) ← h.removeSibling d p
      if !h.isRed (h.child d tmp) ∧ !h.isRed (h.child d.other tmp) then
        let h := h.setColor tmp .red
        removeColor turns h (h.parent p) (some p)
      else do
        let h ← h.removeRotate d p tmp
        some (h.blacken h.root)
    else some (h.blacken elm)

/-- `while ((left = RB_LEFT(elm, field)) != NULL) elm = left;` -/
def leftmost (h : RbTree A) : Nat → A → Option A
  | 0, _ => none
  | turns + 1, elm =>
    match h.child .left elm with
    | some left => leftmost h turns left
    | none => some elm

/-- `RB_REMOVE` from the label `color` on, when that is black. -/
def removed (h : RbTree A) (turns : Nat) (color : Color) (parent child : Option A) :
    Option (RbTree A) :=
  if color = .black then removeColor turns h parent child else some h

/-- `child` takes the place of `elm`. -/
def splice (h : RbTree A) (elm : A) (child : Option A) : RbTree A :=
  let parent := h.parent elm
  let h := h.setParentOf child parent
  h.relink parent elm child

/-- `(elm)->field = (old)->field;` -/
def copyEntry (h : RbTree A) (elm old : A) : RbTree A :=
  let h := (h.setChild .left elm (h.child .left old)).setChild .right elm (h.child .right old)
  (h.setParent elm (h.parent old)).setColor elm (h.color old)

/-- `elm` takes the place of `old`. -/
def replace (h : RbTree A) (elm old : A) : Option (RbTree A) := do
  let h := h.copyEntry elm old
  let h := h.relink (h.parent old) old (some elm)
  let left ← h.child .left old
  let h := h.setParent left (some elm)
  some (h.setParentOf (h.child .right old) (some elm))

/-- `RB_REMOVE` -/
def remove (h : RbTree A) (turns : Nat) (old : A) : Option (RbTree A) :=
  match h.child .left old, h.child .right old with
  | none, child => (h.splice old child).removed turns (h.color old) (h.parent old) child
  | some child, none => (h.splice old (some child)).removed turns (h.color old) (h.parent old)
      (some child)
  | some _, some right => do
    let elm ← h.leftmost turns right
    let child := h.child .right elm
    let parent := h.parent elm
    let color := h.color elm
    let h := h.splice elm child
    let parent := if h.parent elm = some old then some elm else parent
    let h ← h.replace elm old
    h.removed turns color parent child

/-- `RB_MINMAX`, from `tmp` on; `RB_MIN` goes to the left. -/
def minmax (h : RbTree A) (d : Side) : Nat → Option A → Option A → Option (Option A)
  | _, none, parent => some parent
  | 0, some _, _ => none
  | turns + 1, some tmp, _ => minmax h d turns (h.child d tmp) (some tmp)

/-- `RB_MIN` -/
def rbMin (h : RbTree A) (turns : Nat) : Option (Option A) := h.minmax .left turns h.root none

end RbTree
end Gevent
