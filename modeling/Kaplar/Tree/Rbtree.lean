import Kaplar.Foundation.Loop
import Kaplar.Foundation.RedBlack
import Mathlib.Logic.Function.Basic
import Mathlib.Data.Int.Notation

/-! # The intrusive red-black tree

Nodes live in memory that belongs to the caller, a pointer is the identity of a
node or `NULL`, and every operation rewires parent and child links in place. A
dereference of `NULL` is a fault, the value `none` of an operation. The branches
the source writes out twice, once mirrored, take the side as a parameter.
-/
namespace Kaplar
open RedBlack
variable {ι : Type*} [DecidableEq ι]

structure RbNode (ι : Type*) where
  color : Color
  parent : Option ι
  left : Option ι
  right : Option ι
  deriving DecidableEq, Repr

def RbNode.child (n : RbNode ι) : Side → Option ι
  | .left => n.left
  | .right => n.right

def RbNode.withColor (n : RbNode ι) (c : Color) : RbNode ι := { n with color := c }
def RbNode.withParent (n : RbNode ι) (p : Option ι) : RbNode ι := { n with parent := p }
def RbNode.withChild (n : RbNode ι) (p : Option ι) : Side → RbNode ι
  | .left => { n with left := p }
  | .right => { n with right := p }

/-- The tree header together with the memory its nodes live in. -/
structure Rbtree (ι : Type*) where
  root : Option ι
  cachedMin : Option ι
  node : ι → RbNode ι

namespace Rbtree

def rbtInit (node : ι → RbNode ι) : Rbtree ι := ⟨none,none,node⟩

def modify (t : Rbtree ι) (x : ι) (f : RbNode ι → RbNode ι) : Rbtree ι :=
  { t with node := Function.update t.node x (f (t.node x)) }

def setColor (t : Rbtree ι) (x : ι) (c : Color) : Rbtree ι :=
  t.modify x (fun n => n.withColor c)
def setParent (t : Rbtree ι) (x : ι) (p : Option ι) : Rbtree ι :=
  t.modify x (fun n => n.withParent p)
def setChild (t : Rbtree ι) (s : Side) (x : ι) (p : Option ι) : Rbtree ι :=
  t.modify x (fun n => n.withChild p s)

/-- `if(p != NULL) p->parent = q` -/
def setParent? (t : Rbtree ι) (p q : Option ι) : Rbtree ι := match p with
  | some x => t.setParent x q
  | none => t

/-- `p != NULL && p->color == RED` -/
def isRed (t : Rbtree ι) : Option ι → Bool
  | some x => (t.node x).color == .red
  | none => false

/-- Hangs `p` in the place of `a` below the parent of `a`, or at the root. -/
def replaceChild (t : Rbtree ι) (a : ι) (p : Option ι) : Rbtree ι :=
  match (t.node a).parent with
  | some q => if (t.node q).left = some a then t.setChild .left q p else t.setChild .right q p
  | none => { t with root := p }

section Rotate
variable (s : Side)

/-- Rotation towards side `s`: the child `c` on the other side takes the place of `a`. -/
def rotate (t : Rbtree ι) (a : ι) : Option (Rbtree ι) := do
  let c ← (t.node a).child s.flip
  let t := t.replaceChild a (some c)
  let t := t.setParent c (t.node a).parent
  let t := t.setParent a (some c)
  let t := t.setChild s.flip a ((t.node c).child s)
  let t := t.setChild s c (some a)
  pure (t.setParent? ((t.node a).child s.flip) (some a))

end Rotate

def rbtRotateLeft (t : Rbtree ι) (a : ι) : Option (Rbtree ι) := rotate .left t a
def rbtRotateRight (t : Rbtree ι) (a : ι) : Option (Rbtree ι) := rotate .right t a

section Insert

/-- The rotations of the insert fixup; the result carries the node of the next iteration. -/
def insertFixupRotate (s : Side) (t : Rbtree ι) (node parent gparent : ι) :
    Option (Rbtree ι × ι) :=
  if (t.node parent).child s.flip = some node then do
    let t ← rotate s t parent
    let t ← rotate s.flip t gparent
    let t := t.setColor node .black
    let t := t.setColor gparent .red
    -- `node` takes the place of `gparent` and stays for the next iteration
    pure (t,node)
  else do
    let t ← rotate s.flip t gparent
    let t := t.setColor parent .black
    let t := t.setColor gparent .red
    pure (t,parent)

/-- One iteration of the insert fixup when the parent is the child of the
grandparent on side `s`. -/
def insertFixupSide (s : Side) (t : Rbtree ι) (node parent gparent : ι) :
    Option (Rbtree ι × ι) :=
  match (t.node gparent).child s.flip with
  | none => insertFixupRotate s t node parent gparent
  | some uncle =>
    if (t.node uncle).color = .red then
      let t := t.setColor parent .black
      let t := t.setColor gparent .red
      let t := t.setColor uncle .black
      some (t,gparent)
    else insertFixupRotate s t node parent gparent

def insertFixupBody : Rbtree ι × ι → Option (Rbtree ι × ι ⊕ Rbtree ι)
  | (t,node) => match (t.node node).parent with
    | none => some (.inr t)
    | some parent =>
      if (t.node parent).color = .red then do
        let gparent ← (t.node parent).parent
        let r ← if (t.node gparent).left = some parent then insertFixupSide .left t node parent gparent
          else insertFixupSide .right t node parent gparent
        pure (.inl r)
      else some (.inr t)

def rbtInsertFixup (fuel : ℕ) (t : Rbtree ι) (node : ι) : Option (Rbtree ι) := do
  let t ← loop insertFixupBody fuel (t,node)
  let r ← t.root
  pure (t.setColor r .black)

/-- The link `y` of the search loop points to. -/
inductive Link (ι : Type*) where
  | root
  | child (s : Side) (x : ι)

def Link.get (t : Rbtree ι) : Link ι → Option ι
  | .root => t.root
  | .child s x => (t.node x).child s

def Link.set (t : Rbtree ι) (p : Option ι) : Link ι → Rbtree ι
  | .root => { t with root := p }
  | .child s x => t.setChild s x p

/-- One iteration of the search loop; it leaves with the free link, or without one
when an equal node is there. -/
def insertSearchBody (compare : ι → ι → ℤ) (n : ι) :
    Rbtree ι × Link ι → Option (Rbtree ι × Link ι ⊕ Rbtree ι × Option (Link ι))
  | (t,y) => match y.get t with
    | none => some (.inr (t,some y))
    | some cur =>
      let t := t.setParent n (some cur)
      let cmp := compare n cur
      if cmp = 0 then some (.inr (t,none))
      else if cmp < 0 then some (.inl (t,.child .left cur))
      else some (.inl (t,.child .right cur))

/-- `if(t->cached_min == NULL || t->compare(n, t->cached_min) < 0) t->cached_min = n` -/
def updateCachedMin (compare : ι → ι → ℤ) (t : Rbtree ι) (n : ι) : Rbtree ι :=
  match t.cachedMin with
  | none => { t with cachedMin := some n }
  | some m => if compare n m < 0 then { t with cachedMin := some n } else t

def rbtInsert (fuel : ℕ) (compare : ι → ι → ℤ) (t : Rbtree ι) (n : ι) :
    Option (Rbtree ι × Bool) := do
  let t := t.modify n (fun _ => ⟨.red,none,none,none⟩)
  -- the search loop leaves at once with the link to the root when the tree is empty
  let (t,y) ← loop (insertSearchBody compare n) fuel (t,.root)
  match y with
  | none => pure (t,false)
  | some y => do
    let t := updateCachedMin compare (y.set t (some n)) n
    let t ← rbtInsertFixup fuel t n
    pure (t,true)

end Insert

section Traversal

/-- The last node on side `s` below `x`. -/
def outermost (s : Side) (fuel : ℕ) (t : Rbtree ι) (x : ι) : Option ι :=
  loop (fun y => match (t.node y).child s with
    | none => some (.inr y)
    | some z => some (.inl z)) fuel x

/-- Up to the first node that hangs on side `s`, and one step further. -/
def climb (s : Side) (fuel : ℕ) (t : Rbtree ι) (x : ι) : Option (Option ι) :=
  loop (fun y => match (t.node y).parent with
    | none => some (.inr none)
    | some p => if (t.node p).child s = some y then some (.inr (some p)) else some (.inl p)) fuel x

/-- The in-order neighbour on side `s`. -/
def neighbor (s : Side) (fuel : ℕ) (t : Rbtree ι) : Option ι → Option (Option ι)
  | none => some none
  | some cur => match (t.node cur).child s with
    | some x => (outermost s.flip fuel t x).map some
    | none => climb s.flip fuel t cur

def rbnodeNext (fuel : ℕ) (t : Rbtree ι) (cur : Option ι) : Option (Option ι) :=
  neighbor .right fuel t cur
def rbnodePrev (fuel : ℕ) (t : Rbtree ι) (cur : Option ι) : Option (Option ι) :=
  neighbor .left fuel t cur

end Traversal

section Remove

/-- Case 4, which every rotation of the remove fixup ends in. -/
def removeFixupEnd (s : Side) (t : Rbtree ι) (parent sibling : ι) (sfar : Option ι) :
    Option (Rbtree ι) := do
  let far ← sfar
  let t := t.setColor sibling (t.node parent).color
  let t := t.setColor parent .black
  let t := t.setColor far .black
  rotate s t parent

/-- The cases of the remove fixup below a black sibling. -/
def removeFixupBlack (s : Side) (t : Rbtree ι) (parent sibling : ι) :
    Option (Rbtree ι × Option ι × ι ⊕ Rbtree ι) :=
  let sfar := (t.node sibling).child s.flip
  let snear := (t.node sibling).child s
  if t.isRed sfar then (removeFixupEnd s t parent sibling sfar).map .inr
  else if t.isRed snear then do
    -- case 3
    let near ← snear
    let t ← rotate s.flip t sibling
    (removeFixupEnd s t parent near (some sibling)).map .inr
  else
    -- case 2
    let t := t.setColor sibling .red
    if (t.node parent).color = .red then some (.inr (t.setColor parent .black))
    else match (t.node parent).parent with
      | some p => some (.inl (t,some parent,p))
      | none => some (.inr t)

/-- One iteration of the remove fixup when the node is the child of its parent on side `s`. -/
def removeFixupSide (s : Side) (t : Rbtree ι) (parent : ι) :
    Option (Rbtree ι × Option ι × ι ⊕ Rbtree ι) := do
  let sibling ← (t.node parent).child s.flip
  if (t.node sibling).color = .red then
    -- case 1
    let t := t.setColor sibling .black
    let t := t.setColor parent .red
    let t ← rotate s t parent
    let sibling ← (t.node parent).child s.flip
    removeFixupBlack s t parent sibling
  else removeFixupBlack s t parent sibling

def removeFixupBody : Rbtree ι × Option ι × ι → Option (Rbtree ι × Option ι × ι ⊕ Rbtree ι)
  | (t,node,parent) =>
    if (t.node parent).left = node then removeFixupSide .left t parent
    else removeFixupSide .right t parent

def rbtRemoveFixup (fuel : ℕ) (t : Rbtree ι) (node parent : Option ι) : Option (Rbtree ι) :=
  if t.isRed node then node.map (fun x => t.setColor x .black)
  else match parent with
    | none => some t
    | some p => loop removeFixupBody fuel (t,node,p)

/-- The part of a removal before the links from above: the node `y` that takes the
place of `n`, the colour that disappears, and where to rebalance. -/
structure Unlinked (ι : Type*) where
  t : Rbtree ι
  y : Option ι
  rmColor : Color
  node : Option ι
  parent : Option ι

/-- `n` has two children and its successor `y` is its right child. -/
def unlinkChild (t : Rbtree ι) (n y : ι) : Option (Unlinked ι) := do
  let rmColor := (t.node y).color
  let t := t.setColor y (t.node n).color
  let node := (t.node y).right
  let t := t.setChild .left y (t.node n).left
  let l ← (t.node y).left
  let t := t.setParent l (some y)
  pure ⟨t,some y,rmColor,node,some y⟩

/-- `n` has two children and its successor `y` lies deeper: `y` leaves its place first. -/
def unlinkDeep (t : Rbtree ι) (n y : ι) : Option (Unlinked ι) := do
  let rmColor := (t.node y).color
  let t := t.setColor y (t.node n).color
  let node := (t.node y).right
  let parent := (t.node y).parent
  let p ← parent
  let t := t.setChild .left p (t.node y).right
  let t := t.setParent? (t.node y).right (t.node y).parent
  let t := t.setChild .left y (t.node n).left
  let l ← (t.node y).left
  let t := t.setParent l (some y)
  let t := t.setChild .right y (t.node n).right
  let r ← (t.node y).right
  let t := t.setParent r (some y)
  pure ⟨t,some y,rmColor,node,parent⟩

def unlink (fuel : ℕ) (t : Rbtree ι) (n : ι) : Option (Unlinked ι) :=
  match (t.node n).left, (t.node n).right with
  | some _, some r => do
    let y ← outermost .left fuel t r
    if y = r then unlinkChild t n y else unlinkDeep t n y
  | some l, none => some ⟨t,some l,(t.node n).color,some l,(t.node n).parent⟩
  | none, r => some ⟨t,r,(t.node n).color,r,(t.node n).parent⟩

/-- `if(t->cached_min == n) t->cached_min = rbnode_next(n)` -/
def dropCachedMin (fuel : ℕ) (t : Rbtree ι) (n : ι) : Option (Rbtree ι) :=
  if t.cachedMin = some n then (rbnodeNext fuel t (some n)).map (fun m => { t with cachedMin := m })
  else some t

def rbtRemove (fuel : ℕ) (t : Rbtree ι) (n : ι) : Option (Rbtree ι) := do
  let t ← dropCachedMin fuel t n
  let u ← unlink fuel t n
  let t := u.t.setParent? u.y (u.t.node n).parent
  let t := t.replaceChild n u.y
  if u.rmColor = .black then rbtRemoveFixup fuel t u.node u.parent else pure t

end Remove

end Rbtree
end Kaplar
