import Mathlib.Data.List.Nodup
import Mathlib.Tactic.Common

/-! # Red-black trees with a focus

Trees whose nodes are identities, and the paths from a position in a tree up to
its root. A node is described by one of its sides, so that a statement about a
position and its mirror image is stated once.
-/
namespace Kaplar.RedBlack
variable {ι : Type*}

inductive Color where
  | red
  | black
  deriving DecidableEq, Repr

def Color.weight : Color → ℕ
  | .red => 0
  | .black => 1

@[simp] theorem Color.weight_red : Color.red.weight = 0 := rfl
@[simp] theorem Color.weight_black : Color.black.weight = 1 := rfl

theorem Color.eq_black {c : Color} (h : c ≠ .red) : c = .black := by
  cases c
  · exact absurd rfl h
  · rfl

theorem Color.eq_red_or_black (c : Color) : c = .red ∨ c = .black := by cases c <;> simp

inductive Side where
  | left
  | right
  deriving DecidableEq, Repr

def Side.flip : Side → Side
  | .left => .right
  | .right => .left

@[simp] theorem Side.flip_left : Side.left.flip = .right := rfl
@[simp] theorem Side.flip_right : Side.right.flip = .left := rfl
@[simp] theorem Side.flip_flip (s : Side) : s.flip.flip = s := by cases s <;> rfl
theorem Side.eq_flip {s s' : Side} (h : s' ≠ s) : s' = s.flip := by
  cases s <;> cases s' <;> simp_all

inductive ColorTree (ι : Type*) where
  | leaf
  | node (l : ColorTree ι) (x : ι) (c : Color) (r : ColorTree ι)
  deriving DecidableEq, Repr

namespace ColorTree

/-- The node whose child on side `s` is `near`. -/
def branch (s : Side) (near : ColorTree ι) (x : ι) (c : Color) (far : ColorTree ι) : ColorTree ι :=
  match s with
  | .left => .node near x c far
  | .right => .node far x c near

theorem branch_flip (s : Side) (near : ColorTree ι) (x : ι) (c : Color) (far : ColorTree ι) :
    branch s.flip near x c far = branch s far x c near := by cases s <;> rfl

/-- Any inner node has a child on either side. -/
theorem node_eq_branch (s : Side) (l : ColorTree ι) (x : ι) (c : Color) (r : ColorTree ι) :
    ∃ near far, node l x c r = branch s near x c far := by
  cases s
  · exact ⟨l,r,rfl⟩
  · exact ⟨r,l,rfl⟩

def top : ColorTree ι → Option ι
  | leaf => none
  | node _ x _ _ => some x

/-- A missing node counts as black. -/
def color : ColorTree ι → Color
  | leaf => .black
  | node _ _ c _ => c

def blacken : ColorTree ι → ColorTree ι
  | leaf => leaf
  | node l x _ r => node l x .black r

def ids : ColorTree ι → List ι
  | leaf => []
  | node l x _ r => l.ids ++ x :: r.ids

def depth : ColorTree ι → ℕ
  | leaf => 0
  | node l _ _ r => max l.depth r.depth + 1

@[simp] theorem top_node {l : ColorTree ι} {x : ι} {c : Color} {r : ColorTree ι} :
    (node l x c r).top = some x := rfl
@[simp] theorem top_branch (s : Side) (a : ColorTree ι) (x : ι) (c : Color) (b : ColorTree ι) :
    (branch s a x c b).top = some x := by cases s <;> rfl
@[simp] theorem color_branch (s : Side) (a : ColorTree ι) (x : ι) (c : Color) (b : ColorTree ι) :
    (branch s a x c b).color = c := by cases s <;> rfl
@[simp] theorem blacken_branch (s : Side) (a : ColorTree ι) (x : ι) (c : Color) (b : ColorTree ι) :
    (branch s a x c b).blacken = branch s a x .black b := by cases s <;> rfl
@[simp] theorem top_blacken (t : ColorTree ι) : t.blacken.top = t.top := by cases t <;> rfl
@[simp] theorem ids_blacken (t : ColorTree ι) : t.blacken.ids = t.ids := by cases t <;> rfl
@[simp] theorem color_blacken (t : ColorTree ι) : t.blacken.color = .black := by cases t <;> rfl

theorem eq_leaf_of_top {t : ColorTree ι} (h : t.top = none) : t = leaf := by
  cases t with
  | leaf => rfl
  | node l x c r => cases h

theorem top_mem_ids {t : ColorTree ι} {x : ι} (h : t.top = some x) : x ∈ t.ids := by
  cases t with
  | leaf => cases h
  | node l y c r =>
    cases h
    simp [ids]

theorem mem_ids_branch {s : Side} {a b : ColorTree ι} {x y : ι} {c : Color} :
    y ∈ (branch s a x c b).ids ↔ y = x ∨ y ∈ a.ids ∨ y ∈ b.ids := by
  cases s <;> simp only [branch, ids, List.mem_append, List.mem_cons] <;> tauto

/-- Equal black height `n` on all paths, and no red node with a red child. -/
def Even : ColorTree ι → ℕ → Prop
  | leaf, n => n = 0
  | node l _ c r, n => ∃ m, l.Even m ∧ r.Even m ∧ n = m + c.weight

def Calm : ColorTree ι → Prop
  | leaf => True
  | node l _ c r => (c = .red → l.color = .black ∧ r.color = .black) ∧ l.Calm ∧ r.Calm

@[simp] theorem even_leaf {n : ℕ} : (leaf : ColorTree ι).Even n ↔ n = 0 := Iff.rfl
@[simp] theorem calm_leaf : (leaf : ColorTree ι).Calm := trivial

theorem even_branch {s : Side} {a b : ColorTree ι} {x : ι} {c : Color} {n : ℕ} :
    (branch s a x c b).Even n ↔ ∃ m, a.Even m ∧ b.Even m ∧ n = m + c.weight := by
  cases s
  · exact Iff.rfl
  · exact exists_congr (fun m => and_left_comm)

theorem calm_branch {s : Side} {a b : ColorTree ι} {x : ι} {c : Color} :
    (branch s a x c b).Calm ↔
      (c = .red → a.color = .black ∧ b.color = .black) ∧ a.Calm ∧ b.Calm := by
  cases s
  · exact Iff.rfl
  · simp only [branch, Calm]
    tauto

theorem Calm.blacken {t : ColorTree ι} (h : t.Calm) : t.blacken.Calm := by
  cases t with
  | leaf => exact h
  | node l x c r => exact ⟨nofun,h.2⟩

theorem Even.blacken {t : ColorTree ι} {n : ℕ} (h : t.Even n) (hc : t.color = .red) :
    t.blacken.Even (n + 1) := by
  cases t with
  | leaf => cases hc
  | node l x c r =>
    cases hc
    obtain ⟨m,hl,hr,hn⟩ := h
    exact ⟨m,hl,hr,by simpa using hn⟩

theorem Even.exists_blacken {t : ColorTree ι} {n : ℕ} (h : t.Even n) : ∃ m, t.blacken.Even m := by
  cases t with
  | leaf => exact ⟨n,h⟩
  | node l x c r =>
    obtain ⟨m,hl,hr,_⟩ := h
    exact ⟨_,m,hl,hr,rfl⟩

theorem blacken_of_black {t : ColorTree ι} (h : t.color = .black) : t.blacken = t := by
  cases t with
  | leaf => rfl
  | node l x c r =>
    cases h
    rfl

/-- A tree of positive black height is not empty. -/
theorem Even.exists_branch {t : ColorTree ι} {n : ℕ} (h : t.Even (n + 1)) (s : Side) :
    ∃ a x c b, t = branch s a x c b := by
  cases t with
  | leaf => cases h
  | node l x c r =>
    obtain ⟨a,b,he⟩ := node_eq_branch s l x c r
    exact ⟨a,x,c,b,he⟩

theorem exists_branch_of_red {t : ColorTree ι} (h : t.color = .red) (s : Side) :
    ∃ a x b, t = branch s a x .red b := by
  cases t with
  | leaf => cases h
  | node l x c r =>
    cases h
    obtain ⟨a,b,he⟩ := node_eq_branch s l x .red r
    exact ⟨a,x,b,he⟩

theorem exists_branch_of_top {t : ColorTree ι} {x : ι} (h : t.top = some x) (s : Side) :
    ∃ a c b, t = branch s a x c b := by
  cases t with
  | leaf => cases h
  | node l y c r =>
    cases h
    obtain ⟨a,b,he⟩ := node_eq_branch s l x c r
    exact ⟨a,c,b,he⟩

/-- A red-black tree: black root, even and calm. -/
structure RedBlackTree (t : ColorTree ι) : Prop where
  root : t.color = .black
  calm : t.Calm
  even : ∃ n, t.Even n

end ColorTree

open ColorTree

/-- One step of a path: the hole is the child of `x` on the given side. -/
structure Frame (ι : Type*) where
  side : Side
  x : ι
  c : Color
  sib : ColorTree ι

def Frame.fill (f : Frame ι) (t : ColorTree ι) : ColorTree ι := branch f.side t f.x f.c f.sib

/-- A path lists its frames from the hole up to the root. -/
abbrev TreePath (ι : Type*) := List (Frame ι)

def plug : ColorTree ι → TreePath ι → ColorTree ι
  | t, [] => t
  | t, f :: fs => plug (f.fill t) fs

@[simp] theorem plug_nil (t : ColorTree ι) : plug t [] = t := rfl
@[simp] theorem plug_cons (t : ColorTree ι) (f : Frame ι) (fs : TreePath ι) :
    plug t (f :: fs) = plug (f.fill t) fs := rfl

theorem plug_append (t : ColorTree ι) (fs gs : TreePath ι) :
    plug t (fs ++ gs) = plug (plug t fs) gs := by
  induction fs generalizing t with
  | nil => rfl
  | cons f fs ih => exact ih _

/-- The node above the hole, and the root when the hole's tree has the given top. -/
def above : TreePath ι → Option ι
  | [] => none
  | f :: _ => some f.x

def rootOf : Option ι → TreePath ι → Option ι
  | p, [] => p
  | _, f :: fs => rootOf (some f.x) fs

@[simp] theorem above_nil : above ([] : TreePath ι) = none := rfl
@[simp] theorem above_cons (f : Frame ι) (fs : TreePath ι) : above (f :: fs) = some f.x := rfl

theorem top_plug (t : ColorTree ι) (fs : TreePath ι) : (plug t fs).top = rootOf t.top fs := by
  induction fs generalizing t with
  | nil => rfl
  | cons f fs ih => rw [plug_cons, ih, Frame.fill, top_branch, rootOf]

/-- In-order identities before and after the hole. -/
def Frame.before (f : Frame ι) : List ι := match f.side with
  | .left => []
  | .right => f.sib.ids ++ [f.x]

def Frame.after (f : Frame ι) : List ι := match f.side with
  | .left => f.x :: f.sib.ids
  | .right => []

def before : TreePath ι → List ι
  | [] => []
  | f :: fs => before fs ++ f.before

def after : TreePath ι → List ι
  | [] => []
  | f :: fs => f.after ++ after fs

theorem before_append (fs gs : TreePath ι) : before (fs ++ gs) = before gs ++ before fs := by
  induction fs with
  | nil => simp [before]
  | cons f fs ih => rw [List.cons_append, before, ih, before, List.append_assoc]

theorem Frame.ids_fill (f : Frame ι) (t : ColorTree ι) :
    (f.fill t).ids = f.before ++ t.ids ++ f.after := by
  obtain ⟨s,x,c,sib⟩ := f
  cases s <;> simp [Frame.fill,branch,ids,Frame.before,Frame.after]

theorem ids_plug (t : ColorTree ι) (fs : TreePath ι) :
    (plug t fs).ids = before fs ++ t.ids ++ after fs := by
  induction fs generalizing t with
  | nil => simp [before,after]
  | cons f fs ih => simp [ih,Frame.ids_fill,before,after,List.append_assoc]

theorem ids_branch_congr {s : Side} {a b a' b' : ColorTree ι} {x : ι} {c c' : Color}
    (ha : a'.ids = a.ids) (hb : b'.ids = b.ids) :
    (branch s a' x c' b').ids = (branch s a x c b).ids := by
  cases s <;> simp [branch,ids,ha,hb]

theorem ids_rotate {s : Side} {b d e : ColorTree ι} {x y : ι} {c c' d' e' : Color} :
    (branch s (branch s d y c' e) x c b).ids = (branch s d y d' (branch s e x e' b)).ids := by
  cases s <;> simp [branch,ids]

theorem ids_plug_congr {T' : ColorTree ι} (h : T'.ids = T.ids) :
    (plug T' fs).ids = (plug T fs).ids := by
  rw [ids_plug, ids_plug, h]

/-- The identities outside of the hole. -/
def pathIds (fs : TreePath ι) : List ι := before fs ++ after fs

theorem nodup_plug {t : ColorTree ι} {fs : TreePath ι} :
    (plug t fs).ids.Nodup ↔ (t.ids ++ pathIds fs).Nodup := by
  rw [ids_plug, pathIds, ← List.append_assoc]
  exact (List.perm_append_comm.append_right _).nodup_iff

theorem mem_pathIds_cons {f : Frame ι} {fs : TreePath ι} {y : ι} :
    y ∈ pathIds (f :: fs) ↔ y = f.x ∨ y ∈ f.sib.ids ∨ y ∈ pathIds fs := by
  obtain ⟨s,x,c,sib⟩ := f
  cases s <;> simp only [pathIds, before, after, Frame.before, Frame.after, List.mem_append,
    List.mem_cons, List.not_mem_nil, or_false] <;> tauto

/-- The root of a tree with a hole below it lies on the path. -/
theorem exists_rootOf_cons {p : Option ι} {f : Frame ι} {fs : TreePath ι} :
    ∃ x ∈ pathIds (f :: fs), rootOf p (f :: fs) = some x := by
  induction fs generalizing p f with
  | nil => exact ⟨f.x,mem_pathIds_cons.mpr (.inl rfl),rfl⟩
  | cons g fs ih =>
    obtain ⟨x,hx,hr⟩ := ih (p := some f.x) (f := g)
    exact ⟨x,mem_pathIds_cons.mpr (.inr (.inr hx)),hr⟩

theorem length_le_pathIds (fs : TreePath ι) : fs.length ≤ (pathIds fs).length := by
  induction fs with
  | nil => exact Nat.zero_le _
  | cons f fs ih =>
    obtain ⟨s,x,c,sib⟩ := f
    cases s <;> simp only [pathIds, before, after, Frame.before, Frame.after, List.length_append,
      List.length_cons] at ih ⊢ <;> omega

theorem mem_ids_plug {t : ColorTree ι} {fs : TreePath ι} {y : ι} :
    y ∈ (plug t fs).ids ↔ y ∈ t.ids ∨ y ∈ pathIds fs := by
  simp only [ids_plug, pathIds, List.mem_append]
  tauto

theorem exists_focus {t : ColorTree ι} {x : ι} (h : x ∈ t.ids) :
    ∃ l c r fs, t = plug (branch .left l x c r) fs := by
  suffices hs : ∀ fs : TreePath ι, ∃ l c r gs, plug t fs = plug (branch .left l x c r) gs from hs []
  induction t with
  | leaf => cases h
  | node l y c r ihl ihr =>
    intro fs
    rcases List.mem_append.mp h with hl | hr
    · exact ihl hl (⟨.left,y,c,r⟩ :: fs)
    · rcases List.mem_cons.mp hr with rfl | hr
      · exact ⟨l,c,r,fs,rfl⟩
      · exact ihr hr (⟨.right,y,c,l⟩ :: fs)

/-- The first node of a tree lies at the end of a path of left children. -/
theorem exists_leftmost {t : ColorTree ι} {x : ι} (h : t.top = some x) :
    ∃ gs y c r, t = plug (branch .left .leaf y c r) gs ∧ before gs = [] := by
  suffices hs : ∀ fs : TreePath ι, ∃ gs y c r, plug t fs = plug (branch .left .leaf y c r) (gs ++ fs) ∧
      before gs = [] by
    obtain ⟨gs,y,c,r,ht,hg⟩ := hs []
    exact ⟨gs,y,c,r,by simpa using ht,hg⟩
  induction t generalizing x with
  | leaf => cases h
  | node l y c r ihl _ =>
    intro fs
    cases l with
    | leaf => exact ⟨[],y,c,r,rfl,rfl⟩
    | node l' z c' r' =>
      obtain ⟨gs,w,cw,rw,ht,hg⟩ := ihl rfl (⟨.left,y,c,r⟩ :: fs)
      refine ⟨gs ++ [⟨.left,y,c,r⟩],w,cw,rw,?_,by rw [before_append, hg]; rfl⟩
      rw [List.append_assoc]
      exact ht

/-- The black height an even tree must have in the hole for the whole to be even. -/
def PathEven : TreePath ι → ℕ → ℕ → Prop
  | [], n, m => n = m
  | f :: fs, n, m => f.sib.Even n ∧ PathEven fs (n + f.c.weight) m

theorem even_plug {t : ColorTree ι} {fs : TreePath ι} {m : ℕ} :
    (plug t fs).Even m ↔ ∃ n, t.Even n ∧ PathEven fs n m := by
  induction fs generalizing t with
  | nil => simp [PathEven]
  | cons f fs ih =>
    rw [plug_cons, ih]
    constructor
    · rintro ⟨n,hn,hp⟩
      obtain ⟨k,ht,hs,rfl⟩ := even_branch.mp hn
      exact ⟨k,ht,hs,hp⟩
    · rintro ⟨n,ht,hs,hp⟩
      exact ⟨_,even_branch.mpr ⟨n,ht,hs,rfl⟩,hp⟩

/-- A tree with a root of colour `c` may hang in the hole: the root of the whole
is black and a red node has black children. -/
def Fits (c : Color) : TreePath ι → Prop
  | [] => c = .black
  | f :: _ => f.c = .red → c = .black

def PathCalm : TreePath ι → Prop
  | [] => True
  | f :: fs => f.sib.Calm ∧ (f.c = .red → f.sib.color = .black) ∧ Fits f.c fs ∧ PathCalm fs

theorem fits_black (fs : TreePath ι) : Fits .black fs := by
  cases fs with
  | nil => rfl
  | cons f fs => exact fun _ => rfl

theorem calm_plug {t : ColorTree ι} {fs : TreePath ι} :
    ((plug t fs).Calm ∧ (plug t fs).color = .black) ↔ t.Calm ∧ Fits t.color fs ∧ PathCalm fs := by
  induction fs generalizing t with
  | nil => simp [PathCalm,Fits]
  | cons f fs ih =>
    rw [plug_cons, ih, Frame.fill, calm_branch, color_branch]
    simp only [PathCalm, Fits]
    tauto

/-- A whole tree is red-black exactly when the tree in the hole and the path agree. -/
theorem redBlack_plug {t : ColorTree ι} {fs : TreePath ι} :
    (plug t fs).RedBlackTree ↔
      (t.Calm ∧ Fits t.color fs ∧ PathCalm fs) ∧ ∃ n m, t.Even n ∧ PathEven fs n m := by
  constructor
  · rintro ⟨hr,hc,m,hm⟩
    obtain ⟨n,hn,hp⟩ := even_plug.mp hm
    exact ⟨calm_plug.mp ⟨hc,hr⟩,n,m,hn,hp⟩
  · rintro ⟨hc,n,m,hn,hp⟩
    obtain ⟨hc,hr⟩ := calm_plug.mpr hc
    exact ⟨hr,hc,m,even_plug.mpr ⟨n,hn,hp⟩⟩

end Kaplar.RedBlack
