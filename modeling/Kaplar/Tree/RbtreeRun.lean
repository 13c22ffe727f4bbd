import Kaplar.Foundation.Execution
import Kaplar.Tree.RbtreeInsert
import Kaplar.Tree.RbtreeRemove
import Mathlib.Data.Nat.Basic
import Mathlib.Order.Lattice

/-! # Runs of insertions and removals

The red-black rules are stated on the links in memory. A removal keeps them; an
insertion keeps them unless its fixup meets a black inner grandchild of a red
parent, which the loop turns over like a red one.
-/
namespace Kaplar.Rbtree
open RedBlack RedBlack.ColorTree Execution
variable {ι : Type*}

/-- The nodes that hang in the tree. -/
inductive Has (t : Rbtree ι) : ι → Prop
  | root {x : ι} : t.root = some x → Has t x
  | child {s : Side} {x y : ι} : Has t x → (t.node x).child s = some y → Has t y

/-- A path from a link down to `NULL` that crosses `k` black nodes. -/
inductive NullPath (t : Rbtree ι) : Option ι → ℕ → Prop
  | null : NullPath t none 0
  | node {s : Side} {x : ι} {k : ℕ} : NullPath t ((t.node x).child s) k →
      NullPath t (some x) (k + (t.node x).color.weight)

structure IsRedBlack (t : Rbtree ι) : Prop where
  root : ∀ x, t.root = some x → (t.node x).color = .black
  redRed : ∀ s x y, t.Has x → (t.node x).child s = some y → (t.node x).color = .red →
    (t.node y).color = .black
  blackHeight : ∀ j k, t.NullPath t.root j → t.NullPath t.root k → j = k

section Shape
variable {t : Rbtree ι} {T : ColorTree ι} {p : Option ι} {x : ι} {k : ℕ}

theorem Linked.child_mem (h : Linked t.node p T) {s : Side} {y : ι} (hx : x ∈ T.ids)
    (hy : (t.node x).child s = some y) : y ∈ T.ids := by
  induction T generalizing p with
  | leaf => cases hx
  | node l z c r ihl ihr =>
    obtain ⟨hz,hl,hr⟩ := h
    simp only [ids, List.mem_append, List.mem_cons] at hx ⊢
    rcases hx with hx | rfl | hx
    · exact .inl (ihl hl hx)
    · rw [hz] at hy
      cases s with
      | left => exact .inl (top_mem_ids hy)
      | right => exact .inr (.inr (top_mem_ids hy))
    · exact .inr (.inr (ihr hr hx))

theorem Linked.has (h : Linked t.node p T) (hT : ∀ y, T.top = some y → t.Has y) (hx : x ∈ T.ids) :
    t.Has x := by
  induction T generalizing p with
  | leaf => cases hx
  | node l z c r ihl ihr =>
    obtain ⟨hz,hl,hr⟩ := h
    have hzt := hT z rfl
    simp only [ids, List.mem_append, List.mem_cons] at hx
    rcases hx with hx | rfl | hx
    · exact ihl hl (fun y hy => .child (s := .left) hzt (by rw [hz]; exact hy)) hx
    · exact hzt
    · exact ihr hr (fun y hy => .child (s := .right) hzt (by rw [hz]; exact hy)) hx

/-- The nodes that hang in the tree are those of the tree it represents. -/
theorem Shape.has_iff (h : t.Shape T) : t.Has x ↔ x ∈ T.ids := by
  constructor
  · intro hx
    induction hx with
    | root hr => exact top_mem_ids (h.root.symm.trans hr)
    | child _ hy ih => exact h.links.child_mem ih hy
  · exact h.links.has (fun y hy => .root (h.root.trans hy))

theorem Linked.nullPath (h : Linked t.node p T) {n : ℕ} (he : T.Even n)
    (hk : t.NullPath T.top k) : k = n := by
  induction T generalizing p n k with
  | leaf =>
    cases hk
    exact he.symm
  | node l z c r ihl ihr =>
    obtain ⟨hz,hl,hr⟩ := h
    obtain ⟨m,hel,her,rfl⟩ := he
    cases hk with
    | @node s _ j hj =>
      rw [hz] at hj ⊢
      cases s with
      | left => rw [ihl hl hel hj]
      | right => rw [ihr hr her hj]

theorem Linked.redRed (h : Linked t.node p T) (hc : T.Calm) {s : Side} {y : ι} (hx : x ∈ T.ids)
    (hy : (t.node x).child s = some y) (hred : (t.node x).color = .red) :
    (t.node y).color = .black := by
  induction T generalizing p with
  | leaf => cases hx
  | node l z c r ihl ihr =>
    obtain ⟨hz,hl,hr⟩ := h
    obtain ⟨hcol,hcl,hcr⟩ := hc
    simp only [ids, List.mem_append, List.mem_cons] at hx
    rcases hx with hx | rfl | hx
    · exact ihl hl hcl hx
    · rw [hz] at hy hred
      have hchild : ∀ (C : ColorTree ι), Linked t.node (some x) C → C.top = some y →
          C.color = .black → (t.node y).color = .black := by
        intro C hC hCy hCb
        obtain ⟨a,c',b,rfl⟩ := exists_branch_of_top hCy .left
        rw [(linked_branch.mp hC).1, RbNode.color_sided]
        simpa using hCb
      cases s with
      | left => exact hchild l hl hy (hcol hred).1
      | right => exact hchild r hr hy (hcol hred).2
    · exact ihr hr hcr hx

/-- A heap that represents a red-black tree is one. -/
theorem Shape.isRedBlack (h : t.Shape T) (hrb : T.RedBlackTree) : t.IsRedBlack := by
  obtain ⟨n,hn⟩ := hrb.even
  refine ⟨?_,?_,?_⟩
  · intro x hx
    obtain ⟨a,c,b,rfl⟩ := exists_branch_of_top (h.root.symm.trans hx) .left
    have hb := hrb.root
    rw [color_branch] at hb
    rw [(linked_branch.mp h.links).1, RbNode.color_sided, hb]
  · intro s x y hx hy hred
    exact h.links.redRed hrb.calm (h.has_iff.mp hx) hy hred
  · intro j k hj hk
    rw [h.root] at hj hk
    rw [h.links.nullPath hn hj, h.links.nullPath hn hk]

end Shape

/-- What was asked of the tree, and the answer. -/
inductive Event (ι : Type*) where
  | insert (n : ι) (inserted : Bool)
  | remove (n : ι)

/-- The comparator orders the nodes by a key. -/
structure Orders {κ : Type*} [LinearOrder κ] (compare : ι → ι → ℤ) (key : ι → κ) : Prop where
  neg : ∀ a b, compare a b < 0 ↔ key a < key b
  zero : ∀ a b, compare a b = 0 ↔ key a = key b

section Run
variable [DecidableEq ι] {compare : ι → ι → ℤ} {C : TreePath ι → Prop} {t t' : Rbtree ι}
  {T U : ColorTree ι} {n : ι} {ns : List ι} {es : List (Event ι)}

/-- An operation that completes: the insertion of a node that does not hang in the tree,
into a hole whose path meets `C`, or the removal of one that does. -/
inductive Step (C : TreePath ι → Prop) (compare : ι → ι → ℤ) (t : Rbtree ι) :
    List (Event ι) → Rbtree ι → Prop
  | insert {fuel : ℕ} {n : ι} {b : Bool} {t' : Rbtree ι} : ¬ t.Has n →
      (∀ T fs, t.Shape T → descend compare n T [] = some fs → C fs) →
      rbtInsert fuel compare t n = some (t',b) → Step C compare t [.insert n b] t'
  | remove {fuel : ℕ} {n : ι} {t' : Rbtree ι} : t.Has n →
      rbtRemove fuel t n = some t' → Step C compare t [.remove n] t'

variable (compare) in
/-- An insertion into a red-black tree completes; it keeps the tree red-black if no black
inner grandchild is in the way. -/
theorem rbtInsert_redBlack (h : t.Shape T) (hrb : T.RedBlackTree) (hn : n ∉ T.ids) :
    ∃ fuel t' b, rbtInsert fuel compare t n = some (t',b) ∧ ∃ U, t'.Shape U ∧
      ((∀ fs, descend compare n T [] = some fs → NoBlackInner true fs) → U.RedBlackTree) := by
  cases hd : descend compare n T [] with
  | none =>
    obtain ⟨t',hi,ho⟩ := rbtInsert_present h hn (Nat.lt_succ_self _) hd
    exact ⟨_,t',false,hi,T,ho.shape h hn,fun _ => hrb⟩
  | some fs =>
    obtain ⟨t',hi,hs,_⟩ := rbtInsert_absent h hrb.root hn (Nat.lt_succ_self _) hd
    refine ⟨_,t',true,hi,_,hs,fun hC => ?_⟩
    have hplug := descend_plug hd
    rw [plug_nil] at hplug
    rw [← hplug] at hrb
    obtain ⟨⟨_,_,hpc⟩,k,m,hk,hpe⟩ := redBlack_plug.mp hrb
    exact redBlack_fixup ⟨fun _ => ⟨rfl,rfl⟩,trivial,trivial⟩ ⟨k,hk,hk,rfl⟩ hpe hpc (hC fs rfl)

/-- One step keeps the heap a red-black tree. -/
theorem step_redBlack (hs : Step (NoBlackInner true) compare t es t') (h : t.Shape T)
    (hrb : T.RedBlackTree) : ∃ U, t'.Shape U ∧ U.RedBlackTree := by
  cases hs with
  | @insert fuel n b _ hn hC hi =>
    obtain ⟨k,t1,b1,hi1,U,hU,hUrb⟩ := rbtInsert_redBlack compare h hrb
      (fun hm => hn (h.has_iff.mpr hm))
    have he := (rbtInsert_mono hi (Nat.le_max_left fuel k)).symm.trans
      (rbtInsert_mono hi1 (Nat.le_max_right fuel k))
    cases he
    exact ⟨U,hU,hUrb (fun fs => hC T fs h)⟩
  | @remove fuel n _ hn hi =>
    obtain ⟨t1,hi1,U,hU,hUrb,_⟩ := rbtRemove_spec h hrb (h.has_iff.mp hn)
      (Nat.lt_succ_self T.ids.length)
    have he := (rbtRemove_mono hi (Nat.le_max_left fuel _)).symm.trans
      (rbtRemove_mono hi1 (Nat.le_max_right fuel _))
    cases he
    exact ⟨U,hU,hUrb⟩

omit [DecidableEq ι] in
theorem initial_redBlack (node : ι → RbNode ι) : (rbtInit node).Shape .leaf ∧
    (ColorTree.leaf : ColorTree ι).RedBlackTree :=
  ⟨⟨rfl,trivial,List.nodup_nil⟩,⟨rfl,trivial,0,rfl⟩⟩

theorem run_redBlack {node : ι → RbNode ι}
    (hr : Run (Step (NoBlackInner true) compare) (rbtInit node) es t) :
    ∃ T, t.Shape T ∧ T.RedBlackTree := by
  refine hr.invariant (I := fun s => ∃ T, s.Shape T ∧ T.RedBlackTree)
    ⟨.leaf,initial_redBlack node⟩ ?_
  rintro s fs u ⟨T,h,hrb⟩ hs
  exact step_redBlack hs h hrb

/-- As long as no insertion turns a black inner grandchild over, the red-black rules hold
after every operation, and every further operation completes without a missing link. -/
theorem rbtree_isRedBlack {node : ι → RbNode ι}
    (hr : Run (Step (NoBlackInner true) compare) (rbtInit node) es t) :
    t.IsRedBlack ∧ (∀ n, t.Has n → ∃ fuel t', rbtRemove fuel t n = some t') ∧
      ∀ n, ¬ t.Has n → ∃ fuel t' b, rbtInsert fuel compare t n = some (t',b) := by
  obtain ⟨T,h,hrb⟩ := run_redBlack hr
  refine ⟨h.isRedBlack hrb,?_,?_⟩
  · intro n hn
    obtain ⟨t',hi,_⟩ := rbtRemove_spec h hrb (h.has_iff.mp hn) (Nat.lt_succ_self _)
    exact ⟨_,t',hi⟩
  · intro n hn
    obtain ⟨fuel,t',b,hi,_⟩ := rbtInsert_redBlack compare h hrb
      (fun hm => hn (h.has_iff.mpr hm))
    exact ⟨fuel,t',b,hi⟩

/-- The tree after a series of insertions of new nodes into holes that meet `C`. -/
def insertTrees (C : TreePath ι → Prop) [DecidablePred C] (compare : ι → ι → ℤ) :
    ColorTree ι → List ι → Option (ColorTree ι)
  | T, [] => some T
  | T, n :: ns => do
    let fs ← descend compare n T []
    if n ∉ T.ids ∧ C fs then insertTrees C compare (fixup (.node .leaf n .red .leaf) fs).blacken ns
    else none

theorem insertTrees_run [DecidablePred C] (h : t.Shape T) (hc : T.color = .black)
    (hI : insertTrees C compare T ns = some U) :
    ∃ t', Run (Step C compare) t (ns.map (fun n => .insert n true)) t' ∧ t'.Shape U := by
  induction ns generalizing t T with
  | nil =>
    cases hI
    exact ⟨t,.start,h⟩
  | cons n ns ih =>
    simp only [insertTrees, Option.bind_eq_bind, Option.bind_eq_some_iff] at hI
    obtain ⟨fs,hd,hI⟩ := hI
    rw [Option.ite_none_right_eq_some] at hI
    obtain ⟨⟨hn,hC⟩,hI⟩ := hI
    obtain ⟨t1,hi,hs,_⟩ := rbtInsert_absent h hc hn (Nat.lt_succ_self _) hd
    obtain ⟨t2,hr,hs2⟩ := ih hs (color_blacken _) hI
    refine ⟨t2,?_,hs2⟩
    have hstep : Step C compare t [.insert n true] t1 := by
      refine .insert (fun hm => hn (h.has_iff.mp hm)) ?_ hi
      intro T' fs' hT' hd'
      cases hT'.unique h
      cases hd.symm.trans hd'
      exact hC
    exact Run.trans (by simpa using Run.start.step hstep) hr

/-- The numbers of black nodes on the ways down to `NULL`. -/
def nullCounts : ColorTree ι → List ℕ
  | .leaf => [0]
  | .node l _ c r => (nullCounts l ++ nullCounts r).map (· + c.weight)

omit [DecidableEq ι] in
theorem Linked.exists_nullPath {p : Option ι} {k : ℕ} (h : Linked t.node p T)
    (hk : k ∈ nullCounts T) : t.NullPath T.top k := by
  induction T generalizing p k with
  | leaf =>
    cases List.mem_singleton.mp hk
    exact .null
  | node l x c r ihl ihr =>
    obtain ⟨hx,hl,hr⟩ := h
    obtain ⟨j,hj,rfl⟩ := List.mem_map.mp hk
    have hcol : (t.node x).color = c := by rw [hx]
    rw [← hcol]
    rcases List.mem_append.mp hj with hj | hj
    · exact .node (s := .left) (by rw [hx]; exact ihl hl hj)
    · exact .node (s := .right) (by rw [hx]; exact ihr hr hj)

end Run

section Keys

/-- Nodes with a number as their key. -/
def compareKey (a b : ℕ) : ℤ := a - b

theorem orders_compareKey : Orders compareKey (id : ℕ → ℕ) := by
  constructor <;> intro a b <;> simp only [compareKey, id] <;> omega

def blank : ℕ → RbNode ℕ := fun _ => ⟨.red,none,none,none⟩

/-- Three insertions with a rotation at the root, and the removal of the new root. -/
theorem rbtree_isRedBlack_removed :
    ∃ t : Rbtree ℕ, t.Has 6 ∧ ¬ t.Has 5 ∧ t.IsRedBlack := by
  have hI : insertTrees (NoBlackInner true) compareKey .leaf [4,5,6] =
      some (.node (.node .leaf 4 .red .leaf) 5 .black (.node .leaf 6 .red .leaf)) := by decide
  obtain ⟨t,hr,hs⟩ := insertTrees_run (initial_redBlack blank).1 rfl hI
  have h5 : t.Has 5 := hs.has_iff.mpr (by decide)
  obtain ⟨fuel,t',hrem⟩ := (rbtree_isRedBlack hr).2.1 5 h5
  have hr' := hr.step (.remove h5 hrem)
  have hrb := (rbtree_isRedBlack hr').1
  obtain ⟨T,hT,hTrb⟩ := run_redBlack hr
  obtain rfl := hT.unique hs
  obtain ⟨t2,hrem2,U,hU,_,hids,_⟩ := rbtRemove_spec hs hTrb (n := 5) (by decide) (Nat.lt_succ_self _)
  cases (rbtRemove_mono hrem (Nat.le_max_left fuel _)).symm.trans
    (rbtRemove_mono hrem2 (Nat.le_max_right fuel _))
  refine ⟨t',hU.has_iff.mpr ?_,fun h => ?_,hrb⟩
  · rw [hids]
    decide
  · have hm := hU.has_iff.mp h
    rw [hids] at hm
    exact absurd hm (by decide)

/-- The seventh node of this series turns a black inner grandchild over. -/
theorem rbtree_not_isRedBlack : ¬ ∀ (compare : ℕ → ℕ → ℤ) (key : ℕ → ℕ) (node : ℕ → RbNode ℕ)
    (t : Rbtree ℕ) (es : List (Event ℕ)), Orders compare key →
      Run (Step (fun _ => True) compare) (rbtInit node) es t → t.IsRedBlack := by
  intro h
  have hI : (insertTrees (fun _ => True) compareKey .leaf [4,5,6,0,1,2,3]).map nullCounts =
      some [2,2,1,1,1,1,2,2] := by decide
  obtain ⟨U,hU,hcounts⟩ := Option.map_eq_some_iff.mp hI
  obtain ⟨t,hr,hs⟩ := insertTrees_run (initial_redBlack blank).1 rfl hU
  have hrb := h compareKey id blank t _ orders_compareKey hr
  have hpath : ∀ k, k ∈ nullCounts U → t.NullPath t.root k := by
    intro k hk
    rw [hs.root]
    exact hs.links.exists_nullPath hk
  have h1 := hpath 1 (by simp [hcounts])
  have h2 := hpath 2 (by simp [hcounts])
  exact absurd (hrb.blackHeight 1 2 h1 h2) (by decide)

end Keys

end Kaplar.Rbtree
