import Kaplar.Server.ConnMgr
import Kaplar.Server.ConnStream
import Kaplar.Server.ConnUid

/-! # What holds of the connections

The slots in use agree with the lives of their connections, and every connection that
has no slot any more has been closed and freed. While a handler works on one slot the
others are at rest.
-/
namespace Kaplar.Server
open Program

/-- The allocations and the releases behind the events. -/
def tableEvents : List ConnEvent → List SlotEvent := List.filterMap fun
  | .accepted _ uid _ => some (.issued uid)
  | .freed _ slot => some (.released slot)
  | _ => none

def ConnEvent.occupy (slot : UInt16) (o : Option (ℕ × UInt32)) : ConnEvent → Option (ℕ × UInt32)
  | .accepted s uid _ => if slotOf uid = slot then some (s,uid) else o
  | .freed _ slot' => if slot' = slot then none else o
  | _ => o

/-- The connection in a slot. -/
def occupant (slot : UInt16) : List ConnEvent → Option (ℕ × UInt32) :=
  List.foldl (ConnEvent.occupy slot) none

variable {σ : Type} (S : Services σ)

/-- What the fields of a slot say about the stage of its connection. -/
def Linked (c : ConnCtl) (ps : List Pending) (l : Life) : Prop :=
  match l.stage with
  | .fresh => c.proto = none ∧ c.flags.firstMsg = false ∧ c.flags.outputInProgress = false ∧
      (∀ p ∈ ps, p.op.isWrite = false) ∧
      ∃ svc, c.udata = .service svc ∧ l.sendsFirst = S.serviceSendsFirst svc
  | .asking | .answered _ => c.proto.isSome = true ∧ c.flags.firstMsg = false
  | .opened heard => c.proto.isSome = true ∧ c.flags.firstMsg = heard
  | _ => False

/-- The read that waits says how far the stream has been read. -/
def Reading (c : ConnCtl) (ps : List Pending) (h : List ConnEvent) : Prop :=
  c.flags.closing = false → ∀ p ∈ ps, match p.op with
    | .readLength => Aligned h
    | .readBody n => c.bodylen = n ∧ Headed n.toNat h
    | .write _ _ => True

/-- A slot in use, with what waits in it and the life of its connection. -/
structure ConnOk (c : ConnCtl) (ps : List Pending) (h : List ConnEvent) (l : Life) : Prop where
  life : life S.serviceSendsFirst h = some l
  outstanding : l.outstanding = ps.length
  pending : c.pendingWork = ps.length
  own : ∀ p ∈ ps, p.s = c.s
  reads : ps.countP (fun p => p.op.isRead) ≤ 1
  writes : ps.countP (fun p => p.op.isWrite) ≤ 1
  inProgress : ∀ p ∈ ps, p.op.isWrite = true → c.flags.outputInProgress = true
  output : ∀ p ∈ ps, p.op.isWrite = true → p.op = .write c.outputData c.outputLen
  linked : Linked S c ps l
  reading : Reading c ps h
  flows : Flows h

/-- Between handlers: a connection that is closing waits for an operation, and one whose
protocol has said no is closing. -/
def AtRest (c : ConnCtl) (ps : List Pending) (l : Life) : Prop :=
  (c.flags.closing = true → ps ≠ []) ∧ match l.stage with
    | .fresh => l.sendsFirst = false
    | .answered ok => ok = false ∧ c.flags.closing = true
    | .opened _ => True
    | _ => False

/-- The life of a connection that has no slot any more. -/
def Retired (h : List ConnEvent) : Prop :=
  (∃ l, life S.serviceSendsFirst h = some l ∧ l.stage = .gone ∧ l.outstanding = 0) ∧ Flows h

def World.inuse (w : World σ) (i : ℕ) : Prop := (w.table.ctl i).flags.inuse = true

/-- The history of the connection in a slot. -/
def World.past (w : World σ) (i : ℕ) (h : List ConnEvent) : List ConnEvent :=
  history (w.table.ctl i).s h

structure Managed (w : World σ) (h : List ConnEvent) : Prop where
  kept : Kept (tableEvents h) w.table
  conn : ∀ i, w.inuse i → ∃ l, ConnOk S (w.table.ctl i) (w.ops i) (w.past i h) l
  idle : ∀ i, ¬ w.inuse i → w.ops i = []
  occupied : ∀ i, w.inuse i →
    occupant (.ofNat i) h = some ((w.table.ctl i).s,(w.table.ctl i).uid)
  sockets : ∀ i, w.inuse i → (w.table.ctl i).s < w.nextSocket
  distinct : ∀ i j, w.inuse i → w.inuse j → (w.table.ctl i).s = (w.table.ctl j).s → i = j
  retired : ∀ s, s < w.nextSocket → (∀ i, w.inuse i → (w.table.ctl i).s ≠ s) →
    Retired S (history s h)
  future : ∀ e ∈ h, e.socket < w.nextSocket
  named : ∀ s uid k, .called s uid k ∈ h → ∃ svc, .accepted s uid svc ∈ h

def Settled (w : World σ) (h : List ConnEvent) (i : ℕ) : Prop :=
  ∀ l, life S.serviceSendsFirst (w.past i h) = some l → AtRest (w.table.ctl i) (w.ops i) l

/-- All slots but one are at rest. -/
structure Working (w : World σ) (h : List ConnEvent) (i : ℕ) : Prop where
  managed : Managed S w h
  inuse : w.inuse i
  settled : ∀ j, j ≠ i → w.inuse j → Settled S w h j

/-- Between the steps all slots are at rest. -/
structure Good (w : World σ) (h : List ConnEvent) : Prop where
  managed : Managed S w h
  settled : ∀ i, w.inuse i → Settled S w h i

/-! ## Work on one slot -/

/-- The events of a connection between its acceptance and its release. -/
def ConnEvent.inside (c : ConnCtl) : ConnEvent → Prop
  | .accepted _ _ _ | .freed _ _ => False
  | .called s uid _ => s = c.s ∧ uid = c.uid
  | e => e.socket = c.s

/-- What a slot in use keeps whatever is done with its connection. -/
structure SameConn (c c' : ConnCtl) : Prop where
  uid : c'.uid = c.uid
  s : c'.s = c.s
  inuse : c'.flags.inuse = c.flags.inuse

/-- Work on one slot leaves the others and the free list alone. -/
structure Touch (i : ℕ) (w w' : World σ) : Prop where
  same : SameConn (w.table.ctl i) (w'.table.ctl i)
  other : ∀ j, j ≠ i → w'.table.ctl j = w.table.ctl j ∧ w'.ops j = w.ops j
  freelist : w'.table.freelist = w.table.freelist
  unused : w'.table.nextUnusedSlot = w.table.nextUnusedSlot
  nextSocket : w'.nextSocket = w.nextSocket

section Touch
variable {S} {w w' w'' : World σ} {h es : List ConnEvent} {i : ℕ}

theorem SameConn.refl (c : ConnCtl) : SameConn c c := ⟨rfl,rfl,rfl⟩

theorem SameConn.trans {c c' c'' : ConnCtl} (h : SameConn c c') (h' : SameConn c' c'') :
    SameConn c c'' :=
  ⟨h'.uid.trans h.uid,h'.s.trans h.s,h'.inuse.trans h.inuse⟩

theorem Touch.refl (i : ℕ) (w : World σ) : Touch i w w :=
  ⟨SameConn.refl _,fun _ _ => ⟨rfl,rfl⟩,rfl,rfl,rfl⟩

theorem Touch.trans (h : Touch i w w') (h' : Touch i w' w'') : Touch i w w'' := by
  refine ⟨h.same.trans h'.same,?_,h'.freelist.trans h.freelist,h'.unused.trans h.unused,
    h'.nextSocket.trans h.nextSocket⟩
  intro j hj
  exact ⟨(h'.other j hj).1.trans (h.other j hj).1,(h'.other j hj).2.trans (h.other j hj).2⟩

theorem Touch.all (ht : Touch i w w') (j : ℕ) : SameConn (w.table.ctl j) (w'.table.ctl j) := by
  by_cases hj : j = i
  · exact hj ▸ ht.same
  · rw [(ht.other j hj).1]
    exact SameConn.refl _

theorem Touch.inuse (ht : Touch i w w') (j : ℕ) : w'.inuse j ↔ w.inuse j := by
  rw [World.inuse, World.inuse, (ht.all j).inuse]

@[simp] theorem World.ctl_setCtl (w : World σ) (i j : ℕ) (f : ConnCtl → ConnCtl) :
    (w.setCtl i f).table.ctl j = if j = i then f (w.table.ctl i) else w.table.ctl j :=
  ConnTable.ctl_setCtl ..

theorem World.ctl_setCtl_self (w : World σ) (i : ℕ) (f : ConnCtl → ConnCtl) :
    (w.setCtl i f).table.ctl i = f (w.table.ctl i) := by rw [World.ctl_setCtl, if_pos rfl]

theorem World.setOps_self (w : World σ) (i : ℕ) (ps : List Pending) :
    (w.setOps i ps).ops i = ps := Function.update_self ..

theorem Touch.setCtl (w : World σ) {f : ConnCtl → ConnCtl}
    (hf : SameConn (w.table.ctl i) (f (w.table.ctl i))) : Touch i w (w.setCtl i f) := by
  refine ⟨by rwa [World.ctl_setCtl_self],?_,rfl,rfl,rfl⟩
  intro j hj
  rw [World.ctl_setCtl, if_neg hj]
  exact ⟨rfl,rfl⟩

theorem Touch.setOps (w : World σ) (ps : List Pending) : Touch i w (w.setOps i ps) := by
  refine ⟨SameConn.refl _,?_,rfl,rfl,rfl⟩
  intro j hj
  exact ⟨rfl,Function.update_of_ne hj ..⟩

end Touch

section Inside
variable {S} {w w' : World σ} {h es : List ConnEvent} {i : ℕ} {c : ConnCtl}

theorem Kept.congr {hs : List SlotEvent} {t t' : ConnTable} (hk : Kept hs t)
    (hu : ∀ i, (t'.ctl i).uid = (t.ctl i).uid)
    (hf : ∀ i, (t'.ctl i).flags.inuse = (t.ctl i).flags.inuse) (hl : t'.freelist = t.freelist)
    (hn : t'.nextUnusedSlot = t.nextUnusedSlot) : Kept hs t' := by
  refine ⟨hk.wf.congr hu hf hl hn,?_⟩
  intro uid es₁ es₂ he
  have hr := hk.history uid es₁ es₂ he
  have hc := hu (slotOf uid).toNat
  have hi := hf (slotOf uid).toNat
  refine ⟨hn ▸ hr.slot,?_,?_,?_⟩
  · rw [ConnTable.connCtl, hc]
    exact hr.counter
  · intro hm
    rw [ConnTable.connCtl, hc, hi]
    exact hr.alive hm
  · intro hm h0
    rw [ConnTable.connCtl, hi]
    exact hr.gone hm h0

theorem tableEvents_append (h es : List ConnEvent) :
    tableEvents (h ++ es) = tableEvents h ++ tableEvents es := List.filterMap_append

theorem tableEvents_inside (he : ∀ e ∈ es, e.inside c) : tableEvents es = [] := by
  refine List.filterMap_eq_nil_iff.mpr ?_
  intro e hm
  have hi := he e hm
  cases e with
  | accepted => exact hi.elim
  | freed => exact hi.elim
  | _ => rfl

theorem ConnEvent.inside_socket {e : ConnEvent} (he : e.inside c) : e.socket = c.s := by
  cases e with
  | accepted => exact he.elim
  | freed => exact he.elim
  | called => exact he.1
  | _ => exact he

theorem occupant_concat (slot : UInt16) (h : List ConnEvent) (e : ConnEvent) :
    occupant slot (h ++ [e]) = e.occupy slot (occupant slot h) := List.foldl_append

theorem occupant_append (slot : UInt16) (he : ∀ e ∈ es, e.inside c) :
    occupant slot (h ++ es) = occupant slot h := by
  induction es using List.reverseRecOn with
  | nil => rw [List.append_nil]
  | append_singleton es e ih =>
    have hi := he e (List.mem_append_right es List.mem_cons_self)
    rw [← List.append_assoc, ← ih (fun e he' => he e (List.mem_append_left _ he')),
      occupant_concat]
    cases e with
    | accepted => exact hi.elim
    | freed => exact hi.elim
    | _ => rfl

/-- The connection in a slot has been accepted. -/
theorem accepted_of_occupant {slot : UInt16} {s : ℕ} {uid : UInt32}
    (ho : occupant slot h = some (s,uid)) : ∃ svc, .accepted s uid svc ∈ h := by
  induction h using List.reverseRecOn with
  | nil => cases ho
  | append_singleton h e ih =>
    have hrest : occupant slot h = some (s,uid) → ∃ svc, .accepted s uid svc ∈ h ++ [e] := by
      intro ho
      obtain ⟨svc,hm⟩ := ih ho
      exact ⟨svc,List.mem_append_left _ hm⟩
    rw [occupant_concat] at ho
    cases e with
    | accepted s' uid' svc =>
      by_cases hs : slotOf uid' = slot
      · rw [ConnEvent.occupy, if_pos hs] at ho
        cases ho
        exact ⟨svc,List.mem_append_right _ List.mem_cons_self⟩
      · rw [ConnEvent.occupy, if_neg hs] at ho
        exact hrest ho
    | freed s' slot' =>
      by_cases hs : slot' = slot
      · rw [ConnEvent.occupy, if_pos hs] at ho
        cases ho
      · rw [ConnEvent.occupy, if_neg hs] at ho
        exact hrest ho
    | _ => exact hrest ho

theorem past_other {j : ℕ} (hm : Managed S w h) (ht : Touch i w w') (hi : w.inuse i)
    (hj : w.inuse j) (hji : j ≠ i) (he : ∀ e ∈ es, e.inside (w.table.ctl i)) :
    w'.past j (h ++ es) = w.past j h := by
  have hs : (w.table.ctl j).s ≠ (w.table.ctl i).s := fun hs => hji (hm.distinct j i hj hi hs)
  rw [World.past, World.past, (ht.all j).s, history_append,
    history_other (fun e hme => ConnEvent.inside_socket (he e hme)) hs, List.append_nil]

theorem past_same (ht : Touch i w w') (he : ∀ e ∈ es, e.inside (w.table.ctl i)) :
    w'.past i (h ++ es) = w.past i h ++ es := by
  rw [World.past, World.past, ht.same.s, history_append,
    history_own (fun e hme => ConnEvent.inside_socket (he e hme))]

/-- Callbacks are named after the connection in the slot that is worked on. -/
theorem Managed.named_append (hm : Managed S w h) (hi : w.inuse i)
    (hes : ∀ s uid k, .called s uid k ∈ es → s = (w.table.ctl i).s ∧ uid = (w.table.ctl i).uid) :
    ∀ s uid k, .called s uid k ∈ h ++ es → ∃ svc, .accepted s uid svc ∈ h ++ es := by
  intro s uid k hk
  rcases List.mem_append.mp hk with hk | hk
  · obtain ⟨svc,ha⟩ := hm.named s uid k hk
    exact ⟨svc,List.mem_append_left _ ha⟩
  · obtain ⟨rfl,rfl⟩ := hes s uid k hk
    obtain ⟨svc,ha⟩ := accepted_of_occupant (hm.occupied i hi)
    exact ⟨svc,List.mem_append_left _ ha⟩

theorem Managed.future_append (hm : Managed S w h) (hi : w.inuse i)
    (hes : ∀ e ∈ es, e.socket = (w.table.ctl i).s) : ∀ e ∈ h ++ es, e.socket < w.nextSocket := by
  intro e he
  rcases List.mem_append.mp he with he | he
  · exact hm.future e he
  · rw [hes e he]
    exact hm.sockets i hi

/-- Work on one slot keeps everything but what it does with its own connection. -/
theorem Managed.touch (hm : Managed S w h) (ht : Touch i w w') (hi : w.inuse i)
    (he : ∀ e ∈ es, e.inside (w.table.ctl i))
    (hc : ∃ l, ConnOk S (w'.table.ctl i) (w'.ops i) (w.past i h ++ es) l) :
    Managed S w' (h ++ es) := by
  refine ⟨?_,?_,?_,?_,?_,?_,?_,?_,?_⟩
  · rw [tableEvents_append, tableEvents_inside he, List.append_nil]
    exact hm.kept.congr (fun j => (ht.all j).uid) (fun j => (ht.all j).inuse) ht.freelist ht.unused
  · intro j hj
    by_cases hji : j = i
    · subst hji
      rw [past_same ht he]
      exact hc
    · have hj' := (ht.inuse j).mp hj
      rw [past_other hm ht hi hj' hji he, (ht.other j hji).1, (ht.other j hji).2]
      exact hm.conn j hj'
  · intro j hj
    have hj' := mt (ht.inuse j).mpr hj
    have hji : j ≠ i := fun hji => hj' (hji ▸ hi)
    rw [(ht.other j hji).2]
    exact hm.idle j hj'
  · intro j hj
    rw [occupant_append _ he, (ht.all j).s, (ht.all j).uid]
    exact hm.occupied j ((ht.inuse j).mp hj)
  · intro j hj
    rw [(ht.all j).s, ht.nextSocket]
    exact hm.sockets j ((ht.inuse j).mp hj)
  · intro j k hj hk hs
    rw [(ht.all j).s, (ht.all k).s] at hs
    exact hm.distinct j k ((ht.inuse j).mp hj) ((ht.inuse k).mp hk) hs
  · intro s hs hfree
    have hfree' : ∀ j, w.inuse j → (w.table.ctl j).s ≠ s := by
      intro j hj
      rw [← (ht.all j).s]
      exact hfree j ((ht.inuse j).mpr hj)
    rw [history_append, history_other (fun e hme => ConnEvent.inside_socket (he e hme))
      (hfree' i hi).symm, List.append_nil]
    exact hm.retired s (ht.nextSocket ▸ hs) hfree'
  · rw [ht.nextSocket]
    exact hm.future_append hi (fun e hme => ConnEvent.inside_socket (he e hme))
  · exact hm.named_append hi (fun s uid k hk => he _ hk)

theorem Settled.touch {j : ℕ} (hs : Settled S w h j) (hm : Managed S w h) (ht : Touch i w w')
    (hi : w.inuse i) (hj : w.inuse j) (hji : j ≠ i)
    (he : ∀ e ∈ es, e.inside (w.table.ctl i)) : Settled S w' (h ++ es) j := by
  intro l hl
  rw [past_other hm ht hi hj hji he] at hl
  rw [(ht.other j hji).1, (ht.other j hji).2]
  exact hs l hl

theorem Working.touch (hw : Working S w h i) (ht : Touch i w w')
    (he : ∀ e ∈ es, e.inside (w.table.ctl i))
    (hc : ∃ l, ConnOk S (w'.table.ctl i) (w'.ops i) (w.past i h ++ es) l) :
    Working S w' (h ++ es) i := by
  refine ⟨hw.managed.touch ht hw.inuse he hc,(ht.inuse i).mpr hw.inuse,?_⟩
  intro j hji hj
  have hj' := (ht.inuse j).mp hj
  exact (hw.settled j hji hj').touch hw.managed ht hw.inuse hj' hji he

theorem Working.touch_nil (hw : Working S w h i) (ht : Touch i w w')
    (hc : ∃ l, ConnOk S (w'.table.ctl i) (w'.ops i) (w.past i h) l) : Working S w' h i := by
  rw [← List.append_nil h]
  refine hw.touch ht (fun e he => absurd he List.not_mem_nil) ?_
  rw [List.append_nil]
  exact hc

theorem Good.working (hg : Good S w h) (hi : w.inuse i) : Working S w h i :=
  ⟨hg.managed,hi,fun j _ hj => hg.settled j hj⟩

theorem Working.good (hw : Working S w h i) (hs : Settled S w h i) : Good S w h := by
  refine ⟨hw.managed,?_⟩
  intro j hj
  by_cases hji : j = i
  · exact hji ▸ hs
  · exact hw.settled j hji hj

end Inside

/-! ## Slots handed out and given back -/

def World.free (w : World σ) (i : ℕ) : World σ := { w with table := w.table.internalFree i }

section Slots
variable {S} {w w₁ : World σ} {h es : List ConnEvent} {i : ℕ}

theorem ctl_internalFree {t : ConnTable} {i j : ℕ} (hj : j ≠ i) :
    (t.internalFree i).ctl j = t.ctl j := by
  simp [ConnTable.internalFree,hj]

theorem not_inuse_internalFree {t : ConnTable} (hi : (t.ctl i).flags.inuse = true) :
    ((t.internalFree i).ctl i).flags.inuse = false := by
  simp [ConnTable.internalFree,hi]

/-- The uid of a slot that has just been freed is not the one it had in use. -/
theorem uid_internalFree {t : ConnTable} (hw : t.Wf) (hi : (t.ctl i).flags.inuse = true) :
    ((t.internalFree i).ctl i).uid ≠ (t.ctl i).uid := by
  intro he
  have hfree : ((t.internalFree i).ctl i).uid = retireUid (t.ctl i).uid t.freelist := by
    simp [ConnTable.internalFree]
  rw [hfree] at he
  have hslot := congrArg slotOf he
  rw [slotOf_retireUid] at hslot
  obtain ⟨hlt,hs⟩ := hw.used i hi
  obtain ⟨free,hc,hm⟩ := hw.free
  cases free with
  | nil =>
    rw [show t.freelist = noSlot from hc] at hslot
    rw [← hslot] at hs
    have hb := hw.bound
    simp only [noSlot, maxConnections, UInt16.reduceToNat] at hs hb
    omega
  | cons x xs =>
    have hx := (hm x).mp List.mem_cons_self
    rw [← hc.1, hslot, hs, hi] at hx
    exact absurd hx.2 (by decide)

theorem Managed.slot (hm : Managed S w h) (hi : w.inuse i) :
    slotOf (w.table.ctl i).uid = .ofNat i ∧ (UInt16.ofNat i).toNat = i := by
  have hu := hm.kept.wf.used i hi
  refine ⟨?_,ConnTable.slot_lt hm.kept.wf hu.1⟩
  apply UInt16.toNat_inj.mp
  rw [hu.2, ConnTable.slot_lt hm.kept.wf hu.1]

theorem Managed.ofNat_ne {j : ℕ} (hm : Managed S w h) (hi : w.inuse i) (hj : w.inuse j)
    (hji : j ≠ i) : UInt16.ofNat i ≠ UInt16.ofNat j := by
  intro he
  have hn := congrArg UInt16.toNat he
  rw [(hm.slot hi).2, (hm.slot hj).2] at hn
  exact hji hn.symm

theorem Touch.ctl_free {j : ℕ} (ht : Touch i w w₁) (hj : j ≠ i) :
    (w₁.free i).table.ctl j = w.table.ctl j := by
  rw [World.free, ctl_internalFree hj, (ht.other j hj).1]

theorem Touch.inuse_free {j : ℕ} (ht : Touch i w w₁) (hi : w.inuse i) :
    (w₁.free i).inuse j ↔ j ≠ i ∧ w.inuse j := by
  by_cases hji : j = i
  · subst hji
    have hfree : ¬ (w₁.free j).inuse j := by
      rw [World.inuse, World.free, not_inuse_internalFree ((ht.inuse j).mpr hi)]
      decide
    exact ⟨fun hj => absurd hj hfree,fun hj => absurd rfl hj.1⟩
  · rw [World.inuse, ht.ctl_free hji]
    exact ⟨fun hj => ⟨hji,hj⟩,And.right⟩

theorem Touch.past_free {j : ℕ} (ht : Touch i w w₁) (hm : Managed S w h) (hi : w.inuse i)
    (hes : ∀ e ∈ es, e.socket = (w.table.ctl i).s) (hji : j ≠ i) (hj : w.inuse j) :
    (w₁.free i).past j (h ++ es) = w.past j h := by
  have hs : (w.table.ctl j).s ≠ (w.table.ctl i).s := fun hs => hji (hm.distinct j i hj hi hs)
  rw [World.past, World.past, ht.ctl_free hji, history_append, history_other hes hs,
    List.append_nil]

theorem Touch.kept_free (ht : Touch i w w₁) (hm : Managed S w h) (hi : w.inuse i)
    (he : ∀ e ∈ es, e.inside (w.table.ctl i)) :
    Kept (tableEvents (h ++ (es ++ [.freed (w.table.ctl i).s (slotOf (w.table.ctl i).uid)])))
      (w₁.free i).table := by
  have hk : Kept (tableEvents h) w₁.table := hm.kept.congr (fun j => (ht.all j).uid)
    (fun j => (ht.all j).inuse) ht.freelist ht.unused
  have hstep : w₁.table.slotStep (.free i) =
      some (w₁.table.internalFree i,[.released (.ofNat i)]) := if_pos ((ht.inuse i).mpr hi)
  rw [tableEvents_append, tableEvents_append, tableEvents_inside he, List.nil_append,
    (hm.slot hi).1]
  exact slotStep_kept hk hstep

/-- A slot in use is given back when its connection has been closed. -/
theorem Managed.release (hm : Managed S w h) (ht : Touch i w w₁) (hi : w.inuse i)
    (hops : w₁.ops i = []) (he : ∀ e ∈ es, e.inside (w.table.ctl i)) {e : ConnEvent}
    (hfreed : e = .freed (w.table.ctl i).s (slotOf (w.table.ctl i).uid))
    (hr : Retired S (w.past i h ++ es ++ [e])) : Managed S (w₁.free i) (h ++ es ++ [e]) := by
  have hother {j : ℕ} (hj : (w₁.free i).inuse j) : j ≠ i ∧ w.inuse j := (ht.inuse_free hi).mp hj
  have hsock : ∀ e' ∈ es ++ [e], e'.socket = (w.table.ctl i).s := by
    intro e' he'
    rcases List.mem_append.mp he' with he' | he'
    · exact ConnEvent.inside_socket (he e' he')
    · rw [List.mem_singleton.mp he', hfreed]
      rfl
  have hnext : (w₁.free i).nextSocket = w.nextSocket := ht.nextSocket
  rw [List.append_assoc]
  refine ⟨hfreed ▸ ht.kept_free hm hi he,?_,?_,?_,?_,?_,?_,?_,?_⟩
  · intro j hj
    obtain ⟨hji,hj'⟩ := hother hj
    have hops' : (w₁.free i).ops j = w.ops j := (ht.other j hji).2
    rw [ht.past_free hm hi hsock hji hj', ht.ctl_free hji, hops']
    exact hm.conn j hj'
  · intro j hj
    by_cases hji : j = i
    · subst hji
      exact hops
    · have hops' : (w₁.free i).ops j = w.ops j := (ht.other j hji).2
      rw [hops']
      exact hm.idle j (fun hj' => hj ((ht.inuse_free hi).mpr ⟨hji,hj'⟩))
  · intro j hj
    obtain ⟨hji,hj'⟩ := hother hj
    rw [← List.append_assoc, occupant_concat, occupant_append _ he, hfreed, ConnEvent.occupy,
      if_neg (by rw [(hm.slot hi).1]; exact hm.ofNat_ne hi hj' hji), ht.ctl_free hji]
    exact hm.occupied j hj'
  · intro j hj
    obtain ⟨hji,hj'⟩ := hother hj
    rw [ht.ctl_free hji, hnext]
    exact hm.sockets j hj'
  · intro j k hj hk hs
    obtain ⟨hji,hj'⟩ := hother hj
    obtain ⟨hki,hk'⟩ := hother hk
    rw [ht.ctl_free hji, ht.ctl_free hki] at hs
    exact hm.distinct j k hj' hk' hs
  · intro s hs hfree
    rw [history_append]
    by_cases hsi : s = (w.table.ctl i).s
    · subst hsi
      rw [history_own hsock, ← List.append_assoc]
      exact hr
    · rw [history_other hsock hsi, List.append_nil]
      refine hm.retired s (hnext ▸ hs) ?_
      intro j hj
      by_cases hji : j = i
      · exact hji ▸ Ne.symm hsi
      · rw [← ht.ctl_free hji]
        exact hfree j ((ht.inuse_free hi).mpr ⟨hji,hj⟩)
  · rw [hnext]
    exact hm.future_append hi hsock
  · refine hm.named_append hi ?_
    intro s uid k hk
    rcases List.mem_append.mp hk with hk | hk
    · exact he _ hk
    · rw [hfreed] at hk
      cases List.mem_singleton.mp hk

/-- The world with a new connection in slot `i`. -/
def World.opened (w : World σ) (i : ℕ) (t : ConnTable) (s svc : ℕ) : World σ :=
  ({ w with table := t, nextSocket := w.nextSocket + 1 } : World σ).setCtl i (fun c => { c with
    s := s, rdwrCount := 1, pendingWork := 0, proto := none, udata := .service svc })

theorem history_future (hm : Managed S w h) {s : ℕ} (hs : w.nextSocket ≤ s) : history s h = [] := by
  refine List.filter_eq_nil_iff.mpr ?_
  intro e he
  have hlt := hm.future e he
  rw [decide_eq_true_iff]
  omega

theorem aligned_nil : Aligned [] := fun _ => rfl

/-- A slot that was not in use has got a new connection. -/
structure Opened (w w' : World σ) (i svc : ℕ) : Prop where
  bound : i < maxConnections
  unused : ¬ w.inuse i
  flags : (w'.table.ctl i).flags = { ConnFlags.zero with inuse := true }
  slot : slotOf (w'.table.ctl i).uid = .ofNat i
  s : (w'.table.ctl i).s = w.nextSocket
  idle : (w'.table.ctl i).pendingWork = 0
  proto : (w'.table.ctl i).proto = none
  udata : (w'.table.ctl i).udata = .service svc
  other : ∀ j, j ≠ i → w'.table.ctl j = w.table.ctl j
  ops : w'.ops = w.ops
  nextSocket : w'.nextSocket = w.nextSocket + 1

section Opened
variable {w' : World σ} {t : ConnTable} {svc j : ℕ} {uid : UInt32}

theorem World.opened_self (w : World σ) : (w.opened i t w.nextSocket svc).table.ctl i =
    { t.ctl i with
      s := w.nextSocket, rdwrCount := 1, pendingWork := 0, proto := none,
      udata := .service svc } := by
  rw [World.opened, World.ctl_setCtl, if_pos rfl]

theorem World.opened_uid (w : World σ) (j : ℕ) :
    ((w.opened i t w.nextSocket svc).table.ctl j).uid = (t.ctl j).uid := by
  rw [World.opened, World.ctl_setCtl]
  split
  case isTrue h => rw [h]
  case isFalse => rfl

theorem World.opened_flags (w : World σ) (j : ℕ) :
    ((w.opened i t w.nextSocket svc).table.ctl j).flags = (t.ctl j).flags := by
  rw [World.opened, World.ctl_setCtl]
  split
  case isTrue h => rw [h]
  case isFalse => rfl

theorem opened_of_allocated (ha : w.table.Allocated i t) (svc : ℕ) :
    Opened w (w.opened i t w.nextSocket svc) i svc := by
  have hself : (w.opened i t w.nextSocket svc).table.ctl i = _ := w.opened_self
  refine ⟨ha.bound,?_,?_,?_,?_,?_,?_,?_,?_,rfl,rfl⟩
  · rw [World.inuse, ha.unused]
    decide
  · rw [w.opened_flags, ha.ctl, if_pos rfl]
  · rw [w.opened_uid, ha.ctl, if_pos rfl]
    exact slotOf_issueUid ..
  · rw [hself]
  · rw [hself]
  · rw [hself]
  · rw [hself]
  · intro j hj
    rw [World.opened, World.ctl_setCtl, if_neg hj]
    exact (ha.ctl j).trans (if_neg hj)

theorem Opened.inuse_self (ho : Opened w w' i svc) : w'.inuse i := by
  rw [World.inuse, ho.flags]

theorem Opened.inuse (ho : Opened w w' i svc) (hj : j ≠ i) : w'.inuse j ↔ w.inuse j := by
  rw [World.inuse, World.inuse, ho.other j hj]

theorem Opened.past_self (ho : Opened w w' i svc) (hm : Managed S w h)
    (hs : ∀ e ∈ es, e.socket = w.nextSocket) : w'.past i (h ++ es) = es := by
  rw [World.past, ho.s, history_append, history_future hm (Nat.le_refl _), List.nil_append]
  exact history_own hs

theorem Opened.past (ho : Opened w w' i svc) (hm : Managed S w h)
    (hs : ∀ e ∈ es, e.socket = w.nextSocket) (hj : j ≠ i) (hu : w'.inuse j) :
    w'.past j (h ++ es) = w.past j h := by
  have hlt := hm.sockets j ((ho.inuse hj).mp hu)
  rw [World.past, World.past, ho.other j hj, history_append,
    history_other hs (Nat.ne_of_lt hlt), List.append_nil]

/-- Nothing has been done with a new connection. -/
theorem Opened.connOk (ho : Opened w w' i svc) : ConnOk S (w'.table.ctl i) []
    [.accepted w.nextSocket uid svc] ⟨S.serviceSendsFirst svc,.fresh,0⟩ := by
  refine ⟨rfl,rfl,ho.idle,?_,Nat.zero_le _,Nat.zero_le _,?_,?_,
    ⟨ho.proto,congrArg ConnFlags.firstMsg ho.flags,congrArg ConnFlags.outputInProgress ho.flags,?_,
      svc,ho.udata,rfl⟩,?_,?_⟩
  · exact fun p hp => absurd hp List.not_mem_nil
  · exact fun p hp => absurd hp List.not_mem_nil
  · exact fun p hp => absurd hp List.not_mem_nil
  · exact fun p hp => absurd hp List.not_mem_nil
  · exact fun _ p hp => absurd hp List.not_mem_nil
  · show Flows ([] ++ [_])
    exact aligned_nil.flows.still ⟨rfl,rfl⟩

theorem Opened.distinct (ho : Opened w w' i svc) (hm : Managed S w h) (j k : ℕ)
    (hj : w'.inuse j) (hk : w'.inuse k)
    (hs : (w'.table.ctl j).s = (w'.table.ctl k).s) : j = k := by
  have hold : ∀ j, j ≠ i → w'.inuse j → (w'.table.ctl j).s ≠ (w'.table.ctl i).s := by
    intro j hji hj
    rw [ho.other j hji, ho.s]
    exact Nat.ne_of_lt (hm.sockets j ((ho.inuse hji).mp hj))
  by_cases hji : j = i
  · by_cases hki : k = i
    · rw [hji, hki]
    · exact absurd (hji ▸ hs.symm) (hold k hki hk)
  · by_cases hki : k = i
    · exact absurd (hki ▸ hs) (hold j hji hj)
    · rw [ho.other j hji, ho.other k hki] at hs
      exact hm.distinct j k ((ho.inuse hji).mp hj) ((ho.inuse hki).mp hk) hs

theorem Opened.slot_ne (ho : Opened w w' i svc) (hm : Managed S w h) (hj : w.inuse j)
    (hji : j ≠ i) : slotOf (w'.table.ctl i).uid ≠ .ofNat j := by
  rw [ho.slot]
  intro hn
  have hn' := congrArg UInt16.toNat hn
  rw [ConnTable.toNat_ofNat_of_lt ho.bound, (hm.slot hj).2] at hn'
  exact hji hn'.symm

theorem Managed.kept_opened (hm : Managed S w h) (halloc : w.table.internalAlloc = some (i,t)) :
    Kept (tableEvents (h ++ [.accepted w.nextSocket (t.ctl i).uid svc]))
      (w.opened i t w.nextSocket svc).table := by
  have hstep : w.table.slotStep .alloc = some (t,[.issued (t.ctl i).uid]) := by
    rw [ConnTable.slotStep, halloc]
  rw [tableEvents_append]
  exact (slotStep_kept hm.kept hstep).congr w.opened_uid
    (fun j => congrArg ConnFlags.inuse (w.opened_flags j)) rfl rfl

/-- A new connection gets a slot that was not in use. -/
theorem Opened.managed (ho : Opened w w' i svc) (hm : Managed S w h)
    (huid : (w'.table.ctl i).uid = uid)
    (hkept : Kept (tableEvents (h ++ [.accepted w.nextSocket uid svc])) w'.table) :
    Managed S w' (h ++ [.accepted w.nextSocket uid svc]) := by
  have hsock : ∀ e ∈ [ConnEvent.accepted w.nextSocket uid svc], e.socket = w.nextSocket := by
    intro e he
    rw [List.mem_singleton.mp he]
    rfl
  refine ⟨hkept,?_,?_,?_,?_,ho.distinct hm,?_,?_,?_⟩
  · intro j hj
    by_cases hji : j = i
    · subst hji
      rw [ho.past_self hm hsock, ho.ops, hm.idle j ho.unused]
      exact ⟨_,ho.connOk⟩
    · rw [ho.past hm hsock hji hj, ho.other j hji, ho.ops]
      exact hm.conn j ((ho.inuse hji).mp hj)
  · intro j hj
    have hji : j ≠ i := fun hji => hj (hji ▸ ho.inuse_self)
    rw [ho.ops]
    exact hm.idle j (fun hj' => hj ((ho.inuse hji).mpr hj'))
  · intro j hj
    rw [occupant_concat, ConnEvent.occupy, ← huid]
    by_cases hji : j = i
    · subst hji
      rw [if_pos ho.slot, ho.s]
    · have hj' := (ho.inuse hji).mp hj
      rw [if_neg (ho.slot_ne hm hj' hji), ho.other j hji]
      exact hm.occupied j hj'
  · intro j hj
    rw [ho.nextSocket]
    by_cases hji : j = i
    · rw [hji, ho.s]
      exact Nat.lt_succ_self _
    · rw [ho.other j hji]
      exact Nat.lt_succ_of_lt (hm.sockets j ((ho.inuse hji).mp hj))
  · intro s hs hfree
    rw [ho.nextSocket] at hs
    have hsi : s ≠ w.nextSocket := by
      rintro rfl
      exact hfree i ho.inuse_self ho.s
    rw [history_append, history_other hsock hsi, List.append_nil]
    refine hm.retired s (by omega) ?_
    intro j hj
    have hji : j ≠ i := fun hji => ho.unused (hji ▸ hj)
    rw [← ho.other j hji]
    exact hfree j ((ho.inuse hji).mpr hj)
  · intro e he
    rw [ho.nextSocket]
    rcases List.mem_append.mp he with he | he
    · exact Nat.lt_succ_of_lt (hm.future e he)
    · rw [hsock e he]
      exact Nat.lt_succ_self _
  · intro s uid k hk
    rcases List.mem_append.mp hk with hk | hk
    · obtain ⟨svc',ha⟩ := hm.named s uid k hk
      exact ⟨svc',List.mem_append_left _ ha⟩
    · cases List.mem_singleton.mp hk

theorem Managed.accept (hm : Managed S w h)
    (halloc : w.table.internalAlloc = some (i,t)) (ha : w.table.Allocated i t) {e : ConnEvent}
    (he : e = .accepted w.nextSocket (t.ctl i).uid svc) :
    Managed S (w.opened i t w.nextSocket svc) (h ++ [e]) ∧
      ∀ j, j ≠ i → (w.opened i t w.nextSocket svc).inuse j →
        w.inuse j ∧ (Settled S w h j → Settled S (w.opened i t w.nextSocket svc) (h ++ [e]) j) := by
  have ho := opened_of_allocated ha svc
  subst he
  refine ⟨ho.managed hm (w.opened_uid i) (hm.kept_opened halloc),?_⟩
  intro j hji hj
  refine ⟨(ho.inuse hji).mp hj,?_⟩
  intro hs l hl
  rw [ho.past hm (fun e he => List.mem_singleton.mp he ▸ rfl) hji hj] at hl
  rw [ho.other j hji, ho.ops]
  exact hs l hl

end Opened

theorem managed_initial (p : σ) : Managed S (World.initial p) [] := by
  refine ⟨⟨ConnTable.initial_wf,?_⟩,?_,?_,?_,?_,?_,?_,?_,?_⟩
  · intro uid es₁ es₂ he
    exact absurd he.symm (by simp [tableEvents])
  · intro i hi
    cases hi
  · intro i _
    rfl
  · intro i hi
    cases hi
  · intro i hi
    cases hi
  · intro i j hi
    cases hi
  · intro s hs
    exact absurd hs (Nat.not_lt_zero s)
  · intro e he
    cases he
  · intro s uid k hk
    cases hk

end Slots

end Kaplar.Server
