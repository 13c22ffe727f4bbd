import Kaplar.Server.ConnDispatch

/-! # The completion handlers

A handler takes its operation out of a slot at rest and leaves the slot at rest, or
free. What the protocols keep among themselves is carried along by their contract.
-/
namespace Kaplar.Server
open Program
variable {σ : Type} {S : Services σ} {A : Rely ConnEvent} {w w' : World σ}
  {h : List ConnEvent} {i d : ℕ}

/-- What the protocols see of a slot. -/
structure Face where
  uid : UInt32
  proto : Option ℕ
  firstMsg : Bool
  udata : Udata
  outputData : ℕ
  outputLen : UInt32
  busy : Bool
  deriving DecidableEq, Repr

def ConnCtl.face (c : ConnCtl) : Face :=
  ⟨c.uid,c.proto,c.flags.firstMsg,c.udata,c.outputData,c.outputLen,c.flags.outputInProgress⟩

/-- The face of a slot in use. -/
def World.face (w : World σ) (i : ℕ) : Option Face :=
  if (w.table.ctl i).flags.inuse then some (w.table.ctl i).face else none

/-- Worlds that look the same to the protocols. -/
structure SameView (w w' : World σ) : Prop where
  priv : w'.priv = w.priv
  face : ∀ i, w'.face i = w.face i

/-- The output buffer is free again. -/
def World.written (w : World σ) (i : ℕ) : World σ :=
  w.setCtl i (fun c => { c with flags := { c.flags with outputInProgress := false } })

/-- What the handlers need of the protocols: every way into them keeps what holds of the
connections, and keeps what the protocols themselves rely on. -/
structure Contract (A : Rely ConnEvent) (S : Services σ) (d : ℕ)
    (J : World σ → List ConnEvent → Prop) : Prop where
  frame : ∀ {w w' : World σ} {h : List ConnEvent} (es : List ConnEvent), J w h → SameView w w' →
    J w' (h ++ es)
  close : ∀ {w : World σ} {h : List ConnEvent} {i : ℕ} (close : ℕ → Bool → Mgr σ Unit),
    Working S w h i → J w h → w.ops i = [] →
      (∀ l, life S.serviceSendsFirst (w.past i h) = some l → l.stage ≠ .answered true) →
        wp A (S.internalCloseOperation close i) (fun _ w' h' => Gone S w h i w' h' ∧ J w' h') w h
  connect : ∀ {w : World σ} {h : List ConnEvent} {i : ℕ} {l : Life}, Working S w h i → J w h →
    life S.serviceSendsFirst (w.past i h) = some l → l.stage = .fresh →
      (w.table.ctl i).flags.closing = false → w.ops i = [] → Aligned (w.past i h) →
        wp A (S.internalDispatchOnConnect d i) (fun st w' h' =>
          (st = .stopReading → A.mayCrash) ∧ Resumed S i st w' h' ∧ J w' h') w h
  message : ∀ {w : World σ} {h : List ConnEvent} {i : ℕ} {l : Life} {data : List UInt8},
    Working S w h i → J w h → life S.serviceSendsFirst (w.past i h) = some l →
      (l.stage = .fresh ∧ l.sendsFirst = false ∨ ∃ heard, l.stage = .opened heard) →
        (w.table.ctl i).flags.closing = false →
          (w.ops i).countP (fun p => p.op.isRead) = 0 → Due data (w.past i h) →
            wp A (S.internalDispatchOnRecvMessage d i data) (fun st w' h' =>
              (Resumed S i st w' h' ∨ st = .stopReading ∧ Good S w' h') ∧ J w' h') w h
  write : ∀ {w : World σ} {h : List ConnEvent} {i : ℕ} {l : Life} {heard : Bool},
    Working S (w.written i) h i → J w h →
      life S.serviceSendsFirst ((w.written i).past i h) = some l → l.stage = .opened heard →
        (w.table.ctl i).flags.closing = false → (w.table.ctl i).flags.outputInProgress = true →
          wp A (S.internalDispatchOnWrite d i) (fun st w' h' => (st = .stopReading → A.mayCrash) ∧
            (Handled S i st w' h' ∨ st = .ok ∧ Good S w' h') ∧ J w' h') (w.written i) h

section View

theorem World.face_of_inuse (hi : w.inuse i) : w.face i = some (w.table.ctl i).face := if_pos hi

theorem World.face_of_free (hi : ¬ w.inuse i) : w.face i = none := if_neg hi

theorem World.inuse_of_face {f : Face} (hf : w.face i = some f) :
    w.inuse i ∧ f = (w.table.ctl i).face := by
  by_cases hi : w.inuse i
  · rw [World.face_of_inuse hi] at hf
    exact ⟨hi,(Option.some.inj hf).symm⟩
  · rw [World.face_of_free hi] at hf
    cases hf

theorem Touch.face_other (ht : Touch i w w') {j : ℕ} (hj : j ≠ i) : w'.face j = w.face j := by
  rw [World.face, World.face, (ht.other j hj).1]

/-- Work on one slot that leaves alone what the protocols see of it. -/
theorem Touch.view (ht : Touch i w w') (hi : w.inuse i) (hq : w'.priv = w.priv)
    (hf : (w'.table.ctl i).face = (w.table.ctl i).face) : SameView w w' := by
  refine ⟨hq,fun j => ?_⟩
  by_cases hj : j = i
  · subst hj
    rw [World.face_of_inuse hi, World.face_of_inuse ((ht.inuse j).mpr hi), hf]
  · exact ht.face_other hj

end View

/-- An operation has been taken out of a slot at rest. -/
structure Taken (S : Services σ) (w : World σ) (h : List ConnEvent) (i : ℕ) (p : Pending)
    (buf : List UInt8) (w' : World σ) (l : Life) : Prop where
  working : Working S w' (h ++ [.completed p.s p.op buf]) i
  view : SameView w w'
  past : w'.past i (h ++ [.completed p.s p.op buf]) = w.past i h ++ [.completed p.s p.op buf]
  lived : life S.serviceSendsFirst (w.past i h ++ [.completed p.s p.op buf]) = some l
  rest : (w'.table.ctl i).flags = (w.table.ctl i).flags
  bodylen : (w'.table.ctl i).bodylen = (w.table.ctl i).bodylen
  ops : w'.ops i = (w.ops i).erase p
  ending : l.stage.ending l.sendsFirst = true
  going : (w.table.ctl i).flags.closing = false → l.stage ≠ .answered false
  reads : p.op.isRead = true → (w'.ops i).countP (fun p => p.op.isRead) = 0
  writes : p.op.isWrite = true → (w'.ops i).countP (fun p => p.op.isWrite) = 0 ∧
    (w'.table.ctl i).flags.outputInProgress = true ∧ l.stage ≠ .fresh
  reading : (w.table.ctl i).flags.closing = false → match p.op with
    | .readLength => Aligned (w.past i h)
    | .readBody n => (w'.table.ctl i).bodylen = n ∧ Headed n.toNat (w.past i h)
    | .write _ _ => True

section Rest
variable {c : ConnCtl} {ps : List Pending} {past : List ConnEvent} {l : Life} {p : Pending}

theorem AtRest.ending (hr : AtRest c ps l) : l.stage.ending l.sendsFirst = true :=
  (atRest_iff.mp hr).2.1

theorem AtRest.going (hr : AtRest c ps l) (hc : c.flags.closing = false) :
    l.stage ≠ .answered false := by
  intro he
  rw [(atRest_iff.mp hr).2.2 he] at hc
  cases hc

theorem ConnOk.written (ho : ConnOk S c ps past l) (hp : p ∈ ps) (hw : p.op.isWrite = true) :
    l.stage ≠ .fresh := by
  intro hfr
  have hk := ho.linked
  unfold Linked at hk
  rw [hfr] at hk
  rw [hk.2.2.2.1 p hp] at hw
  cases hw

end Rest

/-- A handler counts its operation off. -/
theorem Good.take (hg : Good S w h) {p : Pending} (hp : p ∈ w.ops i) (buf : List UInt8)
    (hb : p.op.isWrite = true → buf = []) {f : ConnCtl → ConnCtl}
    (hf : ∀ c, f c = { c with pendingWork := c.pendingWork - 1, rdwrCount := (f c).rdwrCount }) :
    ∃ l, Taken S w h i p buf ((w.setOps i ((w.ops i).erase p)).setCtl i f) l := by
  have hi : w.inuse i := by
    by_contra hn
    rw [hg.managed.idle i hn] at hp
    cases hp
  obtain ⟨l,ho⟩ := hg.managed.conn i hi
  have hrest := hg.settled i hi l ho.life
  generalize hw' : (w.setOps i ((w.ops i).erase p)).setCtl i f = w'
  have hself : w'.table.ctl i = f (w.table.ctl i) := by
    rw [← hw']
    exact World.ctl_setCtl_self _ i f
  have hops : w'.ops i = (w.ops i).erase p := by
    rw [← hw']
    exact World.setOps_self ..
  have hc := hf (w.table.ctl i)
  have ht : Touch i w w' := by
    rw [← hw']
    refine (Touch.setOps w _).trans (Touch.setCtl _ ?_)
    show SameConn (w.table.ctl i) (f (w.table.ctl i))
    rw [hc]
    exact ⟨rfl,rfl,rfl⟩
  have hps : p.s = (w.table.ctl i).s := ho.own p hp
  have hin : ConnEvent.inside (w.table.ctl i) (.completed p.s p.op buf) := hps
  have hpast : w'.past i (h ++ [.completed p.s p.op buf]) =
      w.past i h ++ [.completed p.s p.op buf] := ht.past_concat hin
  have hconn : ConnOk S (w'.table.ctl i) (w'.ops i) (w.past i h ++ [.completed p.s p.op buf])
      { l with outstanding := l.outstanding - 1 } := by
    rw [hself, hops, hc]
    exact ho.take hp hb rfl rfl rfl rfl rfl rfl rfl rfl
  refine ⟨_,⟨(hg.working hi).touch ht ?_ ⟨_,hconn⟩,?_,hpast,hconn.life,?_,?_,hops,hrest.ending,
    hrest.going,?_,?_,?_⟩⟩
  · intro e he
    rw [List.mem_singleton.mp he]
    exact hin
  · refine ht.view hi ?_ ?_
    · rw [← hw']
      rfl
    · rw [hself, hc]
      rfl
  · rw [hself, hc]
  · rw [hself, hc]
  · intro hr
    rw [hops]
    exact countP_take_eq_zero hp hr ho.reads
  · intro hpw
    refine ⟨?_,?_,ho.written hp hpw⟩
    · rw [hops]
      exact countP_take_eq_zero hp hpw ho.writes
    · rw [hself, hc]
      exact ho.inProgress p hp hpw
  · intro hcl
    have hr := ho.reading hcl p hp
    cases hop : p.op with
    | readLength =>
      rw [hop] at hr
      exact hr
    | readBody n =>
      rw [hop] at hr
      rw [hself, hc]
      exact hr
    | write data len => trivial

/-! ## What a handler ends with -/

section Ends
variable {J : World σ → List ConnEvent → Prop}

/-- The stage a handler may leave a slot in when it goes on reading or writing. -/
def Going (S : Services σ) (w : World σ) (h : List ConnEvent) (i : ℕ) : Prop :=
  ∀ l, life S.serviceSendsFirst (w.past i h) = some l →
    l.stage.ending l.sendsFirst = true ∧ l.stage ≠ .answered false

theorem atRest_of_ending {c : ConnCtl} {ps : List Pending} {l : Life}
    (he : l.stage.ending l.sendsFirst = true ∧ l.stage ≠ .answered false)
    (hw : c.flags.closing = true → ps ≠ []) : AtRest c ps l :=
  atRest_iff.mpr ⟨hw,he.1,fun hf => absurd hf he.2⟩

theorem view_close (hi : w.inuse i) : SameView w (w.close i) := by
  refine (Touch.close w i).view hi rfl ?_
  rw [ctl_close]
  rfl

theorem Contract.closes (hC : Contract A S d J) (hw : Working S w h i) (hJ : J w h)
    (hst : ∀ l, life S.serviceSendsFirst (w.past i h) = some l →
      l.stage.ending l.sendsFirst = true) (d : ℕ) (abort : Bool) :
    wp A (S.internalStartCloseOperation (d + 1) i abort)
      (fun _ w' h' => Good S w' h' ∧ J w' h') w h := by
  have hne : ∀ l, life S.serviceSendsFirst (w.past i h) = some l → l.stage ≠ .answered true := by
    intro l hl he
    have hend := hst l hl
    rw [he] at hend
    cases hend
  refine wp_mono (wp_startClose hw (P := fun w' h' => Gone S w h i w' h' ∧ J w' h') d
    (fun hops => hC.close _ hw hJ hops hne) abort) ?_
  rintro _ w' h' _ (⟨hg,hJ'⟩ | ⟨hops,rfl,rfl⟩)
  · exact ⟨hg.good,hJ'⟩
  · exact ⟨hw.closing_good hops hst abort,hC.frame _ hJ (view_close hw.inuse)⟩

/-- The last completion of a connection that is closing. -/
theorem Contract.finishes (hC : Contract A S d J) (hw : Working S w h i) (hJ : J w h)
    (hst : ∀ l, life S.serviceSendsFirst (w.past i h) = some l →
      l.stage.ending l.sendsFirst = true) (hp : (w.table.ctl i).pendingWork = 0) :
    wp A (S.internalFinish d i) (fun _ w' h' => Good S w' h' ∧ J w' h') w h := by
  have hops := (hw.managed.idle_iff hw.inuse).mp hp
  refine wp_mono (hC.close _ hw hJ hops ?_) (fun _ _ _ _ hg => ⟨hg.1.good,hg.2⟩)
  intro l hl he
  have hend := hst l hl
  rw [he] at hend
  cases hend

theorem Working.reset (hw : Working S w h i) (x : List Bool) : Working S (w.reset x) h i := by
  obtain ⟨l,ho⟩ := hw.managed.conn i hw.inuse
  exact hw.touch_nil (Touch.reset w i x) ⟨l,ho⟩

theorem view_reset (w : World σ) (x : List Bool) : SameView w (w.reset x) :=
  ⟨rfl,fun _ => rfl⟩

theorem Contract.frame_nil (hC : Contract A S d J) (hJ : J w h) (hv : SameView w w') : J w' h := by
  have hJ' := hC.frame [] hJ hv
  rwa [List.append_nil] at hJ'

/-- An operation that has started leaves the slot at rest. -/
theorem Working.started (hw : Working S w h i) {op : Op} (x : List Bool) {f : ConnCtl → ConnCtl}
    (hf : SameConn (w.table.ctl i) (f (w.table.ctl i))) {l : Life}
    (ho : ConnOk S (f (w.table.ctl i)) (w.ops i ++ [⟨(w.table.ctl i).s,op⟩])
      (w.past i h ++ [.started (w.table.ctl i).s op]) l)
    (he : l.stage.ending l.sendsFirst = true ∧ l.stage ≠ .answered false) :
    Good S ((w.begin i op x).setCtl i f) (h ++ [.started (w.table.ctl i).s op]) := by
  have ht : Touch i w ((w.begin i op x).setCtl i f) := Touch.begin w op x hf
  rw [← ctl_begin w i op x f, ← ops_begin w i op x f] at ho
  have hpast : ((w.begin i op x).setCtl i f).past i (h ++ [.started (w.table.ctl i).s op]) =
      w.past i h ++ [.started (w.table.ctl i).s op] :=
    ht.past_concat (e := .started (w.table.ctl i).s op) rfl
  refine (hw.touch ht ?_ ⟨_,ho⟩).good ?_
  · intro e he
    rw [List.mem_singleton.mp he]
    rfl
  · intro l' hl'
    rw [hpast, ho.life] at hl'
    cases hl'
    refine atRest_of_ending he (fun _ => ?_)
    rw [ops_begin]
    exact List.append_ne_nil_of_right_ne_nil _ (List.cons_ne_nil _ _)

theorem Working.readStarted (hw : Working S w h i) (hgo : Going S w h i) {op : Op}
    (hop : op.isRead = true) (hnone : (w.ops i).countP (fun p => p.op.isRead) = 0)
    (hr : Reading (w.table.ctl i) [⟨(w.table.ctl i).s,op⟩] (w.past i h)) (x : List Bool) :
    Good S ((w.begin i op x).setCtl i ConnCtl.begun) (h ++ [.started (w.table.ctl i).s op]) := by
  obtain ⟨l,ho⟩ := hw.managed.conn i hw.inuse
  exact hw.started x ⟨rfl,rfl,rfl⟩ (ho.startRead hop hnone hr) (hgo l ho.life)

/-- A write starts when a message is in progress and none is waiting. -/
theorem Working.writeStarted (hw : Working S w h i) (hgo : Going S w h i) {op : Op}
    (hop : op = .write (w.table.ctl i).outputData (w.table.ctl i).outputLen)
    (hnone : (w.ops i).countP (fun p => p.op.isWrite) = 0)
    (hprog : (w.table.ctl i).flags.outputInProgress = true) (x : List Bool) :
    Good S ((w.begin i op x).setCtl i ConnCtl.writing) (h ++ [.started (w.table.ctl i).s op]) := by
  obtain ⟨l,ho⟩ := hw.managed.conn i hw.inuse
  have htalk : l.stage.talking = true := by
    rcases ho.linked.fresh_or with hf | ht
    · have hk := ho.linked
      unfold Linked at hk
      rw [hf, hprog] at hk
      cases hk.2.2.1
    · exact ht
  exact hw.started x ⟨rfl,rfl,rfl⟩ (ho.startWrite hop htalk hnone) (hgo l ho.life)

/-- A handler that goes on reading. -/
theorem Contract.goesOn (hC : Contract A S d J) (hw : Working S w h i) (hJ : J w h)
    (hgo : Going S w h i) {op : Op} (hop : op.isRead = true)
    (hnone : (w.ops i).countP (fun p => p.op.isRead) = 0)
    (hr : Reading (w.table.ctl i) [⟨(w.table.ctl i).s,op⟩] (w.past i h)) {start : Mgr σ Bool}
    (hstart : ∀ {Q : Bool → World σ → List ConnEvent → Prop}, (∀ x, Q false (w.reset x) h) →
      (∀ x, Q true ((w.begin i op x).setCtl i ConnCtl.begun)
        (h ++ [.started (w.table.ctl i).s op])) → wp A start Q w h) :
    wp A (do if ← start then pure () else S.internalAbort d i)
      (fun _ w' h' => Good S w' h' ∧ J w' h') w h := by
  refine wp_bind (hstart ?_ ?_)
  · intro x
    exact hC.closes (hw.reset x) (hC.frame_nil hJ (view_reset w x)) (fun l hl => (hgo l hl).1) d true
  · intro x
    refine wp_pure (fun _ => ⟨hw.readStarted hgo hop hnone hr x,hC.frame _ hJ ?_⟩)
    refine (Touch.begin w op x ⟨rfl,rfl,rfl⟩).view hw.inuse rfl ?_
    rw [ctl_begin]
    rfl

theorem Contract.asyncRead (hC : Contract A S d J) (hw : Working S w h i) (hJ : J w h)
    (hgo : Going S w h i) {op : Op} (hop : op.isRead = true)
    (hnone : (w.ops i).countP (fun p => p.op.isRead) = 0)
    (hr : Reading (w.table.ctl i) [⟨(w.table.ctl i).s,op⟩] (w.past i h)) :
    wp A (S.internalAsyncRead d i op) (fun _ w' h' => Good S w' h' ∧ J w' h') w h :=
  hC.goesOn hw hJ hgo hop hnone hr (fun hno hyes => wp_tryRead _ hno hyes)

/-- A write that is tried again. -/
theorem Contract.asyncWrite (hC : Contract A S d J) (hw : Working S w h i) (hJ : J w h)
    (hgo : Going S w h i) (hnone : (w.ops i).countP (fun p => p.op.isWrite) = 0)
    (hprog : (w.table.ctl i).flags.outputInProgress = true) :
    wp A (S.internalAsyncWrite d i) (fun _ w' h' => Good S w' h' ∧ J w' h') w h := by
  refine wp_bind (wp_tryWrite _ ?_ ?_)
  · intro x
    exact hC.closes (hw.reset x) (hC.frame_nil hJ (view_reset w x)) (fun l hl => (hgo l hl).1) d true
  · intro x
    refine wp_pure (fun _ => ⟨hw.writeStarted hgo rfl hnone hprog x,hC.frame _ hJ ?_⟩)
    refine (Touch.begin w _ x ⟨rfl,rfl,rfl⟩).view hw.inuse rfl ?_
    rw [ctl_begin, ConnCtl.face, ConnCtl.face, hprog]
    rfl

end Ends

/-! ## The handlers -/

section Handlers
variable {J : World σ → List ConnEvent → Prop} {p : Pending} {buf : List UInt8} {l : Life}
  {err : Bool} {n : ℕ}

theorem Taken.endings (ht : Taken S w h i p buf w' l) {l' : Life}
    (hl : life S.serviceSendsFirst (w'.past i (h ++ [.completed p.s p.op buf])) = some l') :
    l'.stage.ending l'.sendsFirst = true := by
  rw [ht.past, ht.lived] at hl
  cases hl
  exact ht.ending

theorem Taken.goings (ht : Taken S w h i p buf w' l)
    (hc : (w'.table.ctl i).flags.closing = false) :
    Going S w' (h ++ [.completed p.s p.op buf]) i := by
  intro l' hl
  rw [ht.past, ht.lived] at hl
  cases hl
  rw [ht.rest] at hc
  exact ⟨ht.ending,ht.going hc⟩

/-- A connection that is closing: the handler only looks whether this was the last operation. -/
theorem Contract.closing (hC : Contract A S d J) (ht : Taken S w h i p buf w' l)
    (hJ : J w' (h ++ [.completed p.s p.op buf])) (hc : (w'.table.ctl i).flags.closing = true) :
    wp A (if (w'.table.ctl i).pendingWork = 0 then S.internalFinish d i else pure ())
      (fun _ w' h' => Good S w' h' ∧ J w' h') w' (h ++ [.completed p.s p.op buf]) := by
  by_cases hp : (w'.table.ctl i).pendingWork = 0
  · rw [if_pos hp]
    exact hC.finishes ht.working hJ (fun _ hl => ht.endings hl) hp
  · rw [if_neg hp]
    refine wp_pure (fun _ => ⟨ht.working.good ?_,hJ⟩)
    intro l' hl
    have hops := mt (ht.working.managed.idle_iff ht.working.inuse).mpr hp
    exact atRest_of_closing hc hops (ht.endings hl)

theorem still_completed {s : ℕ} {op : Op} : Still [.completed s op []] := ⟨rfl,rfl⟩

/-- With no read waiting the expected length of a body may change. -/
theorem Working.setBodylen (hw : Working S w h i)
    (hnone : (w.ops i).countP (fun p => p.op.isRead) = 0) (len : UInt32) :
    Working S (w.setCtl i (fun c => { c with bodylen := len })) h i := by
  obtain ⟨l,ho⟩ := hw.managed.conn i hw.inuse
  have hself := World.ctl_setCtl_self w i (fun c => { c with bodylen := len })
  refine hw.touch_nil (Touch.setCtl w ⟨rfl,rfl,rfl⟩) ⟨l,?_⟩
  · rw [hself]
    exact ⟨ho.life,ho.outstanding,ho.pending,ho.own,ho.reads,ho.writes,ho.inProgress,ho.output,
      ho.linked,reading_of_none hnone,ho.flows⟩

theorem view_bodylen (hi : w.inuse i) (len : UInt32) :
    SameView w (w.setCtl i (fun c => { c with bodylen := len })) := by
  refine (Touch.setCtl w ⟨rfl,rfl,rfl⟩).view hi rfl ?_
  rw [World.ctl_setCtl_self]
  rfl

/-- The start of every handler: the connection may be closing, the operation may have failed and
the client may be gone. -/
theorem Contract.handler (hC : Contract A S d J) (hg : Good S w h) (hJ : J w h)
    (hp : p ∈ w.ops i) (hb : p.op.isWrite = true → buf = []) {f : ConnCtl → ConnCtl}
    (hf : ∀ c, f c = { c with pendingWork := c.pendingWork - 1, rdwrCount := (f c).rdwrCount })
    {retry rest : ConnCtl → Mgr σ Unit}
    (hretry : ∀ w₁ l, Taken S w h i p buf w₁ l → J w₁ (h ++ [.completed p.s p.op buf]) →
      (w₁.table.ctl i).flags.closing = false → err = true → wp A (retry (w₁.table.ctl i))
        (fun _ w' h' => Good S w' h' ∧ J w' h') w₁ (h ++ [.completed p.s p.op buf]))
    (hrest : ∀ w₁ l, Taken S w h i p buf w₁ l → J w₁ (h ++ [.completed p.s p.op buf]) →
      (w₁.table.ctl i).flags.closing = false → err ≠ true → n ≠ 0 → wp A (rest (w₁.table.ctl i))
        (fun _ w' h' => Good S w' h' ∧ J w' h') w₁ (h ++ [.completed p.s p.op buf])) :
    wp A (do
      setCtl i f
      let c ← ctl i
      if c.flags.closing then
        if c.pendingWork = 0 then S.internalFinish d i else pure ()
      else if err then retry c
      else if n = 0 then S.internalAbort d i
      else rest c) (fun _ w' h' => Good S w' h' ∧ J w' h')
      (w.setOps i ((w.ops i).erase p)) (h ++ [.completed p.s p.op buf]) := by
  obtain ⟨l,ht⟩ := hg.take hp buf hb hf
  refine wp_bind (wp_setCtl (wp_bind (wp_ctl ?_)))
  generalize (w.setOps i ((w.ops i).erase p)).setCtl i f = w₁ at ht
  have hJ₁ : J w₁ (h ++ [.completed p.s p.op buf]) := hC.frame _ hJ ht.view
  by_cases hc : (w₁.table.ctl i).flags.closing = true
  · rw [if_pos hc]
    exact hC.closing ht hJ₁ hc
  rw [if_neg hc]
  have hc' : (w₁.table.ctl i).flags.closing = false := Bool.eq_false_iff.mpr hc
  by_cases he : err = true
  · rw [if_pos he]
    exact hretry w₁ l ht hJ₁ hc' he
  rw [if_neg he]
  by_cases hn : n = 0
  · rw [if_pos hn]
    exact hC.closes ht.working hJ₁ (fun _ hl => ht.endings hl) d true
  rw [if_neg hn]
  exact hrest w₁ l ht hJ₁ hc' he hn

/-- A read that has failed is started again. -/
theorem Contract.retryRead (hC : Contract A S d J) (ht : Taken S w h i p buf w' l)
    (hJ : J w' (h ++ [.completed p.s p.op buf])) (hc : (w'.table.ctl i).flags.closing = false)
    (hop : p.op.isRead = true) (hbuf : buf = []) :
    wp A (S.internalAsyncRead d i p.op) (fun _ w' h' => Good S w' h' ∧ J w' h') w'
      (h ++ [.completed p.s p.op buf]) := by
  refine hC.asyncRead ht.working hJ (ht.goings hc) hop (ht.reads hop) ?_
  intro _ q hq
  rw [List.mem_singleton.mp hq, ht.past, hbuf]
  have hread := ht.reading (ht.rest ▸ hc)
  obtain ⟨s,op⟩ := p
  cases op with
  | readLength => exact Aligned.still hread still_completed
  | readBody len => exact ⟨hread.1,hread.2.still still_completed⟩
  | write data len => cases hop

theorem Contract.onReadLength (hC : Contract A S d J) (hg : Good S w h) (hJ : J w h)
    (hp : p ∈ w.ops i) (hop : p.op = .readLength) (hcomp : Completes p.op err n buf) :
    wp A (S.internalOnReadLength d i err n buf) (fun _ w' h' => Good S w' h' ∧ J w' h')
      (w.setOps i ((w.ops i).erase p)) (h ++ [.completed p.s p.op buf]) := by
  have hread : p.op.isRead = true := by rw [hop]; rfl
  refine hC.handler hg hJ hp (by rw [hop]; exact fun hw => absurd hw Bool.noConfusion)
    (fun _ => rfl) ?_ ?_
  · rintro w₁ l ht hJ₁ hc rfl
    rw [← hop]
    exact hC.retryRead ht hJ₁ hc hread hcomp.of_error
  intro w₁ l ht hJ₁ hc he hn
  have hlen : buf.length = 2 := by
    rw [hcomp.length hread he hn, hop]
    rfl
  have hnone := ht.reads hread
  have haligned := ht.reading (ht.rest ▸ hc)
  rw [hop] at haligned
  dsimp only
  by_cases hb : (wordAt buf 0).toNat > connInputBufferSize ∨ wordAt buf 0 = 0
  · rw [if_pos hb]
    exact hC.closes ht.working hJ₁ (fun _ hl => ht.endings hl) d true
  rw [if_neg hb]
  refine wp_bind (wp_setCtl ?_)
  have hgo := ht.goings hc
  refine hC.asyncRead (ht.working.setBodylen hnone _)
    (hC.frame_nil hJ₁ (view_bodylen ht.working.inuse _)) ?_ rfl hnone ?_
  · intro l' hl'
    rw [World.past, World.ctl_setCtl_self] at hl'
    exact hgo l' hl'
  · intro _ q hq
    rw [List.mem_singleton.mp hq, World.past, World.ctl_setCtl_self]
    refine ⟨rfl,?_⟩
    show Headed _ (w₁.past i _)
    rw [ht.past]
    obtain ⟨b0,b1,rfl⟩ := List.length_eq_two.mp hlen
    have hw : wordAt [b0,b1] 0 = u16le b0 b1 := rfl
    rw [hw] at hb
    have hsize : wellSized (u16le b0 b1).toNat = true := by
      simp only [connInputBufferSize, not_or, gt_iff_lt, Nat.not_lt] at hb
      have hne : (u16le b0 b1).toNat ≠ 0 := fun h0 => hb.2 (UInt16.toNat_inj.mp h0)
      rw [wellSized, Bool.and_eq_true, decide_eq_true_iff, decide_eq_true_iff]
      omega
    rw [hw, UInt16.toNat_toUInt32]
    exact Aligned.length haligned hsize

/-- The connection goes on after a message or a greeting. -/
theorem Resumed.going {w : World σ} {h : List ConnEvent} (hr : Resumed S i .ok w h) :
    Going S w h i :=
  fun l hl => ⟨(hr.stage l hl).1,(hr.stage l hl).2 (.inl rfl)⟩

theorem Resumed.reading {w : World σ} {h : List ConnEvent} (hr : Resumed S i .ok w h) :
    Reading (w.table.ctl i) [⟨(w.table.ctl i).s,.readLength⟩] (w.past i h) := by
  intro _ q hq
  rw [List.mem_singleton.mp hq]
  exact hr.aligned rfl

theorem Handled.good {w : World σ} {h : List ConnEvent} {st : Status} (hr : Handled S i st w h)
    (hst : st = .ok ∨ st = .stopReading) : Good S w h :=
  hr.working.good (fun l hl =>
    atRest_of_ending ⟨(hr.stage l hl).1,(hr.stage l hl).2 hst⟩ hr.waits)

theorem Contract.onReadBody (hC : Contract A S d J) (hg : Good S w h) (hJ : J w h)
    (hp : p ∈ w.ops i) {len : UInt32} (hop : p.op = .readBody len)
    (hcomp : Completes p.op err n buf) :
    wp A (S.internalOnReadBody d i err n buf) (fun _ w' h' => Good S w' h' ∧ J w' h')
      (w.setOps i ((w.ops i).erase p)) (h ++ [.completed p.s p.op buf]) := by
  have hread : p.op.isRead = true := by rw [hop]; rfl
  have hbody {w₁ : World σ} {l : Life} (ht : Taken S w h i p buf w₁ l)
      (hc : (w₁.table.ctl i).flags.closing = false) :
      (w₁.table.ctl i).bodylen = len ∧ Headed len.toNat (w.past i h) := by
    have hreading := ht.reading (ht.rest ▸ hc)
    rwa [hop] at hreading
  refine hC.handler hg hJ hp (by rw [hop]; exact fun hw => absurd hw Bool.noConfusion)
    (fun _ => rfl) ?_ ?_
  · rintro w₁ l ht hJ₁ hc rfl
    rw [(hbody ht hc).1, ← hop]
    exact hC.retryRead ht hJ₁ hc hread hcomp.of_error
  intro w₁ l ht hJ₁ hc' he hn
  obtain ⟨hlen,hhead⟩ := hbody ht hc'
  have hnone := ht.reads hread
  have hbuf : buf.length = len.toNat := by
    rw [hcomp.length hread he hn, hop]
    rfl
  have hdue : Due buf (w₁.past i (h ++ [.completed p.s p.op buf])) := by
    rw [ht.past]
    exact hhead.take hbuf
  have hstage : l.stage = .fresh ∧ l.sendsFirst = false ∨ ∃ heard, l.stage = .opened heard := by
    have hend := ht.ending
    have hgo := ht.going (ht.rest ▸ hc')
    obtain ⟨first,stage,m⟩ := l
    cases stage with
    | fresh =>
      cases first
      · exact .inl ⟨rfl,rfl⟩
      · cases hend
    | answered ok =>
      cases ok
      · exact absurd rfl hgo
      · cases hend
    | opened heard => exact .inr ⟨heard,rfl⟩
    | _ => cases hend
  have htake : buf.take (w₁.table.ctl i).bodylen.toNat = buf := by
    rw [hlen]
    exact List.take_of_length_le (Nat.le_of_eq hbuf)
  rw [htake]
  have hl : life S.serviceSendsFirst (w₁.past i (h ++ [.completed p.s p.op buf])) = some l := by
    rw [ht.past]
    exact ht.lived
  refine wp_bind (wp_mono (hC.message ht.working hJ₁ hl hstage hc' hnone hdue) ?_)
  rintro st w₂ h₂ _ ⟨hr | ⟨rfl,hg₂⟩,hJ₂⟩
  · cases st with
    | ok => exact hC.asyncRead hr.working hJ₂ hr.going rfl hr.reads hr.reading
    | stopReading => exact wp_pure (fun _ => ⟨hr.toHandled.good (.inr rfl),hJ₂⟩)
    | close => exact hC.closes hr.working hJ₂ (fun l hl => (hr.stage l hl).1) d false
    | abort => exact hC.closes hr.working hJ₂ (fun l hl => (hr.stage l hl).1) d true
  · exact wp_pure (fun _ => ⟨hg₂,hJ₂⟩)

theorem ctl_written (w : World σ) (i : ℕ) : (w.written i).table.ctl i = { w.table.ctl i with
    flags := { (w.table.ctl i).flags with outputInProgress := false } } :=
  World.ctl_setCtl_self ..

theorem Working.written (hw : Working S w h i)
    (hnone : (w.ops i).countP (fun p => p.op.isWrite) = 0)
    (hl : ∀ l, life S.serviceSendsFirst (w.past i h) = some l → l.stage.talking = true) :
    Working S (w.written i) h i := by
  obtain ⟨l,ho⟩ := hw.managed.conn i hw.inuse
  refine hw.touch_nil (Touch.setCtl w ⟨rfl,rfl,rfl⟩ : Touch i w (w.written i)) ⟨l,?_⟩
  · rw [ctl_written]
    refine ⟨ho.life,ho.outstanding,ho.pending,ho.own,ho.reads,ho.writes,?_,ho.output,
      ho.linked.talk (hl l ho.life) rfl rfl rfl,ho.reading,ho.flows⟩
    intro q hq hw
    exact absurd hw (List.countP_eq_zero.mp hnone q hq)

theorem Contract.onWrite (hC : Contract A S d J) (hg : Good S w h) (hJ : J w h)
    (hp : p ∈ w.ops i) {data : ℕ} {len : UInt32} (hop : p.op = .write data len)
    (hcomp : Completes p.op err n buf) :
    wp A (S.internalOnWrite d i err n) (fun _ w' h' => Good S w' h' ∧ J w' h')
      (w.setOps i ((w.ops i).erase p)) (h ++ [.completed p.s p.op buf]) := by
  have hbuf : p.op.isWrite = true → buf = [] := by
    rw [hop] at hcomp ⊢
    cases hcomp with
    | read hr => cases hr
    | _ => exact fun _ => rfl
  have hwrite : p.op.isWrite = true := by rw [hop]; rfl
  refine hC.handler hg hJ hp hbuf (fun _ => rfl) ?_ ?_
  · intro w₁ l ht hJ₁ hc _
    obtain ⟨hnone,hprog,-⟩ := ht.writes hwrite
    exact hC.asyncWrite ht.working hJ₁ (ht.goings hc) hnone hprog
  intro w₁ l ht hJ₁ hc' _ _
  obtain ⟨hnone,hprog,hfresh⟩ := ht.writes hwrite
  have hgo := ht.goings hc'
  have hl : life S.serviceSendsFirst (w₁.past i (h ++ [.completed p.s p.op buf])) = some l := by
    rw [ht.past]
    exact ht.lived
  have hopen : ∃ heard, l.stage = .opened heard := by
    obtain ⟨hend,hne⟩ := hgo l hl
    obtain ⟨first,stage,m⟩ := l
    cases stage with
    | fresh => exact absurd rfl hfresh
    | answered ok =>
      cases ok
      · exact absurd rfl hne
      · cases hend
    | opened heard => exact ⟨heard,rfl⟩
    | _ => cases hend
  obtain ⟨heard,hopen⟩ := hopen
  have htalk : ∀ l', life S.serviceSendsFirst (w₁.past i (h ++ [.completed p.s p.op buf])) =
      some l' → l'.stage.talking = true := by
    intro l' hl'
    rw [hl] at hl'
    cases hl'
    rw [hopen]
    rfl
  have hpast : (w₁.written i).past i (h ++ [.completed p.s p.op buf]) =
      w₁.past i (h ++ [.completed p.s p.op buf]) := by
    rw [World.past, ctl_written]
    rfl
  refine wp_bind (wp_setCtl (wp_bind (wp_mono (hC.write (ht.working.written hnone htalk) hJ₁
    (hpast ▸ hl) hopen hc' hprog) ?_)))
  rintro st w₂ h₂ _ ⟨hstop,hr,hJ₂⟩
  rcases hr with hr | ⟨rfl,hg₂⟩
  · cases st with
    | ok => exact wp_pure (fun _ => ⟨hr.good (.inl rfl),hJ₂⟩)
    | stopReading => exact wp_crash (hstop rfl)
    | close => exact hC.closes hr.working hJ₂ (fun l hl => (hr.stage l hl).1) d false
    | abort => exact hC.closes hr.working hJ₂ (fun l hl => (hr.stage l hl).1) d true
  · exact wp_pure (fun _ => ⟨hg₂,hJ₂⟩)

/-- Every completion leaves the slots at rest. -/
theorem Contract.complete (hC : Contract A S d J) (hg : Good S w h) (hJ : J w h)
    (hp : p ∈ w.ops i) (hcomp : Completes p.op err n buf) :
    wp A (S.complete d i p err n buf) (fun _ w' h' => Good S w' h' ∧ J w' h') w h := by
  refine wp_bind (wp_update (wp_bind (wp_emit (fun _ => ?_))))
  cases hop : p.op with
  | readLength =>
    have hx := hC.onReadLength hg hJ hp hop hcomp
    rw [hop] at hx
    exact hx
  | readBody len =>
    have hx := hC.onReadBody hg hJ hp hop hcomp
    rw [hop] at hx
    exact hx
  | write data len =>
    have hx := hC.onWrite hg hJ hp hop hcomp
    rw [hop] at hx
    exact hx

end Handlers

end Kaplar.Server
