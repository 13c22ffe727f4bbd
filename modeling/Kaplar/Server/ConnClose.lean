import Kaplar.Server.ConnInvariant

/-! # Starting operations and closing connections

What the parts of the handlers do with a slot. Closing frees the slot when nothing is
outstanding, and otherwise leaves that to the last completion.
-/
namespace Kaplar.Server
open Program
variable {σ : Type} {S : Services σ} {A : Rely ConnEvent} {w w' : World σ} {h : List ConnEvent}
  {i : ℕ}

/-! ## Primitives -/

theorem wp_ctl {Q : ConnCtl → World σ → List ConnEvent → Prop} (hq : Q (w.table.ctl i) w h) :
    wp A (ctl i) Q w h := wp_bind (wp_get (wp_pure (fun _ => hq)))

theorem wp_setCtl {Q : Unit → World σ → List ConnEvent → Prop} {f : ConnCtl → ConnCtl}
    (hq : Q () (w.setCtl i f) h) : wp A (setCtl i f) Q w h := wp_update hq

def World.reset (w : World σ) (x : List Bool) : World σ := { w with starts := x }

/-- The world in which an operation has started. -/
def World.begin (w : World σ) (i : ℕ) (op : Op) (x : List Bool) : World σ :=
  (w.reset x).setOps i (w.ops i ++ [⟨(w.table.ctl i).s,op⟩])

theorem wp_startOp {Q : Bool → World σ → List ConnEvent → Prop} {op : Op}
    (hno : ∀ x, Q false (w.reset x) h)
    (hyes : ∀ x, Q true (w.begin i op x) (h ++ [.started (w.table.ctl i).s op])) :
    wp A (startOp i op) Q w h := by
  refine wp_bind (wp_get (wp_bind (wp_update ?_)))
  cases hs : w.starts.headD false with
  | false => exact wp_pure (fun _ => hno _)
  | true => exact wp_bind (wp_update (wp_bind (wp_emit (fun _ => wp_pure (fun _ => hyes _)))))

def ConnCtl.begun (c : ConnCtl) : ConnCtl := { c with pendingWork := c.pendingWork + 1 }

def ConnCtl.writing (c : ConnCtl) : ConnCtl := { c with
  flags := { c.flags with outputInProgress := true }, pendingWork := c.pendingWork + 1 }

theorem wp_startRead {Q : Bool → World σ → List ConnEvent → Prop} {op : Op}
    (hno : ∀ x, Q false (w.reset x) h)
    (hyes : ∀ x, Q true ((w.begin i op x).setCtl i ConnCtl.begun)
      (h ++ [.started (w.table.ctl i).s op])) : wp A (internalStartAsyncRead i op) Q w h := by
  refine wp_bind (wp_startOp ?_ ?_)
  · exact fun x => wp_pure (fun _ => hno x)
  · exact fun x => wp_bind (wp_setCtl (wp_pure (fun _ => hyes x)))

theorem wp_startWrite {Q : Bool → World σ → List ConnEvent → Prop}
    (hno : ∀ x, Q false (w.reset x) h)
    (hyes : ∀ x, Q true ((w.begin i (.write (w.table.ctl i).outputData (w.table.ctl i).outputLen)
      x).setCtl i ConnCtl.writing) (h ++ [.started (w.table.ctl i).s
        (.write (w.table.ctl i).outputData (w.table.ctl i).outputLen)])) :
    wp A (internalStartAsyncWrite i) Q w h := by
  refine wp_bind (wp_ctl (wp_bind (wp_startOp ?_ ?_)))
  · exact fun x => wp_pure (fun _ => hno x)
  · exact fun x => wp_bind (wp_setCtl (wp_pure (fun _ => hyes x)))

/-- Trying again and again either starts the operation once or only uses up the answers. -/
theorem wp_tries {start : Mgr σ Bool} {b : List Bool → World σ} {h' : List ConnEvent}
    (hstart : ∀ (x : List Bool) {R : Bool → World σ → List ConnEvent → Prop},
      (∀ y, R false (w.reset y) h) → (∀ y, R true (b y) h') → wp A start R (w.reset x) h)
    {Q : Bool → World σ → List ConnEvent → Prop} (hno : ∀ y, Q false (w.reset y) h)
    (hyes : ∀ y, Q true (b y) h') (n : ℕ) (x : List Bool) :
    wp A (tries n start) Q (w.reset x) h := by
  induction n generalizing x with
  | zero => exact wp_pure (fun _ => hno x)
  | succ n ih =>
    refine wp_bind (hstart x ?_ ?_)
    · exact fun y => ih y
    · exact fun y => wp_pure (fun _ => hyes y)

theorem wp_tryRead {Q : Bool → World σ → List ConnEvent → Prop} {op : Op} (n : ℕ)
    (hno : ∀ x, Q false (w.reset x) h)
    (hyes : ∀ x, Q true ((w.begin i op x).setCtl i ConnCtl.begun)
      (h ++ [.started (w.table.ctl i).s op])) :
    wp A (tries n (internalStartAsyncRead i op)) Q w h :=
  wp_tries (b := fun x => (w.begin i op x).setCtl i ConnCtl.begun)
    (fun _ _ hno' hyes' => by exact wp_startRead hno' hyes') hno hyes n w.starts

theorem wp_tryWrite {Q : Bool → World σ → List ConnEvent → Prop} (n : ℕ)
    (hno : ∀ x, Q false (w.reset x) h)
    (hyes : ∀ x, Q true ((w.begin i (.write (w.table.ctl i).outputData (w.table.ctl i).outputLen)
      x).setCtl i ConnCtl.writing) (h ++ [.started (w.table.ctl i).s
        (.write (w.table.ctl i).outputData (w.table.ctl i).outputLen)])) :
    wp A (tries n (internalStartAsyncWrite i)) Q w h :=
  wp_tries (b := fun x => (w.begin i (.write (w.table.ctl i).outputData
    (w.table.ctl i).outputLen) x).setCtl i ConnCtl.writing)
    (fun _ _ hno' hyes' => by exact wp_startWrite hno' hyes') hno hyes n w.starts

theorem Touch.reset (w : World σ) (i : ℕ) (x : List Bool) : Touch i w (w.reset x) :=
  ⟨SameConn.refl _,fun _ _ => ⟨rfl,rfl⟩,rfl,rfl,rfl⟩

theorem Touch.begin (w : World σ) (op : Op) (x : List Bool) {f : ConnCtl → ConnCtl}
    (hf : SameConn (w.table.ctl i) (f (w.table.ctl i))) :
    Touch i w ((w.begin i op x).setCtl i f) :=
  ((Touch.reset w i x).trans (Touch.setOps _ _)).trans (Touch.setCtl _ hf)

theorem ops_begin (w : World σ) (i : ℕ) (op : Op) (x : List Bool) (f : ConnCtl → ConnCtl) :
    ((w.begin i op x).setCtl i f).ops i = w.ops i ++ [⟨(w.table.ctl i).s,op⟩] :=
  World.setOps_self ..

theorem ctl_begin (w : World σ) (i : ℕ) (op : Op) (x : List Bool) (f : ConnCtl → ConnCtl) :
    ((w.begin i op x).setCtl i f).table.ctl i = f (w.table.ctl i) := World.ctl_setCtl_self ..

/-! ## What operations and callbacks do to a connection -/

section Conn
variable {c c' : ConnCtl} {ps : List Pending} {past : List ConnEvent} {l l' : Life} {op : Op}

/-- The fields that say what waits in a slot. -/
structure SameIo (c c' : ConnCtl) : Prop where
  s : c'.s = c.s
  closing : c'.flags.closing = c.flags.closing
  inProgress : c'.flags.outputInProgress = c.flags.outputInProgress
  pending : c'.pendingWork = c.pendingWork
  bodylen : c'.bodylen = c.bodylen
  outputData : c'.outputData = c.outputData
  outputLen : c'.outputLen = c.outputLen

theorem Linked.live (hk : Linked S c ps l) : l.stage.live = true := by
  obtain ⟨first,stage,n⟩ := l
  cases stage with
  | absent => exact hk.elim
  | closed => exact hk.elim
  | shut => exact hk.elim
  | gone => exact hk.elim
  | _ => rfl

/-- A stage in which the protocol has a say. -/
def Stage.talking : Stage → Bool
  | .asking | .answered _ | .opened _ => true
  | _ => false

theorem Linked.fresh_or (hk : Linked S c ps l) : l.stage = .fresh ∨ l.stage.talking = true := by
  obtain ⟨first,stage,n⟩ := l
  cases stage with
  | absent => exact hk.elim
  | closed => exact hk.elim
  | shut => exact hk.elim
  | gone => exact hk.elim
  | fresh => exact .inl rfl
  | _ => exact .inr rfl

/-- In such a stage only the protocol and the first message count. -/
theorem Linked.talk {ps' : List Pending} (hk : Linked S c ps l) (ht : l.stage.talking = true)
    (hs : l'.stage = l.stage) (hp : c'.proto = c.proto)
    (hf : c'.flags.firstMsg = c.flags.firstMsg) : Linked S c' ps' l' := by
  unfold Linked at hk ⊢
  rw [hs]
  cases hst : l.stage with
  | absent => rw [hst] at ht; cases ht
  | fresh => rw [hst] at ht; cases ht
  | closed => rw [hst] at ht; cases ht
  | shut => rw [hst] at ht; cases ht
  | gone => rw [hst] at ht; cases ht
  | _ =>
    rw [hst] at hk
    rw [hp, hf]
    exact hk

theorem Linked.proto (hk : Linked S c ps l) (ht : l.stage.talking = true) :
    ∃ p, c.proto = some p := by
  refine Option.isSome_iff_exists.mp ?_
  unfold Linked at hk
  cases hst : l.stage with
  | asking => rw [hst] at hk; exact hk.1
  | answered ok => rw [hst] at hk; exact hk.1
  | opened heard => rw [hst] at hk; exact hk.1
  | _ =>
    rw [hst] at ht
    cases ht

/-- Events that neither start nor complete anything. -/
theorem ConnOk.moves (ho : ConnOk S c ps past l) {es : List ConnEvent} (hio : SameIo c c')
    (hn : es.foldlM (Life.next S.serviceSendsFirst) l = some l')
    (hout : l'.outstanding = l.outstanding) (hk : Linked S c' ps l')
    (hr : Reading c' ps (past ++ es)) (hf : Flows (past ++ es)) :
    ConnOk S c' ps (past ++ es) l' := by
  refine ⟨?_,hout.trans ho.outstanding,hio.pending.trans ho.pending,?_,ho.reads,ho.writes,?_,?_,
    hk,hr,hf⟩
  · rw [life_append, ho.life]
    exact hn
  · rw [hio.s]
    exact ho.own
  · rw [hio.inProgress]
    exact ho.inProgress
  · rw [hio.outputData, hio.outputLen]
    exact ho.output

theorem ConnOk.events (ho : ConnOk S c ps past l) {es : List ConnEvent} (hio : SameIo c c')
    (hn : es.foldlM (Life.next S.serviceSendsFirst) l = some l')
    (hout : l'.outstanding = l.outstanding) (he : Still es) (hk : Linked S c' ps l') :
    ConnOk S c' ps (past ++ es) l' := by
  refine ho.moves hio hn hout hk ?_ (ho.flows.still he)
  intro hc p hp
  rw [hio.closing] at hc
  have hr := ho.reading hc p hp
  cases hop : p.op with
  | readLength =>
    rw [hop] at hr
    exact Aligned.still hr he
  | readBody n =>
    rw [hop] at hr
    exact ⟨hio.bodylen.trans hr.1,hr.2.still he⟩
  | write data len => trivial

/-- Changes that are no business of the connection. -/
theorem ConnOk.same (ho : ConnOk S c ps past l) (hio : SameIo c c') (hk : Linked S c' ps l) :
    ConnOk S c' ps past l := by
  rw [← List.append_nil past]
  exact ho.events hio rfl rfl ⟨rfl,rfl⟩ hk

/-- With no write waiting there may be another output. -/
theorem ConnOk.setOutput (ho : ConnOk S c ps past l)
    (hnone : ps.countP (fun p => p.op.isWrite) = 0) (ht : l.stage.talking = true) (data : ℕ)
    (len : UInt32) : ConnOk S { c with outputData := data, outputLen := len } ps past l :=
  ⟨ho.life,ho.outstanding,ho.pending,ho.own,ho.reads,ho.writes,ho.inProgress,
    fun p hp hw => absurd hw (List.countP_eq_zero.mp hnone p hp),ho.linked.talk ht rfl rfl rfl,
    ho.reading,ho.flows⟩

/-- With no read waiting nothing is said of the stream. -/
theorem reading_of_none (hn : ps.countP (fun p => p.op.isRead) = 0) : Reading c ps past := by
  intro _ p hp
  have hr := List.countP_eq_zero.mp hn p hp
  cases hop : p.op with
  | readLength => rw [hop] at hr; exact absurd rfl hr
  | readBody n => rw [hop] at hr; exact absurd rfl hr
  | write data len => trivial

/-- A connection that is closing has its reads cancelled. -/
theorem ConnOk.cancel (ho : ConnOk S c ps past l) (abort : Bool) :
    ConnOk S { c with flags := { c.flags with closing := true } } ps
      (past ++ [.cancelled c.s abort]) l := by
  refine ⟨?_,ho.outstanding,ho.pending,ho.own,ho.reads,ho.writes,ho.inProgress,ho.output,ho.linked,
    ?_,ho.flows.still ⟨rfl,rfl⟩⟩
  · rw [life_concat, ho.life]
    exact if_pos ho.linked.live
  · exact fun hc => Bool.noConfusion hc

theorem ConnOk.startRead (ho : ConnOk S c ps past l) (hop : op.isRead = true)
    (hnone : ps.countP (fun p => p.op.isRead) = 0)
    (hr : Reading c [⟨c.s,op⟩] past) :
    ConnOk S c.begun (ps ++ [⟨c.s,op⟩]) (past ++ [.started c.s op])
      { l with outstanding := l.outstanding + 1 } := by
  have hw : op.isWrite = false := by rw [Op.isWrite, hop]; rfl
  have hstill : Still [.started c.s op] := ⟨rfl,rfl⟩
  refine ⟨?_,?_,?_,?_,?_,?_,?_,?_,?_,?_,ho.flows.still hstill⟩
  · rw [life_concat, ho.life]
    exact if_pos ho.linked.live
  · rw [List.length_append, ho.outstanding]
    rfl
  · rw [ConnCtl.begun, ho.pending, List.length_append]
    rfl
  · intro p hp
    rcases List.mem_append.mp hp with hp | hp
    · exact ho.own p hp
    · rw [List.mem_singleton.mp hp]
      rfl
  · rw [List.countP_append, hnone, Nat.zero_add]
    exact List.countP_le_length
  · rw [List.countP_append, List.countP_singleton, hw]
    exact ho.writes
  · intro p hp hpw
    rcases List.mem_append.mp hp with hp | hp
    · exact ho.inProgress p hp hpw
    · rw [List.mem_singleton.mp hp, hw] at hpw
      cases hpw
  · intro p hp hpw
    rcases List.mem_append.mp hp with hp | hp
    · exact ho.output p hp hpw
    · rw [List.mem_singleton.mp hp, hw] at hpw
      cases hpw
  · rcases ho.linked.fresh_or with hf | ht
    · have hk := ho.linked
      unfold Linked at hk ⊢
      rw [hf] at hk ⊢
      refine ⟨hk.1,hk.2.1,hk.2.2.1,?_,hk.2.2.2.2⟩
      intro p hp
      rcases List.mem_append.mp hp with hp | hp
      · exact hk.2.2.2.1 p hp
      · rw [List.mem_singleton.mp hp]
        exact hw
    · exact ho.linked.talk ht rfl rfl rfl
  · intro hc p hp
    rcases List.mem_append.mp hp with hp | hp
    · have hrp := ho.reading hc p hp
      cases hpo : p.op with
      | write data len => trivial
      | _ =>
        have hcount : 0 < ps.countP (fun p => p.op.isRead) :=
          List.countP_pos_iff.mpr ⟨p,hp,by rw [hpo]; rfl⟩
        omega
    · have hrp := hr hc p hp
      rw [List.mem_singleton.mp hp] at hrp ⊢
      cases op with
      | readLength => exact Aligned.still hrp hstill
      | readBody n => exact ⟨hrp.1,hrp.2.still hstill⟩
      | write data len => cases hop

theorem ConnOk.startWrite (ho : ConnOk S c ps past l) {op : Op}
    (hop : op = .write c.outputData c.outputLen) (ht : l.stage.talking = true)
    (hnone : ps.countP (fun p => p.op.isWrite) = 0) :
    ConnOk S c.writing (ps ++ [⟨c.s,op⟩]) (past ++ [.started c.s op])
      { l with outstanding := l.outstanding + 1 } := by
  subst hop
  have hstill : Still [.started c.s (.write c.outputData c.outputLen)] := ⟨rfl,rfl⟩
  refine ⟨?_,?_,?_,?_,?_,?_,fun _ _ _ => rfl,?_,ho.linked.talk ht rfl rfl rfl,?_,
    ho.flows.still hstill⟩
  · rw [life_concat, ho.life]
    exact if_pos ho.linked.live
  · rw [List.length_append, ho.outstanding]
    rfl
  · rw [ConnCtl.writing, ho.pending, List.length_append]
    rfl
  · intro p hp
    rcases List.mem_append.mp hp with hp | hp
    · exact ho.own p hp
    · rw [List.mem_singleton.mp hp]
      rfl
  · rw [List.countP_append]
    exact ho.reads
  · rw [List.countP_append, hnone]
    exact Nat.le_refl 1
  · intro p hp hpw
    rcases List.mem_append.mp hp with hp | hp
    · exact absurd hpw (List.countP_eq_zero.mp hnone p hp)
    · rw [List.mem_singleton.mp hp]
      rfl
  · intro hc p hp
    rcases List.mem_append.mp hp with hp | hp
    · have hrp := ho.reading hc p hp
      cases hpo : p.op with
      | write data len => trivial
      | readLength =>
        rw [hpo] at hrp
        exact Aligned.still hrp hstill
      | readBody n =>
        rw [hpo] at hrp
        exact ⟨hrp.1,hrp.2.still hstill⟩
    · rw [List.mem_singleton.mp hp]
      trivial

theorem countP_take {p : Pending} (hp : p ∈ ps) (f : Pending → Bool) :
    ps.countP f = (ps.erase p).countP f + if f p then 1 else 0 := by
  rw [(List.perm_cons_erase hp).countP_eq f, List.countP_cons]

/-- The operation taken was the only one of its kind. -/
theorem countP_take_eq_zero {p : Pending} (hp : p ∈ ps) {f : Pending → Bool} (hf : f p = true)
    (hle : ps.countP f ≤ 1) : (ps.erase p).countP f = 0 := by
  rw [countP_take hp, if_pos hf] at hle
  omega

/-- A completion takes its operation out of the slot. -/
theorem ConnOk.take (ho : ConnOk S c ps past l) {p : Pending} {bytes : List UInt8}
    (hp : p ∈ ps) (hb : p.op.isWrite = true → bytes = []) (hs : c'.s = c.s)
    (hf : c'.flags = c.flags) (hpend : c'.pendingWork = c.pendingWork - 1)
    (hpr : c'.proto = c.proto) (hu : c'.udata = c.udata) (hbl : c'.bodylen = c.bodylen)
    (hod : c'.outputData = c.outputData) (hol : c'.outputLen = c.outputLen) :
    ConnOk S c' (ps.erase p) (past ++ [.completed p.s p.op bytes])
      { l with outstanding := l.outstanding - 1 } := by
  have hlen := List.length_erase_of_mem hp
  have hpos := List.length_pos_of_mem hp
  have hsub : ∀ q ∈ ps.erase p, q ∈ ps := fun q hq => List.mem_of_mem_erase hq
  refine ⟨?_,?_,?_,?_,?_,?_,?_,?_,?_,?_,ho.flows.arrive⟩
  · rw [life_concat, ho.life]
    obtain ⟨n,hn⟩ := Nat.exists_eq_succ_of_ne_zero (Nat.ne_of_gt (ho.outstanding ▸ hpos))
    simp only [Option.bind_some, Life.next, hn]
    rw [if_pos ho.linked.live]
    rfl
  · rw [hlen, ho.outstanding]
  · rw [hpend, ho.pending, hlen]
    omega
  · rw [hs]
    exact fun q hq => ho.own q (hsub q hq)
  · exact Nat.le_trans (Nat.le.intro (countP_take hp _).symm) ho.reads
  · exact Nat.le_trans (Nat.le.intro (countP_take hp _).symm) ho.writes
  · rw [hf]
    exact fun q hq => ho.inProgress q (hsub q hq)
  · rw [hod, hol]
    exact fun q hq => ho.output q (hsub q hq)
  · rcases ho.linked.fresh_or with hfr | ht
    · have hk := ho.linked
      unfold Linked at hk ⊢
      rw [hfr] at hk ⊢
      rw [hpr, hf, hu]
      exact ⟨hk.1,hk.2.1,hk.2.2.1,fun q hq => hk.2.2.2.1 q (hsub q hq),hk.2.2.2.2⟩
    · exact ho.linked.talk ht rfl hpr (by rw [hf])
  · intro hc q hq
    rw [hf] at hc
    cases hpw : p.op.isWrite with
    | true =>
      rw [hb hpw]
      have hstill : Still [.completed p.s p.op []] := ⟨rfl,rfl⟩
      have hr := ho.reading hc q (hsub q hq)
      cases hqo : q.op with
      | write data len => trivial
      | readLength =>
        rw [hqo] at hr
        exact Aligned.still hr hstill
      | readBody n =>
        rw [hqo] at hr
        exact ⟨hbl.trans hr.1,hr.2.still hstill⟩
    | false =>
      have hpr' : p.op.isRead = true := by
        rw [Op.isWrite] at hpw
        simpa using hpw
      exact reading_of_none (countP_take_eq_zero hp hpr' ho.reads) (hf ▸ hc) q hq

end Conn

/-! ## Closing -/

/-- `on_close` starts nothing and closes nothing. -/
def QuietClose (A : Rely ConnEvent) (S : Services σ) : Prop :=
  ∀ (p : ℕ) (close : ℕ → Bool → Mgr σ Unit) (w : World σ) (h : List ConnEvent) (i : ℕ),
    w.inuse i → (slotOf (w.table.ctl i).uid).toNat = i →
      .called (w.table.ctl i).s (w.table.ctl i).uid .close ∈ h →
        .closesocket (w.table.ctl i).s ∉ h →
          wp A (((S.protocol p).onClose (w.table.ctl i).uid).exec close (w.table.ctl i).uid)
            (fun _ w' h' => h' = h ∧ Touch i w w' ∧ w'.ops i = w.ops i) w h

/-- A connection that has been closed and has lost its slot. -/
structure Gone (S : Services σ) (w : World σ) (h : List ConnEvent) (i : ℕ) (w' : World σ)
    (h' : List ConnEvent) : Prop where
  good : Good S w' h'
  stale : (w'.table.ctl i).uid ≠ (w.table.ctl i).uid
  unowned : ∀ j, w'.inuse j → (w'.table.ctl j).s ≠ (w.table.ctl i).s
  known : (w.table.ctl i).s < w'.nextSocket

/-- The way from its last stage to the end of a connection. -/
theorem retired_of {past es : List ConnEvent} {l : Life} (s : ℕ) (slot : UInt16)
    (hf : Flows past) (hes : Still es) (hl : life S.serviceSendsFirst (past ++ es) = some l)
    (hst : l.stage = .fresh ∨ l.stage = .closed) (hout : l.outstanding = 0) :
    Retired S (past ++ (es ++ [.closesocket s]) ++ [.freed s slot]) := by
  obtain ⟨first,stage,n⟩ := l
  cases hout
  refine ⟨⟨⟨first,.gone,0⟩,?_,rfl,rfl⟩,?_⟩
  · rw [← List.append_assoc, life_concat, life_concat, hl]
    rcases hst with rfl | rfl <;> rfl
  · rw [← List.append_assoc]
    exact ((hf.still hes).still ⟨rfl,rfl⟩).still ⟨rfl,rfl⟩

/-- The end of a close operation. -/
theorem wp_release {w₁ : World σ} {es : List ConnEvent} (hw : Working S w h i)
    (ht : Touch i w w₁) (hops : w₁.ops i = []) (he : ∀ e ∈ es, e.inside (w.table.ctl i))
    (hr : Retired S (w.past i h ++ (es ++ [.closesocket (w.table.ctl i).s]) ++
      [.freed (w.table.ctl i).s (slotOf (w.table.ctl i).uid)])) :
    wp A (do
      let c ← ctl i
      emit (.closesocket c.s)
      update (fun w => { w with table := w.table.internalFree i })
      emit (.freed c.s (slotOf c.uid))) (fun _ w' h' => Gone S w h i w' h') w₁ (h ++ es) := by
  refine wp_bind (wp_ctl (wp_bind (wp_emit (fun _ => wp_bind (wp_update (wp_emit (fun _ => ?_)))))))
  rw [ht.same.s, ht.same.uid, List.append_assoc h]
  have he' : ∀ e ∈ es ++ [.closesocket (w.table.ctl i).s], e.inside (w.table.ctl i) := by
    intro e hm
    rcases List.mem_append.mp hm with hm | hm
    · exact he e hm
    · rw [List.mem_singleton.mp hm]
      rfl
  have hi₁ : (w₁.table.ctl i).flags.inuse = true := (ht.inuse i).mpr hw.inuse
  have hwf₁ : w₁.table.Wf := hw.managed.kept.wf.congr (fun j => (ht.all j).uid)
    (fun j => (ht.all j).inuse) ht.freelist ht.unused
  have hother : ∀ j, ((w₁.table.internalFree i).ctl j).flags.inuse = true →
      j ≠ i ∧ w.inuse j ∧ (w.table.ctl j).s ≠ (w.table.ctl i).s := by
    intro j hj
    have hji : j ≠ i := by
      rintro rfl
      rw [not_inuse_internalFree hi₁] at hj
      cases hj
    rw [ctl_internalFree hji] at hj
    have hj' := (ht.inuse j).mp hj
    exact ⟨hji,hj',fun hs => hji (hw.managed.distinct j i hj' hw.inuse hs)⟩
  refine ⟨⟨hw.managed.release ht hw.inuse hops he' rfl hr,?_⟩,?_,?_,?_⟩
  · intro j hj l hl
    obtain ⟨hji,hj',hs⟩ := hother j hj
    have hfreed : ∀ e ∈ [ConnEvent.freed (w.table.ctl i).s (slotOf (w.table.ctl i).uid)],
        e.socket = (w.table.ctl i).s := by
      intro e hm
      rw [List.mem_singleton.mp hm]
      rfl
    rw [World.past, ctl_internalFree hji, (ht.other j hji).1, history_append, history_append,
      history_other (fun e hm => ConnEvent.inside_socket (he' e hm)) hs,
      history_other hfreed hs, List.append_nil, List.append_nil] at hl
    rw [ctl_internalFree hji, (ht.other j hji).1, (ht.other j hji).2]
    exact hw.settled j hji hj' l hl
  · rw [← ht.same.uid]
    exact uid_internalFree hwf₁ hi₁
  · intro j hj
    obtain ⟨hji,_,hs⟩ := hother j hj
    rw [ctl_internalFree hji, (ht.other j hji).1]
    exact hs
  · rw [show _ = w.nextSocket from ht.nextSocket]
    exact hw.managed.sockets i hw.inuse

/-- Closing a connection with nothing outstanding frees its slot. -/
theorem wp_closeOperation (hq : QuietClose A S) (hw : Working S w h i) (hops : w.ops i = [])
    (hst : ∀ l, life S.serviceSendsFirst (w.past i h) = some l → l.stage ≠ .answered true)
    (close : ℕ → Bool → Mgr σ Unit) :
    wp A (S.internalCloseOperation close i) (fun _ w' h' => Gone S w h i w' h') w h := by
  obtain ⟨l,ho⟩ := hw.managed.conn i hw.inuse
  have hout : l.outstanding = 0 := by rw [ho.outstanding, hops]; rfl
  rcases ho.linked.fresh_or with hfr | htalk
  · have hproto : (w.table.ctl i).proto = none := by
      have hk := ho.linked
      unfold Linked at hk
      rw [hfr] at hk
      exact hk.1
    refine wp_bind (wp_bind (wp_ctl ?_))
    rw [hproto]
    refine wp_pure (fun _ => ?_)
    have hl : life S.serviceSendsFirst (w.past i h ++ []) = some l := by
      rw [List.append_nil]
      exact ho.life
    have hrel := wp_release (A := A) hw (Touch.refl i w) hops
      (fun e he => absurd he List.not_mem_nil)
      (retired_of _ _ ho.flows ⟨rfl,rfl⟩ hl (.inl hfr) hout)
    rw [List.append_nil] at hrel
    exact hrel
  · obtain ⟨p,hproto⟩ := ho.linked.proto htalk
    refine wp_bind (wp_bind (wp_ctl ?_))
    rw [hproto]
    refine wp_bind (wp_emit (fun _ => wp_bind ?_))
    have hslot := hw.managed.slot hw.inuse
    have hnot : .closesocket (w.table.ctl i).s ∉
        h ++ [.called (w.table.ctl i).s (w.table.ctl i).uid .close] := by
      intro hm
      rcases List.mem_append.mp hm with hm | hm
      · have hshut := ended_of_closesocket ho.life (mem_history.mpr ⟨hm,rfl⟩)
        have hlive := Stage.rank_of_live ho.linked.live
        omega
      · cases List.mem_singleton.mp hm
    refine wp_mono (hq p close w _ i hw.inuse (by rw [hslot.1, hslot.2])
      (List.mem_append_right _ List.mem_cons_self) hnot) ?_
    rintro _ w₁ _ _ ⟨rfl,ht₁,hops₁⟩
    refine wp_setCtl ?_
    have ht := ht₁.trans (Touch.setCtl (i := i) w₁ (f := fun c => { c with proto := none })
      ⟨rfl,rfl,rfl⟩)
    have hl : life S.serviceSendsFirst
        (w.past i h ++ [.called (w.table.ctl i).s (w.table.ctl i).uid .close]) =
          some { l with stage := .closed } := by
      rw [life_concat, ho.life]
      have hne := hst l ho.life
      obtain ⟨first,stage,n⟩ := l
      cases hout
      cases stage with
      | answered ok =>
        cases ok with
        | false => rfl
        | true => exact absurd rfl hne
      | asking => rfl
      | opened heard => rfl
      | _ => cases htalk
    refine wp_release hw ht (hops₁.trans hops) ?_
      (retired_of _ _ ho.flows ⟨rfl,rfl⟩ hl (.inr rfl) hout)
    intro e he
    rw [List.mem_singleton.mp he]
    exact ⟨rfl,rfl⟩

theorem Managed.idle_iff (hm : Managed S w h) (hi : w.inuse i) :
    (w.table.ctl i).pendingWork = 0 ↔ w.ops i = [] := by
  obtain ⟨l,ho⟩ := hm.conn i hi
  rw [ho.pending, ← List.length_eq_zero_iff]
  exact Int.natCast_eq_zero

/-- The world in which a slot is marked as closing. -/
def World.close (w : World σ) (i : ℕ) : World σ :=
  w.setCtl i (fun c => { c with flags := { c.flags with closing := true } })

/-- With nothing outstanding the connection is closed at once, otherwise it is marked. -/
theorem wp_startClose (hw : Working S w h i) {P : World σ → List ConnEvent → Prop} (d : ℕ)
    (hclose : w.ops i = [] → wp A (S.internalCloseOperation (S.internalStartCloseOperation d) i)
      (fun _ w' h' => P w' h') w h) (abort : Bool) :
    wp A (S.internalStartCloseOperation (d + 1) i abort) (fun _ w' h' =>
      P w' h' ∨ w.ops i ≠ [] ∧ w' = w.close i ∧
        h' = h ++ [.cancelled (w.table.ctl i).s abort]) w h := by
  refine wp_bind (wp_ctl ?_)
  by_cases hp : (w.table.ctl i).pendingWork = 0
  · rw [if_pos hp]
    have hops := (hw.managed.idle_iff hw.inuse).mp hp
    exact wp_mono (hclose hops) (fun _ _ _ _ hg => .inl hg)
  · rw [if_neg hp]
    refine wp_bind (wp_setCtl (wp_emit (fun _ => .inr ⟨?_,rfl,rfl⟩)))
    exact mt (hw.managed.idle_iff hw.inuse).mpr hp

theorem Touch.close (w : World σ) (i : ℕ) : Touch i w (w.close i) := Touch.setCtl w ⟨rfl,rfl,rfl⟩

theorem ctl_close (w : World σ) (i : ℕ) : (w.close i).table.ctl i =
    { w.table.ctl i with flags := { (w.table.ctl i).flags with closing := true } } :=
  World.ctl_setCtl_self ..

theorem Working.cancelled (hw : Working S w h i) (abort : Bool) :
    Working S (w.close i) (h ++ [.cancelled (w.table.ctl i).s abort]) i := by
  refine hw.touch (Touch.close w i) ?_ ?_
  · intro e he
    rw [List.mem_singleton.mp he]
    rfl
  · obtain ⟨l,ho⟩ := hw.managed.conn i hw.inuse
    refine ⟨l,?_⟩
    rw [ctl_close]
    exact ho.cancel abort

theorem Touch.past_concat (ht : Touch i w w') {e : ConnEvent} (he : e.inside (w.table.ctl i)) :
    w'.past i (h ++ [e]) = w.past i h ++ [e] :=
  past_same ht (fun e' he' => by rw [List.mem_singleton.mp he']; exact he)

/-- The stages a connection may be closed in for good. -/
def Stage.ending (sendsFirst : Bool) : Stage → Bool
  | .fresh => !sendsFirst
  | .answered ok => !ok
  | .opened _ => true
  | _ => false

/-- A slot at rest may be closed at once, and one that said no is closing. -/
theorem atRest_iff {c : ConnCtl} {ps : List Pending} {l : Life} : AtRest c ps l ↔
    (c.flags.closing = true → ps ≠ []) ∧ l.stage.ending l.sendsFirst = true ∧
      (l.stage = .answered false → c.flags.closing = true) := by
  obtain ⟨first,stage,n⟩ := l
  cases stage with
  | fresh => cases first <;> simp [AtRest,Stage.ending]
  | answered ok => cases ok <;> simp [AtRest,Stage.ending]
  | _ => simp [AtRest,Stage.ending]

/-- A connection marked as closing, with something outstanding, is at rest. -/
theorem atRest_of_closing {c : ConnCtl} {ps : List Pending} {l : Life}
    (hc : c.flags.closing = true) (hops : ps ≠ [])
    (he : l.stage.ending l.sendsFirst = true) : AtRest c ps l :=
  atRest_iff.mpr ⟨fun _ => hops,he,fun _ => hc⟩

theorem Working.closing_good (hw : Working S w h i) (hops : w.ops i ≠ [])
    (hst : ∀ l, life S.serviceSendsFirst (w.past i h) = some l →
      l.stage.ending l.sendsFirst = true) (abort : Bool) :
    Good S (w.close i) (h ++ [.cancelled (w.table.ctl i).s abort]) := by
  refine (hw.cancelled abort).good ?_
  intro l hl
  have hpast : (w.close i).past i (h ++ [.cancelled (w.table.ctl i).s abort]) =
      w.past i h ++ [.cancelled (w.table.ctl i).s abort] := (Touch.close w i).past_concat rfl
  obtain ⟨l₀,ho⟩ := hw.managed.conn i hw.inuse
  have hl₀ := (ho.cancel abort).life
  rw [hpast, hl₀] at hl
  cases hl
  rw [ctl_close]
  exact atRest_of_closing rfl hops (hst l ho.life)

end Kaplar.Server
