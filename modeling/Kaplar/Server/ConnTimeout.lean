import Kaplar.Foundation.Effect
import Kaplar.Server.ConnLifecycle

/-! # Timeouts

`rdwr_count` counts what a connection has done since the last timeout check: it was
accepted, or a message or a write of it has completed. The check drops the connections
that have done nothing. The server thread reads the clock at the top of its loop and
checks when five seconds have passed since the last check.
-/
namespace Kaplar.Server
open Program Execution
variable {σ α β : Type}

/-- What counts against a timeout; the length of a message does not. -/
def ConnEvent.active : ConnEvent → Bool
  | .accepted _ _ _ => true
  | .completed _ op _ => op != .readLength
  | _ => false

/-- How often a connection has been active. -/
def activity (s : ℕ) (es : List ConnEvent) : ℕ := (history s es).countP ConnEvent.active

/-- The counts of the slots in use, with the events since the last check. -/
def Counted (w : World σ) (es : List ConnEvent) : Prop :=
  ∀ i, w.inuse i → (w.table.ctl i).rdwrCount = activity (w.table.ctl i).s es

/-! ## Programs that count nothing -/

/-- The slots keep their sockets and their counts, and no connection is active. A slot that has
come into use has been freed. -/
structure Quiet (w : World σ) (es : List ConnEvent) (w' : World σ) : Prop where
  slot : ∀ i, (w'.table.ctl i).s = (w.table.ctl i).s ∧
    (w'.table.ctl i).rdwrCount = (w.table.ctl i).rdwrCount
  inuse : ∀ i, w'.inuse i → w.inuse i ∨ ∃ slot, .freed (w.table.ctl i).s slot ∈ es
  still : ∀ e ∈ es, e.active = false

section Quiet
variable {S : Services σ} {w w' : World σ} {h es seg : List ConnEvent} {i s d : ℕ}

theorem activity_append (s : ℕ) (es fs : List ConnEvent) :
    activity s (es ++ fs) = activity s es + activity s fs := by
  rw [activity, history_append, List.countP_append]
  rfl

theorem activity_still (he : ∀ e ∈ es, e.active = false) : activity s es = 0 := by
  refine List.countP_eq_zero.mpr (fun e hm => ?_)
  rw [he e (mem_history.mp hm).1]
  decide

theorem composes_quiet : Composes (Quiet (σ := σ)) := by
  refine ⟨fun w => ⟨fun _ => ⟨rfl,rfl⟩,fun _ => .inl,fun e he => absurd he List.not_mem_nil⟩,?_⟩
  intro w w₁ w' es fs hq hq'
  refine ⟨fun i => ⟨(hq'.slot i).1.trans (hq.slot i).1,(hq'.slot i).2.trans (hq.slot i).2⟩,?_,
    List.forall_mem_append.mpr ⟨hq.still,hq'.still⟩⟩
  intro i hi
  rcases hq'.inuse i hi with hi | ⟨slot,hm⟩
  · exact (hq.inuse i hi).imp_right (fun ⟨slot,hm⟩ => ⟨slot,List.mem_append_left _ hm⟩)
  · rw [(hq.slot i).1] at hm
    exact .inr ⟨slot,List.mem_append_right _ hm⟩

/-- A connection in a slot has not been freed. -/
theorem Managed.not_freed (hm : Managed S w h) (hi : w.inuse i) (slot : UInt16) :
    .freed (w.table.ctl i).s slot ∉ h := by
  intro hf
  obtain ⟨l,ho⟩ := hm.conn i hi
  have hle := life_ends_le ho.life (r := 8) (by decide)
  have hrank := Stage.rank_of_live ho.linked.live
  rw [if_neg (by omega)] at hle
  have hpos : 0 < (w.past i h).countP (fun e => e.ends = 8) :=
    List.countP_pos_iff.mpr ⟨_,mem_history.mpr ⟨hf,rfl⟩,decide_eq_true rfl⟩
  omega

theorem Counted.quiet (hc : Counted w seg) (hq : Quiet w es w') (hm : Managed S w' h)
    (hes : es ⊆ h) : Counted w' (seg ++ es) := by
  intro i hi
  obtain ⟨hs,hr⟩ := hq.slot i
  have hi₀ : w.inuse i := by
    refine (hq.inuse i hi).resolve_right ?_
    rintro ⟨slot,hf⟩
    rw [← hs] at hf
    exact hm.not_freed hi slot (hes hf)
  rw [hr, hs, hc i hi₀, activity_append, activity_still hq.still, Nat.add_zero]

theorem quiet_bind {x : Mgr σ α} {f : α → Mgr σ β} (hx : Does Quiet x)
    (hf : ∀ a, Does Quiet (f a)) : Does Quiet (x >>= f) := hx.bind composes_quiet hf

theorem quiet_pure (a : α) : Does Quiet (pure a : Mgr σ α) := does_pure composes_quiet a

theorem quiet_crash : Does Quiet (crash : Mgr σ α) := does_crash composes_quiet

theorem quiet_ctl : Does Quiet (ctl i : Mgr σ ConnCtl) :=
  quiet_bind (does_get composes_quiet) (fun _ => quiet_pure _)

theorem quiet_event {e : ConnEvent} (he : e.active = false) :
    Does Quiet (emit e : Mgr σ Unit) :=
  does_emit (fun _ => ⟨fun _ => ⟨rfl,rfl⟩,fun _ => .inl,
    fun e' he' => by rwa [List.mem_singleton.mp he']⟩)

theorem quiet_outside {f : World σ → World σ} (hf : ∀ w, (f w).table = w.table) :
    Does Quiet (update f : Mgr σ Unit) := by
  refine does_update (fun w => ⟨fun i => ?_,fun i hi => .inl ?_,fun e he => absurd he List.not_mem_nil⟩)
  · rw [hf]
    exact ⟨rfl,rfl⟩
  · rwa [World.inuse, hf] at hi

theorem quiet_setCtl {f : ConnCtl → ConnCtl} (hf : ∀ c, (f c).flags.inuse = c.flags.inuse ∧
    (f c).s = c.s ∧ (f c).rdwrCount = c.rdwrCount) : Does Quiet (setCtl i f : Mgr σ Unit) := by
  refine does_update (fun w => ?_)
  have hctl : ∀ j, ((w.setCtl i f).table.ctl j).flags.inuse = (w.table.ctl j).flags.inuse ∧
      ((w.setCtl i f).table.ctl j).s = (w.table.ctl j).s ∧
        ((w.setCtl i f).table.ctl j).rdwrCount = (w.table.ctl j).rdwrCount := by
    intro j
    rw [World.ctl_setCtl]
    split
    case isTrue hj => exact hj ▸ hf _
    case isFalse => exact ⟨rfl,rfl,rfl⟩
  refine ⟨fun j => (hctl j).2,fun j hj => .inl ?_,fun e he => absurd he List.not_mem_nil⟩
  rwa [World.inuse, (hctl j).1] at hj

/-- The socket of a slot is closed and the slot freed. -/
def release (i : ℕ) : Mgr σ Unit := do
  let c ← ctl i
  emit (.closesocket c.s)
  update (fun w => { w with table := w.table.internalFree i })
  emit (.freed c.s (slotOf c.uid))

theorem release_apply (i : ℕ) (w : World σ) : release i w = (some (),w.free i,
    [.closesocket (w.table.ctl i).s,
      .freed (w.table.ctl i).s (slotOf (w.table.ctl i).uid)]) := rfl

theorem quiet_release : Does Quiet (release i : Mgr σ Unit) := by
  intro w
  rw [release_apply]
  refine ⟨fun j => ?_,fun j hj => ?_,?_⟩
  · by_cases hji : j = i
    · subst hji
      simp [World.free,ConnTable.internalFree]
    · rw [World.free, ctl_internalFree hji]
      exact ⟨rfl,rfl⟩
  · by_cases hji : j = i
    · subst hji
      exact .inr ⟨_,List.mem_cons_of_mem _ List.mem_cons_self⟩
    · rw [World.inuse, World.free, ctl_internalFree hji] at hj
      exact .inl hj
  · intro e he
    simp only [List.mem_cons, List.not_mem_nil, or_false] at he
    rcases he with rfl | rfl <;> rfl

theorem quiet_startOp (op : Op) : Does Quiet (startOp i op : Mgr σ Bool) := by
  refine quiet_bind (does_get composes_quiet) (fun w => ?_)
  refine quiet_bind (quiet_outside (fun _ => rfl)) (fun _ => .ite ?_ (quiet_pure false))
  exact quiet_bind (quiet_outside (fun _ => rfl))
    (fun _ => quiet_bind (quiet_event rfl) (fun _ => quiet_pure true))

theorem quiet_startRead (op : Op) : Does Quiet (internalStartAsyncRead i op : Mgr σ Bool) := by
  refine quiet_bind (quiet_startOp op) (fun _ => .ite ?_ (quiet_pure false))
  exact quiet_bind (quiet_setCtl (fun _ => ⟨rfl,rfl,rfl⟩)) (fun _ => quiet_pure true)

theorem quiet_startWrite : Does Quiet (internalStartAsyncWrite i : Mgr σ Bool) := by
  refine quiet_bind quiet_ctl (fun c => quiet_bind (quiet_startOp _) (fun _ => ?_))
  refine .ite ?_ (quiet_pure false)
  exact quiet_bind (quiet_setCtl (fun _ => ⟨rfl,rfl,rfl⟩)) (fun _ => quiet_pure true)

theorem quiet_tries {start : Mgr σ Bool} (hs : Does Quiet start) (n : ℕ) :
    Does Quiet (tries n start) := by
  induction n with
  | zero => exact quiet_pure false
  | succ n ih => exact quiet_bind hs (fun _ => .ite (quiet_pure true) ih)

theorem quiet_exec {close : ℕ → Bool → Mgr σ Unit} (hc : ∀ i abort, Does Quiet (close i abort))
    (uid : UInt32) (script : Script σ α) : Does Quiet (script.exec close uid) := by
  induction script with
  | ret a => exact quiet_pure a
  | fault => exact quiet_bind quiet_ctl (fun _ => quiet_bind (quiet_event rfl) (fun _ => quiet_crash))
  | load k ih => exact quiet_bind (does_get composes_quiet) (fun w => ih w.priv)
  | store p k ih => exact quiet_bind (quiet_outside (fun _ => rfl)) (fun _ => ih)
  | userdata k ih =>
    exact quiet_bind (quiet_bind quiet_ctl (fun _ => .ite (quiet_pure _) (quiet_pure _))) ih
  | setUserdata v k ih =>
    refine quiet_bind (quiet_bind quiet_ctl (fun _ => .ite ?_ (quiet_pure _))) (fun _ => ih)
    exact quiet_setCtl (fun _ => ⟨rfl,rfl,rfl⟩)
  | send data len k ih =>
    refine quiet_bind (quiet_bind quiet_ctl (fun _ => .ite (.ite (quiet_pure _) ?_) (quiet_pure _))) ih
    exact quiet_bind (quiet_setCtl (fun _ => ⟨rfl,rfl,rfl⟩)) (fun _ => quiet_startWrite)
  | close abort k ih =>
    refine quiet_bind (quiet_bind quiet_ctl (fun _ => .ite ?_ (quiet_pure _))) (fun _ => ih)
    exact quiet_bind (quiet_event rfl) (fun _ => hc _ abort)

theorem quiet_closeOperation {close : ℕ → Bool → Mgr σ Unit}
    (hc : ∀ i abort, Does Quiet (close i abort)) (i : ℕ) :
    Does Quiet (S.internalCloseOperation close i) := by
  have hdispatch : Does Quiet (S.internalDispatchOnClose close i) := by
    refine quiet_bind quiet_ctl (fun c => ?_)
    cases c.proto with
    | none => exact quiet_pure ()
    | some p =>
      refine quiet_bind (quiet_event rfl) (fun _ => quiet_bind (quiet_exec hc _ _) (fun _ => ?_))
      exact quiet_setCtl (fun _ => ⟨rfl,rfl,rfl⟩)
  exact quiet_bind hdispatch (fun _ => quiet_release)

theorem quiet_startClose (S : Services σ) (d i : ℕ) (abort : Bool) :
    Does Quiet (S.internalStartCloseOperation d i abort) := by
  induction d generalizing i abort with
  | zero => exact quiet_crash
  | succ d ih =>
    refine quiet_bind quiet_ctl (fun c => .ite (quiet_closeOperation ih i) ?_)
    exact quiet_bind (quiet_setCtl (fun _ => ⟨rfl,rfl,rfl⟩)) (fun _ => quiet_event rfl)

theorem quiet_callback (S : Services σ) (d i : ℕ) (k : Callback) (body : UInt32 → Script σ α) :
    Does Quiet (S.callback d i k body) :=
  quiet_bind quiet_ctl (fun _ => quiet_bind (quiet_event rfl)
    (fun _ => quiet_exec (quiet_startClose S (d + 1)) _ _))

theorem quiet_onAssign (S : Services σ) (d i p : ℕ) : Does Quiet (S.onAssignProtocol d i p) :=
  quiet_bind quiet_ctl (fun _ => quiet_bind (quiet_callback S d i .assign _)
    (fun _ => quiet_bind (quiet_event rfl) (fun _ => quiet_pure _)))

theorem quiet_notify (S : Services σ) (d i : ℕ) (k : Callback)
    (body : Protocol σ → UInt32 → Script σ Status) : Does Quiet (S.notify d i k body) := by
  refine quiet_bind quiet_ctl (fun c => ?_)
  cases c.proto with
  | none => exact quiet_crash
  | some p =>
    exact quiet_bind (quiet_callback S d i k _) (fun _ => quiet_bind (quiet_event rfl)
      (fun _ => quiet_pure _))

theorem quiet_connect (S : Services σ) (d i : ℕ) : Does Quiet (S.internalDispatchOnConnect d i) := by
  refine quiet_bind quiet_ctl (fun c => ?_)
  cases c.udata with
  | service svc =>
    refine .ite ?_ (quiet_pure _)
    refine quiet_bind (quiet_setCtl (fun _ => ⟨rfl,rfl,rfl⟩)) (fun _ => ?_)
    exact quiet_bind (quiet_onAssign S d i _) (fun _ => .ite (quiet_notify S d i _ _) (quiet_pure _))
  | _ => exact quiet_crash

theorem quiet_dispatchMessage (S : Services σ) (d i : ℕ) (data : List UInt8) :
    Does Quiet (S.dispatchMessage d i data) := by
  refine quiet_bind quiet_ctl (fun c => .ite (quiet_notify S d i _ _) ?_)
  exact quiet_bind (quiet_setCtl (fun _ => ⟨rfl,rfl,rfl⟩)) (fun _ => quiet_notify S d i _ _)

theorem quiet_message (S : Services σ) (d i : ℕ) (data : List UInt8) :
    Does Quiet (S.internalDispatchOnRecvMessage d i data) := by
  refine quiet_bind quiet_ctl (fun c => ?_)
  cases c.proto with
  | some p => exact quiet_dispatchMessage S d i data
  | none =>
    cases c.udata with
    | service svc =>
      dsimp only
      cases S.serviceSelectProtocol svc data with
      | none => exact quiet_pure _
      | some p =>
        refine quiet_bind (quiet_setCtl (fun _ => ⟨rfl,rfl,rfl⟩)) (fun _ => ?_)
        exact quiet_bind (quiet_onAssign S d i _)
          (fun _ => .ite (quiet_dispatchMessage S d i data) (quiet_pure _))
    | _ => exact quiet_crash

theorem quiet_asyncRead (S : Services σ) (d i : ℕ) (op : Op) :
    Does Quiet (S.internalAsyncRead d i op) :=
  quiet_bind (quiet_tries (quiet_startRead op) _)
    (fun _ => .ite (quiet_pure ()) (quiet_startClose S _ i true))

theorem quiet_asyncWrite (S : Services σ) (d i : ℕ) : Does Quiet (S.internalAsyncWrite d i) :=
  quiet_bind (quiet_tries quiet_startWrite _)
    (fun _ => .ite (quiet_pure ()) (quiet_startClose S _ i true))

/-- What a status that is returned to a handler leads to. -/
theorem quiet_status (S : Services σ) (d i : ℕ) {x : Mgr σ Status} {ok stop : Mgr σ Unit}
    (hx : Does Quiet x) (hok : Does Quiet ok) (hstop : Does Quiet stop) : Does Quiet (do
      match ← x with
      | .ok => ok
      | .stopReading => stop
      | .close => S.internalClose d i
      | .abort => S.internalAbort d i) := by
  refine quiet_bind hx (fun st => ?_)
  cases st with
  | ok => exact hok
  | stopReading => exact hstop
  | close => exact quiet_startClose S _ i false
  | abort => exact quiet_startClose S _ i true

/-- What completion handlers do after they have counted. -/
theorem quiet_completion (S : Services σ) (d i : ℕ) {err : Bool} {n : ℕ}
    {retry x : ConnCtl → Mgr σ Unit} (hr : ∀ c, Does Quiet (retry c))
    (hx : ∀ c, Does Quiet (x c)) : Does Quiet (do
      let c ← ctl i
      if c.flags.closing then
        if c.pendingWork = 0 then S.internalFinish d i else pure ()
      else if err then retry c
      else if n = 0 then S.internalAbort d i
      else x c) := by
  refine quiet_bind quiet_ctl (fun c => .ite (.ite ?_ (quiet_pure ())) ?_)
  · exact quiet_closeOperation (quiet_startClose S d) i
  · exact .ite (hr c) (.ite (quiet_startClose S _ i true) (hx c))

end Quiet

/-! ## Steps that count -/

section Counting
variable {S : Services σ} {w w' : World σ} {h seg : List ConnEvent} {i s d svc : ℕ} {p : Pending}

/-- A completion, counted. -/
def World.count (w : World σ) (i : ℕ) (p : Pending) : World σ :=
  (w.setOps i ((w.ops i).erase p)).setCtl i (fun c => { c with
    pendingWork := c.pendingWork - 1, rdwrCount := c.rdwrCount + 1 })

theorem ctl_count (w : World σ) (i j : ℕ) (p : Pending) : ((w.count i p).table.ctl j).s =
    (w.table.ctl j).s ∧ ((w.count i p).table.ctl j).flags = (w.table.ctl j).flags ∧
      ((w.count i p).table.ctl j).rdwrCount =
        (w.table.ctl j).rdwrCount + if j = i then 1 else 0 := by
  rw [World.count, World.ctl_setCtl]
  by_cases hj : j = i
  · subst hj
    rw [if_pos rfl, if_pos rfl]
    exact ⟨rfl,rfl,rfl⟩
  · rw [if_neg hj, if_neg hj, Int.add_zero]
    exact ⟨rfl,rfl,rfl⟩

theorem activity_single (s : ℕ) (e : ConnEvent) :
    activity s [e] = if e.socket = s ∧ e.active = true then 1 else 0 := by
  by_cases hs : e.socket = s <;> simp [activity,history,hs,List.countP_singleton]

/-- A completion of a message or of a write counts for its own connection. -/
theorem Counted.count (hc : Counted w seg) (hm : Managed S w h) (hp : p ∈ w.ops i)
    (hop : p.op ≠ .readLength) (buf : List UInt8) :
    Counted (w.count i p) (seg ++ [.completed p.s p.op buf]) := by
  have hi : w.inuse i := by
    by_contra hi
    rw [hm.idle i hi] at hp
    cases hp
  obtain ⟨l,ho⟩ := hm.conn i hi
  have hs := ho.own p hp
  have hact : (ConnEvent.completed p.s p.op buf).active = true := bne_iff_ne.mpr hop
  intro j hj
  obtain ⟨hsj,hfj,hcj⟩ := ctl_count w i j p
  rw [World.inuse, hfj] at hj
  rw [hsj, hcj, hc j hj, activity_append, activity_single, Int.natCast_add]
  by_cases hji : j = i
  · subst hji
    rw [if_pos rfl, if_pos ⟨hs,hact⟩]
    rfl
  · have hne : ¬ ((ConnEvent.completed p.s p.op buf).socket = (w.table.ctl j).s ∧
        (ConnEvent.completed p.s p.op buf).active = true) := by
      rintro ⟨he,_⟩
      exact hji (hm.distinct j i hj hi (he.symm.trans hs))
    rw [if_neg hji, if_neg hne]
    rfl

/-- A completion handler that counts. -/
theorem Counted.handler (hc : Counted w seg) (hm : Managed S w h) (hp : p ∈ w.ops i)
    (hop : p.op ≠ .readLength) (buf : List UInt8) {x : Mgr σ Unit} (hx : Does Quiet x)
    {es : List ConnEvent} (hr : (do
      update (fun w => w.setOps i ((w.ops i).erase p))
      emit (.completed p.s p.op buf)
      setCtl i (fun c => { c with pendingWork := c.pendingWork - 1, rdwrCount := c.rdwrCount + 1 })
      x : Mgr σ Unit) w = (some (),w',es)) (hm' : Managed S w' (h ++ es)) :
    Counted w' (seg ++ es) := by
  have hcount := hc.count hm hp hop buf
  have hq := hx (w.count i p)
  have heq : (do
      update (fun w => w.setOps i ((w.ops i).erase p))
      emit (.completed p.s p.op buf)
      setCtl i (fun c => { c with pendingWork := c.pendingWork - 1, rdwrCount := c.rdwrCount + 1 })
      x : Mgr σ Unit) w = ((x (w.count i p)).1,(x (w.count i p)).2.1,
        .completed p.s p.op buf :: (x (w.count i p)).2.2) := rfl
  rw [heq] at hr
  obtain ⟨_,hr⟩ := Prod.mk.inj hr
  obtain ⟨rfl,rfl⟩ := Prod.mk.inj hr
  have hend := hcount.quiet hq hm' (fun e he =>
    List.mem_append_right _ (List.mem_cons_of_mem _ he))
  rwa [List.append_assoc] at hend

theorem Counted.complete (hc : Counted w seg) (hm : Managed S w h) (hp : p ∈ w.ops i) {err : Bool}
    {n : ℕ} {buf : List UInt8} {es : List ConnEvent}
    (hr : S.complete d i p err n buf w = (some (),w',es)) (hm' : Managed S w' (h ++ es)) :
    Counted w' (seg ++ es) := by
  obtain ⟨s,op⟩ := p
  cases op with
  | readLength =>
    have hquiet : Does Quiet (S.complete d i ⟨s,.readLength⟩ err n buf) := by
      refine quiet_bind (quiet_outside (fun _ => rfl)) (fun _ => quiet_bind (quiet_event rfl)
        (fun _ => quiet_bind (quiet_setCtl (fun _ => ⟨rfl,rfl,rfl⟩)) (fun _ => ?_)))
      refine quiet_completion S d i (fun _ => quiet_asyncRead S d i _) (fun _ => ?_)
      refine .ite (quiet_startClose S _ i true) ?_
      exact quiet_bind (quiet_setCtl (fun _ => ⟨rfl,rfl,rfl⟩)) (fun _ => quiet_asyncRead S d i _)
    have hq := hquiet w
    rw [hr] at hq
    exact hc.quiet hq hm' (List.subset_append_right _ _)
  | readBody len =>
    refine hc.handler hm hp nofun buf ?_ hr hm'
    exact quiet_completion S d i (fun _ => quiet_asyncRead S d i _) (fun _ =>
      quiet_status S d i (quiet_message S d i _) (quiet_asyncRead S d i _) (quiet_pure ()))
  | write data len =>
    refine hc.handler hm hp nofun buf ?_ hr hm'
    refine quiet_completion S d i (fun _ => quiet_asyncWrite S d i) (fun _ => ?_)
    refine quiet_bind (quiet_setCtl (fun _ => ⟨rfl,rfl,rfl⟩)) (fun _ => ?_)
    exact quiet_status S d i (quiet_notify S d i _ _) (quiet_pure ()) quiet_crash

/-- A new connection counts as active. -/
theorem Counted.accept (hc : Counted w seg) (hm : Managed S w h) (hseg : seg ⊆ h)
    {es : List ConnEvent} (hr : S.perform d (.accept svc) w = (some (),w',es))
    (hm' : Managed S w' (h ++ es)) : Counted w' (seg ++ es) := by
  rcases ConnTable.internalAlloc_cases hm.kept.wf with ⟨hnone,_⟩ | ⟨i,t,hsome,ha⟩
  · rw [accept_crash svc hnone] at hr
    cases hr
  let x : ℕ → Mgr σ Unit := fun i => do
    match ← S.internalDispatchOnConnect d i with
    | .ok => if ← internalStartAsyncRead i .readLength then pure () else S.internalAbort d i
    | .stopReading => crash
    | .close => S.internalClose d i
    | .abort => S.internalAbort d i
  have hx : Does Quiet (x i) := by
    refine quiet_status S d i (quiet_connect S d i) ?_ quiet_crash
    exact quiet_bind (quiet_startRead _) (fun _ => .ite (quiet_pure ()) (quiet_startClose S _ i true))
  have heq : S.perform d (.accept svc) w = ((x i (w.opened i t w.nextSocket svc)).1,
      (x i (w.opened i t w.nextSocket svc)).2.1,.accepted w.nextSocket (t.ctl i).uid svc ::
        (x i (w.opened i t w.nextSocket svc)).2.2) := by
    have hslot : Services.acceptSlot w.nextSocket svc w = (some i,w.opened i t w.nextSocket svc,
        [.accepted w.nextSocket (t.ctl i).uid svc]) := by
      rw [Services.acceptSlot, get_bind, hsome]
      rfl
    show (Services.acceptSlot w.nextSocket svc >>= x) w = _
    rw [bind_apply, hslot]
    rfl
  have hq := hx (w.opened i t w.nextSocket svc)
  rw [heq] at hr
  obtain ⟨_,hr⟩ := Prod.mk.inj hr
  obtain ⟨rfl,rfl⟩ := Prod.mk.inj hr
  have hopen : Counted (w.opened i t w.nextSocket svc)
      (seg ++ [.accepted w.nextSocket (t.ctl i).uid svc]) := by
    intro j hj
    by_cases hji : j = i
    · subst hji
      have hfuture : activity w.nextSocket seg = 0 := by
        refine List.countP_eq_zero.mpr (fun e he => ?_)
        obtain ⟨he,hs⟩ := mem_history.mp he
        exact absurd (hm.future e (hseg he)) (by omega)
      rw [w.opened_self, activity_append, activity_single]
      show (1 : ℤ) = _
      rw [hfuture, if_pos ⟨rfl,rfl⟩]
      rfl
    · have hctl : (w.opened i t w.nextSocket svc).table.ctl j = w.table.ctl j := by
        rw [World.opened, World.ctl_setCtl, if_neg hji]
        exact (ha.ctl j).trans (if_neg hji)
      rw [World.inuse, hctl] at hj
      have hlt := hm.sockets j hj
      have hne : ¬ ((ConnEvent.accepted w.nextSocket (t.ctl i).uid svc).socket =
          (w.table.ctl j).s ∧
            (ConnEvent.accepted w.nextSocket (t.ctl i).uid svc).active = true) := by
        rintro ⟨he,_⟩
        exact absurd (show w.nextSocket = (w.table.ctl j).s from he) (by omega)
      rw [hctl, hc j hj, activity_append, activity_single, if_neg hne, Nat.add_zero]
  have hend := hopen.quiet hq hm' (fun e he =>
    List.mem_append_right _ (List.mem_cons_of_mem _ he))
  rwa [List.append_assoc] at hend

end Counting

/-! ## The check -/

/-- The connection was closed, or all its operations were cancelled for it to be closed. -/
def TimedOut (s : ℕ) (es : List ConnEvent) : Prop :=
  .cancelled s true ∈ es ∨ .closesocket s ∈ es

/-- What a check of some slots does. -/
structure Swept (is : List ℕ) (w : World σ) (es : List ConnEvent) (w' : World σ) : Prop where
  other : ∀ j, j ∉ is → w'.table.ctl j = w.table.ctl j
  event : ∀ e ∈ es, e.active = false ∧ ∃ i ∈ is, w.inuse i ∧ (w.table.ctl i).rdwrCount = 0 ∧
    e.socket = (w.table.ctl i).s
  spared : ∀ i ∈ is, w.inuse i → (w.table.ctl i).rdwrCount ≠ 0 →
    w'.table.ctl i = { w.table.ctl i with rdwrCount := 0 }
  dropped : ∀ i ∈ is, w.inuse i → (w.table.ctl i).rdwrCount = 0 → TimedOut (w.table.ctl i).s es
  after : ∀ i ∈ is, w'.inuse i → w.inuse i ∧ (w'.table.ctl i).s = (w.table.ctl i).s ∧
    (w'.table.ctl i).rdwrCount = 0

section Sweep
variable {S : Services σ} {w w' w'' : World σ} {h es fs : List ConnEvent} {i s d : ℕ} {is js : List ℕ}

theorem TimedOut.mono (hd : TimedOut s es) (hes : es ⊆ fs) : TimedOut s fs :=
  hd.imp (fun hm => hes hm) (fun hm => hes hm)

theorem Swept.nil (w : World σ) : Swept [] w [] w :=
  ⟨fun _ _ => rfl,nofun,nofun,nofun,nofun⟩

theorem Swept.cons (hi : i ∉ is) (hs : Swept [i] w es w') (hs' : Swept is w' fs w'') :
    Swept (i :: is) w (es ++ fs) w'' := by
  have hself := hs'.other i hi
  have hrest : ∀ {j}, j ∈ is → w'.table.ctl j = w.table.ctl j := fun {j} hj =>
    hs.other j (fun hm => hi (List.mem_singleton.mp hm ▸ hj))
  refine ⟨?_,List.forall_mem_append.mpr ⟨?_,?_⟩,?_,?_,?_⟩
  · intro j hj
    rw [List.mem_cons, not_or] at hj
    exact (hs'.other j hj.2).trans (hs.other j (fun hm => hj.1 (List.mem_singleton.mp hm)))
  · intro e he
    obtain ⟨ha,j,hj,hevent⟩ := hs.event e he
    exact ⟨ha,j,List.mem_cons.mpr (.inl (List.mem_singleton.mp hj)),hevent⟩
  · intro e he
    obtain ⟨ha,j,hj,hevent⟩ := hs'.event e he
    rw [World.inuse, hrest hj] at hevent
    exact ⟨ha,j,List.mem_cons_of_mem _ hj,hevent⟩
  · intro j hj hinuse hne
    rcases List.mem_cons.mp hj with rfl | hj
    · rw [hself]
      exact hs.spared j List.mem_cons_self hinuse hne
    · have hctl := hrest hj
      rw [World.inuse, ← hctl] at hinuse
      rw [← hctl] at hne ⊢
      exact hs'.spared j hj hinuse hne
  · intro j hj hinuse hz
    rcases List.mem_cons.mp hj with rfl | hj
    · exact (hs.dropped j List.mem_cons_self hinuse hz).mono (List.subset_append_left _ _)
    · have hctl := hrest hj
      rw [World.inuse, ← hctl] at hinuse
      rw [← hctl] at hz ⊢
      exact (hs'.dropped j hj hinuse hz).mono (List.subset_append_right _ _)
  · intro j hj hinuse
    rcases List.mem_cons.mp hj with rfl | hj
    · rw [World.inuse, hself] at hinuse
      rw [hself]
      exact hs.after j List.mem_cons_self hinuse
    · have hafter := hs'.after j hj hinuse
      rwa [World.inuse, hrest hj] at hafter

/-- A sweep from the outcome for its one slot. -/
theorem Swept.single (hother : ∀ j, j ≠ i → w'.table.ctl j = w.table.ctl j)
    (hi : w.inuse i) (hz : (w.table.ctl i).rdwrCount = 0)
    (hes : ∀ e ∈ es, e.active = false ∧ e.socket = (w.table.ctl i).s)
    (hd : TimedOut (w.table.ctl i).s es)
    (hafter : w'.inuse i → (w'.table.ctl i).s = (w.table.ctl i).s ∧
      (w'.table.ctl i).rdwrCount = 0) : Swept [i] w es w' := by
  refine ⟨fun j hj => hother j (fun h => hj (List.mem_singleton.mpr h)),?_,?_,?_,?_⟩
  · exact fun e he => ⟨(hes e he).1,i,List.mem_cons_self,hi,hz,(hes e he).2⟩
  · intro j hj _ hne
    rw [List.mem_singleton.mp hj] at hne
    exact absurd hz hne
  · exact fun j hj _ _ => List.mem_singleton.mp hj ▸ hd
  · intro j hj
    rw [List.mem_singleton.mp hj]
    exact fun hinuse => ⟨hi,hafter hinuse⟩

/-- A connection with nothing outstanding that is closed. -/
theorem wp_close_events (hclose : ∀ p uid, ((S.protocol p).onClose uid).Plain)
    (hm : Managed S w h) (hi : w.inuse i) (close : ℕ → Bool → Mgr σ Unit) :
    wp .lenient (S.internalCloseOperation close i) (fun _ w' h' => ∃ es, h' = h ++ es ∧
      (∀ j, j ≠ i → w'.table.ctl j = w.table.ctl j) ∧ ¬ w'.inuse i ∧
        (∀ e ∈ es, e.active = false ∧ e.socket = (w.table.ctl i).s) ∧
          .closesocket (w.table.ctl i).s ∈ es) w h := by
  have hrelease : ∀ {w₁ : World σ} {es : List ConnEvent}, Touch i w w₁ →
      (∀ e ∈ es, e.active = false ∧ e.socket = (w.table.ctl i).s) →
        wp .lenient (release i) (fun _ w' h' => ∃ es, h' = h ++ es ∧
          (∀ j, j ≠ i → w'.table.ctl j = w.table.ctl j) ∧ ¬ w'.inuse i ∧
            (∀ e ∈ es, e.active = false ∧ e.socket = (w.table.ctl i).s) ∧
              .closesocket (w.table.ctl i).s ∈ es) w₁ (h ++ es) := by
    intro w₁ es ht hes _
    rw [release_apply]
    refine ⟨es ++ [.closesocket (w₁.table.ctl i).s,
      .freed (w₁.table.ctl i).s (slotOf (w₁.table.ctl i).uid)],List.append_assoc .., ?_,?_,?_,?_⟩
    · intro j hj
      rw [World.free, ctl_internalFree hj]
      exact (ht.other j hj).1
    · have hno := not_inuse_internalFree ((ht.inuse i).mpr hi)
      rw [World.inuse, World.free, hno]
      decide
    · refine List.forall_mem_append.mpr ⟨hes,?_⟩
      rw [ht.same.s]
      intro e he
      simp only [List.mem_cons, List.not_mem_nil, or_false] at he
      rcases he with rfl | rfl <;> exact ⟨rfl,rfl⟩
    · rw [ht.same.s]
      exact List.mem_append_right _ List.mem_cons_self
  refine wp_bind (wp_bind (wp_ctl ?_))
  cases (w.table.ctl i).proto with
  | none =>
    refine wp_pure (fun _ => ?_)
    have hno : ∀ e ∈ ([] : List ConnEvent), e.active = false ∧ e.socket = (w.table.ctl i).s :=
      fun e he => absurd he List.not_mem_nil
    have hx := hrelease (Touch.refl i w) hno
    rw [List.append_nil] at hx
    exact hx
  | some p =>
    have hslot := hm.slot hi
    refine wp_bind (wp_emit (fun _ => wp_bind (wp_mono (wp_exec_plain (fun _ _ _ => trivial)
      (by rw [hslot.1, hslot.2]) rfl (.inl (hclose p _))) ?_)))
    rintro _ w₁ _ _ ⟨rfl,ht,_⟩
    refine wp_setCtl (hrelease (ht.trans (Touch.setCtl w₁ ⟨rfl,rfl,rfl⟩)) ?_)
    intro e he
    rw [List.mem_singleton.mp he]
    exact ⟨rfl,rfl⟩

theorem wp_checkSlot (hclose : ∀ p uid, ((S.protocol p).onClose uid).Plain)
    (hm : Managed S w h) (d i : ℕ) : wp .lenient (S.checkSlot d i)
      (fun _ w' h' => ∃ es, h' = h ++ es ∧ Swept [i] w es w') w h := by
  refine wp_bind (wp_ctl ?_)
  by_cases hi : (w.table.ctl i).flags.inuse = true
  · rw [if_pos hi]
    by_cases hz : (w.table.ctl i).rdwrCount = 0
    · rw [if_pos hz]
      refine wp_bind (wp_ctl ?_)
      by_cases hp : (w.table.ctl i).pendingWork = 0
      · rw [if_pos hp]
        refine wp_mono (wp_close_events hclose hm hi _) ?_
        rintro _ w' h' _ ⟨es,rfl,hother,hgone,hes,hclosed⟩
        exact ⟨es,rfl,.single hother hi hz hes (.inr hclosed) (fun hi' => absurd hi' hgone)⟩
      · rw [if_neg hp]
        refine wp_bind (wp_setCtl (wp_emit (fun _ => ⟨_,rfl,.single ?_ hi hz ?_ ?_ ?_⟩)))
        · intro j hj
          rw [World.ctl_setCtl, if_neg hj]
        · intro e he
          rw [List.mem_singleton.mp he]
          exact ⟨rfl,rfl⟩
        · exact .inl List.mem_cons_self
        · intro _
          rw [World.ctl_setCtl_self]
          exact ⟨rfl,hz⟩
    · rw [if_neg hz]
      refine wp_setCtl ⟨[],(List.append_nil h).symm,?_,nofun,?_,?_,?_⟩
      · intro j hj
        rw [World.ctl_setCtl, if_neg (fun hji => hj (List.mem_singleton.mpr hji))]
      · intro j hj _ _
        rw [List.mem_singleton.mp hj, World.ctl_setCtl_self]
      · intro j hj _ hz'
        rw [List.mem_singleton.mp hj] at hz'
        exact absurd hz' hz
      · intro j hj _
        rw [List.mem_singleton.mp hj, World.ctl_setCtl_self]
        exact ⟨hi,rfl,rfl⟩
  · rw [if_neg hi]
    refine wp_pure (fun _ => ⟨[],(List.append_nil h).symm,fun _ _ => rfl,nofun,?_,?_,?_⟩)
    all_goals
      intro j hj hinuse
      rw [List.mem_singleton.mp hj] at hinuse
      exact absurd hinuse hi

theorem wp_checkSlots (hS : S.Closeless) (hclose : ∀ p uid, ((S.protocol p).onClose uid).Plain)
    (hg : Good S w h) (d : ℕ) (hn : is.Nodup) : wp .lenient (S.checkSlots d is)
      (fun _ w' h' => ∃ es, h' = h ++ es ∧ Swept is w es w') w h := by
  induction is generalizing w h with
  | nil => exact wp_pure (fun _ => ⟨[],(List.append_nil h).symm,.nil w⟩)
  | cons i is ih =>
    rw [List.nodup_cons] at hn
    have hC : Serves .lenient S d .any (fun _ _ => True) := (obeys_of_plain hS hclose).serves
    refine wp_bind (wp_mono (wp_and (hC.checkSlot hg trivial i)
      (wp_checkSlot hclose hg.managed d i) (fun _ => id)) ?_)
    rintro _ w₁ h₁ _ ⟨⟨hg₁,_⟩,es,rfl,hs⟩
    refine wp_mono (ih hg₁ hn.2) ?_
    rintro _ w₂ h₂ _ ⟨fs,rfl,hs'⟩
    exact ⟨es ++ fs,List.append_assoc ..,hs.cons hn.1 hs'⟩

/-- A whole check. -/
theorem swept_of_check (hS : S.Closeless)
    (hclose : ∀ p uid, ((S.protocol p).onClose uid).Plain) (hg : Good S w h)
    (hr : S.connmgrTimeoutCheck d w = (some (),w',es)) :
    Swept (List.range w.table.nextUnusedSlot) w es w' := by
  have hx := wp_checkSlots hS hclose hg d (List.nodup_range (n := w.table.nextUnusedSlot))
  have hr' : S.checkSlots d (List.range w.table.nextUnusedSlot) w = (some (),w',es) := hr
  rw [wp, hr'] at hx
  obtain ⟨fs,hfs,hs⟩ := hx trivial
  obtain rfl : es = fs := List.append_cancel_left hfs
  exact hs

/-- After a check nothing has been counted. -/
theorem Swept.counted (hw : w.table.Wf) (hs : Swept (List.range w.table.nextUnusedSlot) w es w') :
    Counted w' es := by
  intro i hi
  have hmem : i ∈ List.range w.table.nextUnusedSlot := by
    by_contra hno
    have hi' := hi
    rw [World.inuse, hs.other i hno] at hi'
    exact hno (List.mem_range.mpr (hw.used i hi').1)
  rw [(hs.after i hmem hi).2.2, activity_still (fun e he => (hs.event e he).1)]
  rfl

end Sweep

/-! ## The clock -/

/-- `TIMEOUT_INTERVAL`, in milliseconds. -/
def timeoutInterval : ℕ := 5000

/-- The last reading and `next_timeout_check`. -/
structure Clock where
  now : ℕ
  nextTimeoutCheck : ℕ
  deriving DecidableEq

def Clock.start (now : ℕ) : Clock := ⟨now,0⟩

/-- A reading at the top of the loop of `server_internal_work`. -/
def Clock.read (c : Clock) (now : ℕ) : Clock :=
  ⟨now,if c.nextTimeoutCheck ≤ now then now + timeoutInterval else c.nextTimeoutCheck⟩

/-- How long the thread waits for completions. -/
def Clock.wait (c : Clock) : ℕ := c.nextTimeoutCheck - c.now

abbrev Stamped := ℕ × ConnEvent

/-- Events at the time of the last reading before them. -/
def stamp (now : ℕ) (es : List ConnEvent) : List Stamped := es.map (fun e => (now,e))

/-- The server thread reads a clock that does not go back, and checks when the time has come;
everything else happens between two readings. -/
inductive TimedStep (S : Services σ) (d : ℕ) (U : Usage σ) :
    Clock × Site σ → List Stamped → Clock × Site σ → Prop
  | check {c : Clock} {w w' : World σ} {h es : List ConnEvent} {x : List Bool} {now : ℕ} :
      c.now ≤ now → c.nextTimeoutCheck ≤ now →
        S.perform d .timeoutCheck (w.reset x) = (some (),w',es) →
          TimedStep S d U (c,w,h) (stamp now es) (c.read now,w',h ++ es)
  | pass {c : Clock} {t : Site σ} {now : ℕ} : c.now ≤ now → now < c.nextTimeoutCheck →
      TimedStep S d U (c,t) [] (c.read now,t)
  | act {c : Clock} {w w' : World σ} {h es : List ConnEvent} {a : Action σ} {x : List Bool} :
      a ≠ .timeoutCheck → Enabled U w h a → S.perform d a (w.reset x) = (some (),w',es) →
        TimedStep S d U (c,w,h) (stamp c.now es) (c,w',h ++ es)

/-- The runs of a server from the time it was started. -/
def TimedRun (S : Services σ) (d : ℕ) (U : Usage σ) (q : σ) (t₀ : ℕ) :
    List Stamped → Clock × Site σ → Prop :=
  Run (TimedStep S d U) (.start t₀,World.initial q,[])

/-- The log is split at the last check. The clock says when that was. -/
structure Dated (old seg : List Stamped) (c : Clock) (w : World σ) (h : List ConnEvent) :
    Prop where
  events : (old ++ seg).map Prod.snd = h
  before : ∀ p ∈ old, p.1 + timeoutInterval ≤ c.nextTimeoutCheck
  since : ∀ p ∈ seg, c.nextTimeoutCheck ≤ p.1 + timeoutInterval
  past : ∀ p ∈ old ++ seg, p.1 ≤ c.now
  next : c.nextTimeoutCheck ≤ c.now + timeoutInterval
  counted : Counted w (seg.map Prod.snd)

section Clock
variable {S : Services σ} {U : Usage σ} {w w' : World σ} {h es : List ConnEvent} {d t₀ now : ℕ}
  {q : σ} {c c' : Clock} {log : List Stamped} {x : List Bool} {i : ℕ}

/-- The thread waits for some time, and not longer than until the next check. -/
theorem Clock.wait_read (hn : c.nextTimeoutCheck ≤ c.now + timeoutInterval) (hnow : c.now ≤ now) :
    0 < (c.read now).wait ∧ (c.read now).wait ≤ timeoutInterval := by
  rw [Clock.wait, Clock.read, timeoutInterval] at *
  dsimp only
  split <;> omega

theorem stamp_snd (now : ℕ) (es : List ConnEvent) : (stamp now es).map Prod.snd = es := by
  rw [stamp, List.map_map]
  exact List.map_id es

theorem stamp_fst {p : Stamped} (hp : p ∈ stamp now es) : p.1 = now := by
  obtain ⟨e,_,rfl⟩ := List.mem_map.mp hp
  rfl

/-- A timed run is a run. -/
theorem TimedRun.reachable (hr : TimedRun S d U q t₀ log (c,w,h)) : Reachable S d U q w h := by
  refine hr.invariant (I := fun s => Reachable S d U q s.2.1 s.2.2) ⟨[],.start⟩ ?_
  rintro s fs t ⟨gs,hrun⟩ hs
  cases hs with
  | check _ _ hp => exact ⟨_,hrun.step (.act (a := .timeoutCheck) trivial hp)⟩
  | pass => exact ⟨gs,hrun⟩
  | act _ he hp => exact ⟨_,hrun.step (.act he hp)⟩

theorem Counted.reset {seg : List ConnEvent} (hc : Counted w seg) (x : List Bool) :
    Counted (w.reset x) seg := hc

/-- A timed run goes on with a check. -/
theorem TimedRun.check {t : Site σ} (hr : TimedRun S d U q t₀ log (c,t)) (hnow : c.now ≤ now)
    (hdue : c.nextTimeoutCheck ≤ now) (x : List Bool)
    (hsome : (S.perform d .timeoutCheck (t.1.reset x)).1 = some ()) :
    TimedRun S d U q t₀ (log ++ stamp now (S.perform d .timeoutCheck (t.1.reset x)).2.2)
      (c.read now,S.after d t (.timeoutCheck,x)) :=
  hr.step (.check hnow hdue (Prod.ext hsome rfl))

/-- A timed run goes on with anything else. -/
theorem TimedRun.act {t : Site σ} (hr : TimedRun S d U q t₀ log (c,t)) (a : Action σ × List Bool)
    (hne : a.1 ≠ .timeoutCheck) (he : Enabled U t.1 t.2 a.1)
    (hsome : (S.perform d a.1 (t.1.reset a.2)).1 = some ()) :
    TimedRun S d U q t₀ (log ++ stamp c.now (S.perform d a.1 (t.1.reset a.2)).2.2)
      (c,S.after d t a) :=
  hr.step (.act hne he (Prod.ext hsome rfl))

/-- Everything but a check adds to what has been counted. -/
theorem Counted.act {a : Action σ} {seg : List ConnEvent} (hc : Counted w seg)
    (hm : Managed S w h) (hseg : seg ⊆ h) (ha : a ≠ .timeoutCheck) (he : Enabled U w h a)
    (hr : S.perform d a w = (some (),w',es)) (hm' : Managed S w' (h ++ es)) :
    Counted w' (seg ++ es) := by
  have hquiet : ∀ {y : Mgr σ Unit}, Does Quiet y → y w = (some (),w',es) →
      Counted w' (seg ++ es) := by
    intro y hy hyw
    have hq := hy w
    rw [hyw] at hq
    exact hc.quiet hq hm' (List.subset_append_right _ _)
  cases a with
  | accept svc => exact hc.accept hm hseg hr hm'
  | complete i p err n buf => exact hc.complete hm he.1 hr hm'
  | timeoutCheck => exact absurd rfl ha
  | task uid script => exact hquiet (quiet_exec (quiet_startClose S _) uid script) hr
  | thread q => exact hquiet (y := update (fun w => { w with priv := q })) (quiet_outside (fun _ => rfl)) hr

theorem Dated.step {old seg fs : List Stamped} {u : Clock × Site σ} (hS : S.Closeless)
    (hclose : ∀ p uid, ((S.protocol p).onClose uid).Plain) (hd : Dated old seg c w h)
    (hg : Good S w h) (hg' : Good S u.2.1 u.2.2) (hs : TimedStep S d U (c,w,h) fs u) :
    ∃ old' seg', old ++ seg ++ fs = old' ++ seg' ∧ Dated old' seg' u.1 u.2.1 u.2.2 := by
  have hevents : ∀ now es, ((old ++ seg) ++ stamp now es).map Prod.snd = h ++ es := by
    intro now es
    rw [List.map_append, hd.events, stamp_snd]
  cases hs with
  | @check _ _ w' _ es x now hnow hdue hp =>
    -- the log so far is older than the check, what the check does belongs to what follows
    have hread : (c.read now).nextTimeoutCheck = now + timeoutInterval := if_pos hdue
    have hsw := swept_of_check hS hclose (hg.congr rfl rfl rfl : Good S (w.reset x) h) hp
    refine ⟨old ++ seg,stamp now es,rfl,hevents _ _,?_,?_,?_,?_,?_⟩
    · intro p hm
      have := hd.past p hm
      rw [hread]
      omega
    · intro p hm
      exact Nat.le_of_eq (hread.trans (by rw [stamp_fst hm]))
    · intro p hm
      show p.1 ≤ now
      rcases List.mem_append.mp hm with hm | hm
      · exact Nat.le_trans (hd.past p hm) hnow
      · exact Nat.le_of_eq (stamp_fst hm)
    · exact Nat.le_of_eq hread
    · rw [stamp_snd]
      exact hsw.counted (w := w.reset x) hg.managed.kept.wf
  | @pass _ _ now hnow hlt =>
    have hread : c.read now = ⟨now,c.nextTimeoutCheck⟩ := by
      rw [Clock.read, if_neg (by omega)]
    refine ⟨old,seg,List.append_nil _,?_⟩
    rw [hread]
    refine ⟨hd.events,hd.before,hd.since,fun p hm => Nat.le_trans (hd.past p hm) hnow,?_,hd.counted⟩
    have := hd.next
    show c.nextTimeoutCheck ≤ now + timeoutInterval
    omega
  | @act _ _ w' _ es a x ha he hp =>
    refine ⟨old,seg ++ stamp c.now es,List.append_assoc ..,?_,hd.before,?_,?_,hd.next,?_⟩
    · rw [← List.append_assoc]
      exact hevents _ _
    · refine List.forall_mem_append.mpr ⟨hd.since,fun p hm => ?_⟩
      rw [stamp_fst hm]
      exact hd.next
    · rw [← List.append_assoc]
      exact List.forall_mem_append.mpr ⟨hd.past,fun p hm => Nat.le_of_eq (stamp_fst hm)⟩
    · rw [List.map_append, stamp_snd]
      refine (hd.counted.reset x).act (hg.congr rfl rfl rfl : Good S (w.reset x) h).managed ?_ ha
        (he.reset x) hp hg'.managed
      rw [← hd.events, List.map_append]
      exact List.subset_append_right _ _

theorem TimedRun.dated (hS : S.Closeless) (hclose : ∀ p uid, ((S.protocol p).onClose uid).Plain)
    (hr : TimedRun S d U q t₀ log (c,w,h)) :
    ∃ old seg, log = old ++ seg ∧ Dated old seg c w h := by
  suffices hall : ∀ {log : List Stamped} {u : Clock × Site σ}, TimedRun S d U q t₀ log u →
      ∃ old seg, log = old ++ seg ∧ Dated old seg u.1 u.2.1 u.2.2 by exact hall hr
  intro log u hr
  induction hr with
  | start =>
    refine ⟨[],[],rfl,rfl,nofun,nofun,nofun,Nat.zero_le _,fun i hi => by cases hi⟩
  | @step log fs u v hrun hs ih =>
    obtain ⟨old,seg,rfl,hd⟩ := ih
    have hg := good_of_plain hS hclose (TimedRun.reachable hrun)
    have hg' := good_of_plain hS hclose (TimedRun.reachable (hrun.step hs))
    exact hd.step hS hclose hg hg' hs

/-- A connection has been active at some time of a kind. -/
def ActiveIn (s : ℕ) (log : List Stamped) (p : ℕ → Prop) : Prop :=
  ∃ t e, (t,e) ∈ log ∧ e.socket = s ∧ e.active = true ∧ p t

end Clock

/-- A client that connects and says nothing is still there after five seconds. -/
def silent : List (Action Unit × List Bool) :=
  [(.timeoutCheck,[]),(.accept 0,[true]),(.timeoutCheck,[])]

def silentLog : List Stamped := [(100,.accepted 0 65536 0),(100,.started 0 .readLength)]

theorem silent_timedRun : TimedRun (onlyProtocol answering) 0 .any () 100 silentLog
    (⟨5100,10100⟩,(onlyProtocol answering).play 0 silent ()) := by
  have h₁ : TimedRun (onlyProtocol answering) 0 .any () 100 []
      (⟨100,5100⟩,(onlyProtocol answering).play 0 (silent.take 1) ()) :=
    TimedRun.check .start (Nat.le_refl 100) (Nat.zero_le 100) [] rfl
  have h₂ : TimedRun (onlyProtocol answering) 0 .any () 100 silentLog
      (⟨100,5100⟩,(onlyProtocol answering).play 0 (silent.take 2) ()) :=
    TimedRun.act h₁ (.accept 0,[true]) nofun (fun _ _ _ => id) rfl
  exact TimedRun.check h₂ (show 100 ≤ 5100 by decide) (Nat.le_refl 5100) [] rfl

end Kaplar.Server
