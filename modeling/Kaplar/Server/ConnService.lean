import Kaplar.Foundation.Effect
import Kaplar.Server.ConnReentry

/-! # The service of a connection

A connection without a protocol is kept with the service it was accepted on. Userdata is
changed by scripts only, and a script runs in a callback or in a task with a uid that a
callback was given; both come after a protocol has been assigned.
-/
namespace Kaplar.Server
open Program Execution
variable {σ α β : Type} {S : Services σ} {w w' : World σ} {h es : List ConnEvent} {i d : ℕ}

/-! ## The effect of the manager on its slots -/

/-- A callback was given a uid of a slot. -/
def Spoken (i : ℕ) (es : List ConnEvent) : Prop :=
  ∃ s uid k, .called s uid k ∈ es ∧ (slotOf uid).toNat = i

/-- No socket changes, and userdata in a slot of its own or after a callback. -/
structure Effect (own : ℕ → Prop) (w : World σ) (es : List ConnEvent) (w' : World σ) : Prop where
  nextSocket : w'.nextSocket = w.nextSocket
  socket : ∀ i, (w'.table.ctl i).s = (w.table.ctl i).s
  udata : ∀ i, (w'.table.ctl i).udata = (w.table.ctl i).udata ∨ own i ∨ Spoken i es

/-- The effect of scripts and closings, which assign no protocol. -/
structure CallEffect (own : ℕ → Prop) (w : World σ) (es : List ConnEvent) (w' : World σ) : Prop
    extends Effect own w es w' where
  proto : ∀ i, (w'.table.ctl i).proto = (w.table.ctl i).proto ∨ (w'.table.ctl i).proto = none

/-- No slot is its own. -/
def noSlots (_ : ℕ) : Prop := False

section Effect
variable {own own' : ℕ → Prop}

theorem Spoken.append_left {fs : List ConnEvent} (hs : Spoken i es) : Spoken i (es ++ fs) := by
  obtain ⟨s,uid,k,hm,hi⟩ := hs
  exact ⟨s,uid,k,List.mem_append_left fs hm,hi⟩

theorem Spoken.append_right {fs : List ConnEvent} (hs : Spoken i fs) : Spoken i (es ++ fs) := by
  obtain ⟨s,uid,k,hm,hi⟩ := hs
  exact ⟨s,uid,k,List.mem_append_right es hm,hi⟩

theorem composes_effect (own : ℕ → Prop) : Composes (Effect (σ := σ) own) := by
  refine ⟨fun w => ⟨rfl,fun _ => rfl,fun _ => .inl rfl⟩,?_⟩
  intro w w' w'' es fs he hf
  refine ⟨hf.nextSocket.trans he.nextSocket,fun i => (hf.socket i).trans (he.socket i),?_⟩
  intro i
  rcases hf.udata i with hsame | hown | hs
  · rw [hsame]
    exact (he.udata i).imp_right (Or.imp_right Spoken.append_left)
  · exact .inr (.inl hown)
  · exact .inr (.inr hs.append_right)

theorem composes_callEffect (own : ℕ → Prop) : Composes (CallEffect (σ := σ) own) := by
  refine ⟨fun w => ⟨(composes_effect own).refl w,fun _ => .inl rfl⟩,?_⟩
  intro w w' w'' es fs he hf
  refine ⟨(composes_effect own).trans he.toEffect hf.toEffect,?_⟩
  intro i
  rcases hf.proto i with hsame | hnone
  · rw [hsame]
    exact he.proto i
  · exact .inr hnone

theorem Effect.mono (hown : ∀ i, own i → own' i) (he : Effect own w es w') :
    Effect own' w es w' :=
  ⟨he.nextSocket,he.socket,fun i => (he.udata i).imp_right (Or.imp_left (hown i))⟩

theorem CallEffect.mono (hown : ∀ i, own i → own' i) (he : CallEffect own w es w') :
    CallEffect own' w es w' := ⟨he.toEffect.mono hown,he.proto⟩

/-- Events alone. -/
theorem callEffect_emit (e : ConnEvent) (w : World σ) : CallEffect own w [e] w :=
  ⟨⟨rfl,fun _ => rfl,fun _ => .inl rfl⟩,fun _ => .inl rfl⟩

theorem effect_setCtl {f : ConnCtl → ConnCtl} (hs : ∀ c, (f c).s = c.s)
    (hu : ∀ c, (f c).udata = c.udata ∨ own i) (w : World σ) : Effect own w [] (w.setCtl i f) := by
  refine ⟨rfl,?_,?_⟩
  · intro j
    rw [World.ctl_setCtl]
    split
    case isTrue hj => rw [hs, hj]
    case isFalse => rfl
  · intro j
    rw [World.ctl_setCtl]
    split
    case isTrue hj =>
      subst hj
      exact (hu _).imp_right .inl
    case isFalse => exact .inl rfl

theorem callEffect_setCtl {f : ConnCtl → ConnCtl} (hs : ∀ c, (f c).s = c.s)
    (hu : ∀ c, (f c).udata = c.udata ∨ own i)
    (hp : ∀ c, (f c).proto = c.proto ∨ (f c).proto = none) (w : World σ) :
    CallEffect own w [] (w.setCtl i f) := by
  refine ⟨effect_setCtl hs hu w,?_⟩
  intro j
  rw [World.ctl_setCtl]
  split
  case isTrue hj => exact hj ▸ hp _
  case isFalse => exact .inl rfl

/-- Flags, counts and buffers are no business of the protocols. -/
theorem does_setCtl {f : ConnCtl → ConnCtl}
    (hf : ∀ c, (f c).s = c.s ∧ (f c).udata = c.udata ∧ (f c).proto = c.proto) :
    Does (CallEffect (σ := σ) own) (setCtl i f) :=
  does_update (callEffect_setCtl (fun c => (hf c).1) (fun c => .inl (hf c).2.1)
    (fun c => .inl (hf c).2.2))

/-- Nor is what lies outside of the table. -/
theorem does_outside {f : World σ → World σ}
    (hf : ∀ w, (f w).table = w.table ∧ (f w).nextSocket = w.nextSocket) :
    Does (CallEffect own) (update f : Mgr σ Unit) := by
  refine does_update (fun w => ?_)
  obtain ⟨ht,hn⟩ := hf w
  refine ⟨⟨hn,fun i => ?_,fun i => .inl ?_⟩,fun i => .inl ?_⟩ <;> rw [ht]

theorem does_ctl : Does (CallEffect own) (ctl i : Mgr σ ConnCtl) :=
  (does_get (composes_callEffect own)).bind (composes_callEffect own)
    (fun _ => does_pure (composes_callEffect own) _)

end Effect

/-! ## Calls -/

section Calls
variable {own : ℕ → Prop}

/-- The way on after a part of a program that makes calls. -/
theorem does_bind {x : Mgr σ α} {f : α → Mgr σ β} (hx : Does (CallEffect own) x)
    (hf : ∀ a, Does (CallEffect own) (f a)) : Does (CallEffect own) (x >>= f) :=
  hx.bind (composes_callEffect own) hf

theorem does_return (a : α) : Does (CallEffect own) (pure a : Mgr σ α) :=
  does_pure (composes_callEffect own) a

theorem does_event (e : ConnEvent) : Does (CallEffect own) (emit e : Mgr σ Unit) :=
  does_emit (callEffect_emit e)

theorem does_startOp (op : Op) : Does (CallEffect own) (startOp i op : Mgr σ Bool) := by
  refine does_bind (does_get (composes_callEffect own)) (fun w => ?_)
  refine does_bind (does_outside (fun _ => ⟨rfl,rfl⟩)) (fun _ => .ite ?_ (does_return false))
  exact does_bind (does_outside (fun _ => ⟨rfl,rfl⟩))
    (fun _ => does_bind (does_event _) (fun _ => does_return true))

theorem does_startRead (op : Op) :
    Does (CallEffect own) (internalStartAsyncRead i op : Mgr σ Bool) := by
  refine does_bind (does_startOp op) (fun _ => .ite ?_ (does_return false))
  exact does_bind (does_setCtl (fun _ => ⟨rfl,rfl,rfl⟩)) (fun _ => does_return true)

theorem does_startWrite : Does (CallEffect own) (internalStartAsyncWrite i : Mgr σ Bool) := by
  refine does_bind does_ctl (fun c => ?_)
  refine does_bind (does_startOp _) (fun _ => .ite ?_ (does_return false))
  exact does_bind (does_setCtl (fun _ => ⟨rfl,rfl,rfl⟩)) (fun _ => does_return true)

theorem does_tries {start : Mgr σ Bool} (hs : Does (CallEffect own) start) (n : ℕ) :
    Does (CallEffect own) (tries n start) := by
  induction n with
  | zero => exact does_return false
  | succ n ih => exact does_bind hs (fun _ => .ite (does_return true) ih)

/-- A script changes the userdata of the slot its uid names. -/
theorem does_exec {close : ℕ → Bool → Mgr σ Unit} {uid : UInt32}
    (hown : own (slotOf uid).toNat) (hc : ∀ i abort, Does (CallEffect own) (close i abort))
    (script : Script σ α) : Does (CallEffect own) (script.exec close uid) := by
  induction script with
  | ret a => exact does_return a
  | fault =>
    exact does_bind does_ctl (fun _ => does_bind (does_event _)
      (fun _ => does_crash (composes_callEffect own)))
  | load k ih => exact does_bind (does_get (composes_callEffect own)) (fun w => ih w.priv)
  | store p k ih => exact does_bind (does_outside (fun _ => ⟨rfl,rfl⟩)) (fun _ => ih)
  | userdata k ih =>
    exact does_bind (does_bind does_ctl (fun _ => .ite (does_return _) (does_return _))) ih
  | setUserdata v k ih =>
    refine does_bind (does_bind does_ctl (fun _ => .ite ?_ (does_return _))) (fun _ => ih)
    exact does_update (callEffect_setCtl (fun _ => rfl) (fun _ => .inr hown) (fun _ => .inl rfl))
  | send data len k ih =>
    refine does_bind (does_bind does_ctl (fun _ => .ite (.ite (does_return _) ?_) (does_return _))) ih
    exact does_bind (does_setCtl (fun _ => ⟨rfl,rfl,rfl⟩)) (fun _ => does_startWrite)
  | close abort k ih =>
    refine does_bind (does_bind does_ctl (fun _ => .ite ?_ (does_return _))) (fun _ => ih)
    exact does_bind (does_event _) (fun _ => hc _ abort)

theorem does_script {close : ℕ → Bool → Mgr σ Unit}
    (hc : ∀ i abort, Does (CallEffect noSlots) (close i abort)) (uid : UInt32)
    (script : Script σ α) : Does (CallEffect (Eq (slotOf uid).toNat)) (script.exec close uid) := by
  refine does_exec rfl (fun i abort => ?_) script
  exact (hc i abort).mono (CallEffect.mono (fun _ => False.elim))

/-- A callback is given the uid whose slot it works on. -/
theorem does_called (s : ℕ) (uid : UInt32) (k : Callback) {x : Mgr σ α}
    (hx : Does (CallEffect (Eq (slotOf uid).toNat)) x) :
    Does (CallEffect noSlots) (emit (.called s uid k) >>= fun _ => x) := by
  refine hx.emit (fun {w es w'} he => ⟨⟨he.nextSocket,he.socket,fun i => ?_⟩,he.proto⟩)
  rcases he.udata i with hsame | hi | ⟨s',uid',k',hm,hi⟩
  · exact .inl hsame
  · exact .inr (.inr ⟨s,uid,k,List.mem_cons_self,hi⟩)
  · exact .inr (.inr ⟨s',uid',k',List.mem_cons_of_mem _ hm,hi⟩)

theorem does_free : Does (CallEffect own)
    (update (fun w => { w with table := w.table.internalFree i }) : Mgr σ Unit) := by
  refine does_update (fun w => ?_)
  have hctl : ∀ j, ((w.table.internalFree i).ctl j).s = (w.table.ctl j).s ∧
      ((w.table.internalFree i).ctl j).udata = (w.table.ctl j).udata ∧
        ((w.table.internalFree i).ctl j).proto = (w.table.ctl j).proto := by
    intro j
    rw [ConnTable.internalFree]
    dsimp only
    rw [ConnTable.ctl_setCtl]
    split
    case isTrue hj => exact hj ▸ ⟨rfl,rfl,rfl⟩
    case isFalse => exact ⟨rfl,rfl,rfl⟩
  exact ⟨⟨rfl,fun j => (hctl j).1,fun j => .inl (hctl j).2.1⟩,fun j => .inl (hctl j).2.2⟩

theorem does_closeOperation {close : ℕ → Bool → Mgr σ Unit}
    (hc : ∀ i abort, Does (CallEffect noSlots) (close i abort)) (i : ℕ) :
    Does (CallEffect noSlots) (S.internalCloseOperation close i) := by
  have hdispatch : Does (CallEffect noSlots) (S.internalDispatchOnClose close i) := by
    refine does_bind does_ctl (fun c => ?_)
    cases c.proto with
    | none => exact does_return ()
    | some p =>
      refine does_called c.s c.uid .close (does_bind (does_script hc c.uid _) (fun _ => ?_))
      exact does_update (callEffect_setCtl (fun _ => rfl) (fun _ => .inl rfl) (fun _ => .inr rfl))
  refine does_bind hdispatch (fun _ => does_bind does_ctl (fun c => does_bind (does_event _) (fun _ => ?_)))
  exact does_bind does_free (fun _ => does_event _)

theorem does_startClose (S : Services σ) (d i : ℕ) (abort : Bool) :
    Does (CallEffect noSlots) (S.internalStartCloseOperation d i abort) := by
  induction d generalizing i abort with
  | zero => exact does_crash (composes_callEffect noSlots)
  | succ d ih =>
    refine does_bind does_ctl (fun c => .ite (does_closeOperation ih i) ?_)
    exact does_bind (does_setCtl (fun _ => ⟨rfl,rfl,rfl⟩)) (fun _ => does_event _)

theorem does_callback (S : Services σ) (d i : ℕ) (k : Callback) (body : UInt32 → Script σ α) :
    Does (CallEffect noSlots) (S.callback d i k body) :=
  does_bind does_ctl (fun c => does_called c.s c.uid k
    (does_script (does_startClose S (d + 1)) c.uid (body c.uid)))

theorem does_onAssign (S : Services σ) (d i p : ℕ) :
    Does (CallEffect noSlots) (S.onAssignProtocol d i p) :=
  does_bind does_ctl (fun _ => does_bind (does_callback S d i .assign _)
    (fun _ => does_bind (does_event _) (fun _ => does_return _)))

theorem does_notify (S : Services σ) (d i : ℕ) (k : Callback)
    (body : Protocol σ → UInt32 → Script σ Status) :
    Does (CallEffect noSlots) (S.notify d i k body) := by
  refine does_bind does_ctl (fun c => ?_)
  cases c.proto with
  | none => exact does_crash (composes_callEffect noSlots)
  | some p =>
    exact does_bind (does_callback S d i k _) (fun _ => does_bind (does_event _) (fun _ => does_return _))

theorem does_dispatchMessage (S : Services σ) (d i : ℕ) (data : List UInt8) :
    Does (CallEffect noSlots) (S.dispatchMessage d i data) := by
  refine does_bind does_ctl (fun c => .ite (does_notify S d i _ _) ?_)
  exact does_bind (does_setCtl (fun _ => ⟨rfl,rfl,rfl⟩)) (fun _ => does_notify S d i _ _)

theorem does_asyncRead (S : Services σ) (d i : ℕ) (op : Op) :
    Does (CallEffect noSlots) (S.internalAsyncRead d i op) :=
  does_bind (does_tries (does_startRead op) _)
    (fun _ => .ite (does_return ()) (does_startClose S _ i true))

theorem does_asyncWrite (S : Services σ) (d i : ℕ) :
    Does (CallEffect noSlots) (S.internalAsyncWrite d i) :=
  does_bind (does_tries does_startWrite _)
    (fun _ => .ite (does_return ()) (does_startClose S _ i true))

end Calls

/-! ## Handlers -/

section Handlers

theorem effect_of_calls {x : Mgr σ α} (hx : Does (CallEffect noSlots) x) :
    Does (Effect noSlots) x := hx.mono CallEffect.toEffect

/-- The way on after a part of a handler. -/
theorem handles_bind {x : Mgr σ α} {f : α → Mgr σ β} (hx : Does (CallEffect noSlots) x)
    (hf : ∀ a, Does (Effect noSlots) (f a)) : Does (Effect noSlots) (x >>= f) :=
  (effect_of_calls hx).bind (composes_effect noSlots) hf

/-- A protocol is marked and asked. -/
theorem handles_assign (S : Services σ) (d i p : ℕ) {f : Bool → Mgr σ α}
    (hf : ∀ ok, Does (CallEffect noSlots) (f ok)) : Does (Effect noSlots) (do
      setCtl i (fun c => { c with proto := some p })
      let ok ← S.onAssignProtocol d i p
      f ok) := by
  have hset : Does (Effect (σ := σ) noSlots) (setCtl i (fun c => { c with proto := some p })) :=
    does_update (effect_setCtl (fun _ => rfl) (fun _ => .inl rfl))
  exact hset.bind (composes_effect noSlots)
    (fun _ => effect_of_calls (does_bind (does_onAssign S d i p) hf))

theorem handles_connect (S : Services σ) (d i : ℕ) :
    Does (Effect noSlots) (S.internalDispatchOnConnect d i) := by
  refine handles_bind does_ctl (fun c => ?_)
  cases c.udata with
  | service svc =>
    refine .ite ?_ (effect_of_calls (does_return _))
    exact handles_assign S d i _ (fun _ => .ite (does_notify S d i _ _) (does_return _))
  | _ => exact effect_of_calls (does_crash (composes_callEffect noSlots))

theorem handles_message (S : Services σ) (d i : ℕ) (data : List UInt8) :
    Does (Effect noSlots) (S.internalDispatchOnRecvMessage d i data) := by
  refine handles_bind does_ctl (fun c => ?_)
  cases c.proto with
  | some p => exact effect_of_calls (does_dispatchMessage S d i data)
  | none =>
    cases c.udata with
    | service svc =>
      dsimp only
      cases S.serviceSelectProtocol svc data with
      | none => exact effect_of_calls (does_return _)
      | some p =>
        exact handles_assign S d i p (fun _ => .ite (does_dispatchMessage S d i data) (does_return _))
    | _ => exact effect_of_calls (does_crash (composes_callEffect noSlots))

/-- What a status that is returned to a handler leads to. -/
theorem handles_status (S : Services σ) (d i : ℕ) {x : Mgr σ Status} {ok stop : Mgr σ Unit}
    (hx : Does (Effect noSlots) x) (hok : Does (CallEffect noSlots) ok)
    (hstop : Does (CallEffect noSlots) stop) : Does (Effect noSlots) (do
      match ← x with
      | .ok => ok
      | .stopReading => stop
      | .close => S.internalClose d i
      | .abort => S.internalAbort d i) := by
  refine hx.bind (composes_effect noSlots) (fun st => effect_of_calls ?_)
  cases st with
  | ok => exact hok
  | stopReading => exact hstop
  | close => exact does_startClose S _ i false
  | abort => exact does_startClose S _ i true

/-- The beginning that all completion handlers have in common. -/
theorem handles_completion (S : Services σ) (d i : ℕ) {f : ConnCtl → ConnCtl} {err : Bool}
    {n : ℕ} {retry : ConnCtl → Mgr σ Unit} {x : ConnCtl → Mgr σ Unit}
    (hf : ∀ c, (f c).s = c.s ∧ (f c).udata = c.udata ∧ (f c).proto = c.proto)
    (hr : ∀ c, Does (CallEffect noSlots) (retry c)) (hx : ∀ c, Does (Effect noSlots) (x c)) :
    Does (Effect noSlots) (do
      setCtl i f
      let c ← ctl i
      if c.flags.closing then
        if c.pendingWork = 0 then S.internalFinish d i else pure ()
      else if err then retry c
      else if n = 0 then S.internalAbort d i
      else x c) := by
  refine handles_bind (does_setCtl hf) (fun _ => handles_bind does_ctl (fun c => ?_))
  refine .ite (effect_of_calls (.ite ?_ (does_return ()))) ?_
  · exact does_closeOperation (does_startClose S d) i
  · exact .ite (effect_of_calls (hr c)) (.ite (effect_of_calls (does_startClose S _ i true)) (hx c))

theorem handles_complete (S : Services σ) (d i : ℕ) (p : Pending) (err : Bool) (n : ℕ)
    (buf : List UInt8) : Does (Effect noSlots) (S.complete d i p err n buf) := by
  refine handles_bind (does_outside (fun _ => ⟨rfl,rfl⟩)) (fun _ =>
    handles_bind (does_event _) (fun _ => ?_))
  cases p.op with
  | readLength =>
    refine handles_completion S d i (fun _ => ⟨rfl,rfl,rfl⟩) (fun _ => does_asyncRead S d i _) ?_
    refine fun _ => effect_of_calls (.ite (does_startClose S _ i true) ?_)
    exact does_bind (does_setCtl (fun _ => ⟨rfl,rfl,rfl⟩)) (fun _ => does_asyncRead S d i _)
  | readBody len =>
    refine handles_completion S d i (fun _ => ⟨rfl,rfl,rfl⟩) (fun _ => does_asyncRead S d i _) ?_
    exact fun c => handles_status S d i (handles_message S d i _) (does_asyncRead S d i _)
      (does_return ())
  | write data len =>
    refine handles_completion S d i (fun _ => ⟨rfl,rfl,rfl⟩) (fun _ => does_asyncWrite S d i) ?_
    refine fun _ => handles_bind (does_setCtl (fun _ => ⟨rfl,rfl,rfl⟩)) (fun _ => ?_)
    exact handles_status S d i (effect_of_calls (does_notify S d i _ _)) (does_return ())
      (does_crash (composes_callEffect noSlots))

theorem does_checkSlots (S : Services σ) (d : ℕ) (is : List ℕ) :
    Does (CallEffect noSlots) (S.checkSlots d is) := by
  induction is with
  | nil => exact does_return ()
  | cons i is ih =>
    refine does_bind (does_bind does_ctl (fun c => .ite (.ite ?_ ?_) (does_return ()))) (fun _ => ih)
    · exact does_startClose S _ i true
    · exact does_setCtl (fun _ => ⟨rfl,rfl,rfl⟩)

end Handlers

/-! ## Connections without a protocol -/

/-- A connection without a protocol has the service it was accepted on for userdata, one of
those that are open. -/
def Attended (isOpen : ℕ → Prop) (w : World σ) (h : List ConnEvent) : Prop :=
  ∀ i, w.inuse i → (w.table.ctl i).proto = none → ∃ uid svc, isOpen svc ∧
    (w.table.ctl i).udata = .service svc ∧ .accepted (w.table.ctl i).s uid svc ∈ h

section Lives
variable {sendsFirst : ℕ → Bool} {l : Life} {s s' svc svc' : ℕ} {uid uid' : UInt32}
  {h₁ h₂ : List ConnEvent}

theorem Stage.fresh_of_rank {stage : Stage} (hl : stage.live = true) (hr : stage.rank ≤ 1) :
    stage = .fresh := by
  cases stage with
  | fresh => rfl
  | asking => exact absurd hr (by decide)
  | answered ok => exact absurd hr (Nat.not_le_of_lt (Nat.le_of_ble_eq_true rfl))
  | opened heard => cases heard <;> exact absurd hr (by decide)
  | _ => cases hl

theorem Stage.gone_of_rank {stage : Stage} (hr : 8 ≤ stage.rank) : stage = .gone := by
  cases stage with
  | gone => rfl
  | answered ok => exact absurd hr (Nat.not_le_of_lt (Nat.le_of_ble_eq_true rfl))
  | opened heard => cases heard <;> exact absurd hr (by decide)
  | _ => exact absurd hr (by decide)

/-- A connection is accepted before anything else. -/
theorem accepted_notMem (hl : life sendsFirst (h₁ ++ .accepted s uid svc :: h₂) = some l) :
    .accepted s' uid' svc' ∉ h₂ := by
  intro hm
  obtain ⟨h₃,h₄,rfl⟩ := List.append_of_mem hm
  obtain ⟨l₁,l₂,_,hn,hrest⟩ := life_split hl
  rw [List.foldlM_append] at hrest
  obtain ⟨l₃,hmid,hrest⟩ := Option.bind_eq_some_iff.mp hrest
  obtain ⟨l₄,hagain,_⟩ := Option.bind_eq_some_iff.mp hrest
  have hle := Life.rank_le_foldlM hmid
  obtain ⟨first,stage,n⟩ := l₁
  obtain ⟨first',stage',n'⟩ := l₃
  cases stage <;> cases hn
  cases stage' <;> cases hagain
  exact absurd hle (Nat.not_succ_le_zero 0)

theorem accepted_unique {h : List ConnEvent} (hl : life sendsFirst h = some l)
    (hm : .accepted s uid svc ∈ h) (hm' : .accepted s' uid' svc' ∈ h) : uid = uid' := by
  obtain ⟨h₁,h₂,rfl⟩ := List.append_of_mem hm
  rcases List.mem_append.mp hm' with hm' | hm'
  · obtain ⟨h₃,h₄,rfl⟩ := List.append_of_mem hm'
    rw [List.append_assoc, List.cons_append] at hl
    exact absurd (List.mem_append_right _ List.mem_cons_self) (accepted_notMem hl)
  · rcases List.mem_cons.mp hm' with he | hm'
    · cases he
      rfl
    · exact absurd hm' (accepted_notMem hl)

/-- No callback is given a connection that is gone. -/
theorem called_notMem {k : Callback} {l₁ : Life} (hl₁ : life sendsFirst h₁ = some l₁)
    (hg : l₁.stage = .gone) (hl : life sendsFirst (h₁ ++ h₂) = some l) :
    .called s uid k ∉ h₂ := by
  intro hm
  obtain ⟨h₃,h₄,rfl⟩ := List.append_of_mem hm
  rw [life_append, hl₁, Option.bind_some, List.foldlM_append] at hl
  obtain ⟨l₃,hmid,hrest⟩ := Option.bind_eq_some_iff.mp hl
  obtain ⟨l₄,hcall,_⟩ := Option.bind_eq_some_iff.mp hrest
  have hle := Life.rank_le_foldlM hmid
  rw [hg] at hle
  have hstage := Stage.gone_of_rank hle
  obtain ⟨first,stage,n⟩ := l₃
  cases hstage
  cases k <;> cases hcall

end Lives

section Attended
variable {own isOpen : ℕ → Prop} {s : ℕ} {uid : UInt32}

/-- A connection that is not gone has a slot. -/
theorem Managed.owner (hm : Managed S w h) (hs : s < w.nextSocket)
    (hl : ∀ l, life S.serviceSendsFirst (history s h) = some l → l.stage ≠ .gone) :
    ∃ i, w.inuse i ∧ (w.table.ctl i).s = s := by
  by_contra hn
  obtain ⟨⟨l,hlife,hgone,_⟩,_⟩ := hm.retired s hs (fun i hi he => hn ⟨i,hi,he⟩)
  exact hl l hlife hgone

/-- The uid in a slot is the one its connection was accepted with. -/
theorem Managed.accepted_uid (hm : Managed S w h) (hi : w.inuse i) {svc : ℕ}
    (hm' : .accepted (w.table.ctl i).s uid svc ∈ h) : uid = (w.table.ctl i).uid := by
  obtain ⟨svc',ha⟩ := accepted_of_occupant (hm.occupied i hi)
  obtain ⟨l,ho⟩ := hm.conn i hi
  exact accepted_unique ho.life (mem_history.mpr ⟨hm',rfl⟩) (mem_history.mpr ⟨ha,rfl⟩)

theorem Managed.slot_eq (hm : Managed S w h) (hi : w.inuse i) :
    (slotOf (w.table.ctl i).uid).toNat = i := by
  rw [(hm.slot hi).1, (hm.slot hi).2]

/-- A connection without a protocol has called nothing yet. -/
theorem Managed.fresh (hm : Managed S w h) (hi : w.inuse i) (hp : (w.table.ctl i).proto = none) :
    ∃ l, life S.serviceSendsFirst (w.past i h) = some l ∧ l.stage = .fresh := by
  obtain ⟨l,ho⟩ := hm.conn i hi
  rcases ho.linked.fresh_or with hf | ht
  · exact ⟨l,ho.life,hf⟩
  · obtain ⟨p,hproto⟩ := ho.linked.proto ht
    rw [hp] at hproto
    cases hproto

/-- A connection that is fresh was already there, in the same slot, and fresh. -/
theorem Managed.before (hm : Managed S w h) (he : Effect own w es w')
    (hm' : Managed S w' (h ++ es)) (hi : w'.inuse i) (hp : (w'.table.ctl i).proto = none) :
    w.inuse i ∧ (w.table.ctl i).proto = none ∧
      ∀ l, life S.serviceSendsFirst (w.past i h) = some l → l.stage = .fresh := by
  obtain ⟨l',hl',hfresh⟩ := hm'.fresh hi hp
  have hs := he.socket i
  have hlast : (w.table.ctl i).s < w.nextSocket := by
    rw [← hs, ← he.nextSocket]
    exact hm'.sockets i hi
  rw [World.past, hs, history_append] at hl'
  have hrank : ∀ l, life S.serviceSendsFirst (history (w.table.ctl i).s h) = some l →
      l.stage.rank ≤ 1 := by
    intro l hl
    rw [life_append, hl] at hl'
    have hle := Life.rank_le_foldlM hl'
    rw [hfresh] at hle
    exact hle
  obtain ⟨j,hj,hjs⟩ := hm.owner hlast (fun l hl hg => by
    have hle := hrank l hl
    rw [hg] at hle
    exact absurd hle (by decide))
  -- the uid of the connection says which slot it is in
  have hji : j = i := by
    obtain ⟨svc,ha⟩ := accepted_of_occupant (hm.occupied j hj)
    have hu : (w.table.ctl j).uid = (w'.table.ctl i).uid := by
      rw [hjs, ← hs] at ha
      exact hm'.accepted_uid hi (List.mem_append_left es ha)
    rw [← hm.slot_eq hj, hu, hm'.slot_eq hi]
  subst hji
  obtain ⟨l,ho⟩ := hm.conn j hj
  have hstage := Stage.fresh_of_rank ho.linked.live (hrank l ho.life)
  refine ⟨hj,?_,?_⟩
  · have hk := ho.linked
    unfold Linked at hk
    rw [hstage] at hk
    exact hk.1
  · intro l₂ hl₂
    rw [ho.life] at hl₂
    cases hl₂
    exact hstage

/-- A callback is given the connection that is in its slot. -/
theorem Managed.spoken (hm : Managed S w h) (he : Effect own w es w')
    (hm' : Managed S w' (h ++ es)) (hl' : ∀ s, ∃ l, life S.serviceSendsFirst (history s (h ++ es)) =
      some l) (hsp : Spoken i es) :
    ∃ uid k, .called (w.table.ctl i).s uid k ∈ es := by
  obtain ⟨s,uid,k,hc,hu⟩ := hsp
  refine ⟨uid,k,?_⟩
  obtain ⟨svc,ha⟩ := hm'.named s uid k (List.mem_append_right h hc)
  have hs : s < w.nextSocket := by
    rw [← he.nextSocket]
    exact hm'.future _ (List.mem_append_right h hc)
  obtain ⟨l',hl'⟩ := hl' s
  obtain ⟨j,hj,rfl⟩ := hm.owner hs (fun l hl hg => by
    have hlate := hl'
    rw [history_append] at hlate
    exact called_notMem hl hg hlate (mem_history.mpr ⟨hc,rfl⟩))
  have huid : uid = (w.table.ctl j).uid := by
    obtain ⟨svc',ha'⟩ := accepted_of_occupant (hm.occupied j hj)
    exact accepted_unique hl' (mem_history.mpr ⟨ha,rfl⟩)
      (mem_history.mpr ⟨List.mem_append_left es ha',rfl⟩)
  have hji : i = j := by rw [← hu, huid, hm.slot_eq hj]
  rwa [hji]

/-- What handlers and tasks do keeps the services of the connections without a protocol. -/
theorem Attended.effect (hm : Managed S w h) (ha : Attended isOpen w h) (he : Effect own w es w')
    (hg' : Good S w' (h ++ es)) (hown : ∀ i, own i → w.inuse i → ∀ l,
      life S.serviceSendsFirst (w.past i h) = some l → l.stage ≠ .fresh) :
    Attended isOpen w' (h ++ es) := by
  intro i hi hp
  have hm' := hg'.managed
  obtain ⟨hi₀,hp₀,hfresh⟩ := hm.before he hm' hi hp
  obtain ⟨uid,svc,hopen,hu,hacc⟩ := ha i hi₀ hp₀
  refine ⟨uid,svc,hopen,?_,?_⟩
  · rcases he.udata i with hsame | hmine | hsp
    · exact hsame.trans hu
    · obtain ⟨l,ho⟩ := hm.conn i hi₀
      exact absurd (hfresh l ho.life) (hown i hmine hi₀ l ho.life)
    · obtain ⟨uid',k,hc⟩ := hm.spoken he hm' hm'.lived hsp
      obtain ⟨l',hl',hfresh'⟩ := hm'.fresh hi hp
      rw [← he.socket i] at hc
      exact absurd hfresh' (stage_of_called hl' (mem_history.mpr ⟨List.mem_append_right h hc,rfl⟩))
  · rw [he.socket i]
    exact List.mem_append_left es hacc

/-- A new connection comes with its service. -/
theorem Attended.opened (ha : Attended isOpen w h) {t : ConnTable}
    (hA : w.table.Allocated i t) {svc : ℕ} (hopen : isOpen svc) :
    Attended isOpen (w.opened i t w.nextSocket svc)
      (h ++ [.accepted w.nextSocket (t.ctl i).uid svc]) := by
  intro j hj hp
  by_cases hji : j = i
  · subst hji
    rw [World.opened, World.ctl_setCtl_self]
    exact ⟨_,svc,hopen,rfl,List.mem_append_right h List.mem_cons_self⟩
  · have hctl : (w.opened i t w.nextSocket svc).table.ctl j = w.table.ctl j := by
      rw [World.opened, World.ctl_setCtl, if_neg hji]
      exact (hA.ctl j).trans (if_neg hji)
    rw [World.inuse, hctl] at hj
    rw [hctl] at hp ⊢
    obtain ⟨uid,svc',hopen',hu,hm⟩ := ha j hj hp
    exact ⟨uid,svc',hopen',hu,List.mem_append_left _ hm⟩

end Attended

/-! ## Steps -/

section Steps
variable {U : Usage σ} {a : Action σ} {isOpen : ℕ → Prop}

theorem wp_accept_effect {t : ConnTable} (halloc : w.table.internalAlloc = some (i,t)) (svc : ℕ) :
    wp .lenient (S.perform d (.accept svc)) (fun _ w' h' => ∃ es,
      h' = (h ++ [.accepted w.nextSocket (t.ctl i).uid svc]) ++ es ∧
        Effect noSlots (w.opened i t w.nextSocket svc) es w') w h := by
  refine wp_bind (wp_get (wp_bind (wp_bind (wp_get ?_))))
  rw [halloc]
  refine wp_bind (wp_update (wp_bind (wp_emit (fun _ => wp_bind (wp_setCtl (wp_pure (fun _ => ?_)))))))
  refine (handles_status S d i (handles_connect S d i) ?_ ?_).wp _
  · exact does_bind (does_startRead _) (fun _ => .ite (does_return ()) (does_startClose S _ i true))
  · exact does_crash (composes_callEffect noSlots)

/-- One action of a server at rest. -/
theorem Attended.perform (ha : Attended isOpen w h) (hg : Good S w h) (he : Enabled U w h a)
    (hopen : ∀ svc, a = .accept svc → isOpen svc) (hp : S.perform d a w = (some (),w',es))
    (hg' : Good S w' (h ++ es)) : Attended isOpen w' (h ++ es) := by
  have heffect : Does (Effect noSlots) (S.perform d a) → Attended isOpen w' (h ++ es) := by
    intro hdoes
    have hw := hdoes w
    rw [hp] at hw
    exact ha.effect hg.managed hw hg' (fun _ => False.elim)
  cases a with
  | accept svc =>
    rcases ConnTable.internalAlloc_cases hg.managed.kept.wf with ⟨hnone,_⟩ | ⟨i,t,hsome,hA⟩
    · rw [accept_crash svc hnone] at hp
      cases hp
    · have hx := wp_accept_effect (S := S) (d := d) (h := h) hsome svc
      rw [wp, hp] at hx
      obtain ⟨es',hes,heff⟩ := hx trivial
      rw [hes] at hg' ⊢
      obtain ⟨hm,_⟩ := hg.managed.accept hsome hA rfl
      exact (ha.opened hA (hopen svc rfl)).effect hm heff hg' (fun _ => False.elim)
  | complete i p err n buf => exact heffect (handles_complete S d i p err n buf)
  | timeoutCheck =>
    refine heffect (effect_of_calls (does_bind (does_get (composes_callEffect _)) (fun w => ?_)))
    exact does_checkSlots S d _
  | task uid script =>
    by_cases hu : (w.table.ctl (slotOf uid).toNat).uid = uid
    · have hw := does_script (does_startClose S (d + 1)) uid script w
      rw [show script.exec (S.internalStartCloseOperation (d + 1)) uid w = _ from hp] at hw
      refine ha.effect hg.managed hw.toEffect hg' ?_
      rintro i rfl _ l hl
      exact (hg.managed.known he.1 hu).2 l hl
    · have hx : wp .lenient (script.exec (S.internalStartCloseOperation (d + 1)) uid) _ w h :=
        wp_exec_stale (fun _ _ _ => trivial) hu script
      rw [wp, show script.exec (S.internalStartCloseOperation (d + 1)) uid w = _ from hp] at hx
      obtain ⟨hh,q,rfl⟩ := hx trivial
      rw [hh]
      exact ha
  | thread q =>
    cases hp
    rw [List.append_nil]
    exact ha

/-- One step of a run with careful callbacks. -/
theorem Attended.step {x : List Bool} (ha : Attended isOpen w h) (hg : Good S w h)
    (he : Enabled U w h a) (hopen : ∀ svc, a = .accept svc → isOpen svc)
    (hp : S.perform d a (w.reset x) = (some (),w',es)) (hc : Careful (h ++ es)) :
    Good S w' (h ++ es) ∧ Attended isOpen w' (h ++ es) := by
  have hserves : Serves Rely.careful S d U (fun _ _ => True) := (obeys_careful S).serves
  have hg' := (hserves.step (t := (w,h)) (.act he hp) (fun _ => ⟨hg,trivial⟩) hc).1
  have hrest : Good S (w.reset x) h ∧ Attended isOpen (w.reset x) h := ⟨hg.congr rfl rfl rfl,ha⟩
  exact ⟨hg',hrest.2.perform hrest.1 (he.reset x) hopen hp hg'⟩

end Steps

end Kaplar.Server
