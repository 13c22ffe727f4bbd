import Kaplar.Server.ConnService
import Kaplar.Server.SvcMgr

/-! # Dispatching to registered protocols

The connection manager over the services as they are registered. Where it calls a
callback that is missing anything may happen. The guards that keep it from doing so are
in the registration, long before any connection is made.
-/
namespace Kaplar.Server
open Program Execution
variable {σ α : Type}

/-- What a call through a null pointer does. -/
structure NullCalls (σ : Type) where
  identify : List UInt8 → Mgr σ Bool
  onConnect : UInt32 → Mgr σ Status

/-- A zeroed entry of the array of protocols. -/
def RegProtocol.zero : RegProtocol σ where
  sendsFirst := false
  identify := none
  onAssignProtocol _ := .fault
  onClose _ := .fault
  onConnect := none
  onWrite _ := .fault
  onRecvMessage _ _ := .fault
  onRecvFirstMessage _ _ := .fault

/-- A protocol with something in the place of the callbacks that are missing. -/
def RegProtocol.filled (p : RegProtocol σ) : Protocol σ where
  sendsFirst := p.sendsFirst
  identify := p.identify.getD (fun _ => false)
  onAssignProtocol := p.onAssignProtocol
  onClose := p.onClose
  onConnect := p.onConnect.getD (fun _ => .fault)
  onWrite := p.onWrite
  onRecvMessage := p.onRecvMessage
  onRecvFirstMessage := p.onRecvFirstMessage

/-- `&services[svc].protocols[k]` -/
def protocolPtr (svc k : ℕ) : ℕ := maxServiceProtocols * svc + k

namespace SvcMgr
variable (m : SvcMgr σ)

/-- The protocols of a service; one that is not registered is zeroed. -/
def protocols (svc : ℕ) : List (RegProtocol σ) := ((m.services[svc]?).map Service.protocols).getD []

/-- What a pointer into the array of services points to. -/
def protocolAt (p : ℕ) : RegProtocol σ :=
  ((m.protocols (p / maxServiceProtocols))[p % maxServiceProtocols]?).getD .zero

/-- The services with something in the place of the callbacks that are missing. -/
def filled : Services σ where
  protocol p := (m.protocolAt p).filled
  protocols svc := List.range' (protocolPtr svc 0) (max 1 (m.protocols svc).length)
  nonempty svc := by
    rw [ne_eq, List.range'_eq_nil_iff]
    exact Nat.ne_of_gt (Nat.le_max_left 1 _)

def serviceFirstProtocol (svc : ℕ) : ℕ := protocolPtr svc 0

def serviceSendsFirst (svc : ℕ) : Bool := (m.protocolAt (protocolPtr svc 0)).sendsFirst

variable (null : NullCalls σ)

/-- The loop of `service_select_protocol` from a pointer on. -/
def selectFrom (data : List UInt8) : List (RegProtocol σ) → ℕ → Mgr σ (Option ℕ)
  | [], _ => pure none
  | p :: ps, ptr => do
    let ok ← match p.identify with
      | none => null.identify data
      | some identify => pure (identify data)
    if ok then pure (some ptr) else selectFrom data ps (ptr + 1)

def serviceSelectProtocol (svc : ℕ) (data : List UInt8) : Mgr σ (Option ℕ) :=
  selectFrom null data (m.protocols svc) (protocolPtr svc 0)

variable (d : ℕ)

/-- `c->proto->on_connect(c->uid)` -/
def notifyConnect (i : ℕ) : Mgr σ Status := do
  let c ← ctl i
  match c.proto with
  | none => crash
  | some p => match (m.protocolAt p).onConnect with
    | none => null.onConnect c.uid
    | some onConnect => do
      let st ← m.filled.callback d i .connect onConnect
      emit (.returned c.s .connect st)
      pure st

def internalDispatchOnConnect (i : ℕ) : Mgr σ Status := do
  let c ← ctl i
  match c.udata with
  | .service svc =>
    if m.serviceSendsFirst svc then
      let p := serviceFirstProtocol svc
      setCtl i (fun c => { c with proto := some p })
      if ← m.filled.onAssignProtocol d i p then m.notifyConnect null d i else pure .abort
    else pure .ok
  | _ => crash

def internalDispatchOnRecvMessage (i : ℕ) (data : List UInt8) : Mgr σ Status := do
  let c ← ctl i
  match c.proto with
  | some _ => m.filled.dispatchMessage d i data
  | none => match c.udata with
    | .service svc => match ← m.serviceSelectProtocol null svc data with
      | none => pure .abort
      | some p => do
        setCtl i (fun c => { c with proto := some p })
        if ← m.filled.onAssignProtocol d i p then m.filled.dispatchMessage d i data
        else pure .abort
    | _ => crash

def internalOnReadBody (i : ℕ) (err : Bool) (transferred : ℕ) (buf : List UInt8) :
    Mgr σ Unit := do
  setCtl i (fun c => { c with pendingWork := c.pendingWork - 1, rdwrCount := c.rdwrCount + 1 })
  let c ← ctl i
  if c.flags.closing then
    if c.pendingWork = 0 then m.filled.internalFinish d i else pure ()
  else if err then m.filled.internalAsyncRead d i (.readBody c.bodylen)
  else if transferred = 0 then m.filled.internalAbort d i
  else
    match ← m.internalDispatchOnRecvMessage null d i (buf.take c.bodylen.toNat) with
    | .ok => m.filled.internalAsyncRead d i .readLength
    | .stopReading => pure ()
    | .close => m.filled.internalClose d i
    | .abort => m.filled.internalAbort d i

def complete (i : ℕ) (p : Pending) (err : Bool) (transferred : ℕ) (buf : List UInt8) :
    Mgr σ Unit := do
  update (fun w => w.setOps i ((w.ops i).erase p))
  emit (.completed p.s p.op buf)
  match p.op with
  | .readLength => m.filled.internalOnReadLength d i err transferred buf
  | .readBody _ => m.internalOnReadBody null d i err transferred buf
  | .write _ _ => m.filled.internalOnWrite d i err transferred

def connmgrStartConnection (s svc : ℕ) : Mgr σ Unit := do
  let i ← Services.acceptSlot s svc
  match ← m.internalDispatchOnConnect null d i with
  | .ok => if ← internalStartAsyncRead i .readLength then pure () else m.filled.internalAbort d i
  | .stopReading => crash
  | .close => m.filled.internalClose d i
  | .abort => m.filled.internalAbort d i

def perform : Action σ → Mgr σ Unit
  | .accept svc => do
    let w ← get
    m.connmgrStartConnection null d w.nextSocket svc
  | .complete i p err n buf => m.complete null d i p err n buf
  | a => m.filled.perform d a

end SvcMgr

/-! ## Calls that are guarded -/

namespace SvcMgr
variable {m : SvcMgr σ} {null : NullCalls σ} {w : World σ} {svc i d : ℕ}

theorem protocols_of_registered {service : Service σ} (hs : m.services[svc]? = some service) :
    m.protocols svc = service.protocols := by
  rw [protocols, hs, Option.map_some, Option.getD_some]

/-- The protocols of a service that is not registered are none. -/
theorem protocols_cases (m : SvcMgr σ) (svc : ℕ) : m.protocols svc = [] ∨
    ∃ service, m.services[svc]? = some service ∧ m.protocols svc = service.protocols := by
  cases hs : m.services[svc]? with
  | none =>
    left
    rw [protocols, hs]
    rfl
  | some service => exact .inr ⟨service,rfl,protocols_of_registered hs⟩

theorem Wf.length_le (hm : m.Wf) (svc : ℕ) : (m.protocols svc).length ≤ maxServiceProtocols := by
  rcases m.protocols_cases svc with he | ⟨service,hs,he⟩
  · rw [he]
    exact Nat.zero_le _
  · rw [he]
    exact (hm.services service (List.mem_of_getElem? hs)).bound

/-- A pointer to a protocol of a service points to it. -/
theorem protocolAt_ptr (m : SvcMgr σ) (svc : ℕ) {k : ℕ} (hk : k < maxServiceProtocols) :
    m.protocolAt (protocolPtr svc k) = ((m.protocols svc)[k]?).getD .zero := by
  have hdiv : protocolPtr svc k / maxServiceProtocols = svc := by
    rw [protocolPtr, Nat.mul_add_div (by decide), Nat.div_eq_of_lt hk, Nat.add_zero]
  have hmod : protocolPtr svc k % maxServiceProtocols = k := by
    rw [protocolPtr, Nat.mul_add_mod, Nat.mod_eq_of_lt hk]
  rw [protocolAt, hdiv, hmod]

theorem serviceSendsFirst_eq (m : SvcMgr σ) (svc : ℕ) :
    m.serviceSendsFirst svc = (m.protocols svc).head?.any RegProtocol.sendsFirst := by
  rw [serviceSendsFirst, protocolAt_ptr m svc (by decide)]
  cases m.protocols svc with
  | nil => rfl
  | cons p ps => rfl

theorem filled_firstProtocol (m : SvcMgr σ) (svc : ℕ) :
    m.filled.serviceFirstProtocol svc = serviceFirstProtocol svc := by
  rw [Services.serviceFirstProtocol]
  exact List.head_range' _

theorem filled_sendsFirst (m : SvcMgr σ) (svc : ℕ) :
    m.filled.serviceSendsFirst svc = m.serviceSendsFirst svc := by
  rw [Services.serviceSendsFirst, filled_firstProtocol]
  rfl

/-- A service whose first protocol waits for the client has protocols that identify. -/
theorem Wf.identifies (hm : m.Wf) (hf : m.serviceSendsFirst svc = false) :
    ∀ p ∈ m.protocols svc, p.identify.isSome = true := by
  rw [serviceSendsFirst_eq] at hf
  rcases m.protocols_cases svc with he | ⟨service,hs,he⟩
  · rw [he]
    exact fun _ => nofun
  · rw [he] at hf ⊢
    intro p hp
    have hwf := hm.services service (List.mem_of_getElem? hs)
    have hprovides := hwf.provides p hp
    rw [RegProtocol.Provides, hwf.sendsFirst hf p hp] at hprovides
    exact hprovides

/-- A service that sends first has a protocol to be called on connecting. -/
theorem Wf.connects (hm : m.Wf) (hf : m.serviceSendsFirst svc = true) :
    (m.protocolAt (serviceFirstProtocol svc)).onConnect.isSome = true := by
  rw [serviceSendsFirst_eq] at hf
  rw [serviceFirstProtocol, protocolAt_ptr m svc (by decide)]
  rcases m.protocols_cases svc with he | ⟨service,hs,he⟩
  · rw [he] at hf
    cases hf
  · rw [he] at hf ⊢
    have hwf := hm.services service (List.mem_of_getElem? hs)
    cases hps : service.protocols with
    | nil => exact absurd hps hwf.nonempty
    | cons p ps =>
      have hprovides := hwf.provides p (by rw [hps]; exact List.mem_cons_self)
      rw [hps, List.head?_cons, Option.any_some] at hf
      rw [RegProtocol.Provides, if_pos hf] at hprovides
      exact hprovides

/-! ## Selecting -/

variable {data : List UInt8} {ps : List (RegProtocol σ)}

theorem selectFrom_eq (hp : ∀ p ∈ ps, p.identify.isSome = true) (ptr : ℕ) :
    selectFrom null data ps ptr =
      pure ((ps.findIdx? (fun p => p.identifies data)).map (fun k => ptr + k)) := by
  induction ps generalizing ptr with
  | nil => rfl
  | cons p ps ih =>
    obtain ⟨identify,hsome⟩ := Option.isSome_iff_exists.mp (hp p List.mem_cons_self)
    have hfirst : p.identifies data = identify data := by
      rw [RegProtocol.identifies, hsome, Option.any_some]
    have hrest := ih (fun p' hm => hp p' (List.mem_cons_of_mem p hm)) (ptr + 1)
    have hstep : selectFrom null data (p :: ps) ptr =
        if identify data then pure (some ptr) else selectFrom null data ps (ptr + 1) := by
      rw [selectFrom, hsome]
      rfl
    rw [hstep, hrest, List.findIdx?_cons, hfirst]
    cases identify data with
    | true => rfl
    | false =>
      simp only [Bool.false_eq_true, if_false, Option.map_map]
      congr 2
      funext k
      exact Nat.add_right_comm ptr 1 k

/-- The first protocol that identifies a message is selected. -/
theorem Wf.select (hm : m.Wf) (hf : m.serviceSendsFirst svc = false) (null : NullCalls σ)
    (data : List UInt8) : m.serviceSelectProtocol null svc data =
      pure (((m.protocols svc).findIdx? (fun p => p.identifies data)).map (protocolPtr svc)) :=
  selectFrom_eq (hm.identifies hf) (protocolPtr svc 0)

theorem find_range' {pred : ℕ → Bool} (ptr : ℕ)
    (hp : ∀ k p, ps[k]? = some p → pred (ptr + k) = p.identifies data) :
    (List.range' ptr ps.length).find? pred =
      (ps.findIdx? (fun p => p.identifies data)).map (fun k => ptr + k) := by
  induction ps generalizing ptr with
  | nil => rfl
  | cons p ps ih =>
    have hfirst : pred ptr = p.identifies data := hp 0 p rfl
    have hrest := ih (ptr + 1) (fun k p' hk => by
      rw [Nat.add_assoc, Nat.add_comm 1 k]
      exact hp (k + 1) p' hk)
    rw [List.length_cons, List.range'_succ, List.find?_cons, hrest, List.findIdx?_cons, hfirst]
    cases p.identifies data with
    | true => rfl
    | false =>
      simp only [Bool.false_eq_true, if_false, Option.map_map]
      congr 1
      funext k
      exact Nat.add_right_comm ptr 1 k

/-- So is it where something stands in the place of the missing callbacks. -/
theorem Wf.filled_select (hm : m.Wf) (svc : ℕ) (data : List UInt8) :
    m.filled.serviceSelectProtocol svc data =
      ((m.protocols svc).findIdx? (fun p => p.identifies data)).map (protocolPtr svc) := by
  have hfilled : ∀ p : RegProtocol σ, p.filled.identify data = p.identifies data := by
    intro p
    unfold RegProtocol.filled RegProtocol.identifies
    cases p.identify <;> rfl
  have hptr : ∀ k p, (m.protocols svc)[k]? = some p →
      (m.filled.protocol (protocolPtr svc 0 + k)).identify data = p.identifies data := by
    intro k p hk
    have hlt := Nat.lt_of_lt_of_le (List.getElem?_eq_some_iff.mp hk).1 (hm.length_le svc)
    show (m.protocolAt (protocolPtr svc k)).filled.identify data = _
    rw [protocolAt_ptr m svc hlt, hk, Option.getD_some, hfilled]
  rw [Services.serviceSelectProtocol]
  show (List.range' _ _).find? _ = _
  cases hps : m.protocols svc with
  | nil =>
    show ([protocolPtr svc 0].find? _) = none
    have hzero : (m.filled.protocol (protocolPtr svc 0)).identify data = false := by
      show (m.protocolAt (protocolPtr svc 0)).filled.identify data = false
      rw [protocolAt_ptr m svc (by decide), hps, hfilled]
      rfl
    rw [List.find?_cons, hzero]
    rfl
  | cons p ps =>
    rw [hps] at hptr
    have hmax : max 1 (p :: ps).length = (p :: ps).length :=
      Nat.max_eq_right (Nat.succ_le_succ (Nat.zero_le ps.length))
    rw [hmax]
    exact find_range' _ hptr

/-! ## No call through a null pointer -/

theorem ctl_bind (i : ℕ) (f : ConnCtl → Mgr σ α) (w : World σ) :
    (ctl i >>= f) w = f (w.table.ctl i) w := rfl

theorem setCtl_bind (i : ℕ) (g : ConnCtl → ConnCtl) (f : Unit → Mgr σ α) (w : World σ) :
    (setCtl i g >>= f) w = f () (w.setCtl i g) := rfl

/-- A connection that is asked on connecting is asked by a protocol that can be. -/
theorem notifyConnect_eq {p : ℕ}
    (hp : (w.table.ctl i).proto = some p ∨ (w.table.ctl i).proto = none)
    (hc : (m.protocolAt p).onConnect.isSome = true) :
    m.notifyConnect null d i w = m.filled.notify d i .connect Protocol.onConnect w := by
  obtain ⟨onConnect,hsome⟩ := Option.isSome_iff_exists.mp hc
  rw [notifyConnect, Services.notify, ctl_bind, ctl_bind]
  rcases hp with hp | hp
  · have hfilled : Protocol.onConnect (m.filled.protocol p) = onConnect := by
      show (m.protocolAt p).onConnect.getD _ = onConnect
      rw [hsome, Option.getD_some]
    rw [hp]
    dsimp only
    rw [hsome, hfilled]
  · rw [hp]

/-- Whatever the service, connecting calls nothing that is missing. -/
theorem Wf.connect_eq (hm : m.Wf) (null : NullCalls σ) (d i : ℕ) (w : World σ) :
    m.internalDispatchOnConnect null d i w = m.filled.internalDispatchOnConnect d i w := by
  rw [internalDispatchOnConnect, Services.internalDispatchOnConnect, ctl_bind, ctl_bind]
  cases (w.table.ctl i).udata with
  | service svc =>
    dsimp only
    rw [filled_sendsFirst, filled_firstProtocol]
    cases hf : m.serviceSendsFirst svc with
    | false => rfl
    | true =>
      rw [if_pos rfl, if_pos rfl, setCtl_bind, setCtl_bind]
      refine bind_congr_right (fun ok => ?_)
      cases ok with
      | false => rfl
      | true =>
        refine notifyConnect_eq (p := serviceFirstProtocol svc) ?_ (hm.connects hf)
        have hkept := (does_onAssign m.filled d i (serviceFirstProtocol svc)
          (w.setCtl i (fun c => { c with proto := some (serviceFirstProtocol svc) }))).proto i
        rwa [World.ctl_setCtl_self] at hkept
  | _ => rfl

theorem Wf.message_eq (hm : m.Wf) (null : NullCalls σ)
    (hf : (w.table.ctl i).proto = none → ∀ svc, (w.table.ctl i).udata = .service svc →
      m.serviceSendsFirst svc = false) (data : List UInt8) :
    m.internalDispatchOnRecvMessage null d i data w =
      m.filled.internalDispatchOnRecvMessage d i data w := by
  rw [internalDispatchOnRecvMessage, Services.internalDispatchOnRecvMessage, ctl_bind, ctl_bind]
  cases hp : (w.table.ctl i).proto with
  | some p => rfl
  | none =>
    cases hu : (w.table.ctl i).udata with
    | service svc =>
      dsimp only
      rw [hm.select (hf hp svc hu), hm.filled_select]
      rfl
    | _ => rfl

/-- In a slot at rest only services that wait for the client are left without a protocol. -/
theorem not_sendsFirst {h : List ConnEvent} (hg : Good m.filled w h) (hi : w.inuse i)
    (hp : (w.table.ctl i).proto = none) (hu : (w.table.ctl i).udata = .service svc) :
    m.serviceSendsFirst svc = false := by
  obtain ⟨l,ho⟩ := hg.managed.conn i hi
  obtain ⟨l',hl',hfresh⟩ := hg.managed.fresh hi hp
  rw [ho.life] at hl'
  cases hl'
  have hrest := (hg.settled i hi l ho.life).2
  have hk := ho.linked
  unfold Linked at hk
  rw [hfresh] at hk hrest
  obtain ⟨_,_,_,_,svc',hu',hsends⟩ := hk
  rw [hu] at hu'
  cases hu'
  rw [← filled_sendsFirst, ← hsends]
  exact hrest

theorem Wf.readBody_eq (hm : m.Wf) (null : NullCalls σ)
    (hf : (w.table.ctl i).proto = none → ∀ svc, (w.table.ctl i).udata = .service svc →
      m.serviceSendsFirst svc = false) (d : ℕ) (err : Bool) (n : ℕ) (buf : List UInt8) :
    m.internalOnReadBody null d i err n buf w = m.filled.internalOnReadBody d i err n buf w := by
  rw [internalOnReadBody, Services.internalOnReadBody, setCtl_bind, setCtl_bind, ctl_bind, ctl_bind]
  generalize hw : w.setCtl i _ = w'
  have hself : (w'.table.ctl i).proto = (w.table.ctl i).proto ∧
      (w'.table.ctl i).udata = (w.table.ctl i).udata := by
    rw [← hw, World.ctl_setCtl_self]
    exact ⟨rfl,rfl⟩
  rw [← hself.1, ← hself.2] at hf
  by_cases hc : (w'.table.ctl i).flags.closing = true
  · rw [if_pos hc, if_pos hc]
  by_cases he : err = true
  · rw [if_neg hc, if_neg hc, if_pos he, if_pos he]
  by_cases hn : n = 0
  · rw [if_neg hc, if_neg hc, if_neg he, if_neg he, if_pos hn, if_pos hn]
  · rw [if_neg hc, if_neg hc, if_neg he, if_neg he, if_neg hn, if_neg hn]
    exact bind_congr_left (hm.message_eq null hf _)

/-- A step of a server at rest calls nothing that is missing. -/
theorem Wf.perform_eq {h : List ConnEvent} {U : Usage σ} (hm : m.Wf) (hg : Good m.filled w h)
    {a : Action σ} (ha : Enabled U w h a) (null : NullCalls σ) (d : ℕ) :
    m.perform null d a w = m.filled.perform d a w := by
  cases a with
  | accept svc =>
    refine bind_congr_right (x := get) (fun w => bind_congr_right (fun i => ?_))
    exact bind_congr_left (hm.connect_eq null d i _)
  | complete i p err n buf =>
    have hi : w.inuse i := by
      by_contra hn
      have hp := ha.1
      rw [hg.managed.idle i hn] at hp
      cases hp
    refine bind_congr_right (x := update _) (fun _ => bind_congr_right (x := emit _) (fun _ => ?_))
    cases p.op with
    | readBody len =>
      exact hm.readBody_eq (w := w.setOps i ((w.ops i).erase p)) null
        (fun hp svc hu => not_sendsFirst hg hi hp hu) d err n buf
    | _ => rfl
  | _ => rfl

end SvcMgr

end Kaplar.Server
