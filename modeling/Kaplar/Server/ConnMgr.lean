import Kaplar.Foundation.Program
import Kaplar.Server.ConnHistory
import Kaplar.Server.ConnTable

/-! # The connection manager

The completion handlers, the timeout check and the calls the protocols make. Operations
wait in the slot they were started from. A slot is named by its index, as the
handlers hold on to it, and a crash is a null pointer or a place marked unreachable.
-/
namespace Kaplar.Server
open Program

/-- The number of bytes an operation asks for. -/
def Op.requested : Op → ℕ
  | .readLength => 2
  | .readBody len => len.toNat
  | .write _ len => len.toNat

/-- How an operation may complete: with an error, with nothing because the peer has closed, or
with all it asked for. -/
inductive Completes (op : Op) : Bool → ℕ → List UInt8 → Prop
  | error (n : ℕ) : Completes op true n []
  | closed : Completes op false 0 []
  | read {buf : List UInt8} : op.isRead = true → buf.length = op.requested →
      Completes op false op.requested buf
  | write : op.isWrite = true → Completes op false op.requested []

section Completes
variable {op : Op} {err : Bool} {n : ℕ} {buf : List UInt8}

theorem Completes.of_error (hc : Completes op true n buf) : buf = [] := by
  cases hc
  rfl

/-- A read that brings something brings all it asked for. -/
theorem Completes.length (hc : Completes op err n buf) (hop : op.isRead = true) (he : err ≠ true)
    (hn : n ≠ 0) : buf.length = op.requested := by
  cases hc with
  | error => exact absurd rfl he
  | closed => exact absurd rfl hn
  | read _ hl => exact hl
  | write hw =>
    rw [Op.isWrite, hop] at hw
    cases hw

end Completes

/-- An operation that has started, with the socket it has started on. -/
structure Pending where
  s : ℕ
  op : Op
  deriving DecidableEq, Repr

structure World (σ : Type) where
  table : ConnTable
  ops : ℕ → List Pending
  /-- whether the operations tried next do start -/
  starts : List Bool
  nextSocket : ℕ
  /-- what belongs to the protocols -/
  priv : σ

def World.initial {σ : Type} (p : σ) : World σ := ⟨.initial,fun _ => [],[],0,p⟩

abbrev Mgr (σ α : Type) := Prog (World σ) ConnEvent α

/-- The body of a callback or of a server task: what it does with its own connection and
with what belongs to the protocols. `fault` is a crash of its own. -/
inductive Script (σ α : Type) where
  | ret (a : α)
  | fault
  | load (k : σ → Script σ α)
  | store (p : σ) (k : Script σ α)
  /-- `*connection_userdata(c)`, or nothing for a null pointer -/
  | userdata (k : Option Udata → Script σ α)
  | setUserdata (v : Udata) (k : Script σ α)
  | send (data : ℕ) (len : UInt32) (k : Bool → Script σ α)
  /-- `connection_close` or `connection_abort` -/
  | close (abort : Bool) (k : Script σ α)

structure Protocol (σ : Type) where
  sendsFirst : Bool
  identify : List UInt8 → Bool
  onAssignProtocol : UInt32 → Script σ Bool
  onClose : UInt32 → Script σ Unit
  onConnect : UInt32 → Script σ Status
  onWrite : UInt32 → Script σ Status
  onRecvMessage : UInt32 → List UInt8 → Script σ Status
  onRecvFirstMessage : UInt32 → List UInt8 → Script σ Status

/-- The services with their protocols; every service has at least one. -/
structure Services (σ : Type) where
  protocol : ℕ → Protocol σ
  protocols : ℕ → List ℕ
  nonempty : ∀ svc, protocols svc ≠ []

namespace Services
variable {σ : Type} (S : Services σ)

def serviceFirstProtocol (svc : ℕ) : ℕ := (S.protocols svc).head (S.nonempty svc)

def serviceSendsFirst (svc : ℕ) : Bool := (S.protocol (S.serviceFirstProtocol svc)).sendsFirst

def serviceSelectProtocol (svc : ℕ) (data : List UInt8) : Option ℕ :=
  (S.protocols svc).find? (fun p => (S.protocol p).identify data)

end Services

section Primitives
variable {σ : Type}

def World.setCtl (w : World σ) (i : ℕ) (f : ConnCtl → ConnCtl) : World σ :=
  { w with table := w.table.setCtl i f }

def World.setOps (w : World σ) (i : ℕ) (ps : List Pending) : World σ :=
  { w with ops := Function.update w.ops i ps }

def ctl (i : ℕ) : Mgr σ ConnCtl := do
  let w ← get
  pure (w.table.ctl i)

def setCtl (i : ℕ) (f : ConnCtl → ConnCtl) : Mgr σ Unit := update (fun w => w.setCtl i f)

def takeStart (w : World σ) : World σ := { w with starts := w.starts.tail }

/-- `WSARecv` or `WSASend`: whether the operation starts. -/
def startOp (i : ℕ) (op : Op) : Mgr σ Bool := do
  let w ← get
  update takeStart
  if w.starts.headD false then
    let s := (w.table.ctl i).s
    update (fun w => w.setOps i (w.ops i ++ [⟨s,op⟩]))
    emit (.started s op)
    pure true
  else pure false

/-- A start is tried again until it succeeds. -/
def tries : ℕ → Mgr σ Bool → Mgr σ Bool
  | 0, _ => pure false
  | n + 1, start => do
    if ← start then pure true else tries n start

end Primitives

def connInputBufferSize : ℕ := 1024

def connOpRetriesBeforeClosing : ℕ := 5

section Starts
variable {σ : Type}

def internalStartAsyncRead (i : ℕ) (op : Op) : Mgr σ Bool := do
  if ← startOp i op then
    setCtl i (fun c => { c with pendingWork := c.pendingWork + 1 })
    pure true
  else pure false

def internalStartAsyncWrite (i : ℕ) : Mgr σ Bool := do
  let c ← ctl i
  if ← startOp i (.write c.outputData c.outputLen) then
    setCtl i (fun c => { c with
      flags := { c.flags with outputInProgress := true }, pendingWork := c.pendingWork + 1 })
    pure true
  else pure false

end Starts

section Calls
variable {σ α : Type}

def connectionUserdata (uid : UInt32) : Mgr σ (Option Udata) := do
  let c ← ctl (slotOf uid).toNat
  if c.uid = uid then pure (some c.udata) else pure none

/-- A store through the pointer `connection_userdata` returned, if it returned one. -/
def setConnectionUserdata (uid : UInt32) (v : Udata) : Mgr σ Unit := do
  let c ← ctl (slotOf uid).toNat
  if c.uid = uid then setCtl (slotOf uid).toNat (fun c => { c with udata := v }) else pure ()

def connectionSend (uid : UInt32) (data : ℕ) (len : UInt32) : Mgr σ Bool := do
  let c ← ctl (slotOf uid).toNat
  if c.uid = uid then
    if c.flags.outputInProgress then pure false
    else do
      setCtl (slotOf uid).toNat (fun c => { c with outputData := data, outputLen := len })
      internalStartAsyncWrite (slotOf uid).toNat
  else pure false

/-- `connection_close` and `connection_abort`, with what closes a slot. -/
def connectionClose (close : ℕ → Bool → Mgr σ Unit) (uid : UInt32) (abort : Bool) :
    Mgr σ Unit := do
  let c ← ctl (slotOf uid).toNat
  if c.uid = uid then
    emit (.asked c.s)
    close (slotOf uid).toNat abort
  else pure ()

def Script.exec (close : ℕ → Bool → Mgr σ Unit) (uid : UInt32) : Script σ α → Mgr σ α
  | .ret a => pure a
  | .fault => do
    let c ← ctl (slotOf uid).toNat
    emit (.faulted c.s)
    crash
  | .load k => do
    let w ← get
    (k w.priv).exec close uid
  | .store p k => do
    update (fun w => { w with priv := p })
    k.exec close uid
  | .userdata k => do
    let v ← connectionUserdata uid
    (k v).exec close uid
  | .setUserdata v k => do
    setConnectionUserdata uid v
    k.exec close uid
  | .send data len k => do
    let ok ← connectionSend uid data len
    (k ok).exec close uid
  | .close abort k => do
    connectionClose close uid abort
    k.exec close uid

end Calls

namespace Services
variable {σ : Type} (S : Services σ)

def internalDispatchOnClose (close : ℕ → Bool → Mgr σ Unit) (i : ℕ) : Mgr σ Unit := do
  let c ← ctl i
  match c.proto with
  | none => pure ()
  | some p => do
    emit (.called c.s c.uid .close)
    ((S.protocol p).onClose c.uid).exec close c.uid
    setCtl i (fun c => { c with proto := none })

def internalCloseOperation (close : ℕ → Bool → Mgr σ Unit) (i : ℕ) : Mgr σ Unit := do
  S.internalDispatchOnClose close i
  let c ← ctl i
  emit (.closesocket c.s)
  update (fun w => { w with table := w.table.internalFree i })
  emit (.freed c.s (slotOf c.uid))

/-- `internal_start_close_operation`; a callback that is run while the connection is being
closed may close it again, which ends in a crash when the stack is used up. -/
def internalStartCloseOperation : ℕ → ℕ → Bool → Mgr σ Unit
  | 0, _, _ => crash
  | d + 1, i, abort => do
    let c ← ctl i
    if c.pendingWork = 0 then S.internalCloseOperation (internalStartCloseOperation d) i
    else
      setCtl i (fun c => { c with flags := { c.flags with closing := true } })
      emit (.cancelled c.s abort)

variable (d : ℕ)

def internalClose (i : ℕ) : Mgr σ Unit := S.internalStartCloseOperation (d + 1) i false

def internalAbort (i : ℕ) : Mgr σ Unit := S.internalStartCloseOperation (d + 1) i true

/-- What ends a connection that is already closing. -/
def internalFinish (i : ℕ) : Mgr σ Unit :=
  S.internalCloseOperation (S.internalStartCloseOperation d) i

/-- A callback of the connection in slot `i`. -/
def callback {α : Type} (i : ℕ) (k : Callback) (body : UInt32 → Script σ α) : Mgr σ α := do
  let c ← ctl i
  emit (.called c.s c.uid k)
  (body c.uid).exec (S.internalStartCloseOperation (d + 1)) c.uid

def onAssignProtocol (i p : ℕ) : Mgr σ Bool := do
  let c ← ctl i
  let ok ← S.callback d i .assign (S.protocol p).onAssignProtocol
  emit (.assigned c.s ok)
  pure ok

/-- A callback through the protocol pointer of the connection. -/
def notify (i : ℕ) (k : Callback) (body : Protocol σ → UInt32 → Script σ Status) :
    Mgr σ Status := do
  let c ← ctl i
  match c.proto with
  | none => crash
  | some p => do
    let st ← S.callback d i k (body (S.protocol p))
    emit (.returned c.s k st)
    pure st

def internalDispatchOnConnect (i : ℕ) : Mgr σ Status := do
  let c ← ctl i
  match c.udata with
  | .service svc =>
    if S.serviceSendsFirst svc then
      let p := S.serviceFirstProtocol svc
      setCtl i (fun c => { c with proto := some p })
      if ← S.onAssignProtocol d i p then S.notify d i .connect Protocol.onConnect
      else pure .abort
    else pure .ok
  | _ => crash

def internalDispatchOnWrite (i : ℕ) : Mgr σ Status := S.notify d i .write Protocol.onWrite

/-- The message goes to the callback for the first message or to the one for the others. -/
def dispatchMessage (i : ℕ) (data : List UInt8) : Mgr σ Status := do
  let c ← ctl i
  if c.flags.firstMsg then
    S.notify d i (.recv data) (fun p uid => p.onRecvMessage uid data)
  else
    setCtl i (fun c => { c with flags := { c.flags with firstMsg := true } })
    S.notify d i (.recvFirst data) (fun p uid => p.onRecvFirstMessage uid data)

def internalDispatchOnRecvMessage (i : ℕ) (data : List UInt8) : Mgr σ Status := do
  let c ← ctl i
  match c.proto with
  | some _ => S.dispatchMessage d i data
  | none => match c.udata with
    | .service svc => match S.serviceSelectProtocol svc data with
      | none => pure .abort
      | some p => do
        setCtl i (fun c => { c with proto := some p })
        if ← S.onAssignProtocol d i p then S.dispatchMessage d i data else pure .abort
    | _ => crash

def internalAsyncRead (i : ℕ) (op : Op) : Mgr σ Unit := do
  if ← tries connOpRetriesBeforeClosing (internalStartAsyncRead i op) then pure ()
  else S.internalAbort d i

def internalAsyncWrite (i : ℕ) : Mgr σ Unit := do
  if ← tries connOpRetriesBeforeClosing (internalStartAsyncWrite i) then pure ()
  else S.internalAbort d i

def internalOnReadLength (i : ℕ) (err : Bool) (transferred : ℕ) (buf : List UInt8) :
    Mgr σ Unit := do
  setCtl i (fun c => { c with pendingWork := c.pendingWork - 1 })
  let c ← ctl i
  if c.flags.closing then
    if c.pendingWork = 0 then S.internalFinish d i else pure ()
  else if err then S.internalAsyncRead d i .readLength
  else if transferred = 0 then S.internalAbort d i
  else
    let bodylen := wordAt buf 0
    if bodylen.toNat > connInputBufferSize ∨ bodylen = 0 then S.internalAbort d i
    else
      setCtl i (fun c => { c with bodylen := bodylen.toUInt32 })
      S.internalAsyncRead d i (.readBody bodylen.toUInt32)

def internalOnReadBody (i : ℕ) (err : Bool) (transferred : ℕ) (buf : List UInt8) :
    Mgr σ Unit := do
  setCtl i (fun c => { c with pendingWork := c.pendingWork - 1, rdwrCount := c.rdwrCount + 1 })
  let c ← ctl i
  if c.flags.closing then
    if c.pendingWork = 0 then S.internalFinish d i else pure ()
  else if err then S.internalAsyncRead d i (.readBody c.bodylen)
  else if transferred = 0 then S.internalAbort d i
  else
    match ← S.internalDispatchOnRecvMessage d i (buf.take c.bodylen.toNat) with
    | .ok => S.internalAsyncRead d i .readLength
    | .stopReading => pure ()
    | .close => S.internalClose d i
    | .abort => S.internalAbort d i

def internalOnWrite (i : ℕ) (err : Bool) (transferred : ℕ) : Mgr σ Unit := do
  setCtl i (fun c => { c with pendingWork := c.pendingWork - 1, rdwrCount := c.rdwrCount + 1 })
  let c ← ctl i
  if c.flags.closing then
    if c.pendingWork = 0 then S.internalFinish d i else pure ()
  else if err then S.internalAsyncWrite d i
  else if transferred = 0 then S.internalAbort d i
  else
    setCtl i (fun c => { c with flags := { c.flags with outputInProgress := false } })
    match ← S.internalDispatchOnWrite d i with
    | .ok => pure ()
    | .stopReading => crash
    | .close => S.internalClose d i
    | .abort => S.internalAbort d i

/-- The completion of an operation: the handler of its kind is called with the error, the
number of bytes transferred and what they have left in the input buffer. -/
def complete (i : ℕ) (p : Pending) (err : Bool) (transferred : ℕ) (buf : List UInt8) :
    Mgr σ Unit := do
  update (fun w => w.setOps i ((w.ops i).erase p))
  emit (.completed p.s p.op buf)
  match p.op with
  | .readLength => S.internalOnReadLength d i err transferred buf
  | .readBody _ => S.internalOnReadBody d i err transferred buf
  | .write _ _ => S.internalOnWrite d i err transferred

/-- One slot of the timeout check. -/
def checkSlot (i : ℕ) : Mgr σ Unit := do
  let c ← ctl i
  if c.flags.inuse then
    if c.rdwrCount = 0 then S.internalAbort d i
    else setCtl i (fun c => { c with rdwrCount := 0 })
  else pure ()

def checkSlots : List ℕ → Mgr σ Unit
  | [] => pure ()
  | i :: is => do
    S.checkSlot d i
    checkSlots is

def connmgrTimeoutCheck : Mgr σ Unit := do
  let w ← get
  S.checkSlots d (List.range w.table.nextUnusedSlot)

/-- The slot a new connection gets; the null pointer of a full table is not checked for. -/
def acceptSlot (s svc : ℕ) : Mgr σ ℕ := do
  let w ← get
  match w.table.internalAlloc with
  | none => crash
  | some (i,t) => do
    update (fun w => { w with table := t, nextSocket := w.nextSocket + 1 })
    emit (.accepted s (t.ctl i).uid svc)
    setCtl i (fun c => { c with
      s := s, rdwrCount := 1, pendingWork := 0, proto := none, udata := .service svc })
    pure i

def connmgrStartConnection (s svc : ℕ) : Mgr σ Unit := do
  let i ← acceptSlot s svc
  match ← S.internalDispatchOnConnect d i with
  | .ok => if ← internalStartAsyncRead i .readLength then pure () else S.internalAbort d i
  | .stopReading => crash
  | .close => S.internalClose d i
  | .abort => S.internalAbort d i

end Services

end Kaplar.Server
