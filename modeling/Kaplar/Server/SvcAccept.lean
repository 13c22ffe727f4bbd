import Kaplar.Foundation.Custody
import Kaplar.Foundation.Program
import Mathlib.Data.Int.Notation

/-! # Accepting connections

The sockets the services listen on, and the accept operations they chain: each accept
brings a socket of its own, which becomes that of a new connection. Whether a call of the
OS succeeds is given. An assertion that fails is a crash.
-/
namespace Kaplar.Server
open Program

/-- `struct service` without its protocols. -/
structure Listener where
  /-- nothing for `INVALID_SOCKET` -/
  s : Option ℕ
  closing : Bool
  pendingWork : ℤ
  port : ℤ
  acceptSocket : ℕ
  deriving DecidableEq, Repr

inductive SvcEvent where
  | created (s : ℕ)
  | closesocket (s : ℕ)
  /-- a call of `connmgr_start_connection` -/
  | handed (s : ℕ) (svc : ℕ)
  | listening (s : ℕ) (port : ℤ)
  | accepting (svc s : ℕ)
  /-- `CancelIoEx` of a service that is being closed -/
  | cancelled (svc : ℕ)
  /-- the log says that the service is now out -/
  | out (svc : ℕ)
  deriving DecidableEq, Repr

structure SvcWorld where
  svc : ℕ → Listener
  /-- whether the calls of the OS that come next succeed -/
  answers : List Bool
  nextSocket : ℕ

abbrev SvcProg := Prog SvcWorld SvcEvent

section Primitives

def SvcWorld.setSvc (w : SvcWorld) (i : ℕ) (f : Listener → Listener) : SvcWorld :=
  { w with svc := Function.update w.svc i (f (w.svc i)) }

def service (i : ℕ) : SvcProg Listener := do
  let w ← get
  pure (w.svc i)

def setService (i : ℕ) (f : Listener → Listener) : SvcProg Unit := update (fun w => w.setSvc i f)

/-- A call of the OS: whether it succeeds. -/
def succeeds : SvcProg Bool := do
  let w ← get
  update (fun w => { w with answers := w.answers.tail })
  pure (w.answers.headD false)

/-- `WSASocket` -/
def newSocket : SvcProg (Option ℕ) := do
  if ← succeeds then
    let w ← get
    update (fun w => { w with nextSocket := w.nextSocket + 1 })
    emit (.created w.nextSocket)
    pure (some w.nextSocket)
  else pure none

end Primitives

def maxTriesBeforeReopen : ℕ := 5

/-- A new socket that is bound to the completion port. -/
def internalCreateIocpSocket : SvcProg (Option ℕ) := do
  match ← newSocket with
  | none => pure none
  | some s =>
    if ← succeeds then pure (some s)
    else
      emit (.closesocket s)
      pure none

def serviceStartAsyncAccept (i : ℕ) : SvcProg Bool := do
  match ← internalCreateIocpSocket with
  | none => pure false
  | some s =>
    setService i (fun svc => { svc with acceptSocket := s })
    if ← succeeds then
      emit (.accepting i s)
      setService i (fun svc => { svc with pendingWork := svc.pendingWork + 1 })
      pure true
    else
      emit (.closesocket s)
      pure false

/-- The start is tried until it succeeds. -/
def acceptTries (i : ℕ) : ℕ → SvcProg Bool
  | 0 => pure false
  | n + 1 => do
    if ← serviceStartAsyncAccept i then pure true else acceptTries i n

def internalServiceClose (i : ℕ) : SvcProg Unit := do
  let svc ← service i
  match svc.s with
  | none => crash
  | some s =>
    emit (.closesocket s)
    setService i (fun svc => { svc with s := none, closing := false })

def serviceOpen (i : ℕ) : SvcProg Bool := do
  let svc ← service i
  if svc.s.isSome then pure true
  else match ← internalCreateIocpSocket with
  | none => pure false
  | some s =>
    -- bind, then listen
    if ← succeeds then
      if ← succeeds then
        emit (.listening s svc.port)
        setService i (fun svc => { svc with s := some s })
        if ← serviceStartAsyncAccept i then pure true
        else
          setService i (fun svc => { svc with s := none })
          emit (.closesocket s)
          pure false
      else
        emit (.closesocket s)
        pure false
    else
      emit (.closesocket s)
      pure false

def serviceAsyncAccept (i : ℕ) : SvcProg Unit := do
  let svc ← service i
  if svc.s.isNone then crash
  else if ← acceptTries i maxTriesBeforeReopen then pure ()
  else
    let svc ← service i
    if svc.pendingWork ≠ 0 then pure ()
    else
      internalServiceClose i
      if ← serviceOpen i then pure () else emit (.out i)

def serviceOnAccept (i : ℕ) (err : Bool) : SvcProg Unit := do
  setService i (fun svc => { svc with pendingWork := svc.pendingWork - 1 })
  let svc ← service i
  if svc.closing then
    emit (.closesocket svc.acceptSocket)
    if svc.pendingWork = 0 then internalServiceClose i else pure ()
  else if err then
    emit (.closesocket svc.acceptSocket)
    serviceAsyncAccept i
  else
    emit (.handed svc.acceptSocket i)
    serviceAsyncAccept i

def serviceStartClosing (i : ℕ) : SvcProg Unit := do
  let svc ← service i
  match svc.s with
  | none => crash
  | some _ =>
    if svc.pendingWork = 0 then internalServiceClose i
    else
      setService i (fun svc => { svc with closing := true })
      emit (.cancelled i)

def closeServices : List ℕ → SvcProg Unit
  | [] => pure ()
  | i :: is => do
    internalServiceClose i
    closeServices is

/-- Services are opened in order; when one fails, the ones before it are closed again. -/
def openServices : List ℕ → List ℕ → SvcProg Bool
  | _, [] => pure true
  | opened, i :: is => do
    if ← serviceOpen i then openServices (i :: opened) is
    else
      closeServices opened
      pure false

def svcmgrInit (n : ℕ) : SvcProg Bool := openServices [] (List.range n)

def svcmgrShutdown (n : ℕ) : SvcProg Unit := closeServices (List.range n)

/-! ## Where the sockets are -/

def SvcEvent.made : SvcEvent → Option ℕ
  | .created s => some s
  | _ => none

/-- A socket goes when it is closed, or to the connection manager. -/
def SvcEvent.gone : SvcEvent → Option ℕ
  | .closesocket s | .handed s _ => some s
  | _ => none

/-- The sockets of a service: the one it listens on and that of the outstanding accept. -/
def Listener.sockets (svc : Listener) : List ℕ :=
  svc.s.toList ++ if svc.pendingWork = 0 then [] else [svc.acceptSocket]

/-- Every socket is in one place; the ones at hand are not with a service. -/
structure Sockets (n : ℕ) (hand : List ℕ) (w : SvcWorld) (h : List SvcEvent) : Prop where
  custody : Custody n (h.filterMap SvcEvent.made) (h.filterMap SvcEvent.gone) hand
    (fun i => (w.svc i).sockets)
  older : ∀ s ∈ h.filterMap SvcEvent.made, s < w.nextSocket

/-- Only one service has changed, and it keeps its port. -/
structure Only (i : ℕ) (w w' : SvcWorld) : Prop where
  other : ∀ j, j ≠ i → w'.svc j = w.svc j
  port : (w'.svc i).port = (w.svc i).port

section Sockets
variable {n i s : ℕ} {hand k : List ℕ} {w w' w'' : SvcWorld} {h : List SvcEvent} {e : SvcEvent}
  {f : Listener → Listener}

theorem Only.refl (i : ℕ) (w : SvcWorld) : Only i w w := ⟨fun _ _ => rfl,rfl⟩

theorem Only.trans (ho : Only i w w') (ho' : Only i w' w'') : Only i w w'' :=
  ⟨fun j hj => (ho'.other j hj).trans (ho.other j hj),ho'.port.trans ho.port⟩

theorem SvcWorld.svc_setSvc_self : (w.setSvc i f).svc i = f (w.svc i) := Function.update_self ..

theorem SvcWorld.svc_setSvc_of_ne {j : ℕ} (hj : j ≠ i) : (w.setSvc i f).svc j = w.svc j :=
  Function.update_of_ne hj ..

theorem Only.answered (ho : Only i w w') (x : List Bool) : Only i w { w' with answers := x } :=
  ⟨ho.other,ho.port⟩

theorem Only.set (ho : Only i w w') (hf : (f (w'.svc i)).port = (w'.svc i).port) :
    Only i w (w'.setSvc i f) := by
  refine ⟨fun j hj => ?_,?_⟩
  · rw [SvcWorld.svc_setSvc_of_ne hj, ho.other j hj]
  · rw [SvcWorld.svc_setSvc_self, hf, ho.port]

theorem SvcWorld.sockets_setSvc : (fun j => ((w.setSvc i f).svc j).sockets) =
    Function.update (fun j => (w.svc j).sockets) i (f (w.svc i)).sockets := by
  funext j
  by_cases hj : j = i
  · subst hj
    rw [Function.update_self, SvcWorld.svc_setSvc_self]
  · rw [Function.update_of_ne hj, SvcWorld.svc_setSvc_of_ne hj]

/-- Events that neither make a socket nor let one go. -/
theorem Sockets.note (hs : Sockets n hand w h) (hm : e.made = none) (hg : e.gone = none) :
    Sockets n hand w (h ++ [e]) := by
  obtain ⟨hc,ho⟩ := hs
  constructor <;> simpa only [List.filterMap_append, List.filterMap_cons, List.filterMap_nil, hm,
    hg, List.append_nil]

theorem Sockets.gone (hs : Sockets n (s :: hand) w h) (hm : e.made = none)
    (hg : e.gone = some s) : Sockets n hand w (h ++ [e]) := by
  obtain ⟨hc,ho⟩ := hs
  constructor
  · simpa only [List.filterMap_append, List.filterMap_cons, List.filterMap_nil, hm, hg,
      List.append_nil] using hc.drop
  · simpa only [List.filterMap_append, List.filterMap_cons, List.filterMap_nil, hm,
      List.append_nil] using ho

theorem Sockets.answered (hs : Sockets n hand w h) (x : List Bool) :
    Sockets n hand { w with answers := x } h := ⟨hs.custody,hs.older⟩

theorem Sockets.created (hs : Sockets n hand w h) :
    Sockets n (w.nextSocket :: hand) { w with nextSocket := w.nextSocket + 1 }
      (h ++ [.created w.nextSocket]) := by
  have hmade : (h ++ [SvcEvent.created w.nextSocket]).filterMap SvcEvent.made =
      h.filterMap SvcEvent.made ++ [w.nextSocket] := List.filterMap_append
  have hgone : (h ++ [SvcEvent.created w.nextSocket]).filterMap SvcEvent.gone =
      h.filterMap SvcEvent.gone := by
    rw [List.filterMap_append]
    exact List.append_nil _
  have hnew : w.nextSocket ∉ h.filterMap SvcEvent.made :=
    fun hm => Nat.lt_irrefl _ (hs.older _ hm)
  constructor
  · rw [hmade, hgone]
    exact hs.custody.make hnew
  · rw [hmade]
    intro s hm
    rcases List.mem_append.mp hm with hm | hm
    · exact Nat.lt_succ_of_lt (hs.older s hm)
    · exact List.mem_singleton.mp hm ▸ Nat.lt_succ_self _

/-- The hand and a service exchange sockets. -/
theorem Sockets.exchange (hs : Sockets n hand w h) (hi : i < n)
    (hp : (k ++ (f (w.svc i)).sockets).Perm (hand ++ (w.svc i).sockets)) :
    Sockets n k (w.setSvc i f) h := by
  constructor
  · rw [SvcWorld.sockets_setSvc]
    exact hs.custody.exchange hi hp
  · exact hs.older

end Sockets

end Kaplar.Server
