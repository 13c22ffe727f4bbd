import Kaplar.Crypto.Adler32
import Kaplar.Protocol.Blocks
import Kaplar.Protocol.GameMessage
import Kaplar.Server.ConnFace

/-! # The echo, login and game protocols

The callbacks as scripts, and the tasks and the database thread that finish a login. What
the protocols take from outside is a setting: the RSA key, the configuration, the size of
a pointer and whether `db_add_task` accepts the `login_info` in a block.
-/
namespace Kaplar.Protocol
open Kaplar.Crypto Kaplar.Output Kaplar.Server

structure Setting where
  rsa : RsaDecode
  cfg : Login.Config
  ptrSize : ℕ
  accepts : ℕ → Bool

variable {α : Type}

/-- A function of what belongs to the protocols. -/
def call (f : Shared → Shared) (k : Script Shared α) : Script Shared α :=
  .load (fun p => .store (f p) k)

/-- `connection_send`; a successful one goes on record. -/
def sendOutput (c : UInt32) (a : ℕ) (len : UInt32) (k : Bool → Script Shared α) :
    Script Shared α :=
  .send a len (fun ok => if ok then call (fun p => p.noteSent c a len) (k true) else k false)

/-! ## Echo -/

namespace Echo

def identify (data : List UInt8) : Bool :=
  decide (4 ≤ data.length) && data.take 4 == [69,67,72,79]

def onAssignProtocol (_c : UInt32) : Script Shared Bool :=
  .load (fun p => .store { p with heap := p.heap.alloc (.echoHandle ⟨true,fun _ => 0⟩) }
    (.setUserdata (.ptr p.heap.next) (.ret true)))

def onClose (_c : UInt32) : Script Shared Unit := .userdata fun
  | some (.ptr a) => call (fun p => p.freeHandle a) (.ret ())
  | _ => call Shared.misuse (.ret ())

def onWrite (_c : UInt32) : Script Shared Status := .userdata fun
  | some (.ptr a) => call (fun p => p.setReady a true) (.ret .ok)
  | _ => call Shared.misuse (.ret .ok)

/-- The message is put behind its length; this is the length of both. -/
def reply (data : List UInt8) : MemM Unit ℕ := do
  let outputLength := min data.length (echoBufferSize - 2)
  encodeU16le () 0 (UInt16.ofNat outputLength)
  storeBytes () 2 (data.take outputLength)
  pure (outputLength + 2)

/-- A reply that goes out keeps the buffer until it is written. -/
def sendReply (c : UInt32) (a : ℕ) (len : UInt32) : Script Shared Status :=
  sendOutput c a len (fun ok =>
    if ok then call (fun p => p.setReady a false) (.ret .ok) else .ret .ok)

def onRecvMessage (c : UInt32) (data : List UInt8) : Script Shared Status := .userdata fun
  | some (.ptr a) => .load fun p => match p.echoAt a with
    | some h =>
      if h.outputReady then
        match reply data ⟨fun _ => echoBufferSize,fun _ => h.outputBuffer⟩ with
        | some (len,m) =>
          .store ((p.setBlock a (.echoHandle { h with outputBuffer := m.bytes () })).note
            (.touched a)) (sendReply c a (UInt32.ofNat len))
        | none => .fault
      else .ret .ok
    | none => .store p.misuse (.ret .ok)
  | _ => call Shared.misuse (.ret .ok)

/-- The protocol identifier is skipped. -/
def onRecvFirstMessage (c : UInt32) (data : List UInt8) : Script Shared Status :=
  onRecvMessage c (data.drop 4)

end Echo

/-- `protocol_echo`, without an `on_connect`. -/
def protocolEcho : Server.Protocol Shared where
  sendsFirst := false
  identify := Echo.identify
  onAssignProtocol := Echo.onAssignProtocol
  onClose := Echo.onClose
  onConnect _ := .fault
  onWrite := Echo.onWrite
  onRecvMessage := Echo.onRecvMessage
  onRecvFirstMessage := Echo.onRecvFirstMessage

/-! ## Login -/

namespace Login

def identify (data : List UInt8) : Bool :=
  decide (5 ≤ data.length) && adler32 (data.drop 4) == dwordAt data 0 && data.getD 4 0 == 1

def onAssignProtocol (_c : UInt32) : Script Shared Bool := .setUserdata .null (.ret true)

def onClose (_c : UInt32) : Script Shared Unit := .userdata fun
  | some (.ptr a) => call (fun p => p.outbufRelease a) (.setUserdata .null (.ret ()))
  | some .null => .ret ()
  | _ => call Shared.misuse (.ret ())

def onWrite (_c : UInt32) : Script Shared Status := .userdata fun
  | some (.ptr a) => call (fun p => p.outbufRelease a) (.setUserdata .null (.ret .close))
  | _ => call Shared.misuse (.ret .close)

def onRecvMessage (_c : UInt32) (_data : List UInt8) : Script Shared Status := .ret .abort

/-- `internal_resolve_login`, with what comes behind it. -/
def internalResolveLogin (l : ℕ) (k : Script Shared α) : Script Shared α :=
  .load fun p => match p.loginAt l with
  | none => .store p.misuse k
  | some login => .userdata fun udata => match login.output with
    | none => call (fun p => p.freeLogin l) k
    | some a => match udata with
      | none => call (fun p => p.outbufRelease a) (call (fun p => p.freeLogin l) k)
      | some _ => .setUserdata (.ptr a) (.load fun p => match p.outbufAt a with
        | none => .store p.misuse (call (fun p => p.freeLogin l) k)
        | some b => sendOutput login.connection a (UInt32.ofNat b.ptr)
          (fun _ => call (fun p => p.freeLogin l) k))

/-- `internal_send_disconnect`, with what comes behind it. -/
def internalSendDisconnect (E : Setting) (l : ℕ) (message : String) (k : Script Shared α) :
    Script Shared α :=
  .load fun p =>
    match (p.acquireOutput l).writeOutput E.ptrSize l
      (fun d => buildDisconnectMessage () message d.xtea) with
    | none => .fault
    | some p => .store p (internalResolveLogin l k)

def onFirstMessage (E : Setting) (c : UInt32) (data : List UInt8) : Script Shared Status :=
  .load fun p =>
    match onRecvFirstMessage E.rsa (E.accepts p.heap.next) c (UInt32.ofNat data.length)
      (firstMessage data) with
    | none => .fault
    | some (.close,_) => .ret .close
    | some (.disconnect login message,m) => .store (p.addLogin login m)
      (internalSendDisconnect E p.heap.next message (.ret .close))
    | some (.request login,m) => .store (p.addLogin login m)
      (call (fun q => { q with dbTasks := q.dbTasks ++ [p.heap.next] }) (.ret .stopReading))

/-- The steps of the database thread, whatever the database answers. -/
inductive DbStep (E : Setting) : Shared → Shared → Prop
  | take {p : Shared} {l : ℕ} : p.dbThread = .idle → l ∈ p.dbTasks →
      DbStep E p { p with dbTasks := p.dbTasks.erase l, dbThread := .resolving l }
  | acquire {p : Shared} {l : ℕ} : p.dbThread = .resolving l →
      DbStep E p { p.acquireOutput l with dbThread := .writing l }
  | write {p q : Shared} {l : ℕ} (db : Database) : p.dbThread = .writing l →
      p.writeOutput E.ptrSize l
        (fun d => databaseResolveLogin E.cfg db d.accname d.password d.xtea ()) = some q →
      DbStep E p { q with dbThread := .sending l }
  | send {p : Shared} {l : ℕ} : p.dbThread = .sending l →
      DbStep E p { p with dbThread := .idle, serverTasks := p.serverTasks ++ [l] }

/-- One of the server tasks is run. -/
def runServerTask (l : ℕ) : Script Shared Unit :=
  call (fun p => { p with serverTasks := p.serverTasks.erase l }) (internalResolveLogin l (.ret ()))

/-- Who else works with the connections. A uid is not issued again while a login that has
been asked for through it is in flight. -/
def usage (E : Setting) : Usage Shared where
  tasks p uid script := ∃ l ∈ p.serverTasks,
    (∀ d, p.loginAt l = some d → d.connection = uid) ∧ script = runServerTask l
  threads := DbStep E
  barred p uid := ∃ l ∈ p.inFlight, ∃ d, p.loginAt l = some d ∧ d.connection = uid

end Login

/-- `protocol_login`, without an `on_connect`. -/
def protocolLogin (E : Setting) : Server.Protocol Shared where
  sendsFirst := false
  identify := Login.identify
  onAssignProtocol := Login.onAssignProtocol
  onClose := Login.onClose
  onConnect _ := .fault
  onWrite := Login.onWrite
  onRecvMessage := Login.onRecvMessage
  onRecvFirstMessage := Login.onFirstMessage E

/-! ## Game -/

namespace Game

def onAssignProtocol (_c : UInt32) : Script Shared Bool := .setUserdata .null (.ret true)

def onClose (_c : UInt32) : Script Shared Unit := .ret ()

def onConnect (c : UInt32) : Script Shared Status :=
  sendOutput c greetingAt (UInt32.ofNat greeting.length) (fun _ => .ret .ok)

def onWrite (_c : UInt32) : Script Shared Status := .ret .ok

def onRecvMessage (_c : UInt32) (_data : List UInt8) : Script Shared Status := .ret .close

/-- The `login_info` of a game connection does not outlive the callback. -/
def onFirstMessage (E : Setting) (_c : UInt32) (data : List UInt8) : Script Shared Status :=
  match onRecvFirstMessage E.rsa (UInt32.ofNat data.length) (firstMessage data) with
  | none => .fault
  | some _ => .ret .close

end Game

/-- `protocol_game`; a service that sends first does not ask for an `identify`. -/
def protocolGame (E : Setting) : Server.Protocol Shared where
  sendsFirst := true
  identify _ := false
  onAssignProtocol := Game.onAssignProtocol
  onClose := Game.onClose
  onConnect := Game.onConnect
  onWrite := Game.onWrite
  onRecvMessage := Game.onRecvMessage
  onRecvFirstMessage := Game.onFirstMessage E

/-! ## Services -/

inductive Kind where
  | echo | login | game
  deriving DecidableEq, Repr

def Kind.protocol (E : Setting) : Kind → Server.Protocol Shared
  | echo => protocolEcho
  | login => protocolLogin E
  | game => protocolGame E

/-- Which protocols the services offer. -/
structure Deployment where
  kind : ℕ → Kind
  protocols : ℕ → List ℕ
  nonempty : ∀ svc, protocols svc ≠ []

def services (E : Setting) (D : Deployment) : Services Shared :=
  ⟨fun n => (D.kind n).protocol E,D.protocols,D.nonempty⟩

/-! ## No callback closes its connection -/

section Closeless
variable {E : Setting}

theorem closeless_sendOutput {c : UInt32} {a : ℕ} {len : UInt32} {k : Bool → Script Shared α}
    (hk : ∀ ok, (k ok).Closeless) : (sendOutput c a len k).Closeless := by
  intro ok
  cases ok with
  | true => exact fun _ => hk true
  | false => exact hk false

theorem Echo.closeless_sendReply (c : UInt32) (a : ℕ) (len : UInt32) :
    (sendReply c a len).Closeless := by
  refine closeless_sendOutput (fun ok => ?_)
  cases ok with
  | true => exact fun _ => trivial
  | false => trivial

theorem Echo.closeless_onRecvMessage (c : UInt32) (data : List UInt8) :
    (onRecvMessage c data).Closeless := by
  intro udata
  dsimp only
  split
  · intro p
    dsimp only
    split
    · split
      · split
        · exact closeless_sendReply c _ _
        · trivial
      · trivial
    · trivial
  · exact fun _ => trivial

theorem Login.closeless_internalResolveLogin {l : ℕ} {k : Script Shared α} (hk : k.Closeless) :
    (internalResolveLogin l k).Closeless := by
  intro p
  dsimp only
  split
  · exact hk
  · intro udata
    dsimp only
    split
    · exact fun _ => hk
    · split
      · exact fun _ _ => hk
      · intro q
        dsimp only
        split
        · exact fun _ => hk
        · exact closeless_sendOutput (fun _ _ => hk)

theorem Login.closeless_onFirstMessage (c : UInt32) (data : List UInt8) :
    (onFirstMessage E c data).Closeless := by
  intro p
  dsimp only
  split
  · trivial
  · trivial
  · intro q
    dsimp only
    split
    · trivial
    · exact closeless_internalResolveLogin trivial
  · exact fun _ => trivial

theorem Game.closeless_onFirstMessage (c : UInt32) (data : List UInt8) :
    (onFirstMessage E c data).Closeless := by
  unfold onFirstMessage
  split <;> trivial

theorem Game.closeless_onConnect (c : UInt32) : (onConnect c).Closeless :=
  closeless_sendOutput (fun _ => trivial)

variable {D : Deployment}

theorem services_closeless : (services E D).Closeless := by
  constructor
  · intro n c
    show (((D.kind n).protocol E).onAssignProtocol c).Closeless
    cases D.kind n with
    | echo => exact fun _ => trivial
    | _ => trivial
  · intro n c
    show (((D.kind n).protocol E).onConnect c).Closeless
    cases D.kind n with
    | game => exact Game.closeless_onConnect c
    | _ => trivial
  · intro n c
    show (((D.kind n).protocol E).onWrite c).Closeless
    cases D.kind n with
    | game => trivial
    | _ =>
      intro udata
      dsimp only
      split <;> exact fun _ => trivial
  · intro n c data
    show (((D.kind n).protocol E).onRecvMessage c data).Closeless
    cases D.kind n with
    | echo => exact Echo.closeless_onRecvMessage c data
    | _ => trivial
  · intro n c data
    show (((D.kind n).protocol E).onRecvFirstMessage c data).Closeless
    cases D.kind n with
    | echo => exact Echo.closeless_onRecvMessage c _
    | login => exact Login.closeless_onFirstMessage c data
    | game => exact Game.closeless_onFirstMessage c data

theorem services_plainClose (n : ℕ) (c : UInt32) :
    (((services E D).protocol n).onClose c).Plain := by
  show (((D.kind n).protocol E).onClose c).Plain
  cases D.kind n with
  | game => trivial
  | echo =>
    intro udata
    dsimp only
    split <;> exact fun _ => trivial
  | login =>
    intro udata
    dsimp only
    split
    · exact fun _ => trivial
    · trivial
    · exact fun _ => trivial

end Closeless

end Kaplar.Protocol
