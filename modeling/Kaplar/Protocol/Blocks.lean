import Kaplar.Foundation.Heap
import Kaplar.Protocol.LoginMessage
import Kaplar.Protocol.LoginResolve

/-! # What belongs to the protocols

The echo handles, the outbufs with the list of idle ones, the `login_info`s and the two
task queues they travel through. A pointer to a block that is gone, or that is not what
it is used for, is not followed: the use is recorded.
-/
namespace Kaplar.Protocol
open Kaplar.Crypto Kaplar.Output

/-- `ECHO_BUFFER_SIZE` -/
def echoBufferSize : ℕ := 1023

/-- `MAX_IDLE_OUTBUFS` -/
def maxIdleOutbufs : ℕ := 2048

structure EchoHandle where
  outputReady : Bool
  outputBuffer : ℕ → UInt8

/-- The write pointer is an offset from the base. -/
structure Outbuf where
  ptr : ℕ
  base : ℕ → UInt8

/-- A `login_info` with its output buffer and its strings. -/
structure LoginState extends LoginInfo where
  output : Option ℕ
  accname : List UInt8
  password : List UInt8

inductive Block where
  | echoHandle (h : EchoHandle)
  | outbuf (b : Outbuf)
  | loginInfo (d : LoginState)
  /-- data that is always there -/
  | static (data : List UInt8)

namespace Block

def byte : Block → ℕ → UInt8
  | echoHandle h => h.outputBuffer
  | outbuf b => b.base
  | loginInfo _ => fun _ => 0
  | static data => fun i => data.getD i 0

/-- The first bytes of what a block may send. -/
def output (b : Block) (len : UInt32) : List UInt8 := (List.range len.toNat).map b.byte

end Block

inductive Note where
  /-- a successful `connection_send` -/
  | sent (uid : UInt32) (a : ℕ) (bytes : List UInt8)
  /-- the bytes of a block have been written, or it has been released or freed -/
  | touched (a : ℕ)

/-- What has happened so far, for the record only. -/
structure Record where
  notes : List Note
  made : List ℕ
  resolved : List ℕ
  /-- the outbufs handed out, each with the connection it is for -/
  acquired : List (ℕ × UInt32)
  released : List ℕ
  misused : Bool

/-- Where the database thread is in `database_resolve_login`. -/
inductive DbThread where
  | idle
  | resolving (l : ℕ)
  | writing (l : ℕ)
  | sending (l : ℕ)

def DbThread.logins : DbThread → List ℕ
  | idle => []
  | resolving l | writing l | sending l => [l]

structure Shared where
  heap : Heap Block
  /-- the idle outbufs -/
  idle : List ℕ
  dbTasks : List ℕ
  dbThread : DbThread
  serverTasks : List ℕ
  record : Record

/-- The first message of a game connection goes out from static data. -/
def greeting : List UInt8 := [0x0C,0x00,0x23,0x03,0xE8,0x0A,0x06,0x00,0x1F,0xFF,0xFF,0x00,0x00,0xFF]

def greetingAt : ℕ := 0

/-- The bytes of a string buffer up to its terminator. -/
def stringIn (m : Memory Region) (r : Region) : List UInt8 :=
  (m.slice r 0 32).takeWhile (fun b => b != 0)

namespace Shared

def initial : Shared where
  heap := Heap.empty.alloc (.static greeting)
  idle := []
  dbTasks := []
  dbThread := .idle
  serverTasks := []
  record := ⟨[],[],[],[],[],false⟩

variable (p : Shared)

/-- The `login_info`s that wait in a queue or are with the database thread. -/
def inFlight : List ℕ := p.dbTasks ++ p.dbThread.logins ++ p.serverTasks

/-- The block a pointer may be followed to; an idle outbuf belongs to the list. -/
def block (a : ℕ) : Option Block := if a ∈ p.idle then none else p.heap.block a

def echoAt (a : ℕ) : Option EchoHandle :=
  match p.block a with
  | some (.echoHandle h) => some h
  | _ => none

def outbufAt (a : ℕ) : Option Outbuf :=
  match p.block a with
  | some (.outbuf b) => some b
  | _ => none

def loginAt (a : ℕ) : Option LoginState :=
  match p.block a with
  | some (.loginInfo d) => some d
  | _ => none

def misuse : Shared := { p with record := { p.record with misused := true } }

def note (n : Note) : Shared :=
  { p with record := { p.record with notes := p.record.notes ++ [n] } }

def setBlock (a : ℕ) (b : Block) : Shared := { p with heap := p.heap.modify a (fun _ => b) }

def kplFree (a : ℕ) : Shared := ({ p with heap := p.heap.free a }).note (.touched a)

/-- What a connection has sent can be told from the block it was sent from. -/
def noteSent (uid : UInt32) (a : ℕ) (len : UInt32) : Shared :=
  match p.block a with
  | some b => p.note (.sent uid a (b.output len))
  | none => p.misuse

/-! ## Outbufs -/

/-- `outbuf_acquire` on behalf of a connection. -/
def outbufAcquire (uid : UInt32) : ℕ × Shared :=
  match p.idle with
  | a :: rest =>
    (a,{ p with idle := rest, record := { p.record with acquired := (a,uid) :: p.record.acquired } })
  | [] =>
    (p.heap.next,{ p with
      heap := p.heap.alloc (.outbuf ⟨0,fun _ => 0⟩)
      record := { p.record with acquired := (p.heap.next,uid) :: p.record.acquired } })

def outbufRelease (a : ℕ) : Shared :=
  match p.outbufAt a with
  | none => p.misuse
  | some _ =>
    if p.idle.length < maxIdleOutbufs then
      ({ p with
        idle := a :: p.idle
        record := { p.record with released := a :: p.record.released } }).note (.touched a)
    else ({ p with record := { p.record with released := a :: p.record.released } }).kplFree a

/-! ## Echo handles -/

def setReady (a : ℕ) (ready : Bool) : Shared :=
  match p.echoAt a with
  | some h => p.setBlock a (.echoHandle { h with outputReady := ready })
  | none => p.misuse

def freeHandle (a : ℕ) : Shared :=
  match p.echoAt a with
  | some _ => p.kplFree a
  | none => p.misuse

/-! ## Logins -/

/-- A `login_info` is allocated and filled. -/
def addLogin (login : LoginInfo) (m : Memory Region) : Shared :=
  { p with
    heap := p.heap.alloc (.loginInfo ⟨login,none,stringIn m .accname,stringIn m .password⟩)
    record := { p.record with made := p.heap.next :: p.record.made } }

/-- `login->output = outbuf_acquire()` -/
def acquireOutput (l : ℕ) : Shared :=
  match p.loginAt l with
  | some d => (p.outbufAcquire d.connection).2.setBlock l
      (.loginInfo { d with output := some (p.outbufAcquire d.connection).1 })
  | none => p.misuse

/-- A login with its output buffer. -/
def outputOf (l : ℕ) : Option (LoginState × ℕ × Outbuf) := do
  let d ← p.loginAt l
  let a ← d.output
  let b ← p.outbufAt a
  pure (d,a,b)

/-- A message is written into the output buffer of a login; nothing comes of one that does
not fit. -/
def writeOutput (ptrSize : ℕ) (l : ℕ) (build : LoginState → MemM Unit ℕ) : Option Shared :=
  match p.outputOf l with
  | none => some p.misuse
  | some (d,a,b) =>
    match build d ⟨fun _ => maxOutbufLen ptrSize,fun _ => b.base⟩ with
    | none => none
    | some (ptr,m) => some ((p.setBlock a (.outbuf ⟨ptr,m.bytes ()⟩)).note (.touched a))

/-- The end of `internal_resolve_login`, where the `login_info` is freed. -/
def freeLogin (l : ℕ) : Shared :=
  match p.loginAt l with
  | some _ =>
    ({ p with record := { p.record with resolved := l :: p.record.resolved } }).kplFree l
  | none => p.misuse

end Shared

end Kaplar.Protocol
