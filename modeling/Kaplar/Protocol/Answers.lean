import Kaplar.Output.OutputBounds
import Kaplar.Protocol.OwnershipRun

/-! # What may be said to a connection

A connection hears the greeting, its own messages, or the answer to its own login under
the key it has sent along. A login on its way has been asked for by the connection it is
for, and once its answer is written only this connection can be told.
-/
namespace Kaplar.Protocol
open Kaplar.Crypto Kaplar.Output Kaplar.Server

/-- A message as it comes back, behind its length. -/
def echoed (data : List UInt8) : List UInt8 :=
  bytes16 (UInt16.ofNat (min data.length (echoBufferSize - 2))) ++ data.take (echoBufferSize - 2)

section Said
variable (E : Setting) (D : Deployment) (H : UInt32 → Callback → Prop) (uid : UInt32)

/-- What the login handler makes of a message of the connection. -/
def Takes (r : FirstMessage) (m : Memory Region) : Prop := ∃ accepts data,
  H uid (.recvFirst data) ∧ Login.onRecvFirstMessage E.rsa accepts uid (UInt32.ofNat data.length)
    (firstMessage data) = some (r,m)

/-- What a connection may be told after the messages in `H`. -/
inductive Said : List UInt8 → Prop
  | greeting {n : ℕ} : D.kind n = .game → Said greeting
  | echo {n : ℕ} {data : List UInt8} : D.kind n = .echo →
      H uid (.recv data) ∨ (∃ first, H uid (.recvFirst first) ∧ data = first.drop 4) →
      Said (echoed data)
  | refused {login : LoginInfo} {text : String} {m : Memory Region} {bytes : List UInt8} :
      Takes E H uid (.disconnect login text) m →
      Carries login.xtea bytes (OutWrite.payload (Login.disconnectWrites text)) → Said bytes
  | resolved {login : LoginInfo} {m : Memory Region} {bytes : List UInt8} (db : Login.Database) :
      Takes E H uid (.request login) m →
      Carries login.xtea bytes (OutWrite.payload (Login.writes E.cfg
        (Login.resolution db (stringIn m .accname) (stringIn m .password)))) → Said bytes

end Said

/-! ## Messages in their buffers -/

section Written
variable {m m' : Memory Unit} {ptr ptrSize : ℕ} {xtea : XteaKey} {w : OutWrite}
  {ws : List OutWrite}

theorem output_outbuf (hp : ptr < 2 ^ 32) :
    (Block.outbuf ⟨ptr,m.bytes ()⟩).output (UInt32.ofNat ptr) = m.slice () 0 ptr := by
  have hlen : (UInt32.ofNat ptr).toNat = ptr := UInt32.toNat_ofNat_of_lt' hp
  simp only [Block.output, hlen, Memory.slice, Nat.zero_add]
  rfl

theorem length_bytes_pos (w : OutWrite) : 0 < w.bytes.length := by
  cases w <;> simp [OutWrite.bytes,bytes16,bytes32]

/-- Whatever has been written and wrapped reaches the receiver. -/
theorem wrapped_carries (hsize : m.size () = maxOutbufLen ptrSize)
    (hrun : (do
      let ptr ← OutWrite.runAll () outbufPrepare (w :: ws)
      outbufWrap () ptr xtea) m = some (ptr,m')) :
    Carries xtea ((Block.outbuf ⟨ptr,m'.bytes ()⟩).output (UInt32.ofNat ptr))
      (OutWrite.payload (w :: ws)) := by
  have hmax : maxOutbufLen ptrSize ≤ 16384 := Nat.sub_le _ _
  have hbuf : 8 ≤ m.size () := by
    by_contra hlt
    have hw := length_bytes_pos w
    have hfault : w.run () outbufPrepare m = none :=
      w.run_fault (by change _ < 8 + _; omega)
    rw [OutWrite.runAll, bind_fault (bind_fault hfault)] at hrun
    cases hrun
  have hfit := (wrapped_isSome_iff xtea (w :: ws) hbuf).mp (by rw [hrun]; rfl)
  unfold frameSize at hfit
  have hwrites : OutWrite.runAll () outbufPrepare (w :: ws) m =
      some (8 + (OutWrite.payload (w :: ws)).length,m.write () 8 (OutWrite.payload (w :: ws))) :=
    OutWrite.runAll_eq (w :: ws) (by rw [outbufPrepare]; omega)
  obtain ⟨m₁,hwrap,hframe⟩ := outbufWrap_run xtea m () hfit
  rw [bind_run hwrites, hwrap] at hrun
  obtain ⟨rfl,rfl⟩ := Prod.mk.inj (Option.some.inj hrun)
  rw [output_outbuf (by omega), hframe]
  exact carries_frame xtea (by omega)

theorem disconnect_carries {message : String} (hsize : m.size () = maxOutbufLen ptrSize)
    (hrun : Login.buildDisconnectMessage () message xtea m = some (ptr,m')) :
    Carries xtea ((Block.outbuf ⟨ptr,m'.bytes ()⟩).output (UInt32.ofNat ptr))
      (OutWrite.payload (Login.disconnectWrites message)) := by
  rw [Login.buildDisconnectMessage_eq] at hrun
  exact wrapped_carries hsize hrun

theorem resolve_carries {cfg : Login.Config} {db : Login.Database} {accname password : List UInt8}
    (hsize : m.size () = maxOutbufLen ptrSize)
    (hrun : Login.databaseResolveLogin cfg db accname password xtea () m = some (ptr,m')) :
    Carries xtea ((Block.outbuf ⟨ptr,m'.bytes ()⟩).output (UInt32.ofNat ptr))
      (OutWrite.payload (Login.writes cfg (Login.resolution db accname password))) := by
  rw [Login.databaseResolveLogin_eq] at hrun
  cases hr : Login.resolution db accname password with
  | disconnect message =>
    rw [hr] at hrun
    exact wrapped_carries hsize hrun
  | charlist names =>
    rw [hr] at hrun
    exact wrapped_carries hsize hrun

/-- A reply in its handle is the message behind its length. -/
theorem reply_output {data : List UInt8} {len : ℕ} {ready : Bool}
    (hsize : m.size () = echoBufferSize) (hrun : Echo.reply data m = some (len,m')) :
    (Block.echoHandle ⟨ready,m'.bytes ()⟩).output (UInt32.ofNat len) = echoed data := by
  have hle : min data.length 1021 ≤ 1021 := Nat.min_le_right _ _
  have hbuf : echoBufferSize = 1023 := rfl
  have htake : (data.take (min data.length 1021)).length = min data.length 1021 := by
    rw [List.length_take]
    omega
  have hhead : encodeU16le () 0 (UInt16.ofNat (min data.length 1021)) m = _ :=
    storeBytes_run (by rw [length_bytes16]; omega)
  rw [Echo.reply] at hrun
  simp only [echoBufferSize, Nat.reduceSub] at hrun
  rw [bind_run hhead, bind_run (storeBytes_run (by rw [htake, Memory.size_write]; omega))] at hrun
  obtain ⟨rfl,rfl⟩ := Prod.mk.inj (Option.some.inj hrun)
  have hlen : (UInt32.ofNat (min data.length 1021 + 2)).toNat = 2 + min data.length 1021 := by
    rw [UInt32.toNat_ofNat_of_lt' (by change _ < 2 ^ 32; omega), Nat.add_comm]
  let m₁ := m.write () 0 (bytes16 (UInt16.ofNat (min data.length 1021)))
  let m₂ := m₁.write () 2 (data.take (min data.length 1021))
  have hword : m₂.slice () 0 2 = bytes16 (UInt16.ofNat (min data.length 1021)) := by
    rw [Memory.slice_write_of_disjoint (Or.inl (by omega))]
    exact Memory.slice_write_self
  have hbody : m₂.slice () 2 (min data.length 1021) = data.take 1021 := by
    have hself := Memory.slice_write_self (m := m₁) (r := ()) (o := 2)
      (l := data.take (min data.length 1021))
    rw [htake] at hself
    rw [hself, Nat.min_comm, ← List.take_eq_take_min]
  have hslice : m₂.slice () 0 (2 + min data.length 1021) = echoed data := by
    rw [Memory.slice_add, hword, hbody]
    rfl
  simp only [Memory.slice, Nat.zero_add] at hslice
  rw [Block.output, hlen]
  exact hslice

end Written

/-! ## Logins on their way -/

/-- The login the database thread has no answer for yet. -/
def DbThread.waiting : DbThread → List ℕ
  | resolving l | writing l => [l]
  | _ => []

/-- The login whose answer the database thread has written. -/
def DbThread.answers : DbThread → List ℕ
  | sending l => [l]
  | _ => []

namespace Shared
variable (p : Shared)

def waiting : List ℕ := p.dbTasks ++ p.dbThread.waiting

def answers : List ℕ := p.dbThread.answers ++ p.serverTasks

end Shared

variable {E : Setting} {D : Deployment} {H : UInt32 → Callback → Prop} {p q r : Shared}
  {a l : ℕ}

theorem mem_inFlight_of_waiting (hl : l ∈ p.waiting) : l ∈ p.inFlight := by
  simp only [Shared.waiting, Shared.inFlight, List.mem_append] at hl ⊢
  rcases hl with hl | hl
  · exact .inl (.inl hl)
  · cases ht : p.dbThread <;> rw [ht] at hl <;> simp_all [DbThread.waiting,DbThread.logins]

theorem mem_inFlight_of_answers (hl : l ∈ p.answers) : l ∈ p.inFlight := by
  simp only [Shared.answers, Shared.inFlight, List.mem_append] at hl ⊢
  rcases hl with hl | hl
  · cases ht : p.dbThread <;> rw [ht] at hl <;> simp_all [DbThread.answers,DbThread.logins]
  · exact .inr hl

/-- The connection of a login has asked for it. -/
def Asked (E : Setting) (H : UInt32 → Callback → Prop) (p : Shared) (l : ℕ) : Prop :=
  ∀ d, p.heap.block l = some (.loginInfo d) → ∃ m,
    Takes E H d.connection (.request d.toLoginInfo) m ∧ d.accname = stringIn m .accname ∧
      d.password = stringIn m .password

/-- What has been written for a login may be said to its connection. -/
def Answered (E : Setting) (D : Deployment) (H : UInt32 → Callback → Prop) (p : Shared) (l : ℕ) :
    Prop :=
  ∀ d a o, p.heap.block l = some (.loginInfo d) → d.output = some a →
    p.heap.block a = some (.outbuf o) →
      Said E D H d.connection ((Block.outbuf o).output (UInt32.ofNat o.ptr))

/-- Nobody has been told what is not meant for him, and nobody will be. -/
structure Told (E : Setting) (D : Deployment) (H : UInt32 → Callback → Prop) (p : Shared) :
    Prop where
  asked : ∀ l ∈ p.waiting, Asked E H p l
  answered : ∀ l ∈ p.answers, Answered E D H p l
  said : ∀ uid a bytes, .sent uid a bytes ∈ p.record.notes → Said E D H uid bytes

/-- Nothing has come to the logins and the outbufs, and nothing has been sent. -/
structure Fades (p q : Shared) : Prop where
  dbTasks : q.dbTasks = p.dbTasks
  dbThread : q.dbThread = p.dbThread
  serverTasks : q.serverTasks = p.serverTasks
  login : ∀ l d, q.heap.block l = some (.loginInfo d) → p.heap.block l = some (.loginInfo d)
  outbuf : ∀ a o, q.heap.block a = some (.outbuf o) → p.heap.block a = some (.outbuf o)
  notes : ∀ uid a bytes, .sent uid a bytes ∈ q.record.notes → .sent uid a bytes ∈ p.record.notes

namespace Fades

theorem refl (p : Shared) : Fades p p :=
  ⟨rfl,rfl,rfl,fun _ _ h => h,fun _ _ h => h,fun _ _ _ h => h⟩

theorem trans (h : Fades p q) (h' : Fades q r) : Fades p r where
  dbTasks := h'.dbTasks.trans h.dbTasks
  dbThread := h'.dbThread.trans h.dbThread
  serverTasks := h'.serverTasks.trans h.serverTasks
  login l d hb := h.login l d (h'.login l d hb)
  outbuf a o hb := h.outbuf a o (h'.outbuf a o hb)
  notes uid a bytes hm := h.notes uid a bytes (h'.notes uid a bytes hm)

theorem waiting (h : Fades p q) : q.waiting = p.waiting := by
  rw [Shared.waiting, Shared.waiting, h.dbTasks, h.dbThread]

theorem answers (h : Fades p q) : q.answers = p.answers := by
  rw [Shared.answers, Shared.answers, h.dbThread, h.serverTasks]

/-- Only the idle outbufs and the record change. -/
theorem aside {is : List ℕ} {c : Record} (hc : c.notes = p.record.notes) :
    Fades p { p with idle := is, record := c } :=
  ⟨rfl,rfl,rfl,fun _ _ h => h,fun _ _ h => h,fun _ _ _ hm => by rwa [← hc]⟩

theorem misuse : Fades p p.misuse := aside rfl

theorem touched : Fades p (p.note (.touched a)) := by
  refine ⟨rfl,rfl,rfl,fun _ _ h => h,fun _ _ h => h,fun _ _ _ hm => ?_⟩
  rcases List.mem_append.mp hm with hm | hm
  · exact hm
  · cases List.mem_singleton.mp hm

theorem kplFree : Fades p (p.kplFree a) := by
  have hblock {x : ℕ} {b : Block} (hb : (p.heap.free a).block x = some b) :
      p.heap.block x = some b := by
    rw [Heap.block_free] at hb
    split at hb
    · cases hb
    · exact hb
  have hfree : Fades p { p with heap := p.heap.free a } :=
    ⟨rfl,rfl,rfl,fun _ _ => hblock,fun _ _ => hblock,fun _ _ _ h => h⟩
  exact hfree.trans touched

/-- An echo handle is changed. -/
theorem setEcho {h : EchoHandle} : Fades p (p.setBlock a (.echoHandle h)) := by
  have hblock {x : ℕ} {b : Block} (hb : (p.setBlock a (.echoHandle h)).heap.block x = some b) :
      p.heap.block x = some b ∨ b = .echoHandle h := by
    by_cases hx : x = a
    · subst hx
      cases hp : p.heap.block x with
      | none => simp [Shared.setBlock,Heap.modify,hp] at hb
      | some c =>
        rw [block_setBlock hp, if_pos rfl] at hb
        exact .inr (Option.some.inj hb).symm
    · exact .inl ((Heap.block_modify_of_ne hx).symm.trans hb)
  exact ⟨rfl,rfl,rfl,fun _ _ hb => (hblock hb).resolve_right (by simp),
    fun _ _ hb => (hblock hb).resolve_right (by simp),fun _ _ _ h => h⟩

theorem allocEcho {h : EchoHandle} : Fades p { p with heap := p.heap.alloc (.echoHandle h) } := by
  have hblock {x : ℕ} {b : Block} (hb : (p.heap.alloc (.echoHandle h)).block x = some b) :
      p.heap.block x = some b ∨ b = .echoHandle h := by
    rw [Heap.block_alloc] at hb
    split at hb
    · exact .inr (Option.some.inj hb).symm
    · exact .inl hb
  exact ⟨rfl,rfl,rfl,fun _ _ hb => (hblock hb).resolve_right (by simp),
    fun _ _ hb => (hblock hb).resolve_right (by simp),fun _ _ _ h => h⟩

theorem setReady {ready : Bool} : Fades p (p.setReady a ready) := by
  unfold Shared.setReady
  split
  · exact setEcho
  · exact misuse

theorem freeHandle : Fades p (p.freeHandle a) := by
  unfold Shared.freeHandle
  split
  · exact kplFree
  · exact misuse

theorem outbufRelease : Fades p (p.outbufRelease a) := by
  unfold Shared.outbufRelease
  split
  · exact misuse
  · split
    · refine trans ?_ touched
      exact aside rfl
    · refine trans ?_ kplFree
      exact aside rfl

theorem freeLogin : Fades p (p.freeLogin l) := by
  unfold Shared.freeLogin
  split
  · refine trans ?_ kplFree
    exact aside rfl
  · exact misuse

end Fades

namespace Told

theorem fades (ht : Told E D H p) (hf : Fades p q) : Told E D H q where
  asked l hl d hd := ht.asked l (hf.waiting ▸ hl) d (hf.login l d hd)
  answered l hl d a o hd ho hb :=
    ht.answered l (hf.answers ▸ hl) d a o (hf.login l d hd) ho (hf.outbuf a o hb)
  said uid a bytes hm := ht.said uid a bytes (hf.notes uid a bytes hm)

/-- A connection is told something. -/
theorem noteSent (ht : Told E D H p) {uid : UInt32} {len : UInt32}
    (hs : ∀ b, p.block a = some b → Said E D H uid (b.output len)) :
    Told E D H (p.noteSent uid a len) := by
  unfold Shared.noteSent
  split
  · rename_i b hb
    refine ⟨ht.asked,ht.answered,fun uid' a' bytes hm => ?_⟩
    rcases List.mem_append.mp hm with hm | hm
    · exact ht.said uid' a' bytes hm
    · cases List.mem_singleton.mp hm
      exact hs b hb
  · exact ht.fades .misuse

/-- The logins are moved on. -/
theorem requeue (ht : Told E D H p) (hh : q.heap = p.heap) (hn : q.record = p.record)
    (hw : ∀ l ∈ q.waiting, l ∈ p.waiting ∨ Asked E H p l)
    (ha : ∀ l ∈ q.answers, l ∈ p.answers ∨ Answered E D H p l) : Told E D H q := by
  refine ⟨fun l hl d hd => ?_,fun l hl d a o hd ho hb => ?_,fun uid a bytes hm => ?_⟩
  · rw [hh] at hd
    exact (hw l hl).elim (ht.asked l · d hd) (· d hd)
  · rw [hh] at hd hb
    exact (ha l hl).elim (ht.answered l · d a o hd ho hb) (· d a o hd ho hb)
  · rw [hn] at hm
    exact ht.said uid a bytes hm

end Told

/-! ## The scripts -/

section Scripts
variable {α : Type} {Q : α → Shared → Option Face → Prop} {f : Option Face} {c : UInt32}

theorem post_sendOutput {len : UInt32} {k : Bool → Script Shared α} (ht : Told E D H p)
    (hs : ∀ b, p.block a = some b → Said E D H c (b.output len))
    (hk : ∀ ok q f, Told E D H q → (k ok).post Q q f) : (sendOutput c a len k).post Q p f := by
  cases f with
  | none => exact hk false p none ht
  | some f =>
    simp only [sendOutput, Script.post]
    split
    · exact hk false p _ ht
    · intro ok
      cases ok with
      | false => exact hk false p _ ht
      | true => exact hk true _ _ (ht.noteSent hs)

/-- A login is resolved with what may be said to its connection. -/
theorem told_resolve (ht : Told E D H p) (hl : Answered E D H p l) {k : Script Shared α}
    (hk : ∀ q f, Told E D H q → k.post Q q f) : (Login.internalResolveLogin l k).post Q p f := by
  have hdone {q : Shared} {f : Option Face} (hq : Told E D H q) :
      (call (fun p => p.freeLogin l) k).post Q q f := hk _ _ (hq.fades .freeLogin)
  simp only [Login.internalResolveLogin, Script.post]
  split
  · exact hk _ _ (ht.fades .misuse)
  · rename_i d hd
    simp only [Script.post]
    split
    · exact hdone ht
    · rename_i a ha
      split
      · exact hdone (ht.fades .outbufRelease)
      · simp only [Script.post]
        split
        · exact hdone (ht.fades .misuse)
        · rename_i o ho
          refine post_sendOutput ht ?_ (fun _ _ _ => hdone)
          intro b hb
          have hout := outbufAt_eq.mp ho
          rw [hb] at hout
          cases hout
          exact hl d a o (heap_of_block (loginAt_eq.mp hd)).2 ha (heap_of_block hb).2

end Scripts

end Kaplar.Protocol
