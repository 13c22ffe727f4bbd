import Kaplar.Crypto.Xtea
import Kaplar.Protocol.TibiaString
import Mathlib.Data.Fin.VecNotation

/-! # The login message

Both protocols take the bytes of a first message and the string buffers of a
fresh `login_info` as regions of memory. The RSA decryption of a block is a
parameter: it refuses, or gives the bytes that replace the block.
-/
namespace Kaplar.Protocol
open Kaplar.Crypto

inductive Region where
  | message | accname | password | charname
deriving DecidableEq

/-- A `login_info` without its output buffer; its strings are regions. -/
structure LoginInfo where
  connection : UInt32
  xtea : XteaKey

/-- What the handler does with a first message. -/
inductive FirstMessage where
  /-- `PROTO_CLOSE` and nothing else -/
  | close
  /-- `internal_send_disconnect` and `PROTO_CLOSE` -/
  | disconnect (login : LoginInfo) (message : String)
  /-- the request is with the database thread: `PROTO_STOP_READING` -/
  | request (login : LoginInfo)

/-- Whatever is still done for a message is done for one connection. -/
def FirstMessage.IsFor (c : UInt32) : FirstMessage → Prop
  | .close => True
  | .disconnect login _ | .request login => login.connection = c

abbrev RsaDecode := List UInt8 → Option (List UInt8)

/-- `tibia_rsa_decode` in place, with the decoded length. -/
def decodeRsa (rsa : RsaDecode) (data : Region) (off len : ℕ) : MemM Region (Option ℕ) := do
  let l ← loadBytes data off len
  match rsa l with
  | none => pure none
  | some decoded => do
    storeBytes data off decoded
    pure (some decoded.length)

def decodeXtea (data : Region) (off : ℕ) : MemM Region XteaKey := do
  let k0 ← decodeU32le data off
  let k1 ← decodeU32le data (off + 4)
  let k2 ← decodeU32le data (off + 8)
  let k3 ← decodeU32le data (off + 12)
  pure ![k0,k1,k2,k3]

/-- The message and the buffers of a `login_info`. -/
structure Buffers (m : Memory Region) (datalen : UInt32) : Prop where
  message : m.size .message = datalen.toNat
  accname : m.size .accname = 32
  password : m.size .password = 32
  charname : m.size .charname = 32

theorem Buffers.congr {m m' : Memory Region} {datalen : UInt32} (h : Buffers m datalen)
    (hsize : m'.size = m.size) : Buffers m' datalen :=
  ⟨hsize ▸ h.message,hsize ▸ h.accname,hsize ▸ h.password,hsize ▸ h.charname⟩

/-- A message in memory, with zeroed string buffers. -/
def firstMessage (data : List UInt8) : Memory Region where
  size
    | .message => data.length
    | _ => 32
  bytes
    | .message => fun i => data.getD i 0
    | _ => fun _ => 0

section Runs
variable {m : Memory Region} {data : Region} {off len : ℕ} {rsa : RsaDecode}

theorem decodeRsa_none (h : off + len ≤ m.size data) (hrsa : rsa (m.slice data off len) = none) :
    decodeRsa rsa data off len m = some (none,m) := by
  rw [decodeRsa, bind_run (loadBytes_run h)]
  simp only [hrsa]
  rfl

theorem decodeRsa_some {decoded : List UInt8} (h : off + len ≤ m.size data)
    (hrsa : rsa (m.slice data off len) = some decoded) (hlen : decoded.length ≤ len) :
    decodeRsa rsa data off len m = some (some decoded.length,m.write data off decoded) := by
  rw [decodeRsa, bind_run (loadBytes_run h)]
  simp only [hrsa]
  rw [bind_run (storeBytes_run (by omega))]
  rfl

def xteaAt (m : Memory Region) (data : Region) (off : ℕ) : XteaKey :=
  ![m.u32 data off,m.u32 data (off + 4),m.u32 data (off + 8),m.u32 data (off + 12)]

theorem decodeXtea_run (h : off + 16 ≤ m.size data) :
    decodeXtea data off m = some (xteaAt m data off,m) := by
  rw [decodeXtea, bind_run (decodeU32le_run (by omega)), bind_run (decodeU32le_run (by omega)),
    bind_run (decodeU32le_run (by omega)), bind_run (decodeU32le_run (by omega))]
  rfl

end Runs

/-! ## The start of both handlers -/

/-- The length, the version and the RSA block of a message; `body` reads the plaintext. -/
def onRsaMessage (rsa : RsaDecode) (expected : UInt32) (o : ℕ) (datalen : UInt32)
    (body : UInt16 → ℕ → MemM Region FirstMessage) : MemM Region FirstMessage := do
  if datalen ≠ expected then
    pure .close
  else
    let version ← decodeU16le .message 7
    if version < 830 then
      pure .close
    else
      match ← decodeRsa rsa .message o 128 with
      | none => pure .close
      | some decodedLen =>
        if decodedLen ≠ 127 then
          pure .close
        else
          body version o

/-- A message that gets to the plaintext. -/
structure RsaBlock (rsa : RsaDecode) (expected : UInt32) (o : ℕ) (datalen : UInt32)
    (m : Memory Region) (decoded : List UInt8) : Prop where
  datalen : datalen = expected
  version : ¬ m.u16 .message 7 < 830
  block : rsa (m.slice .message o 128) = some decoded
  length : decoded.length = 127

section Start
variable {m : Memory Region} {rsa : RsaDecode} {expected datalen : UInt32} {o : ℕ}
  {body : UInt16 → ℕ → MemM Region FirstMessage} {decoded : List UInt8}

theorem onRsaMessage_block (hbuf : Buffers m datalen)
    (hsize : 9 ≤ expected.toNat ∧ o + 128 ≤ expected.toNat)
    (h : RsaBlock rsa expected o datalen m decoded) : onRsaMessage rsa expected o datalen body m =
      body (m.u16 .message 7) o (m.write .message o decoded) := by
  obtain ⟨rfl,hver,hrsa,hlen⟩ := h
  have hmsg := hbuf.message
  rw [onRsaMessage, if_neg (not_not.mpr rfl), bind_run (decodeU16le_run (by omega)), if_neg hver,
    bind_run (decodeRsa_some (by omega) hrsa (by omega))]
  exact congrFun (if_neg (not_not.mpr hlen)) _

theorem onRsaMessage_close (body : UInt16 → ℕ → MemM Region FirstMessage)
    (hbuf : Buffers m datalen) (hsize : 9 ≤ expected.toNat ∧ o + 128 ≤ expected.toNat)
    (hrsa : ∀ decoded, rsa (m.slice .message o 128) = some decoded → decoded.length ≤ 128)
    (h : ∀ decoded, ¬ RsaBlock rsa expected o datalen m decoded) :
    ∃ m', onRsaMessage rsa expected o datalen body m = some (.close,m') := by
  by_cases hdatalen : datalen = expected
  · subst hdatalen
    have hmsg := hbuf.message
    rw [onRsaMessage, if_neg (not_not.mpr rfl), bind_run (decodeU16le_run (by omega))]
    by_cases hver : m.u16 .message 7 < 830
    · rw [if_pos hver]
      exact ⟨_,rfl⟩
    · rw [if_neg hver]
      rcases hdec : rsa (m.slice .message o 128) with _ | decoded
      · rw [bind_run (decodeRsa_none (by omega) hdec)]
        exact ⟨_,rfl⟩
      · have hlen : decoded.length ≠ 127 := fun hlen => h decoded ⟨rfl,hver,hdec,hlen⟩
        rw [bind_run (decodeRsa_some (by omega) hdec (hrsa _ hdec))]
        exact ⟨_,congrFun (if_pos hlen) _⟩
  · exact ⟨_,congrFun (if_pos hdatalen) m⟩

end Start

def tibiaClientVersionMin : UInt16 := 860
def tibiaClientVersionMax : UInt16 := 860

theorem otherVersion_of_ne {version : UInt16} (h : version ≠ 860) :
    version < tibiaClientVersionMin ∨ tibiaClientVersionMax < version := by
  by_contra hnot
  have hmin := UInt16.lt_iff_toNat_lt.not.mp (not_or.mp hnot).1
  have hmax := UInt16.lt_iff_toNat_lt.not.mp (not_or.mp hnot).2
  exact h (UInt16.toNat_inj.mp (Nat.le_antisymm (Nat.le_of_not_lt hmax) (Nat.le_of_not_lt hmin)))

namespace Login

/-- The end of `on_recv_first_message`, for the results of `decode_tibia_string` and of
`db_add_task`. -/
def answer (accepts : Bool) (login : LoginInfo) (a b : UInt16) : FirstMessage :=
  if 32 < a ∨ 32 < b then .disconnect login "Your account has been banned."
  else if accepts = false then .disconnect login "Internal error. Try again later."
  else .request login

/-- The part of `on_recv_first_message` behind the RSA block. -/
def request (accepts : Bool) (c : UInt32) (version : UInt16) (decoded : ℕ) :
    MemM Region FirstMessage := do
  let xtea ← decodeXtea .message decoded
  let login : LoginInfo := ⟨c,xtea⟩
  if version < tibiaClientVersionMin ∨ tibiaClientVersionMax < version then
    pure (.disconnect login "This server requires client version 8.60.")
  else
    let a ← decodeTibiaString .message (decoded + 16) .accname 32
    let b ← if 32 < a then pure 0
      else decodeTibiaString .message (decoded + 16 + a.toNat) .password 32
    pure (answer accepts login a b)

def onRecvFirstMessage (rsa : RsaDecode) (accepts : Bool) (c datalen : UInt32) :
    MemM Region FirstMessage :=
  onRsaMessage rsa 149 21 datalen (request accepts c)

section Runs
variable {m : Memory Region} {c : UInt32} {accepts : Bool} {version : UInt16}

/-- What `decode_tibia_string` returns for the account name. -/
def accnameLen (m : Memory Region) (decoded : ℕ) : UInt16 := m.u16 .message (decoded + 16) + 2

theorem request_otherVersion (hbuf : Buffers m 149)
    (hver : version < tibiaClientVersionMin ∨ tibiaClientVersionMax < version) :
    request accepts c version 21 m = some (.disconnect ⟨c,xteaAt m .message 21⟩
      "This server requires client version 8.60.",m) := by
  have hmsg : m.size .message = 149 := hbuf.message
  rw [request, bind_run (decodeXtea_run (by omega)), if_pos hver]
  rfl

theorem request_longAccname (accepts : Bool) (c : UInt32) (hbuf : Buffers m 149)
    (hlong : 32 < accnameLen m 21) :
    request accepts c 860 21 m = some (.disconnect ⟨c,xteaAt m .message 21⟩
      "Your account has been banned.",putString m .message 37 .accname 32) := by
  have hmsg : m.size .message = 149 := hbuf.message
  unfold accnameLen at hlong
  rw [request, bind_run (decodeXtea_run (by omega)), if_neg (by decide),
    bind_run (decodeTibiaString_run_32 hbuf.accname (by omega)), if_pos hlong, pure_bind]
  exact congrArg some (Prod.ext (if_pos (Or.inl hlong)) rfl)

/-- A short account name is followed by the password; the two buffers are filled. -/
theorem request_shortAccname (accepts : Bool) (c : UInt32) (hbuf : Buffers m 149)
    (hshort : ¬ 32 < accnameLen m 21) :
    request accepts c 860 21 m =
      some (answer accepts ⟨c,xteaAt m .message 21⟩ (accnameLen m 21)
          (m.u16 .message (37 + (accnameLen m 21).toNat) + 2),
        putString (putString m .message 37 .accname 32) .message
          (37 + (accnameLen m 21).toNat) .password 32) := by
  have hmsg : m.size .message = 149 := hbuf.message
  have hle : (accnameLen m 21).toNat ≤ 32 := by
    rw [UInt16.lt_iff_toNat_lt] at hshort
    exact Nat.le_of_not_lt hshort
  have hu16 : ∀ i, (putString m .message 37 .accname 32).u16 .message i = m.u16 .message i :=
    fun i => Memory.u16_write_of_ne (by decide)
  have hb : decodeTibiaString .message (37 + (accnameLen m 21).toNat) .password 32
      (putString m .message 37 .accname 32) = _ :=
    decodeTibiaString_run_32 hbuf.password (by change _ ≤ m.size _; omega)
  rw [hu16] at hb
  unfold accnameLen at hshort hb hle
  rw [request, bind_run (decodeXtea_run (by omega)), if_neg (by decide),
    bind_run (decodeTibiaString_run_32 hbuf.accname (by omega)), if_neg hshort, bind_run hb]
  rfl

theorem request_isSome (hbuf : Buffers m 149) :
    ∃ r m', request accepts c version 21 m = some (r,m') := by
  by_cases hver : version = 860
  · subst hver
    by_cases hlong : 32 < accnameLen m 21
    · exact ⟨_,_,request_longAccname _ _ hbuf hlong⟩
    · exact ⟨_,_,request_shortAccname _ _ hbuf hlong⟩
  · exact ⟨_,_,request_otherVersion hbuf (otherVersion_of_ne hver)⟩

variable {rsa : RsaDecode} {datalen : UInt32}

/-- No message makes the handler leave the message or the string buffers. -/
theorem onRecvFirstMessage_isSome (accepts : Bool) (c : UInt32) (hbuf : Buffers m datalen)
    (hrsa : ∀ l decoded, rsa l = some decoded → decoded.length ≤ 128) :
    ∃ r m', onRecvFirstMessage rsa accepts c datalen m = some (r,m') := by
  by_cases hblock : ∃ decoded, RsaBlock rsa 149 21 datalen m decoded
  · obtain ⟨decoded,hblock⟩ := hblock
    obtain rfl := hblock.datalen
    rw [onRecvFirstMessage, onRsaMessage_block hbuf (by decide) hblock]
    exact request_isSome (hbuf.congr rfl)
  · obtain ⟨m',hclose⟩ := onRsaMessage_close (request accepts c) hbuf (by decide) (hrsa _)
      (fun decoded h => hblock ⟨decoded,h⟩)
    exact ⟨_,m',hclose⟩

theorem isFor_answer {login : LoginInfo} {a b : UInt16} :
    (answer accepts login a b).IsFor login.connection := by
  unfold answer
  split
  · rfl
  · split <;> rfl

theorem isFor_request {decoded : ℕ} {r : FirstMessage} {m' : Memory Region}
    (h : request accepts c version decoded m = some (r,m')) : r.IsFor c := by
  obtain ⟨xtea,m₁,-,h⟩ := exists_of_bind h
  dsimp only at h
  split at h
  · cases h
    rfl
  · obtain ⟨a,m₂,-,h⟩ := exists_of_bind h
    split at h <;> obtain ⟨b,m₃,-,h⟩ := exists_of_bind h <;> cases h <;> exact isFor_answer

/-- The handler works for the connection it has been called for. -/
theorem onRecvFirstMessage_isFor {r : FirstMessage} {m' : Memory Region}
    (h : onRecvFirstMessage rsa accepts c datalen m = some (r,m')) : r.IsFor c := by
  unfold onRecvFirstMessage onRsaMessage at h
  split at h
  · cases h
    trivial
  · obtain ⟨v,m₁,-,h⟩ := exists_of_bind h
    split at h
    · cases h
      trivial
    · obtain ⟨decodedLen,m₂,-,h⟩ := exists_of_bind h
      cases decodedLen with
      | none =>
        cases h
        trivial
      | some n =>
        dsimp only at h
        split at h
        · cases h
          trivial
        · exact isFor_request h

end Runs

end Login

end Kaplar.Protocol
