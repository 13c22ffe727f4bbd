import Kaplar.Protocol.LoginMessage

/-! # First messages stay in bounds

The game handler reads three strings behind one another. Its guard for the third
string tests the second length only, which is zero when the first one was too
long: the third string is then read behind the whole declared length of the first.
-/
namespace Kaplar.Protocol
open Kaplar.Crypto

namespace Game

/-- A string behind the `s` bytes read so far, unless the previous one was too long. -/
def nextString (decoded : ℕ) (s previous : UInt16) (outstr : Region) : MemM Region UInt16 :=
  if 32 < previous then pure 0
  else decodeTibiaString .message (decoded + 17 + s.toNat) outstr 32

/-- The part of `on_recv_first_message` behind the RSA block. -/
def login (version : UInt16) (decoded : ℕ) : MemM Region FirstMessage := do
  let _xtea ← decodeXtea .message decoded
  if version < tibiaClientVersionMin ∨ tibiaClientVersionMax < version then
    pure .close
  else
    let _gmFlag ← load .message (decoded + 16)
    let a ← decodeTibiaString .message (decoded + 17) .accname 32
    let b ← nextString decoded a a .charname
    let _c ← nextString decoded (a + b) b .password
    -- closed with or without a length above the limit: there is no game yet
    pure .close

def onRecvFirstMessage (rsa : RsaDecode) (datalen : UInt32) : MemM Region FirstMessage :=
  onRsaMessage rsa 137 9 datalen login

section Runs
variable {m : Memory Region} {version s previous : UInt16} {outstr : Region}

theorem nextString_long (h : 32 < previous) : nextString 9 s previous outstr m = some (0,m) :=
  congrFun (if_pos h) m

theorem nextString_short (h : ¬ 32 < previous) (hout : m.size outstr = 32)
    (hsrc : 26 + s.toNat + 33 ≤ m.size .message) : nextString 9 s previous outstr m =
      some (m.u16 .message (26 + s.toNat) + 2,putString m .message (26 + s.toNat) outstr 32) :=
  (congrFun (if_neg h) m).trans (decodeTibiaString_run_32 hout hsrc)

theorem not_lt_32 {a : UInt16} (h : ¬ 32 < a) : a.toNat ≤ 32 := by
  rw [UInt16.lt_iff_toNat_lt] at h
  exact Nat.le_of_not_lt h

/-- What `decode_tibia_string` returns for the account name. -/
def accnameLen (m : Memory Region) : UInt16 := m.u16 .message 26 + 2

theorem login_otherVersion (hbuf : Buffers m 137)
    (hver : version < tibiaClientVersionMin ∨ tibiaClientVersionMax < version) :
    login version 9 m = some (.close,m) := by
  have hmsg : m.size .message = 137 := hbuf.message
  rw [login, bind_run (decodeXtea_run (by omega)), if_pos hver]
  rfl

theorem login_860 (hbuf : Buffers m 137) : login 860 9 m = (do
    let b ← nextString 9 (accnameLen m) (accnameLen m) .charname
    let _c ← nextString 9 (accnameLen m + b) b .password
    pure .close : MemM Region FirstMessage) (putString m .message 26 .accname 32) := by
  have hmsg : m.size .message = 137 := hbuf.message
  rw [login, bind_run (decodeXtea_run (by omega)), if_neg (by decide),
    bind_run (load_run (by omega)), bind_run (decodeTibiaString_run_32 hbuf.accname (by omega))]
  rfl

/-- Two strings with short results leave room for the third. -/
theorem login_shortAccname (hbuf : Buffers m 137) (hshort : ¬ 32 < accnameLen m) :
    ∃ m', login 860 9 m = some (.close,m') := by
  have hmsg : m.size .message = 137 := hbuf.message
  have ha := not_lt_32 hshort
  let m₁ := putString m .message 26 .accname 32
  let b := m₁.u16 .message (26 + (accnameLen m).toNat) + 2
  let m₂ := putString m₁ .message (26 + (accnameLen m).toNat) .charname 32
  have hb : nextString 9 (accnameLen m) (accnameLen m) .charname m₁ = some (b,m₂) :=
    nextString_short hshort hbuf.charname (by change _ ≤ m.size _; omega)
  rw [login_860 hbuf, bind_run hb]
  by_cases hlong : 32 < b
  · rw [bind_run (nextString_long hlong)]
    exact ⟨_,rfl⟩
  · have hb32 := not_lt_32 hlong
    have hsum : (accnameLen m + b).toNat ≤ 64 := by
      rw [UInt16.toNat_add]
      exact (Nat.mod_le _ _).trans (by omega)
    have hc : nextString 9 (accnameLen m + b) b .password m₂ = some
        (m₂.u16 .message (26 + (accnameLen m + b).toNat) + 2,
          putString m₂ .message (26 + (accnameLen m + b).toNat) .password 32) :=
      nextString_short hlong hbuf.password (by change _ ≤ m.size _; omega)
    rw [bind_run hc]
    exact ⟨_,rfl⟩

/-- A first string that is too long leaves the second unread, and the third is read
behind it. -/
theorem login_longAccname (hbuf : Buffers m 137) (hlong : 32 < accnameLen m) :
    login 860 9 m = (do
      let _c ← decodeTibiaString .message (26 + (accnameLen m).toNat) .password 32
      pure .close : MemM Region FirstMessage) (putString m .message 26 .accname 32) := by
  rw [login_860 hbuf, bind_run (nextString_long hlong), UInt16.add_zero]
  rfl

theorem thirdLength (m : Memory Region) (i : ℕ) :
    (putString m .message 26 .accname 32).u16 .message i = m.u16 .message i :=
  Memory.u16_write_of_ne (by decide)

/-- The end of what is read for a third string behind a long first one. -/
def thirdEnd (m : Memory Region) : ℕ :=
  28 + (accnameLen m).toNat + copied (m.u16 .message (26 + (accnameLen m).toNat)) 32

theorem login_isSome_iff (hbuf : Buffers m 137) :
    (login 860 9 m).isSome ↔ ¬ (32 < accnameLen m ∧ 137 < thirdEnd m) := by
  let m₁ := putString m .message 26 .accname 32
  have hmsg : m₁.size .message = 137 := hbuf.message
  have hpass : UInt16.toNat 32 ≤ m₁.size .password := Nat.le_of_eq hbuf.password.symm
  have hlength : m₁.u16 .message _ = _ := thirdLength m (26 + (accnameLen m).toNat)
  by_cases hlong : 32 < accnameLen m
  · rw [login_longAccname hbuf hlong]
    by_cases hend : 137 < thirdEnd m
    · unfold thirdEnd at hend
      have hc : decodeTibiaString .message (26 + (accnameLen m).toNat) .password 32 m₁ = none :=
        decodeTibiaString_fault (by decide) (by rw [hmsg, hlength]; omega)
      rw [bind_fault hc]
      exact iff_of_false (by decide) (not_not.mpr ⟨hlong,hend⟩)
    · have hin := hend
      unfold thirdEnd at hin
      have hc : decodeTibiaString .message (26 + (accnameLen m).toNat) .password 32 m₁ = _ :=
        decodeTibiaString_run (by decide) hpass (by omega) (by rw [hmsg, hlength]; omega)
      rw [bind_run hc]
      exact iff_of_true rfl (fun h => hend h.2)
  · obtain ⟨m',hrun⟩ := login_shortAccname hbuf hlong
    rw [hrun]
    exact iff_of_true rfl (fun h => hlong h.1)

/-- The messages whose third string reaches behind the last byte. -/
def Overruns (rsa : RsaDecode) (datalen : UInt32) (m : Memory Region) : Prop :=
  ∃ decoded, RsaBlock rsa 137 9 datalen m decoded ∧ m.u16 .message 7 = 860 ∧
    32 < accnameLen (m.write .message 9 decoded) ∧ 137 < thirdEnd (m.write .message 9 decoded)

variable {rsa : RsaDecode} {datalen : UInt32}

theorem onRecvFirstMessage_isSome_iff (hbuf : Buffers m datalen)
    (hrsa : ∀ l decoded, rsa l = some decoded → decoded.length ≤ 128) :
    (onRecvFirstMessage rsa datalen m).isSome ↔ ¬ Overruns rsa datalen m := by
  by_cases hblock : ∃ decoded, RsaBlock rsa 137 9 datalen m decoded
  · obtain ⟨decoded,hblock⟩ := hblock
    have hunique : ∀ decoded', RsaBlock rsa 137 9 datalen m decoded' → decoded' = decoded :=
      fun decoded' h => Option.some.inj (h.block.symm.trans hblock.block)
    rw [onRecvFirstMessage, onRsaMessage_block hbuf (by decide) hblock]
    obtain rfl := hblock.datalen
    have hbuf₁ : Buffers (m.write .message 9 decoded) 137 := hbuf.congr rfl
    by_cases h860 : m.u16 .message 7 = 860
    · rw [h860, login_isSome_iff hbuf₁]
      refine not_congr ⟨fun h => ⟨decoded,hblock,h860,h⟩,?_⟩
      rintro ⟨decoded',hblock',-,h⟩
      rw [hunique decoded' hblock'] at h
      exact h
    · rw [login_otherVersion hbuf₁ (otherVersion_of_ne h860)]
      exact iff_of_true rfl (fun ⟨_,_,h,_⟩ => h860 h)
  · obtain ⟨m',hclose⟩ := onRsaMessage_close login hbuf (by decide) (hrsa _)
      (fun decoded h => hblock ⟨decoded,h⟩)
    rw [onRecvFirstMessage, hclose]
    exact iff_of_true rfl (fun ⟨decoded,h,_⟩ => hblock ⟨decoded,h⟩)

end Runs

end Game

/-- Both handlers stay in the message and in the string buffers exactly when the third
string of a game message does. -/
theorem firstMessage_inBounds_iff (rsa : RsaDecode) (accepts : Bool) (c datalen : UInt32)
    (m : Memory Region) (hbuf : Buffers m datalen)
    (hrsa : ∀ l decoded, rsa l = some decoded → decoded.length ≤ 128) :
    (Login.onRecvFirstMessage rsa accepts c datalen m).isSome ∧
      (Game.onRecvFirstMessage rsa datalen m).isSome ↔ ¬ Game.Overruns rsa datalen m := by
  obtain ⟨r,m',hlogin⟩ := Login.onRecvFirstMessage_isSome accepts c hbuf hrsa
  rw [hlogin, Game.onRecvFirstMessage_isSome_iff hbuf hrsa]
  exact and_iff_right rfl

/-- A game message of version 860, and a plaintext with its three strings. -/
def gameMessage : Memory Region :=
  firstMessage ([0,0,0,0,1,2,0,0x5C,3] ++ List.replicate 128 9)

def gamePlaintext (strings : List UInt8) : List UInt8 :=
  List.replicate 17 7 ++ (strings ++ List.replicate (110 - strings.length) 0)

theorem buffers_gameMessage : Buffers gameMessage 137 := ⟨rfl,rfl,rfl,rfl⟩

/-- The account "a", the character "b" and the password "c". -/
theorem firstMessage_inBounds_short :
    let rsa := fun _ => some (gamePlaintext [1,0,97,1,0,98,1,0,99])
    (Login.onRecvFirstMessage rsa true 5 137 gameMessage).isSome ∧
      (Game.onRecvFirstMessage rsa 137 gameMessage).isSome := by
  intro rsa
  apply (firstMessage_inBounds_iff rsa true 5 137 gameMessage buffers_gameMessage ?_).mpr
  · rintro ⟨decoded,hblock,-,hlong,-⟩
    obtain rfl := Option.some.inj hblock.block
    exact absurd hlong (by decide +kernel)
  · intro _ decoded hdec
    obtain rfl := Option.some.inj hdec
    simp [gamePlaintext]

/-- An account name of 1000 bytes: the third string is read at offset 1028 of 137. -/
theorem firstMessage_not_inBounds :
    let rsa := fun _ => some (gamePlaintext [232,3])
    ¬ ((Login.onRecvFirstMessage rsa true 5 137 gameMessage).isSome ∧
      (Game.onRecvFirstMessage rsa 137 gameMessage).isSome) := by
  rintro rsa ⟨-,hgame⟩
  have hrsa : ∀ l decoded, rsa l = some decoded → decoded.length ≤ 128 := by
    intro _ decoded hdec
    obtain rfl := Option.some.inj hdec
    simp [gamePlaintext]
  refine (Game.onRecvFirstMessage_isSome_iff buffers_gameMessage hrsa).mp hgame ?_
  exact ⟨gamePlaintext [232,3],⟨rfl,by decide,rfl,rfl⟩,by decide,by decide +kernel,
    by decide +kernel⟩

end Kaplar.Protocol
