import Kaplar.Crypto.Rsa
import Kaplar.Protocol.LoginParser

/-! # Which login messages the handler takes

The client pads the plaintext to 128 bytes with a leading zero, and the decoded
block is expected to have lost exactly that byte.
-/
namespace Kaplar.Protocol.Login
open Kaplar.Crypto

def tibiaString (s : List UInt8) : List UInt8 := bytes16 (UInt16.ofNat s.length) ++ s

/-- The plaintext behind its leading zero. -/
def loginPlaintext (key name password padding : List UInt8) : List UInt8 :=
  key ++ (tibiaString name ++ (tibiaString password ++ padding))

def keyWords (key : List UInt8) : XteaKey :=
  ![dwordAt key 0,dwordAt key 4,dwordAt key 8,dwordAt key 12]

theorem getD_append_right (l l' : List UInt8) (i : ℕ) :
    (l ++ l').getD (l.length + i) 0 = l'.getD i 0 := by
  simp [List.getElem?_append_right]

theorem wordAt_append (l l' : List UInt8) (i : ℕ) :
    wordAt (l ++ l') (l.length + i) = wordAt l' i := by
  rw [wordAt, Nat.add_assoc, getD_append_right, getD_append_right, wordAt]

theorem dwordAt_append (l l' : List UInt8) {i : ℕ} (h : i + 3 < l.length) :
    dwordAt (l ++ l') i = dwordAt l i := by
  have hget : ∀ j < l.length, (l ++ l').getD j 0 = l.getD j 0 := by
    intro j hj
    simp [List.getElem?_append_left hj]
  rw [dwordAt, hget _ (by omega), hget _ (by omega), hget _ (by omega), hget _ h, dwordAt]

theorem wordAt_tibiaString (s l : List UInt8) :
    wordAt (tibiaString s ++ l) 0 = UInt16.ofNat s.length := u16le_bytes16 _

theorem toNat_length {s : List UInt8} (h : s.length ≤ 30) :
    (UInt16.ofNat s.length).toNat = s.length :=
  UInt16.toNat_ofNat_of_lt' (Nat.lt_of_le_of_lt h (by decide))

section Plaintext
variable {key name password padding : List UInt8}

theorem accnameLength_plaintext (hkey : key.length = 16) (hname : name.length ≤ 30) :
    accnameLength (loginPlaintext key name password padding) = name.length := by
  have hword := wordAt_append key (tibiaString name ++ (tibiaString password ++ padding)) 0
  rw [hkey, wordAt_tibiaString] at hword
  rw [accnameLength, loginPlaintext, hword, toNat_length hname]

theorem passwordLength_plaintext (hkey : key.length = 16) (hname : name.length ≤ 30)
    (hpassword : password.length ≤ 30) :
    passwordLength (loginPlaintext key name password padding) = password.length := by
  have hword := wordAt_append (key ++ tibiaString name) (tibiaString password ++ padding) 0
  have hlen : (key ++ tibiaString name).length + 0 = 18 + name.length := by
    simp [tibiaString,hkey]
    omega
  rw [hlen, wordAt_tibiaString, List.append_assoc] at hword
  rw [passwordLength, accnameLength_plaintext hkey hname, loginPlaintext, hword,
    toNat_length hpassword]

theorem accnameBytes_plaintext (hkey : key.length = 16) (hname : name.length ≤ 30) :
    accnameBytes (loginPlaintext key name password padding) = name := by
  have hsplit : loginPlaintext key name password padding =
      (key ++ bytes16 (UInt16.ofNat name.length)) ++
        (name ++ (tibiaString password ++ padding)) := by
    simp only [loginPlaintext, tibiaString, List.append_assoc]
  have hlen : (key ++ bytes16 (UInt16.ofNat name.length)).length = 18 := by
    rw [List.length_append, hkey, length_bytes16]
  rw [accnameBytes, accnameLength_plaintext hkey hname, hsplit, List.drop_left' hlen,
    List.take_left]

theorem passwordBytes_plaintext (hkey : key.length = 16) (hname : name.length ≤ 30)
    (hpassword : password.length ≤ 30) :
    passwordBytes (loginPlaintext key name password padding) = password := by
  have hsplit : loginPlaintext key name password padding =
      (key ++ (tibiaString name ++ bytes16 (UInt16.ofNat password.length))) ++
        (password ++ padding) := by
    simp only [loginPlaintext, tibiaString, List.append_assoc]
  have hlen : (key ++ (tibiaString name ++ bytes16 (UInt16.ofNat password.length))).length =
      20 + name.length := by
    simp only [tibiaString, List.length_append, hkey, length_bytes16]
    omega
  rw [passwordBytes, accnameLength_plaintext hkey hname,
    passwordLength_plaintext hkey hname hpassword, hsplit, List.drop_left' hlen, List.take_left]

theorem xteaAt_plaintext (m : Memory Region) (hkey : key.length = 16)
    (hlen : (loginPlaintext key name password padding).length = 127) :
    xteaAt (m.write .message 21 (loginPlaintext key name password padding)) .message 21 =
      keyWords key := by
  have hword : ∀ i, i + 3 < 16 → (m.write .message 21
      (loginPlaintext key name password padding)).u32 .message (21 + i) = dwordAt key i := by
    intro i hi
    rw [Memory.u32_write (by omega), loginPlaintext, dwordAt_append _ _ (by omega)]
  have h0 := hword 0 (by decide)
  have h4 := hword 4 (by decide)
  have h8 := hword 8 (by decide)
  have h12 := hword 12 (by decide)
  rw [xteaAt, h4, h8, h12, keyWords, ← h0]

/-- The plaintext without its leading zero is taken for what it is. -/
theorem request_plaintext {m : Memory Region} (hbuf : Buffers m 149) (c : UInt32)
    (hkey : key.length = 16) (hname : name.length ≤ 30) (hpassword : password.length ≤ 30)
    (hlen : (loginPlaintext key name password padding).length = 127) :
    ∃ m', request true c 860 21
        (m.write .message 21 (loginPlaintext key name password padding)) =
          some (.request ⟨c,keyWords key⟩,m') ∧
      HoldsString m' .accname name ∧ HoldsString m' .password password := by
  obtain ⟨m',hrun,haccname,hpass⟩ := request_short hbuf c hlen
    (by rw [accnameLength_plaintext hkey hname]; exact hname)
    (by rw [passwordLength_plaintext hkey hname hpassword]; exact hpassword)
  rw [xteaAt_plaintext m hkey hlen] at hrun
  rw [accnameBytes_plaintext hkey hname] at haccname
  rw [passwordBytes_plaintext hkey hname hpassword] at hpass
  exact ⟨m',hrun,haccname,hpass⟩

end Plaintext

/-! ## The handler with the RSA key -/

/-- The plaintext the handler gets: every leading zero of the block is gone. -/
theorem tibiaRsaDecode_block {r : RsaCtx} {block l : List UInt8} (hlimit : 128 ≤ r.encodingLimit)
    (hlen : l.length = 128) (hrsa : rsaDecodeInt r (mpzImport l) = mpzImport (0 :: block)) :
    tibiaRsaDecode r l = some (block.dropWhile (fun b => b = 0)) := by
  rw [tibiaRsaDecode, if_neg (by omega), rsaDecode, hrsa, mpzImport_zero_cons,
    mpzExport_mpzImport]

theorem onRecvFirstMessage_otherLength {m : Memory Region} {rsa : RsaDecode}
    {decoded : List UInt8} (c : UInt32) (hbuf : Buffers m 149)
    (hrsa : rsa (m.slice .message 21 128) = some decoded) (hle : decoded.length ≤ 128)
    (hne : decoded.length ≠ 127) :
    ∃ m', onRecvFirstMessage rsa true c 149 m = some (.close,m') := by
  refine onRsaMessage_close (request true c) hbuf (by decide) ?_ ?_
  · intro decoded' hdec
    rw [Option.some.inj (hdec.symm.trans hrsa)]
    exact hle
  · intro decoded' hblock
    rw [Option.some.inj (hrsa.symm.trans hblock.block)] at hne
    exact hne hblock.length

/-- A login message is taken, with the key and the strings of the client, exactly when the
key does not start with a zero byte. -/
theorem loginParser_complete_iff (r : RsaCtx) (c : UInt32) (m : Memory Region)
    (key name password padding : List UInt8) (hlimit : 128 ≤ r.encodingLimit)
    (hbuf : Buffers m 149) (hver : m.u16 .message 7 = 860) (hkey : key.length = 16)
    (hname : name.length ≤ 30) (hpassword : password.length ≤ 30)
    (hlen : (0 :: loginPlaintext key name password padding).length = 128)
    (hrsa : rsaDecodeInt r (mpzImport (m.slice .message 21 128)) =
      mpzImport (0 :: loginPlaintext key name password padding)) :
    (∃ login m', onRecvFirstMessage (tibiaRsaDecode r) true c 149 m =
        some (.request login,m') ∧ login.connection = c ∧ login.xtea = keyWords key ∧
      HoldsString m' .accname name ∧ HoldsString m' .password password) ↔
      key.getD 0 0 ≠ 0 := by
  have hlen127 : (loginPlaintext key name password padding).length = 127 := Nat.succ.inj hlen
  have hdecode := tibiaRsaDecode_block hlimit (Memory.length_slice m .message 21 128) hrsa
  rcases key with _ | ⟨b,key⟩
  · cases hkey
  by_cases hb : b = 0
  · refine iff_of_false ?_ (not_not.mpr hb)
    rintro ⟨login,m',hrun,-⟩
    subst hb
    have hshort : ((loginPlaintext (0 :: key) name password padding).dropWhile
        (fun b => b = 0)).length ≤ 126 := by
      have hdrop : (loginPlaintext (0 :: key) name password padding).dropWhile (fun b => b = 0) =
          (loginPlaintext key name password padding).dropWhile (fun b => b = 0) := by
        simp [loginPlaintext]
      have hle := (List.dropWhile_sublist (fun b : UInt8 => b = 0)
        (l := loginPlaintext key name password padding)).length_le
      rw [hdrop]
      exact hle.trans (Nat.le_of_eq (Nat.succ.inj hlen127))
    obtain ⟨m'',hclose⟩ := onRecvFirstMessage_otherLength c hbuf hdecode (by omega) (by omega)
    rw [hclose] at hrun
    cases hrun
  · refine iff_of_true ?_ hb
    have hdrop : (loginPlaintext (b :: key) name password padding).dropWhile (fun b => b = 0) =
        loginPlaintext (b :: key) name password padding := by
      simp [loginPlaintext,hb]
    rw [hdrop] at hdecode
    obtain ⟨m',hrun,hholds⟩ := request_plaintext hbuf c hkey hname hpassword hlen127
    rw [onRecvFirstMessage_860 hbuf hver hdecode hlen127]
    exact ⟨_,m',hrun,rfl,rfl,hholds⟩

/-- The block of a client with the key of 16 bytes 7, account "ab" and password "c". -/
def ciphertext : List UInt8 :=
  [113,98,138,194,79,7,196,222,26,103,80,18,78,31,243,104,21,108,33,120,192,136,52,210,253,241,57,
   166,47,17,229,117,161,234,81,198,245,99,39,18,147,70,114,187,240,208,252,23,149,37,40,88,172,
   74,170,209,64,193,7,21,208,71,108,42,118,48,33,70,229,190,50,238,156,202,117,197,146,65,184,10,
   110,127,118,189,142,130,69,34,8,70,75,209,148,248,188,47,135,122,25,84,250,181,153,4,30,107,
   230,227,43,166,193,127,197,77,226,2,128,213,154,151,91,225,72,217,231,212,169,208]

/-- The same with a zero as the first byte of the key. -/
def ciphertextZero : List UInt8 :=
  [104,209,215,89,210,102,228,120,251,43,196,161,19,5,170,221,3,80,199,46,240,135,130,80,208,105,
   17,134,174,83,81,91,52,160,202,9,62,54,73,13,40,149,249,91,255,64,89,115,149,212,121,58,249,
   124,164,11,224,189,63,40,1,43,191,155,64,165,102,232,212,132,92,145,145,36,0,25,66,82,85,232,
   231,206,22,172,19,62,80,204,150,19,203,93,71,29,247,103,187,25,201,219,233,8,90,181,215,220,
   195,46,109,140,200,230,193,223,83,155,2,143,189,184,225,33,215,228,75,12,17,213]

theorem loginParser_complete_nonzero :
    ∃ login m', onRecvFirstMessage (tibiaRsaDecode tibiaCtx) true 5 149
        (firstMessage (messageData ciphertext)) = some (.request login,m') ∧
      login.connection = 5 ∧ login.xtea = keyWords (List.replicate 16 7) ∧
      HoldsString m' .accname [97,98] ∧ HoldsString m' .password [99] :=
  (loginParser_complete_iff tibiaCtx 5 (firstMessage (messageData ciphertext))
    (List.replicate 16 7) [97,98] [99] (List.replicate 104 0) (by decide) ⟨rfl,rfl,rfl,rfl⟩
    (by decide) (by decide) (by decide) (by decide) (by simp [loginPlaintext,tibiaString])
    (by decide +kernel)).mpr (by decide)

theorem loginParser_not_complete :
    ¬ ∃ login m', onRecvFirstMessage (tibiaRsaDecode tibiaCtx) true 5 149
        (firstMessage (messageData ciphertextZero)) = some (.request login,m') := by
  rintro ⟨login,m',hrun⟩
  have hbuf : Buffers (firstMessage (messageData ciphertextZero)) 149 := ⟨rfl,rfl,rfl,rfl⟩
  have hrsa : tibiaRsaDecode tibiaCtx
      ((firstMessage (messageData ciphertextZero)).slice .message 21 128) =
        some ((loginPlaintext (0 :: List.replicate 15 7) [97,98] [99]
          (List.replicate 104 0)).dropWhile (fun b => b = 0)) :=
    tibiaRsaDecode_block (by decide) (Memory.length_slice _ _ _ _) (by decide +kernel)
  obtain ⟨m'',hclose⟩ := onRecvFirstMessage_otherLength 5 hbuf hrsa (by decide +kernel)
    (by decide +kernel)
  rw [hclose] at hrun
  cases hrun

end Kaplar.Protocol.Login
