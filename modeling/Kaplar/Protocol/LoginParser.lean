import Kaplar.Protocol.LoginMessage

/-! # What the login handler takes out of a message

`decode_tibia_string` returns the declared length plus two in 16 bits, and the
handler compares the sum with the size of the buffer. The two largest lengths
wrap to small sums and pass for short strings.
-/
namespace Kaplar.Protocol
open Kaplar.Crypto

/-- The buffer starts with the string and its terminator. -/
def HoldsString (m : Memory Region) (outstr : Region) (s : List UInt8) : Prop :=
  m.slice outstr 0 s.length = s ∧ m.bytes outstr s.length = 0

theorem holdsString_write (m : Memory Region) (outstr : Region) (s : List UInt8) :
    HoldsString (m.write outstr 0 (s ++ [0])) outstr s := by
  have hslice := Memory.slice_write_inside (m := m) (r := outstr) (o := 0) (l := s ++ [0])
    (i := 0) (n := s.length) (by simp)
  have hend := Memory.getD_write (m := m) (r := outstr) (o := 0) (l := s ++ [0])
    (i := s.length) (by simp)
  rw [Nat.zero_add] at hslice hend
  constructor
  · rw [hslice, List.drop_zero, List.take_left]
  · rw [hend]
    simp

theorem HoldsString.write_of_ne {m : Memory Region} {r outstr : Region} {s l : List UInt8}
    {off : ℕ} (h : HoldsString m outstr s) (hne : outstr ≠ r) :
    HoldsString (m.write r off l) outstr s := by
  unfold HoldsString
  rw [Memory.slice_write_of_ne hne, Memory.bytes_write_of_ne hne]
  exact h

namespace Login

/-- The declared lengths `LA` and `LB` of a plaintext. -/
def accnameLength (decoded : List UInt8) : ℕ := (wordAt decoded 16).toNat
def passwordLength (decoded : List UInt8) : ℕ := (wordAt decoded (18 + accnameLength decoded)).toNat

def accnameBytes (decoded : List UInt8) : List UInt8 :=
  (decoded.drop 18).take (accnameLength decoded)

def passwordBytes (decoded : List UInt8) : List UInt8 :=
  (decoded.drop (20 + accnameLength decoded)).take (passwordLength decoded)

/-- A request carries two strings of at most 30 bytes, as they stand in the plaintext;
everything else is answered with a disconnect. -/
def Sound (decoded : List UInt8) : FirstMessage → Memory Region → Prop
  | .request _, m => accnameLength decoded ≤ 30 ∧ passwordLength decoded ≤ 30 ∧
      HoldsString m .accname (accnameBytes decoded) ∧
      HoldsString m .password (passwordBytes decoded)
  | .disconnect _ _, _ => True
  | .close, _ => False

/-- The plaintexts with a declared length that passes for another one. -/
def Wraps (decoded : List UInt8) : Prop :=
  accnameLength decoded = 65534 ∨
    (accnameLength decoded = 65535 ∧ decoded.getD 18 0 = 255) ∨
    (accnameLength decoded ≤ 30 ∧ 65534 ≤ passwordLength decoded)

section Results
variable {m : Memory Region} {decoded : List UInt8}

theorem toNat_add_two (len : UInt16) : (len + 2).toNat = (len.toNat + 2) % 2 ^ 16 :=
  UInt16.toNat_add len 2

theorem accnameLen_write (hlen : decoded.length = 127) :
    (accnameLen (m.write .message 21 decoded) 21).toNat =
      (accnameLength decoded + 2) % 2 ^ 16 := by
  have hword := Memory.u16_write (m := m) (r := .message) (o := 21) (l := decoded) (i := 16)
    (by omega)
  rw [accnameLen, hword, toNat_add_two]
  rfl

/-- A string of the plaintext that fits is copied as it stands. -/
theorem putString_decoded {m' : Memory Region} {outstr : Region} {i : ℕ}
    (hmsg : m'.bytes .message = (m.write .message 21 decoded).bytes .message)
    (hshort : (wordAt decoded i).toNat ≤ 30)
    (hin : i + 2 + (wordAt decoded i).toNat ≤ decoded.length) :
    putString m' .message (21 + i) outstr 32 =
      m'.write outstr 0 ((decoded.drop (i + 2)).take (wordAt decoded i).toNat ++ [0]) := by
  have hword : m'.u16 .message (21 + i) = wordAt decoded i := by
    rw [Memory.u16, hmsg]
    exact Memory.u16_write (by omega)
  have hcopied : copied (wordAt decoded i) 32 = (wordAt decoded i).toNat :=
    Nat.min_eq_left (by change _ ≤ 31; omega)
  have hslice : m'.slice .message (21 + i + 2) (wordAt decoded i).toNat =
      (decoded.drop (i + 2)).take (wordAt decoded i).toNat := by
    rw [← Memory.slice_write_inside (m := m) (r := .message) (o := 21) hin]
    exact Memory.slice_congr (fun j _ => by rw [hmsg, Nat.add_assoc 21])
  rw [putString, hword, hcopied, hslice]

/-- The second string is read behind what the first one claims to be. -/
theorem request_decoded (hbuf : Buffers m 149) (c : UInt32) (hlen : decoded.length = 127)
    (hshort : (accnameLength decoded + 2) % 2 ^ 16 ≤ 32) :
    request true c 860 21 (m.write .message 21 decoded) =
      some (answer true ⟨c,xteaAt (m.write .message 21 decoded) .message 21⟩
          (accnameLen (m.write .message 21 decoded) 21)
          (wordAt decoded (16 + (accnameLength decoded + 2) % 2 ^ 16) + 2),
        putString (putString (m.write .message 21 decoded) .message 37 .accname 32) .message
          (21 + (16 + (accnameLength decoded + 2) % 2 ^ 16)) .password 32) := by
  have hbuf₁ : Buffers (m.write .message 21 decoded) 149 := hbuf.congr rfl
  have hsum := accnameLen_write (m := m) hlen
  have hnot : ¬ 32 < accnameLen (m.write .message 21 decoded) 21 := by
    rw [UInt16.lt_iff_toNat_lt, hsum]
    exact Nat.not_lt_of_le hshort
  have hrun := request_shortAccname true c hbuf₁ hnot
  have hword := Memory.u16_write (m := m) (r := .message) (o := 21) (l := decoded)
    (i := 16 + (accnameLength decoded + 2) % 2 ^ 16) (by omega)
  have hoff : 37 + (accnameLength decoded + 2) % 2 ^ 16 =
      21 + (16 + (accnameLength decoded + 2) % 2 ^ 16) := by omega
  rw [hsum, hoff, hword] at hrun
  exact hrun

theorem holdsString_decoded (hlen : decoded.length = 127) (ha : accnameLength decoded ≤ 30)
    (hb : passwordLength decoded ≤ 30) :
    let m₁ := m.write .message 21 decoded
    let m₂ := putString (putString m₁ .message 37 .accname 32) .message
      (21 + (18 + accnameLength decoded)) .password 32
    HoldsString m₂ .accname (accnameBytes decoded) ∧
      HoldsString m₂ .password (passwordBytes decoded) := by
  intro m₁ m₂
  have hacc : putString m₁ .message 37 .accname 32 =
      m₁.write .accname 0 (accnameBytes decoded ++ [0]) :=
    putString_decoded (i := 16) rfl ha (by change _ + accnameLength decoded ≤ _; omega)
  have hpass : putString (m₁.write .accname 0 (accnameBytes decoded ++ [0])) .message
      (21 + (18 + accnameLength decoded)) .password 32 = _ :=
    putString_decoded (m := m) (Memory.bytes_write_of_ne (by decide)) hb
      (by change _ + passwordLength decoded ≤ _; omega)
  have hdrop : 18 + accnameLength decoded + 2 = 20 + accnameLength decoded := by omega
  rw [hdrop, ← hacc] at hpass
  change HoldsString (putString _ _ _ _ _) _ _ ∧ HoldsString (putString _ _ _ _ _) _ _
  rw [hpass, hacc]
  exact ⟨(holdsString_write _ _ _).write_of_ne (by decide),holdsString_write _ _ _⟩

theorem answer_request {login : LoginInfo} {a b : UInt16} (ha : a.toNat ≤ 32) (hb : b.toNat ≤ 32) :
    answer true login a b = .request login := by
  have hnot : ¬ (32 < a ∨ 32 < b) := by
    rw [UInt16.lt_iff_toNat_lt, UInt16.lt_iff_toNat_lt]
    change ¬ (32 < _ ∨ 32 < _)
    omega
  rw [answer, if_neg hnot, if_neg (by decide)]

theorem answer_disconnect {login : LoginInfo} {accepts : Bool} {a b : UInt16}
    (hb : 32 < b.toNat) :
    answer accepts login a b = .disconnect login "Your account has been banned." := by
  have hlong : 32 < a ∨ 32 < b := Or.inr (by rw [UInt16.lt_iff_toNat_lt]; exact hb)
  rw [answer, if_pos hlong]

theorem mod_of_short (ha : accnameLength decoded ≤ 30) :
    16 + (accnameLength decoded + 2) % 2 ^ 16 = 18 + accnameLength decoded := by omega

/-- Two short strings are taken as they stand. -/
theorem request_short (hbuf : Buffers m 149) (c : UInt32) (hlen : decoded.length = 127)
    (ha : accnameLength decoded ≤ 30) (hb : passwordLength decoded ≤ 30) :
    ∃ m', request true c 860 21 (m.write .message 21 decoded) =
        some (.request ⟨c,xteaAt (m.write .message 21 decoded) .message 21⟩,m') ∧
      HoldsString m' .accname (accnameBytes decoded) ∧
      HoldsString m' .password (passwordBytes decoded) := by
  have hsum := accnameLen_write (m := m) hlen
  have hrun := request_decoded hbuf c hlen (by omega)
  have hpassword := toNat_add_two (wordAt decoded (18 + accnameLength decoded))
  change _ = (passwordLength decoded + 2) % 2 ^ 16 at hpassword
  rw [mod_of_short ha, answer_request (by omega) (by omega)] at hrun
  exact ⟨_,hrun,holdsString_decoded hlen ha hb⟩

/-- The first byte of a declared length of 65535, seen as the second byte of another. -/
theorem toNat_wordAt_17 (ha : accnameLength decoded = 65535) :
    (wordAt decoded 17).toNat = 255 + (decoded.getD 18 0).toNat * 2 ^ 8 := by
  have h16 := toNat_u16le (decoded.getD 16 0) (decoded.getD 17 0)
  have hlow := (decoded.getD 16 0).toNat_lt
  have hhigh := (decoded.getD 17 0).toNat_lt
  change accnameLength decoded = _ at h16
  have h17 : (decoded.getD 17 0).toNat = 255 := by omega
  rw [wordAt, toNat_u16le, h17]

theorem sound_of_not_wraps (hbuf : Buffers m 149) (c : UInt32) (hlen : decoded.length = 127)
    (h : ¬ Wraps decoded) :
    ∃ r m', request true c 860 21 (m.write .message 21 decoded) = some (r,m') ∧
      Sound decoded r m' := by
  have hbound : accnameLength decoded < 2 ^ 16 := (wordAt decoded 16).toNat_lt
  have hsum := accnameLen_write (m := m) hlen
  by_cases hlong : 32 < (accnameLength decoded + 2) % 2 ^ 16
  · have hlt : 32 < accnameLen (m.write .message 21 decoded) 21 := by
      rw [UInt16.lt_iff_toNat_lt, hsum]
      exact hlong
    exact ⟨_,_,request_longAccname _ _ (hbuf.congr rfl) hlt,trivial⟩
  · have hrun := request_decoded hbuf c hlen (Nat.le_of_not_lt hlong)
    by_cases hshort : accnameLength decoded ≤ 30
    · by_cases hb : passwordLength decoded ≤ 30
      · obtain ⟨m',hrequest,hholds⟩ := request_short hbuf c hlen hshort hb
        exact ⟨_,m',hrequest,hshort,hb,hholds⟩
      · have hpassword := toNat_add_two (wordAt decoded (18 + accnameLength decoded))
        change _ = (passwordLength decoded + 2) % 2 ^ 16 at hpassword
        have hnot : ¬ 65534 ≤ passwordLength decoded := fun hb => h (Or.inr (Or.inr ⟨hshort,hb⟩))
        rw [mod_of_short hshort, answer_disconnect (by omega)] at hrun
        exact ⟨_,_,hrun,trivial⟩
    · have hmax : accnameLength decoded = 65535 := by
        by_contra hne
        exact h (Or.inl (by omega))
      have hword := toNat_wordAt_17 hmax
      have hne : (decoded.getD 18 0).toNat ≠ 255 := fun h18 =>
        h (Or.inr (Or.inl ⟨hmax,UInt8.toNat_inj.mp h18⟩))
      have hbyte := (decoded.getD 18 0).toNat_lt
      have hpassword := toNat_add_two (wordAt decoded 17)
      have hoff : 16 + (accnameLength decoded + 2) % 2 ^ 16 = 17 := by omega
      rw [hoff, answer_disconnect (by omega)] at hrun
      exact ⟨_,_,hrun,trivial⟩

/-- A length that wraps passes as a request. -/
theorem request_of_wraps (hbuf : Buffers m 149) (c : UInt32) (hlen : decoded.length = 127)
    (h : Wraps decoded) :
    ∃ login m', request true c 860 21 (m.write .message 21 decoded) =
      some (.request login,m') := by
  have hsum := accnameLen_write (m := m) hlen
  have hbound : passwordLength decoded < 2 ^ 16 := (wordAt decoded _).toNat_lt
  have hshort : (accnameLength decoded + 2) % 2 ^ 16 ≤ 32 := by
    rcases h with ha | ⟨ha,-⟩ | ⟨ha,-⟩ <;> omega
  have hrun := request_decoded hbuf c hlen hshort
  have hsecond : (wordAt decoded (16 + (accnameLength decoded + 2) % 2 ^ 16) + 2).toNat ≤ 32 := by
    rw [toNat_add_two]
    rcases h with ha | ⟨ha,h18⟩ | ⟨ha,hb⟩
    · rw [ha]
      change (accnameLength decoded + 2) % 2 ^ 16 ≤ 32
      omega
    · have hword := toNat_wordAt_17 ha
      rw [h18] at hword
      change _ = 255 + 255 * 2 ^ 8 at hword
      rw [ha]
      change ((wordAt decoded 17).toNat + 2) % 2 ^ 16 ≤ 32
      omega
    · rw [mod_of_short ha]
      change (passwordLength decoded + 2) % 2 ^ 16 ≤ 32
      omega
  rw [answer_request (by omega) hsecond] at hrun
  exact ⟨_,_,hrun⟩

theorem not_sound_of_wraps {login : LoginInfo} {m' : Memory Region} (h : Wraps decoded) :
    ¬ Sound decoded (.request login) m' := by
  rintro ⟨ha,hb,-⟩
  rcases h with h | ⟨h,-⟩ | ⟨-,h⟩ <;> omega

theorem request_wraps_unsound {r : FirstMessage} {m' : Memory Region} (hbuf : Buffers m 149)
    (c : UInt32) (hlen : decoded.length = 127) (h : Wraps decoded)
    (hrun : request true c 860 21 (m.write .message 21 decoded) = some (r,m')) :
    ¬ Sound decoded r m' := by
  obtain ⟨login,m'',hrequest⟩ := request_of_wraps hbuf c hlen h
  rw [hrequest] at hrun
  obtain ⟨rfl,rfl⟩ := Prod.mk.inj (Option.some.inj hrun)
  exact not_sound_of_wraps h

theorem onRecvFirstMessage_860 {rsa : RsaDecode} {c : UInt32} (hbuf : Buffers m 149)
    (hver : m.u16 .message 7 = 860) (hrsa : rsa (m.slice .message 21 128) = some decoded)
    (hlen : decoded.length = 127) : onRecvFirstMessage rsa true c 149 m =
      request true c 860 21 (m.write .message 21 decoded) := by
  have hblock : RsaBlock rsa 149 21 149 m decoded := ⟨rfl,by rw [hver]; decide,hrsa,hlen⟩
  rw [onRecvFirstMessage, onRsaMessage_block hbuf (by decide) hblock, hver]

end Results

/-- The handler takes the right strings out of a message, or disconnects, exactly when no
declared length wraps. -/
theorem loginParser_sound_iff (rsa : RsaDecode) (c : UInt32) (m : Memory Region)
    (decoded : List UInt8) (hbuf : Buffers m 149) (hver : m.u16 .message 7 = 860)
    (hrsa : rsa (m.slice .message 21 128) = some decoded) (hlen : decoded.length = 127) :
    (∃ r m', onRecvFirstMessage rsa true c 149 m = some (r,m') ∧ Sound decoded r m') ↔
      ¬ Wraps decoded := by
  rw [onRecvFirstMessage_860 hbuf hver hrsa hlen]
  constructor
  · rintro ⟨r,m',hrun,hsound⟩ hwraps
    exact request_wraps_unsound hbuf c hlen hwraps hrun hsound
  · exact sound_of_not_wraps hbuf c hlen

/-- A message of version 860 around a block, and the plaintext of a key and two strings. -/
def messageData (block : List UInt8) : List UInt8 :=
  [0,0,0,0,1,2,0,0x5C,3] ++ (List.replicate 12 0 ++ block)

def plaintextOf (strings : List UInt8) : List UInt8 :=
  List.replicate 16 7 ++ (strings ++ List.replicate (111 - strings.length) 0)

/-- The account "ab" with the password "c". -/
theorem loginParser_sound_short :
    let decoded := plaintextOf [2,0,97,98,1,0,99]
    ∃ r m', onRecvFirstMessage (fun _ => some decoded) true 5 149
        (firstMessage (messageData (List.replicate 128 9))) = some (r,m') ∧ Sound decoded r m' := by
  intro decoded
  exact (loginParser_sound_iff (fun _ => some decoded) 5 _ decoded ⟨rfl,rfl,rfl,rfl⟩ (by decide)
    rfl rfl).mpr (by unfold Wraps; decide)

/-- A declared length of 65534 for the account name and again for the password. -/
theorem loginParser_not_sound :
    let decoded := plaintextOf [254,255,97,98]
    ¬ ∃ r m', onRecvFirstMessage (fun _ => some decoded) true 5 149
        (firstMessage (messageData (List.replicate 128 9))) = some (r,m') ∧ Sound decoded r m' := by
  rintro decoded ⟨r,m',hrun,hsound⟩
  have hbuf : Buffers (firstMessage (messageData (List.replicate 128 9))) 149 := ⟨rfl,rfl,rfl,rfl⟩
  have hrsa : (fun _ => some decoded : RsaDecode) ((firstMessage (messageData
      (List.replicate 128 9))).slice .message 21 128) = some decoded := rfl
  rw [onRecvFirstMessage_860 hbuf (by decide) hrsa rfl] at hrun
  exact request_wraps_unsound hbuf 5 rfl (Or.inl (by decide)) hrun hsound

end Login

end Kaplar.Protocol
