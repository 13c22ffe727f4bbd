import Kaplar.Crypto.RsaRoundTrip
import Kaplar.Protocol.AnswersRun
import Kaplar.Protocol.CharacterList
import Kaplar.Protocol.LoginKey
import Mathlib.NumberTheory.LucasPrimality

/-! # A client and its answer

A client encrypts its key, its account name and its password with the public key of the
server and puts a checksum in front. Nothing of this is lost on the way to the database
thread, and what comes back is for this client to read.
-/
namespace Kaplar.Protocol
open Kaplar.Crypto Kaplar.Output Kaplar.Server

/-! ## Blocks of 128 bytes -/

/-- A key the server accepts, for blocks of 128 bytes of which the first is zero. -/
structure BlockKey (r : RsaCtx) : Prop where
  prime_p : r.p.Prime
  prime_q : r.q.Prime
  odd_p : Odd r.p
  odd_q : Odd r.q
  ne : r.p ≠ r.q
  pos : 0 < r.e
  setkey : rsaSetkey r.p r.q r.e = some r
  low : 256 ^ 127 ≤ r.n
  high : r.n ≤ 256 ^ 128

theorem mpzImport_lt (data : List UInt8) : mpzImport data < 256 ^ data.length := by
  have hlt := Nat.ofDigits_lt_base_pow_length (b := 256) (l := data.reverse.map UInt8.toNat)
    (by decide) (fun d hd => by
      obtain ⟨v,-,rfl⟩ := List.mem_map.mp hd
      exact v.toNat_lt)
  rwa [List.length_map, List.length_reverse] at hlt

theorem length_mpzExport_le {x k : ℕ} (hx : x < 256 ^ k) : (mpzExport x).length ≤ k := by
  rw [mpzExport, List.length_reverse, List.length_map]
  exact (Nat.digits_length_le_iff (by decide) x).mpr hx

theorem mpzImport_replicate (k : ℕ) (data : List UInt8) :
    mpzImport (List.replicate k 0 ++ data) = mpzImport data := by
  induction k with
  | zero => rfl
  | succ k ih => rw [List.replicate_succ, List.cons_append, mpzImport_zero_cons, ih]

theorem le_log2 {x k : ℕ} (hx : x ≠ 0) (h : 256 ^ k ≤ x) : 8 * k ≤ x.log2 := by
  rw [Nat.le_log2 hx, Nat.pow_mul]
  exact h

/-- A ciphertext as a block of 128 bytes. -/
def rsaBlock (r : RsaCtx) (data : List UInt8) : List UInt8 :=
  List.replicate (128 - (rsaEncode r data).length) 0 ++ rsaEncode r data

namespace BlockKey
variable {r : RsaCtx} {data : List UInt8}

theorem modulus (hk : BlockKey r) : r.n = r.p * r.q := by
  obtain ⟨_,-,-,-,-,hn,-⟩ := rsaSetkey_some (two_lt_of_odd hk.prime_p hk.odd_p)
    ((Nat.coprime_primes hk.prime_p hk.prime_q).mpr hk.ne) hk.pos hk.setkey
  exact hn

/-- Decoding undoes encoding. -/
theorem decode (hk : BlockKey r) {x : ℕ} (hx : x < r.n) : rsaDecodeInt r (x ^ r.e % r.n) = x := by
  have hp2 := two_lt_of_odd hk.prime_p hk.odd_p
  have hq2 := two_lt_of_odd hk.prime_q hk.odd_q
  obtain ⟨d,-,hd,rp,rq,rn,re,rdp,rdq,rqi⟩ :=
    rsaSetkey_some hp2 ((Nat.coprime_primes hk.prime_p hk.prime_q).mpr hk.ne) hk.pos hk.setkey
  have hdpos : 0 < d :=
    (exponent_pos hp2 (Nat.dvd_lcm_left _ _) hd).trans_le (Nat.mod_le _ _)
  rw [rsaDecodeInt_eq hk.prime_p hk.prime_q hp2 hq2 hk.ne hd rp rq rdp rdq rqi, hk.modulus]
  exact pow_pow_mod hk.prime_p hk.prime_q hk.ne (Nat.mul_pos hk.pos hdpos) hd (hk.modulus ▸ hx)

theorem length_rsaEncode (hk : BlockKey r) (data : List UInt8) :
    (rsaEncode r data).length ≤ 128 := by
  refine length_mpzExport_le (lt_of_lt_of_le ?_ hk.high)
  rw [mpzPowm_eq]
  exact Nat.mod_lt _ (Nat.lt_of_lt_of_le (by positivity) hk.low)

theorem length_rsaBlock (hk : BlockKey r) : (rsaBlock r data).length = 128 := by
  have hle := hk.length_rsaEncode data
  rw [rsaBlock, List.length_append, List.length_replicate]
  omega

theorem encodingLimit (hk : BlockKey r) : 128 ≤ r.encodingLimit := by
  have hset := hk.setkey
  simp only [rsaSetkey, Option.ite_none_left_eq_some, Option.some.injEq] at hset
  obtain ⟨-,-,hr⟩ := hset
  have hlimit : r.encodingLimit = mpzSizeinbytes (r.p * r.q) := by rw [← hr]
  have hpos : r.p * r.q ≠ 0 := Nat.mul_ne_zero hk.prime_p.ne_zero hk.prime_q.ne_zero
  have hlog : 8 * 127 ≤ (r.p * r.q).log2 := le_log2 hpos (hk.modulus ▸ hk.low)
  rw [hlimit, mpzSizeinbytes, Nat.shiftRight_eq_div_pow]
  omega

/-- A block of 127 bytes without a leading zero comes out as it was. -/
theorem tibiaRsaDecode (hk : BlockKey r) {b : UInt8} (hlen : (b :: data).length = 127)
    (hb : b ≠ 0) : tibiaRsaDecode r (rsaBlock r (0 :: b :: data)) = some (b :: data) := by
  have hlt : mpzImport (0 :: b :: data) < r.n := by
    rw [mpzImport_zero_cons]
    exact (hlen ▸ mpzImport_lt (b :: data)).trans_le hk.low
  have hrsa : rsaDecodeInt r (mpzImport (rsaBlock r (0 :: b :: data))) =
      mpzImport (0 :: b :: data) := by
    rw [rsaBlock, mpzImport_replicate, rsaEncode, mpzImport_mpzExport, mpzPowm_eq, hk.decode hlt]
  rw [Login.tibiaRsaDecode_block hk.encodingLimit hk.length_rsaBlock hrsa]
  simp [hb]

end BlockKey

/-! ## The client -/

/-- What a client logs in with. -/
structure Client where
  os : UInt16
  signatures : List UInt8
  key : List UInt8
  accname : List UInt8
  password : List UInt8
  padding : List UInt8
  length_signatures : signatures.length = 12
  length_key : key.length = 16
  key_start : key.getD 0 0 ≠ 0
  length_accname : accname.length ≤ 30
  length_password : password.length ≤ 30
  text_accname : ∀ b ∈ accname, b ≠ 0
  text_password : ∀ b ∈ password, b ≠ 0
  length_plaintext : (Login.loginPlaintext key accname password padding).length = 127

namespace Client
variable (k : Client) (r : RsaCtx)

def plaintext : List UInt8 := Login.loginPlaintext k.key k.accname k.password k.padding

/-- The protocol, the system, the version, the signatures and the block. -/
def body : List UInt8 :=
  1 :: (bytes16 k.os ++ (bytes16 860 ++ (k.signatures ++ rsaBlock r (0 :: k.plaintext))))

def message : List UInt8 := bytes32 (adler32 (k.body r)) ++ k.body r

variable {r}

theorem length_message (hk : BlockKey r) : (k.message r).length = 149 := by
  simp only [message, body, List.length_append, List.length_cons, length_bytes32, length_bytes16,
    k.length_signatures, hk.length_rsaBlock]

/-- The login protocol knows the message for its own. -/
theorem identify_message (hk : BlockKey r) : Login.identify (k.message r) = true := by
  have hlen : 5 ≤ (k.message r).length := by
    rw [k.length_message hk]
    decide
  have hdrop : (k.message r).drop 4 = k.body r := rfl
  have hsum : dwordAt (k.message r) 0 = adler32 (k.body r) := u32le_bytes32 _
  have hfirst : (k.message r).getD 4 0 = 1 := rfl
  rw [Login.identify, hdrop, hsum, hfirst, decide_eq_true hlen]
  simp

theorem slice_firstMessage {data : List UInt8} {o n : ℕ} (h : o + n ≤ data.length) :
    (firstMessage data).slice .message o n = (data.drop o).take n := by
  apply List.ext_getElem
  · rw [Memory.length_slice, List.length_take, List.length_drop]
    omega
  · intro i hi _
    rw [Memory.length_slice] at hi
    simp [Memory.slice,firstMessage,List.getElem?_eq_getElem (show o + i < data.length by omega)]

theorem version_message : (firstMessage (k.message r)).u16 .message 7 = 860 := u16le_bytes16 860

theorem block_message (hk : BlockKey r) :
    (firstMessage (k.message r)).slice .message 21 128 = rsaBlock r (0 :: k.plaintext) := by
  rw [slice_firstMessage (Nat.le_of_eq (k.length_message hk).symm)]
  have hhead : (bytes32 (adler32 (k.body r)) ++
      (1 :: (bytes16 k.os ++ (bytes16 860 ++ k.signatures)))).length = 21 := by
    simp only [List.length_append, List.length_cons, length_bytes32, length_bytes16,
      k.length_signatures]
  have hsplit : k.message r = (bytes32 (adler32 (k.body r)) ++
      (1 :: (bytes16 k.os ++ (bytes16 860 ++ k.signatures)))) ++ rsaBlock r (0 :: k.plaintext) := by
    simp only [message, body, List.append_assoc, List.cons_append]
  rw [hsplit, List.drop_left' hhead]
  exact List.take_of_length_le (Nat.le_of_eq hk.length_rsaBlock)

theorem decode_message (hk : BlockKey r) : tibiaRsaDecode r
    ((firstMessage (k.message r)).slice .message 21 128) = some k.plaintext := by
  rw [k.block_message hk]
  have hlen := k.length_plaintext
  have hstart := k.key_start
  unfold plaintext
  cases hkey : k.key with
  | nil =>
    have hlength := k.length_key
    rw [hkey] at hlength
    cases hlength
  | cons b rest =>
    rw [hkey] at hlen hstart
    exact hk.tibiaRsaDecode hlen hstart

end Client

/-- A string without zeros is found again in its buffer. -/
theorem stringIn_eq {m : Memory Region} {reg : Region} {s : List UInt8} (hs : HoldsString m reg s)
    (hlen : s.length ≤ 30) (htext : ∀ b ∈ s, b ≠ 0) : stringIn m reg = s := by
  obtain ⟨hslice,hend⟩ := hs
  have hsplit : m.slice reg 0 32 = s ++ 0 :: m.slice reg (s.length + 1) (31 - s.length) := by
    have hsum : 32 = s.length + ((31 - s.length) + 1) := by omega
    rw [hsum, Memory.slice_add, Nat.zero_add, Memory.slice_succ, hslice, hend]
  rw [stringIn, hsplit, List.takeWhile_append_of_pos (by simpa using htext)]
  simp

/-! ## The handler -/

section Handler
variable {m m' : Memory Region} {c : UInt32} {accepts : Bool}

/-- A request is with the database thread unless the queue is full. -/
theorem request_accepts {login : LoginInfo} (hbuf : Buffers m 149)
    (h : Login.request true c 860 21 m = some (.request login,m')) :
    Login.request accepts c 860 21 m = some (if accepts then .request login
      else .disconnect login "Internal error. Try again later.",m') := by
  by_cases hlong : 32 < Login.accnameLen m 21
  · rw [Login.request_longAccname true c hbuf hlong] at h
    cases h
  · rw [Login.request_shortAccname true c hbuf hlong] at h
    rw [Login.request_shortAccname accepts c hbuf hlong]
    obtain ⟨hanswer,rfl⟩ := Prod.mk.inj (Option.some.inj h)
    refine congrArg some (Prod.ext ?_ rfl)
    unfold Login.answer at hanswer ⊢
    split at hanswer
    · cases hanswer
    · rename_i hshort
      cases hanswer
      rw [if_neg hshort]
      cases accepts <;> rfl

namespace Client
variable (k : Client) {r : RsaCtx}

/-- What becomes of the message of a client. -/
def outcome (c : UInt32) (accepts : Bool) : FirstMessage :=
  if accepts then .request ⟨c,Login.keyWords k.key⟩
  else .disconnect ⟨c,Login.keyWords k.key⟩ "Internal error. Try again later."

/-- The handler takes the message for what it is. -/
theorem handled (hk : BlockKey r) (c : UInt32) (accepts : Bool) : ∃ m,
    Login.onRecvFirstMessage (tibiaRsaDecode r) accepts c
      (UInt32.ofNat (k.message r).length) (firstMessage (k.message r)) =
        some (k.outcome c accepts,m) ∧
      stringIn m .accname = k.accname ∧ stringIn m .password = k.password := by
  have hlen := k.length_message hk
  have hofNat : UInt32.ofNat (k.message r).length = 149 := by
    rw [hlen]
    rfl
  have hbuf : Buffers (firstMessage (k.message r)) 149 := ⟨hlen,rfl,rfl,rfl⟩
  have hblock : RsaBlock (tibiaRsaDecode r) 149 21 149 (firstMessage (k.message r)) k.plaintext :=
    ⟨rfl,by rw [version_message]; decide,k.decode_message hk,k.length_plaintext⟩
  obtain ⟨m,hrun,hname,hpassword⟩ := Login.request_plaintext hbuf c k.length_key k.length_accname
    k.length_password k.length_plaintext
  refine ⟨m,?_,stringIn_eq hname k.length_accname k.text_accname,
    stringIn_eq hpassword k.length_password k.text_password⟩
  rw [hofNat, Login.onRecvFirstMessage, onRsaMessage_block hbuf (by decide) hblock,
    version_message]
  exact request_accepts (hbuf.congr rfl) hrun

end Client

end Handler

/-! ## The answer -/

theorem carries_length {xtea : XteaKey} {bytes payload : List UInt8}
    (h : Carries xtea bytes payload) : payload.length < 2 ^ 16 := by
  rw [← h.data, List.length_take]
  exact (Nat.min_le_left _ _).trans_lt (UInt16.toNat_lt _)

section Answer
variable (E : Setting) (k : Client)

/-- The client reads the answer to its login under its key: that it should try again, or what
the database has to say. Fewer characters than a byte can count are all there. -/
def Client.Answer (bytes : List UInt8) : Prop :=
  Carries (Login.keyWords k.key) bytes
      (OutWrite.payload (Login.disconnectWrites "Internal error. Try again later.")) ∨
    ∃ db, Carries (Login.keyWords k.key) bytes
        (OutWrite.payload (Login.writes E.cfg (Login.resolution db k.accname k.password))) ∧
      ∀ names, Login.resolution db k.accname k.password = .charlist names → names.length < 2 ^ 8 →
        Login.Recovers E.cfg names
          (OutWrite.payload (Login.writes E.cfg (Login.resolution db k.accname k.password)))

variable {E k} {D : Deployment} {r : RsaCtx} {H : UInt32 → Callback → Prop} {uid : UInt32}
  {bytes : List UInt8}

/-- The login handler answers the message of the client. -/
theorem Client.answer_of_refused (hk : BlockKey r) (hE : E.rsa = tibiaRsaDecode r)
    (hH : ∀ data, H uid (.recvFirst data) → data = k.message r) {login : LoginInfo} {text : String}
    {m : Memory Region} (ht : Takes E H uid (.disconnect login text) m)
    (hc : Carries login.xtea bytes (OutWrite.payload (Login.disconnectWrites text))) :
    k.Answer E bytes := by
  obtain ⟨accepts,data,hheard,hrun⟩ := ht
  rw [hH data hheard, hE] at hrun
  obtain ⟨m',hrun',-⟩ := k.handled hk uid accepts
  rw [hrun'] at hrun
  obtain ⟨hout,-⟩ := Prod.mk.inj (Option.some.inj hrun)
  cases accepts with
  | true => cases hout
  | false =>
    cases hout
    exact .inl hc

theorem Client.answer_of_resolved (hk : BlockKey r) (hE : E.rsa = tibiaRsaDecode r)
    (hH : ∀ data, H uid (.recvFirst data) → data = k.message r) {login : LoginInfo}
    {m : Memory Region} {db : Login.Database} (ht : Takes E H uid (.request login) m)
    (hc : Carries login.xtea bytes (OutWrite.payload (Login.writes E.cfg
      (Login.resolution db (stringIn m .accname) (stringIn m .password))))) :
    k.Answer E bytes := by
  obtain ⟨accepts,data,hheard,hrun⟩ := ht
  rw [hH data hheard, hE] at hrun
  obtain ⟨m',hrun',hname,hpassword⟩ := k.handled hk uid accepts
  rw [hrun'] at hrun
  obtain ⟨hout,rfl⟩ := Prod.mk.inj (Option.some.inj hrun)
  cases accepts with
  | false => cases hout
  | true =>
    cases hout
    rw [hname, hpassword] at hc
    refine .inr ⟨db,hc,fun names hres hn => ?_⟩
    rw [hres] at hc ⊢
    have hlt := carries_length hc
    exact Login.recovers_of_lt (Login.length_charlist E.cfg names ▸ hlt) hn

variable {depth a : ℕ} {w : World Shared} {h : List ConnEvent}

end Answer

/-! ## One exchange -/

section Sample

/-- One more than a product of two prime powers is prime if some number has this order. -/
theorem prime_of_order {a b c k n : ℕ} (hb : b.Prime) (hc : c.Prime)
    (hone : mpzPowm a (b ^ k * c ^ n) (b ^ k * c ^ n + 1) = 1)
    (hb1 : mpzPowm a (b ^ k * c ^ n / b) (b ^ k * c ^ n + 1) ≠ 1)
    (hc1 : mpzPowm a (b ^ k * c ^ n / c) (b ^ k * c ^ n + 1) ≠ 1) :
    (b ^ k * c ^ n + 1).Prime := by
  have hpos : 0 < b ^ k * c ^ n := Nat.mul_pos (Nat.pow_pos hb.pos) (Nat.pow_pos hc.pos)
  have hpow (e : ℕ) : (a : ZMod (b ^ k * c ^ n + 1)) ^ e = 1 ↔
      mpzPowm a e (b ^ k * c ^ n + 1) = 1 := by
    rw [mpzPowm_eq, ← Nat.cast_pow, ← Nat.cast_one (R := ZMod (b ^ k * c ^ n + 1)),
      ZMod.natCast_eq_natCast_iff', Nat.mod_eq_of_lt (Nat.succ_lt_succ hpos)]
  refine lucas_primality _ (a : ZMod (b ^ k * c ^ n + 1)) ((hpow _).mpr hone) ?_
  intro f hf hd
  rw [Nat.add_sub_cancel] at hd ⊢
  rw [ne_eq, hpow]
  rcases hf.dvd_mul.mp hd with hd | hd
  · rwa [(Nat.prime_dvd_prime_iff_eq hf hb).mp (hf.dvd_of_dvd_pow hd)]
  · rwa [(Nat.prime_dvd_prime_iff_eq hf hc).mp (hf.dvd_of_dvd_pow hd)]

def sampleP : ℕ := 5 ^ 2 * 2 ^ 554 + 1

def sampleQ : ℕ := 3 ^ 3 * 2 ^ 455 + 1

theorem prime_sampleP : sampleP.Prime :=
  prime_of_order (a := 6) Nat.prime_five Nat.prime_two (by decide +kernel) (by decide +kernel)
    (by decide +kernel)

theorem prime_sampleQ : sampleQ.Prime :=
  prime_of_order (a := 5) Nat.prime_three Nat.prime_two (by decide +kernel) (by decide +kernel)
    (by decide +kernel)

theorem sampleCtx_isSome : (rsaSetkey sampleP sampleQ tibiaE).isSome = true := by decide +kernel

def sampleCtx : RsaCtx := (rsaSetkey sampleP sampleQ tibiaE).get sampleCtx_isSome

theorem blockKey_sample : BlockKey sampleCtx := by
  have hp : sampleCtx.p = sampleP := by decide +kernel
  have hq : sampleCtx.q = sampleQ := by decide +kernel
  have he : sampleCtx.e = tibiaE := by decide +kernel
  refine ⟨hp ▸ prime_sampleP,hq ▸ prime_sampleQ,?_,?_,?_,?_,?_,by decide +kernel,by decide +kernel⟩
  · rw [hp]
    decide +kernel
  · rw [hq]
    decide +kernel
  · decide +kernel
  · decide +kernel
  · rw [hp, hq, he]
    exact (Option.some_get _).symm

/-- The account "ab" with the password "c". -/
def sample : Client where
  os := 2
  signatures := List.replicate 12 0
  key := List.replicate 16 7
  accname := [97,98]
  password := [99]
  padding := List.replicate 104 0
  length_signatures := rfl
  length_key := rfl
  key_start := by decide
  length_accname := by decide
  length_password := by decide
  text_accname := by simp
  text_password := by simp
  length_plaintext := rfl

def sampleSetting : Setting := { crowded with rsa := tibiaRsaDecode sampleCtx }

def sampleRun : List (Action Shared × List Bool) :=
  [(.accept 0,[true]),(.complete 0 ⟨0,.readLength⟩ false 2 [149,0],[true]),
    (.complete 0 ⟨0,.readBody 149⟩ false 149 (sample.message sampleCtx),[true])]

theorem sample_plays : Plays (services sampleSetting onlyLogins) 0 (Login.usage sampleSetting)
    sampleRun (World.initial Shared.initial,[]) := by
  refine ⟨?_,rfl,⟨by decide,.read rfl rfl⟩,rfl,
    ⟨by decide +kernel,.read rfl (sample.length_message blockKey_sample)⟩,by decide +kernel,trivial⟩
  rintro i t - ⟨l,hm,-⟩
  exact List.not_mem_nil hm

def sampleEnd : World Shared :=
  ((services sampleSetting onlyLogins).play 0 sampleRun Shared.initial).1

def sampleHistory : List ConnEvent :=
  ((services sampleSetting onlyLogins).play 0 sampleRun Shared.initial).2

theorem sample_reachable : Reachable (services sampleSetting onlyLogins) 0
    (Login.usage sampleSetting) Shared.initial sampleEnd sampleHistory := sample_plays.reachable

/-- Whether an event brings a connection some other message. -/
def brings (uid : UInt32) (data : List UInt8) : ConnEvent → Bool
  | .called _ c (.recvFirst first) => c == uid && first != data
  | .called _ c (.recv _) => c == uid
  | _ => false

end Sample

end Kaplar.Protocol
