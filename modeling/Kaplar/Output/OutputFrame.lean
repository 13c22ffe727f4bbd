import Kaplar.Crypto.Adler32
import Kaplar.Crypto.Xtea
import Kaplar.Output.Outbuf

/-! # Output frames -/
namespace Kaplar.Output
open Kaplar.Crypto
variable {ρ : Type} [DecidableEq ρ]

/-- The write pointer behind the eight bytes reserved for the header. -/
def outbufPrepare : ℕ := 8

def outbufPad (buf : ρ) : ℕ → ℕ → MemM ρ ℕ
  | 0, ptr => pure ptr
  | padding + 1, ptr => do
    let ptr ← outbufWriteByte buf ptr 0x33
    outbufPad buf padding ptr

def outbufWrap (buf : ρ) (ptr : ℕ) (xtea : XteaKey) : MemM ρ ℕ := do
  let data := 6
  let datalen := ptr - data
  let padding := (8 - (datalen &&& 7)) &&& 7
  encodeU16le buf data (UInt16.ofNat (datalen - 2))
  let ptr ← outbufPad buf padding ptr
  let datalen := datalen + padding
  xteaEncode xtea buf data datalen
  let body ← loadBytes buf data datalen
  encodeU16le buf 0 (UInt16.ofNat (datalen + 4))
  encodeU32le buf 2 (adler32 body)
  pure ptr

/-! ## The receiver -/

/-- What `xtea_decode` makes of a buffer of bytes. -/
def xteaDecodeBytes (xtea : XteaKey) (l : List UInt8) : List UInt8 := mapBlocks (decodeBlock xtea) l

theorem xteaDecode_run (xtea : XteaKey) {m : Memory ρ} {data : ρ} {off n : ℕ}
    (h : off + 8 * n ≤ m.size data) : xteaDecode xtea data off (8 * n) m =
      some ((),m.write data off (xteaDecodeBytes xtea (m.slice data off (8 * n)))) :=
  codeBlocks_run _ n h

/-- The general message structure with the common body structure, and what it carries. -/
structure Carries (xtea : XteaKey) (frame payload : List UInt8) : Prop where
  length : (wordAt frame 0).toNat + 2 = frame.length
  checksum : dwordAt frame 2 = adler32 (frame.drop 6)
  blocks : 8 ∣ (frame.drop 6).length
  decoded : (wordAt (xteaDecodeBytes xtea (frame.drop 6)) 0).toNat + 2 ≤
    (xteaDecodeBytes xtea (frame.drop 6)).length
  data : ((xteaDecodeBytes xtea (frame.drop 6)).drop 2).take
    (wordAt (xteaDecodeBytes xtea (frame.drop 6)) 0).toNat = payload

/-! ## Wrapping -/

def paddingOf (n : ℕ) : ℕ := (8 - n % 8) % 8

theorem and_seven (n : ℕ) : n &&& 7 = n % 8 := Nat.and_two_pow_sub_one_eq_mod n 3

theorem dvd_add_paddingOf (n : ℕ) : 8 ∣ n + paddingOf n := by
  unfold paddingOf
  omega

variable {m : Memory ρ} {buf : ρ} {ptr : ℕ}

theorem outbufPad_run (n : ℕ) (h : ptr + n ≤ m.size buf) : outbufPad buf n ptr m =
    some (ptr + n,m.write buf ptr (List.replicate n 0x33)) := by
  induction n generalizing m ptr with
  | zero => exact congrArg some (Prod.ext rfl Memory.write_nil.symm)
  | succ n ih =>
    have hbyte : outbufWriteByte buf ptr 0x33 m = some (ptr + 1,m.write buf ptr [0x33]) :=
      OutWrite.run_eq (OutWrite.byte 0x33) (by change ptr + 1 ≤ _; omega)
    have happ : (m.write buf ptr [0x33]).write buf (ptr + 1) (List.replicate n 0x33) =
        m.write buf ptr ([0x33] ++ List.replicate n 0x33) := Memory.write_append (l := [0x33])
    rw [outbufPad, bind_run hbyte, ih (by rw [Memory.size_write]; omega), happ, Nat.add_assoc,
      Nat.add_comm 1]
    rfl

/-- The plaintext of a frame: the length, the payload and the padding. -/
def plaintext (payload : List UInt8) : List UInt8 :=
  bytes16 (UInt16.ofNat payload.length) ++
    (payload ++ List.replicate (paddingOf (payload.length + 2)) 0x33)

def frame (xtea : XteaKey) (payload : List UInt8) : List UInt8 :=
  let body := mapBlocks (encodeBlock xtea) (plaintext payload)
  bytes16 (UInt16.ofNat (body.length + 4)) ++ (bytes32 (adler32 body) ++ body)

variable {payload : List UInt8} (xtea : XteaKey)

theorem length_plaintext : (plaintext payload).length =
    payload.length + 2 + paddingOf (payload.length + 2) := by
  simp only [plaintext, List.length_append, length_bytes16, List.length_replicate]
  omega

theorem exists_blocks (payload : List UInt8) : ∃ n, (plaintext payload).length = 8 * n := by
  rw [length_plaintext]
  exact dvd_add_paddingOf _

theorem length_body :
    (mapBlocks (encodeBlock xtea) (plaintext payload)).length = (plaintext payload).length := by
  obtain ⟨n,hn⟩ := exists_blocks payload
  rw [length_mapBlocks _ n _ hn, hn]

/-- Encryption, checksum and header over a buffer that holds the plaintext. -/
theorem wrap_headers (m : Memory ρ) (buf : ρ) (body : List UInt8) :
    let m₁ := ((m.write buf 6 body).write buf 0 (bytes16 (UInt16.ofNat (body.length + 4)))).write
      buf 2 (bytes32 (adler32 body))
    m₁.slice buf 0 (6 + body.length) =
      bytes16 (UInt16.ofNat (body.length + 4)) ++ (bytes32 (adler32 body) ++ body) := by
  intro m₁
  have hlen : m₁.slice buf 0 2 = bytes16 (UInt16.ofNat (body.length + 4)) := by
    rw [Memory.slice_write_of_disjoint (Or.inl (by omega))]
    exact Memory.slice_write_self
  have hsum : m₁.slice buf 2 4 = bytes32 (adler32 body) := Memory.slice_write_self
  have hbody : m₁.slice buf 6 body.length = body := by
    rw [Memory.slice_write_of_disjoint (Or.inr (by simp)),
      Memory.slice_write_of_disjoint (Or.inr (by rw [length_bytes16]; omega))]
    exact Memory.slice_write_self
  have hsplit : 6 + body.length = 2 + (4 + body.length) := by omega
  rw [hsplit, Memory.slice_add, Memory.slice_add, hlen, Nat.zero_add, hsum, hbody]

/-- The plaintext in the buffer before it is encrypted. -/
theorem slice_plaintext :
    let m₁ := (m.write buf 8 payload).write buf 6 (bytes16 (UInt16.ofNat payload.length))
    let m₂ := m₁.write buf (8 + payload.length)
      (List.replicate (paddingOf (payload.length + 2)) 0x33)
    m₂.slice buf 6 (plaintext payload).length = plaintext payload := by
  intro m₁ m₂
  have hword : m₂.slice buf 6 2 = bytes16 (UInt16.ofNat payload.length) := by
    rw [Memory.slice_write_of_disjoint (Or.inl (by omega))]
    exact Memory.slice_write_self
  have hdata : m₂.slice buf 8 payload.length = payload := by
    rw [Memory.slice_write_of_disjoint (Or.inl (by omega)),
      Memory.slice_write_of_disjoint (Or.inr (by simp))]
    exact Memory.slice_write_self
  have htail : m₂.slice buf (8 + payload.length) (paddingOf (payload.length + 2)) =
      List.replicate (paddingOf (payload.length + 2)) 0x33 := by
    have hself := Memory.slice_write_self (m := m₁) (r := buf) (o := 8 + payload.length)
      (l := List.replicate (paddingOf (payload.length + 2)) 0x33)
    rw [List.length_replicate] at hself
    exact hself
  have hsplit : (plaintext payload).length =
      2 + (payload.length + paddingOf (payload.length + 2)) := by
    rw [length_plaintext]
    omega
  rw [hsplit, Memory.slice_add, Memory.slice_add, hword, hdata, htail]
  rfl

theorem outbufWrap_run (m : Memory ρ) (buf : ρ)
    (h : 8 + payload.length + paddingOf (payload.length + 2) ≤ m.size buf) :
    ∃ m', outbufWrap buf (8 + payload.length) xtea (m.write buf 8 payload) =
        some (8 + payload.length + paddingOf (payload.length + 2),m') ∧
      m'.slice buf 0 (8 + payload.length + paddingOf (payload.length + 2)) =
        frame xtea payload := by
  let m₁ := (m.write buf 8 payload).write buf 6 (bytes16 (UInt16.ofNat payload.length))
  let m₂ := m₁.write buf (8 + payload.length)
    (List.replicate (paddingOf (payload.length + 2)) 0x33)
  let body := mapBlocks (encodeBlock xtea) (plaintext payload)
  have hsize : m₂.size buf = m.size buf := rfl
  obtain ⟨q,hq⟩ := exists_blocks payload
  have hbody : body.length = payload.length + 2 + paddingOf (payload.length + 2) := by
    rw [length_body, length_plaintext]
  have hend : 8 + payload.length + paddingOf (payload.length + 2) = 6 + body.length := by omega
  have hpadding : (8 - (8 + payload.length - 6 &&& 7)) &&& 7 = paddingOf (payload.length + 2) := by
    rw [and_seven, and_seven, paddingOf]
    congr 3
    omega
  have hword : 8 + payload.length - 6 - 2 = payload.length := by omega
  have hdatalen : 8 + payload.length - 6 + paddingOf (payload.length + 2) = body.length := by omega
  have henc : xteaEncode xtea buf 6 body.length m₂ = some ((),m₂.write buf 6 body) := by
    have hrun : codeBlocks (encodeBlock xtea) buf 6 (8 * q) m₂ = some ((),m₂.write buf 6
        (mapBlocks (encodeBlock xtea) (m₂.slice buf 6 (8 * q)))) :=
      codeBlocks_run _ q (by rw [length_body] at hend; omega)
    rw [← hq, slice_plaintext] at hrun
    rw [length_body]
    exact hrun
  have hread : (m₂.write buf 6 body).slice buf 6 body.length = body := Memory.slice_write_self
  have hheaders := wrap_headers m₂ buf body
  refine ⟨_,?_,hend ▸ hheaders⟩
  rw [outbufWrap]
  simp only [hpadding, hword, hdatalen]
  rw [encodeU16le, bind_run (storeBytes_run (by rw [length_bytes16, Memory.size_write]; omega)),
    bind_run (outbufPad_run _ (by rw [Memory.size_write, Memory.size_write]; omega)),
    bind_run henc, bind_run (loadBytes_run (by rw [Memory.size_write]; omega)), hread, encodeU16le,
    bind_run (storeBytes_run (by rw [length_bytes16, Memory.size_write]; omega)), encodeU32le,
    bind_run (storeBytes_run (by rw [length_bytes32, Memory.size_write, Memory.size_write]; omega))]
  rfl

/-! ## Receiving -/

theorem carries_frame (h : payload.length + 16 < 2 ^ 16) :
    Carries xtea (frame xtea payload) payload := by
  let body := mapBlocks (encodeBlock xtea) (plaintext payload)
  obtain ⟨q,hq⟩ := exists_blocks payload
  have hsize : UInt16.size = 2 ^ 16 := rfl
  have hlt : paddingOf (payload.length + 2) < 8 := Nat.mod_lt _ (by omega)
  have hbody : body.length = payload.length + 2 + paddingOf (payload.length + 2) := by
    rw [length_body, length_plaintext]
  have hdrop : (frame xtea payload).drop 6 = body := rfl
  have hdecode : xteaDecodeBytes xtea body = plaintext payload :=
    mapBlocks_inverse (decodeBlock_encodeBlock xtea) q _ hq
  have hlength : wordAt (frame xtea payload) 0 = UInt16.ofNat (body.length + 4) := u16le_bytes16 _
  have hword : wordAt (plaintext payload) 0 = UInt16.ofNat payload.length := u16le_bytes16 _
  refine ⟨?_,?_,?_,?_,?_⟩
  · have hframe : (frame xtea payload).length = 2 + (4 + body.length) := by
      simp only [frame, List.length_append, length_bytes16, length_bytes32, body]
    rw [hlength, hframe, UInt16.toNat_ofNat_of_lt' (by rw [hbody, hsize]; omega)]
    omega
  · rw [hdrop]
    exact u32le_bytes32 _
  · rw [hdrop, hbody]
    exact dvd_add_paddingOf _
  · rw [hdrop, hdecode, hword, length_plaintext, UInt16.toNat_ofNat_of_lt' (by rw [hsize]; omega)]
    omega
  · rw [hdrop, hdecode, hword, UInt16.toNat_ofNat_of_lt' (by rw [hsize]; omega)]
    exact List.take_left

/-- A payload that fits with its header and padding reaches the receiver. -/
theorem outputFrame_carries (xtea : XteaKey) (ptrSize : ℕ) (m : Memory ρ) (buf : ρ)
    (ws : List OutWrite) (hbuf : m.size buf = maxOutbufLen ptrSize)
    (hfit : 8 + (OutWrite.payload ws).length + paddingOf ((OutWrite.payload ws).length + 2) ≤
      maxOutbufLen ptrSize) :
    ∃ len m', (do
      let ptr ← OutWrite.runAll buf outbufPrepare ws
      outbufWrap buf ptr xtea) m = some (len,m') ∧
      Carries xtea (m'.slice buf 0 len) (OutWrite.payload ws) := by
  have hmax : maxOutbufLen ptrSize ≤ 16384 := Nat.sub_le _ _
  have hwrites : OutWrite.runAll buf outbufPrepare ws m = some (8 + (OutWrite.payload ws).length,
      m.write buf 8 (OutWrite.payload ws)) := OutWrite.runAll_eq ws (by rw [outbufPrepare]; omega)
  obtain ⟨m',hwrap,hframe⟩ := outbufWrap_run xtea m buf (hbuf ▸ hfit)
  refine ⟨_,m',(bind_run hwrites).trans hwrap,?_⟩
  rw [hframe]
  exact carries_frame xtea (by omega)

/-- The disconnect message of one letter. -/
theorem outputFrame_carries_disconnect :
    ∃ len m', (do
      let ptr ← OutWrite.runAll () outbufPrepare [OutWrite.byte 0x0A,OutWrite.str [65]]
      outbufWrap () ptr fun _ => 7) ⟨fun _ => 16368,fun _ _ => 0⟩ = some (len,m') ∧
      Carries (fun _ => 7) (m'.slice () 0 len) [0x0A,1,0,65] :=
  outputFrame_carries (fun _ => 7) 8 _ () [OutWrite.byte 0x0A,OutWrite.str [65]] (by decide)
    (by decide)

end Kaplar.Output
