import Kaplar.Foundation.Endian
import Kaplar.Server.ConnHistory

/-! # The byte stream of a connection

A client sends frames: a length of two bytes and a body of one to 1024 bytes. What the
manager hands to a protocol is compared with the frames of all the client sends, not
only of what has arrived.
-/
namespace Kaplar.Server

def Callback.body : Callback → Option (List UInt8)
  | .recvFirst body | .recv body => some body
  | _ => none

/-- The bodies handed to the two receive callbacks. -/
def bodies (h : List ConnEvent) : List (List UInt8) := (calls h).filterMap Callback.body

def ConnEvent.bytes : ConnEvent → List UInt8
  | .completed _ _ bytes => bytes
  | _ => []

/-- What successful reads have taken from the stream. -/
def received (h : List ConnEvent) : List UInt8 := h.flatMap ConnEvent.bytes

def wellSized (n : ℕ) : Bool := 1 ≤ n && n ≤ 1024

/-- The bodies of the frames up to the first one malformed or incomplete. -/
def frames : List UInt8 → List (List UInt8)
  | b0 :: b1 :: rest =>
    let n := (u16le b0 b1).toNat
    if wellSized n && n ≤ rest.length then rest.take n :: frames (rest.drop n) else []
  | _ => []
termination_by l => l.length

theorem frames_cons {b0 b1 : UInt8} {body rest : List UInt8}
    (hn : wellSized (u16le b0 b1).toNat = true) (hl : body.length = (u16le b0 b1).toNat) :
    frames (b0 :: b1 :: (body ++ rest)) = body :: frames rest := by
  have hle : (u16le b0 b1).toNat ≤ (body ++ rest).length := by
    rw [List.length_append]
    omega
  rw [frames, if_pos (by rw [hn, decide_eq_true hle]; rfl), ← hl, List.take_left, List.drop_left]

/-- What a protocol was handed are the first frames of the stream, however it goes on. -/
def Flows (h : List ConnEvent) : Prop := ∀ rest, bodies h <+: frames (received h ++ rest)

/-- The stream is read up to the end of a frame. -/
def Aligned (h : List ConnEvent) : Prop :=
  ∀ rest, frames (received h ++ rest) = bodies h ++ frames rest

/-- The stream is read up to the end of a length. -/
def Headed (n : ℕ) (h : List ConnEvent) : Prop :=
  ∃ b0 b1, (u16le b0 b1).toNat = n ∧ wellSized n = true ∧
    ∀ rest, frames (received h ++ rest) = bodies h ++ frames (b0 :: b1 :: rest)

section Stream
variable {h es : List ConnEvent} {s : ℕ} {op : Op} {bytes : List UInt8}

theorem bodies_append : bodies (h ++ es) = bodies h ++ bodies es := by
  rw [bodies, calls_append, List.filterMap_append]
  rfl

theorem received_append : received (h ++ es) = received h ++ received es := List.flatMap_append

/-- Events that hand nothing over and take nothing from the stream. -/
def Still (es : List ConnEvent) : Prop := bodies es = [] ∧ received es = []

theorem Flows.still (hf : Flows h) (he : Still es) : Flows (h ++ es) := by
  intro rest
  rw [bodies_append, received_append, he.1, he.2, List.append_nil, List.append_nil]
  exact hf rest

theorem Aligned.still (ha : Aligned h) (he : Still es) : Aligned (h ++ es) := by
  intro rest
  rw [bodies_append, received_append, he.1, he.2, List.append_nil, List.append_nil]
  exact ha rest

theorem Headed.still {n : ℕ} (hh : Headed n h) (he : Still es) : Headed n (h ++ es) := by
  obtain ⟨b0,b1,hn,hs,hf⟩ := hh
  refine ⟨b0,b1,hn,hs,?_⟩
  intro rest
  rw [bodies_append, received_append, he.1, he.2, List.append_nil, List.append_nil]
  exact hf rest

theorem Aligned.flows (ha : Aligned h) : Flows h := by
  intro rest
  rw [ha rest]
  exact List.prefix_append _ _

/-- Bytes that arrive take nothing back. -/
theorem Flows.arrive (hf : Flows h) : Flows (h ++ [.completed s op bytes]) := by
  intro rest
  rw [bodies_append, received_append, show bodies [.completed s op bytes] = [] from rfl,
    List.append_nil, show received [.completed s op bytes] = bytes from List.append_nil bytes,
    List.append_assoc]
  exact hf (bytes ++ rest)

theorem Aligned.length {b0 b1 : UInt8} (ha : Aligned h)
    (hn : wellSized (u16le b0 b1).toNat = true) :
    Headed (u16le b0 b1).toNat (h ++ [.completed s op [b0,b1]]) := by
  refine ⟨b0,b1,rfl,hn,?_⟩
  intro rest
  rw [bodies_append, received_append, show bodies [.completed s op [b0,b1]] = [] from rfl,
    List.append_nil, List.append_assoc]
  exact ha ([b0,b1] ++ rest)

/-- The body of a frame has arrived and is the next one to hand over. -/
def Due (body : List UInt8) (h : List ConnEvent) : Prop :=
  ∀ rest, frames (received h ++ rest) = bodies h ++ body :: frames rest

theorem Headed.take {n : ℕ} (hh : Headed n h) (hb : bytes.length = n) :
    Due bytes (h ++ [.completed s op bytes]) := by
  obtain ⟨b0,b1,rfl,hn,hframes⟩ := hh
  intro rest
  rw [bodies_append, received_append, show bodies [.completed s op bytes] = [] from rfl,
    List.append_nil, show received [.completed s op bytes] = bytes from List.append_nil bytes,
    List.append_assoc, hframes, frames_cons hn hb]

theorem Due.still {body : List UInt8} (hd : Due body h) (he : Still es) : Due body (h ++ es) := by
  intro rest
  rw [bodies_append, received_append, he.1, he.2, List.append_nil, List.append_nil]
  exact hd rest

theorem Due.called {body : List UInt8} {k : Callback} {uid : UInt32} (hd : Due body h)
    (hk : k.body = some body) : Aligned (h ++ [.called s uid k]) := by
  intro rest
  have hcalled : bodies [.called s uid k] = [body] := by
    simp only [bodies, calls, List.filterMap_cons, List.filterMap_nil, hk]
  rw [bodies_append, received_append, show received [.called s uid k] = [] from rfl, hcalled,
    List.append_nil, hd rest, List.append_assoc]
  rfl

end Stream

end Kaplar.Server
