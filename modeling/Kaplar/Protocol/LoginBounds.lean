import Kaplar.Output.OutputBounds
import Kaplar.Protocol.LoginMessage
import Kaplar.Protocol.LoginResolve
import Mathlib.Algebra.GroupWithZero.Nat

/-! # Login messages and the size of an outbuf

Every disconnect text fits. A character list fits as long as its rows do, and their
number is whatever the database holds.
-/
namespace Kaplar.Protocol.Login
open Kaplar.Crypto Kaplar.Output

def disconnectTexts : List String :=
  ["This server requires client version 8.60.","Your account has been banned.",
    "Internal error. Try again later.","Invalid account name.",
    "Account name or password is not correct.","Internal error. Contact an admin."]

theorem resolution_text {db : Database} {accname password : List UInt8} {message : String}
    (h : resolution db accname password = .disconnect message) : message ∈ disconnectTexts := by
  unfold resolution at h
  split at h
  case isTrue =>
    cases h
    decide
  case isFalse =>
    split at h
    case h_1 =>
      cases h
      decide
    case h_2 =>
      cases h
      decide
    case h_3 account _ _ =>
      split at h
      case isTrue =>
        cases h
        decide
      case isFalse =>
        split at h
        case h_1 =>
          cases h
          decide
        case h_2 => cases h

theorem answer_text {accepts : Bool} {login login' : LoginInfo} {a b : UInt16} {message : String}
    (h : answer accepts login a b = .disconnect login' message) : message ∈ disconnectTexts := by
  unfold answer at h
  split at h
  case isTrue =>
    cases h
    decide
  case isFalse =>
    split at h
    case isTrue =>
      cases h
      decide
    case isFalse => cases h

/-- What the handler of first messages sends to a client is one of the texts, too. -/
theorem onRecvFirstMessage_text {m m' : Memory Region} {rsa : RsaDecode} {accepts : Bool}
    {c datalen : UInt32} {login : LoginInfo} {message : String} (hbuf : Buffers m datalen)
    (hrsa : ∀ l decoded, rsa l = some decoded → decoded.length ≤ 128)
    (h : onRecvFirstMessage rsa accepts c datalen m = some (.disconnect login message,m')) :
    message ∈ disconnectTexts := by
  by_cases hblock : ∃ decoded, RsaBlock rsa 149 21 datalen m decoded
  · obtain ⟨decoded,hblock⟩ := hblock
    obtain rfl := hblock.datalen
    have hbuf' : Buffers (m.write .message 21 decoded) 149 := hbuf.congr rfl
    rw [onRecvFirstMessage, onRsaMessage_block hbuf (by decide) hblock] at h
    by_cases hver : m.u16 .message 7 = 860
    · rw [hver] at h
      by_cases hlong : 32 < accnameLen (m.write .message 21 decoded) 21
      · rw [request_longAccname _ _ hbuf' hlong] at h
        cases h
        decide
      · rw [request_shortAccname _ _ hbuf' hlong] at h
        exact answer_text (Prod.mk.inj (Option.some.inj h)).1
    · rw [request_otherVersion hbuf' (otherVersion_of_ne hver)] at h
      cases h
      decide
  · obtain ⟨m₁,hclose⟩ := onRsaMessage_close (request accepts c) hbuf (by decide) (hrsa _)
      (fun decoded hd => hblock ⟨decoded,hd⟩)
    rw [onRecvFirstMessage, hclose] at h
    cases h

/-- The payload of a character list. -/
def charlistSize (cfg : Config) (names : List (List UInt8)) : ℕ :=
  7 + cfg.motd.length + (names.map (fun name => name.length + cfg.svName.length + 10)).sum

theorem length_entries (cfg : Config) (names : List (List UInt8)) :
    (OutWrite.payload (names.flatMap (entryWrites cfg))).length =
      (names.map (fun name => name.length + cfg.svName.length + 10)).sum := by
  induction names with
  | nil => rfl
  | cons name names ih =>
    have hentry : (OutWrite.payload (entryWrites cfg name)).length =
        name.length + cfg.svName.length + 10 := by
      simp only [OutWrite.payload, entryWrites, List.flatMap_cons, List.flatMap_nil,
        OutWrite.bytes, List.length_append, length_bytes16, length_bytes32, List.length_nil]
      omega
    rw [List.flatMap_cons, List.map_cons, List.sum_cons, ← ih, ← hentry, OutWrite.payload,
      List.flatMap_append, List.length_append]
    rfl

theorem length_charlist (cfg : Config) (names : List (List UInt8)) :
    (OutWrite.payload (charlistWrites cfg names)).length = charlistSize cfg names := by
  have hrows := length_entries cfg names
  simp only [OutWrite.payload] at hrows
  simp only [OutWrite.payload, charlistWrites, List.flatMap_append, List.flatMap_cons,
    List.flatMap_nil, OutWrite.bytes, List.length_append, length_bytes16, List.length_cons,
    List.length_nil, hrows, charlistSize]
  omega

section Bounds
variable {ρ : Type} [DecidableEq ρ] {m : Memory ρ} {buf : ρ}

theorem disconnect_inBounds {ptrSize : ℕ} (xtea : XteaKey) (hptr : ptrSize ≤ 8)
    (hbuf : m.size buf = maxOutbufLen ptrSize) {message : String}
    (h : message ∈ disconnectTexts) :
    (buildDisconnectMessage buf message xtea m).isSome = true := by
  have hall : ∀ text ∈ disconnectTexts,
      (OutWrite.payload (disconnectWrites text)).length ≤ 64 := by decide
  have hsize := frameSize_le (OutWrite.payload (disconnectWrites message))
  have hlen := hall message h
  unfold maxOutbufLen at hbuf
  rw [buildDisconnectMessage_eq, wrapped_isSome_iff xtea _ (by omega)]
  omega

/-- The writes of a login stay inside the outbuf exactly if a character list, where it
comes to one, fits into it. -/
theorem login_inBounds_iff (ptrSize : ℕ) (hptr : ptrSize ≤ 8)
    (hbuf : m.size buf = maxOutbufLen ptrSize) (cfg : Config) (db : Database)
    (accname password : List UInt8) (xtea : XteaKey) :
    ((∀ message ∈ disconnectTexts, (buildDisconnectMessage buf message xtea m).isSome = true) ∧
      (databaseResolveLogin cfg db accname password xtea buf m).isSome = true) ↔
    ∀ names, resolution db accname password = .charlist names →
      8 + charlistSize cfg names + paddingOf (charlistSize cfg names + 2) ≤
        maxOutbufLen ptrSize := by
  have hmin : 8 ≤ m.size buf := by
    unfold maxOutbufLen at hbuf
    omega
  constructor
  · intro ⟨_,h⟩ names hnames
    rw [databaseResolveLogin_eq, wrapped_isSome_iff xtea _ hmin, hnames, hbuf, frameSize] at h
    change 8 + (OutWrite.payload (charlistWrites cfg names)).length +
      paddingOf ((OutWrite.payload (charlistWrites cfg names)).length + 2) ≤ _ at h
    rw [length_charlist] at h
    exact h
  · intro h
    refine ⟨fun message hm => disconnect_inBounds xtea hptr hbuf hm,?_⟩
    cases hres : resolution db accname password with
    | disconnect message =>
      rw [databaseResolveLogin, hres]
      exact disconnect_inBounds xtea hptr hbuf (resolution_text hres)
    | charlist names =>
      rw [databaseResolveLogin_eq, hres, wrapped_isSome_iff xtea _ hmin, hbuf]
      change 8 + (OutWrite.payload (charlistWrites cfg names)).length +
        paddingOf ((OutWrite.payload (charlistWrites cfg names)).length + 2) ≤ _
      rw [length_charlist]
      exact h names hres

/-- The database that answers every login with the same character names. -/
def accountWith (names : List (List UInt8)) : Database where
  loadAccountInfo := fun _ => some [⟨1,0,[65]⟩]
  loadAccountCharlist := fun _ => some names

/-- The two characters of the sample account. -/
theorem login_inBounds_two :
    ((∀ message ∈ disconnectTexts, (buildDisconnectMessage () message (fun _ => 7)
        ⟨fun _ => 16368,fun _ _ => 0⟩).isSome = true) ∧
      (databaseResolveLogin ⟨cString "1\nKaplar!",cString "Kaplar",7172⟩
        (accountWith [cString "Player1",cString "Player2"]) [65] [65] (fun _ => 7) ()
          ⟨fun _ => 16368,fun _ _ => 0⟩).isSome = true) := by
  refine (login_inBounds_iff 8 (le_refl 8) rfl _ _ _ _ _).mpr ?_
  intro names hnames
  cases hnames
  decide

/-- Ninety-seven characters with names of 32 letters, for a long message of the day and
a long server name. -/
theorem login_not_inBounds :
    ¬ ∀ (cfg : Config) (db : Database) (accname password : List UInt8) (xtea : XteaKey)
      (m : Memory Unit), m.size () = maxOutbufLen 8 → cfg.motd.length < 128 →
      cfg.svName.length < 128 → (∀ id names, db.loadAccountCharlist id = some names →
        ∀ name ∈ names, name.length ≤ 32) →
      (∀ message ∈ disconnectTexts, (buildDisconnectMessage () message xtea m).isSome = true) ∧
        (databaseResolveLogin cfg db accname password xtea () m).isSome = true := by
  intro h
  let letters : ℕ → List UInt8 := fun n => List.replicate n 65
  let names := List.replicate 97 (letters 32)
  have hx := h ⟨letters 127,letters 127,7172⟩ (accountWith names) [65] [65] (fun _ => 7)
    ⟨fun _ => maxOutbufLen 8,fun _ _ => 0⟩ rfl (by simp [letters]) (by simp [letters]) (by
      intro id names' hn name hname
      cases hn
      rw [List.eq_of_mem_replicate hname, List.length_replicate])
  have hfit := (login_inBounds_iff 8 (le_refl 8) rfl _ _ _ _ _).mp hx names rfl
  have hsize : charlistSize ⟨letters 127,letters 127,7172⟩ names = 16527 := by
    simp [charlistSize,names,letters]
  rw [hsize] at hfit
  exact absurd hfit (by decide)

end Bounds

end Kaplar.Protocol.Login
