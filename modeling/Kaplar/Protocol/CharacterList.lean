import Kaplar.Foundation.Reader
import Kaplar.Protocol.LoginBounds
import Mathlib.Algebra.Order.BigOperators.Group.List
import Mathlib.Algebra.Order.Group.Nat

/-! # The character list as its receiver reads it

The number of entries travels in one byte, while the writer emits an entry for every
row. The receiver takes as many entries as the byte says.
-/
namespace Kaplar.Protocol.Login
open Kaplar.Crypto Kaplar.Output

structure Entry where
  name : List UInt8
  world : List UInt8
  address : UInt32
  port : UInt16

structure Charlist where
  motd : List UInt8
  entries : List Entry
  premdays : UInt16

def readEntry : Reader Entry := do
  let name ← Reader.str
  let world ← Reader.str
  let address ← Reader.u32
  let port ← Reader.u16
  pure ⟨name,world,address,port⟩

def readCharlist : Reader Charlist := do
  Reader.tag 0x14
  let motd ← Reader.str
  Reader.tag 0x64
  let count ← Reader.byte
  let entries ← Reader.many readEntry count.toNat
  let premdays ← Reader.u16
  pure ⟨motd,entries,premdays⟩

def parseCharlist (payload : List UInt8) : Option Charlist := Reader.parse readCharlist payload

/-- The payload lists exactly these names, all in the configured world. -/
def Recovers (cfg : Config) (names : List (List UInt8)) (payload : List UInt8) : Prop :=
  ∃ c, parseCharlist payload = some c ∧ c.entries.map Entry.name = names ∧
    ∀ e ∈ c.entries, e.world = cfg.svName ∧ (e.port.toNat : Int) = cfg.svGamePort % 2 ^ 16

section Reading
variable (cfg : Config)

def entryOf (name : List UInt8) : Entry :=
  ⟨name,cfg.svName,16777343,UInt16.ofInt cfg.svGamePort⟩

/-- Everything written behind the motd. -/
def rows (names : List (List UInt8)) : List UInt8 :=
  names.flatMap (fun name => OutWrite.payload (entryWrites cfg name))

theorem payload_charlist (names : List (List UInt8)) :
    OutWrite.payload (charlistWrites cfg names) =
      0x14 :: (bytes16 (UInt16.ofNat cfg.motd.length) ++ cfg.motd ++
        0x64 :: UInt8.ofNat names.length :: (rows cfg names ++ bytes16 1)) := by
  simp only [OutWrite.payload, charlistWrites, rows, List.flatMap_append, List.flatMap_cons,
    List.flatMap_nil, List.flatMap_assoc, OutWrite.bytes, List.append_assoc, List.cons_append,
    List.nil_append, List.append_nil]

theorem payload_entry (name : List UInt8) : OutWrite.payload (entryWrites cfg name) =
    bytes16 (UInt16.ofNat name.length) ++ name ++ (bytes16 (UInt16.ofNat cfg.svName.length) ++
      cfg.svName ++ (bytes32 16777343 ++ bytes16 (UInt16.ofInt cfg.svGamePort))) := by
  simp only [OutWrite.payload, entryWrites, List.flatMap_cons, List.flatMap_nil, OutWrite.bytes,
    List.append_nil, List.append_assoc]

theorem toNat_port : ((entryOf cfg name).port.toNat : Int) = cfg.svGamePort % 2 ^ 16 := by
  have hpos : 0 ≤ cfg.svGamePort % 2 ^ 16 := Int.emod_nonneg _ (by decide)
  have hlt : cfg.svGamePort % 2 ^ 16 < 2 ^ 16 := Int.emod_lt_of_pos _ (by decide)
  have hnat : (cfg.svGamePort % 2 ^ 16).toNat < 2 ^ 16 := by omega
  change ((UInt16.ofNat (cfg.svGamePort % 2 ^ 16).toNat).toNat : Int) = _
  rw [UInt16.toNat_ofNat_of_lt' hnat, Int.toNat_of_nonneg hpos]

variable {cfg} {names : List (List UInt8)}

/-- The lengths of the strings in a message that fits. -/
theorem lengths_lt (h : charlistSize cfg names < 2 ^ 16) : cfg.motd.length < 2 ^ 16 ∧
    ∀ name ∈ names, name.length < 2 ^ 16 ∧ cfg.svName.length < 2 ^ 16 := by
  unfold charlistSize at h
  refine ⟨by omega,?_⟩
  intro name hname
  have hle := List.le_sum_of_mem
    (List.mem_map_of_mem (f := fun name => name.length + cfg.svName.length + 10) hname)
  constructor <;> omega

theorem readEntry_run {name l : List UInt8} (hname : name.length < 2 ^ 16)
    (hworld : cfg.svName.length < 2 ^ 16) :
    readEntry (OutWrite.payload (entryWrites cfg name) ++ l) = some (entryOf cfg name,l) := by
  rw [payload_entry, List.append_assoc, readEntry, bind_run (Reader.str_run hname),
    List.append_assoc, bind_run (Reader.str_run hworld), List.append_assoc,
    bind_run (Reader.u32_run _), bind_run (Reader.u16_run _)]
  rfl

theorem readRows_run {l : List UInt8}
    (h : ∀ name ∈ names, name.length < 2 ^ 16 ∧ cfg.svName.length < 2 ^ 16) :
    Reader.many readEntry names.length (rows cfg names ++ l) =
      some (names.map (entryOf cfg),l) :=
  Reader.many_run (fun name hm _ => readEntry_run (h name hm).1 (h name hm).2)

/-- The start of a message, up to the entries. -/
theorem readCharlist_run {l : List UInt8} {n : ℕ} (hmotd : cfg.motd.length < 2 ^ 16) :
    readCharlist (0x14 :: (bytes16 (UInt16.ofNat cfg.motd.length) ++ cfg.motd ++
      0x64 :: UInt8.ofNat n :: l)) = (do
        let entries ← Reader.many readEntry (n % 2 ^ 8)
        let premdays ← Reader.u16
        pure (⟨cfg.motd,entries,premdays⟩ : Charlist)) l := by
  have hcount : (UInt8.ofNat n).toNat = n % 2 ^ 8 := rfl
  rw [readCharlist, bind_run (Reader.tag_run _), bind_run (Reader.str_run hmotd),
    bind_run (Reader.tag_run _)]
  change (do
    let entries ← Reader.many readEntry (UInt8.ofNat n).toNat
    let premdays ← Reader.u16
    pure (⟨cfg.motd,entries,premdays⟩ : Charlist)) l = _
  rw [hcount]

/-- Fewer rows than a byte can count are all there. -/
theorem recovers_of_lt (h : charlistSize cfg names < 2 ^ 16) (hn : names.length < 2 ^ 8) :
    Recovers cfg names (OutWrite.payload (charlistWrites cfg names)) := by
  obtain ⟨hmotd,hrows⟩ := lengths_lt h
  refine ⟨⟨cfg.motd,names.map (entryOf cfg),1⟩,Reader.parse_eq_some ?_,?_,?_⟩
  · rw [payload_charlist, readCharlist_run hmotd, Nat.mod_eq_of_lt hn,
      bind_run (readRows_run hrows)]
    rfl
  · rw [List.map_map]
    exact List.map_id names
  · intro e he
    obtain ⟨name,_,rfl⟩ := List.mem_map.mp he
    exact ⟨rfl,toNat_port cfg⟩

/-- With more rows the receiver stops before the end of the message. -/
theorem not_recovers_of_le (h : charlistSize cfg names < 2 ^ 16) (hn : 2 ^ 8 ≤ names.length) :
    ¬ Recovers cfg names (OutWrite.payload (charlistWrites cfg names)) := by
  obtain ⟨hmotd,hrows⟩ := lengths_lt h
  let count := names.length % 2 ^ 8
  have hlt : count < names.length := Nat.lt_of_lt_of_le (Nat.mod_lt _ (by decide)) hn
  obtain ⟨name,rest,hdrop⟩ := List.exists_cons_of_length_pos (l := names.drop count)
    (by rw [List.length_drop]; omega)
  have hsplit : rows cfg names = rows cfg (names.take count) ++ rows cfg (name :: rest) := by
    rw [rows, rows, rows, ← List.flatMap_append, ← hdrop, List.take_append_drop]
  have htake : ∀ name ∈ names.take count, name.length < 2 ^ 16 ∧ cfg.svName.length < 2 ^ 16 :=
    fun name hm => hrows name (List.mem_of_mem_take hm)
  have hlen : (names.take count).length = count := List.length_take_of_le (Nat.le_of_lt hlt)
  have hread : Reader.many readEntry count (rows cfg names ++ bytes16 1) =
      some ((names.take count).map (entryOf cfg),rows cfg (name :: rest) ++ bytes16 1) := by
    have hrun := readRows_run (l := rows cfg (name :: rest) ++ bytes16 1) htake
    rw [hlen, ← List.append_assoc, ← hsplit] at hrun
    exact hrun
  -- the receiver takes the length of the next name for the premium days
  have hnext : rows cfg (name :: rest) ++ bytes16 1 = bytes16 (UInt16.ofNat name.length) ++
      (name ++ (bytes16 (UInt16.ofNat cfg.svName.length) ++ cfg.svName ++ (bytes32 16777343 ++
        bytes16 (UInt16.ofInt cfg.svGamePort))) ++ (rows cfg rest ++ bytes16 1)) := by
    rw [rows, List.flatMap_cons, payload_entry]
    simp only [rows, List.append_assoc]
  have hstop : readCharlist (OutWrite.payload (charlistWrites cfg names)) =
      some (⟨cfg.motd,(names.take count).map (entryOf cfg),UInt16.ofNat name.length⟩,
        name ++ (bytes16 (UInt16.ofNat cfg.svName.length) ++ cfg.svName ++ (bytes32 16777343 ++
          bytes16 (UInt16.ofInt cfg.svGamePort))) ++ (rows cfg rest ++ bytes16 1)) := by
    rw [payload_charlist, readCharlist_run hmotd, bind_run hread, hnext,
      bind_run (Reader.u16_run _)]
    rfl
  have hnone : parseCharlist (OutWrite.payload (charlistWrites cfg names)) = none := by
    refine Reader.parse_eq_none hstop (List.ne_nil_of_length_pos ?_)
    simp only [List.length_append, length_bytes16]
    omega
  intro ⟨c,hc,_⟩
  rw [hnone] at hc
  cases hc

end Reading

theorem carries_unique {xtea : XteaKey} {frame payload payload' : List UInt8}
    (h : Carries xtea frame payload) (h' : Carries xtea frame payload') : payload = payload' :=
  h.data.symm.trans h'.data

/-- The client recovers the names of the rows, with the configured world and port, exactly
if one byte can count them. -/
theorem charlist_roundTrip_iff {ρ : Type} [DecidableEq ρ] {m : Memory ρ} {buf : ρ}
    (ptrSize : ℕ) (hbuf : m.size buf = maxOutbufLen ptrSize) (cfg : Config) (db : Database)
    (accname password : List UInt8) (xtea : XteaKey) (names : List (List UInt8))
    (hres : resolution db accname password = .charlist names)
    (hfit : 8 + charlistSize cfg names + paddingOf (charlistSize cfg names + 2) ≤
      maxOutbufLen ptrSize) :
    (∃ len m' payload, databaseResolveLogin cfg db accname password xtea buf m = some (len,m') ∧
      Carries xtea (m'.slice buf 0 len) payload ∧ Recovers cfg names payload) ↔
    names.length < 256 := by
  have hmax : maxOutbufLen ptrSize ≤ 16384 := Nat.sub_le _ _
  have hsize : charlistSize cfg names < 2 ^ 16 := by omega
  rw [← length_charlist] at hfit
  obtain ⟨len,m',hrun,hcarries⟩ :=
    outputFrame_carries xtea ptrSize m buf (charlistWrites cfg names) hbuf hfit
  have hresolve : databaseResolveLogin cfg db accname password xtea buf m = some (len,m') := by
    rw [databaseResolveLogin_eq, hres]
    exact hrun
  constructor
  · intro ⟨len',m'',payload,hrun',hcarries',hrec⟩
    obtain ⟨rfl,rfl⟩ := Prod.mk.inj (Option.some.inj (hresolve.symm.trans hrun'))
    rw [carries_unique hcarries' hcarries] at hrec
    by_contra hn
    exact not_recovers_of_le hsize (Nat.le_of_not_lt hn) hrec
  · intro hn
    exact ⟨len,m',_,hresolve,hcarries,recovers_of_lt hsize hn⟩

/-- The two characters of the sample account. -/
theorem charlist_roundTrip_two : ∃ len m' payload,
    databaseResolveLogin ⟨cString "1\nKaplar!",cString "Kaplar",7172⟩
      (accountWith [cString "Player1",cString "Player2"]) [65] [65] (fun _ => 7) ()
        ⟨fun _ => 16368,fun _ _ => 0⟩ = some (len,m') ∧
      Carries (fun _ => 7) (m'.slice () 0 len) payload ∧
      Recovers ⟨cString "1\nKaplar!",cString "Kaplar",7172⟩
        [cString "Player1",cString "Player2"] payload :=
  (charlist_roundTrip_iff 8 rfl _ _ _ _ _ _ rfl (by decide)).mpr (by decide)

/-- An account with 256 characters, each with a name of one letter. -/
theorem charlist_not_roundTrip :
    ¬ ∀ (cfg : Config) (db : Database) (accname password : List UInt8) (xtea : XteaKey)
      (m : Memory Unit) (names : List (List UInt8)), m.size () = maxOutbufLen 8 →
      resolution db accname password = .charlist names →
      8 + charlistSize cfg names + paddingOf (charlistSize cfg names + 2) ≤ maxOutbufLen 8 →
      ∃ len m' payload, databaseResolveLogin cfg db accname password xtea () m = some (len,m') ∧
        Carries xtea (m'.slice () 0 len) payload ∧ Recovers cfg names payload := by
  intro h
  let names : List (List UInt8) := List.replicate 256 [65]
  have hsize : charlistSize ⟨[],[65],7172⟩ names = 3079 := by
    rw [charlistSize, List.map_replicate, List.sum_replicate_nat]
    rfl
  have hfit : 8 + charlistSize ⟨[],[65],7172⟩ names +
      paddingOf (charlistSize ⟨[],[65],7172⟩ names + 2) ≤ maxOutbufLen 8 := by
    rw [hsize]
    decide
  have hres : resolution (accountWith names) [65] [65] = .charlist names := rfl
  have hx := h ⟨[],[65],7172⟩ (accountWith names) [65] [65] (fun _ => 7)
    ⟨fun _ => maxOutbufLen 8,fun _ _ => 0⟩ names rfl hres hfit
  have hlt := (charlist_roundTrip_iff 8 rfl _ _ _ _ _ _ hres hfit).mp hx
  rw [List.length_replicate] at hlt
  exact absurd hlt (by decide)

end Kaplar.Protocol.Login
