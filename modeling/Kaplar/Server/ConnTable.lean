import Kaplar.Foundation.Chain
import Mathlib.Algebra.Group.Nat.Defs
import Mathlib.Data.Int.Notation

/-! # The connection table

The slots of the connection manager, with the free list threaded through the uid
fields of the slots that are not in use. The low half of a uid is a slot, the high
half counts how often its slot has been handed out.
-/
namespace Kaplar.Server

def maxConnections : ℕ := 4096

/-- `UINT16_MAX`, the end of the free list. -/
def noSlot : UInt16 := 0xFFFF

/-- The bits of the `flags` word. -/
structure ConnFlags where
  inuse : Bool
  closing : Bool
  firstMsg : Bool
  outputInProgress : Bool
  deriving DecidableEq, Repr

def ConnFlags.zero : ConnFlags := ⟨false,false,false,false⟩

/-- `udata`: the service until a protocol is assigned, then whatever the protocol keeps. -/
inductive Udata where
  | null
  | service (svc : ℕ)
  | ptr (p : ℕ)
  deriving DecidableEq, Repr

/-- A slot; sockets, protocols and buffers are named by numbers. -/
structure ConnCtl where
  uid : UInt32
  flags : ConnFlags
  s : ℕ
  rdwrCount : ℤ
  pendingWork : ℤ
  proto : Option ℕ
  udata : Udata
  bodylen : UInt32
  outputLen : UInt32
  outputData : ℕ
  deriving DecidableEq, Repr

def ConnCtl.zero : ConnCtl := ⟨0,.zero,0,0,0,none,.null,0,0,0⟩

structure ConnTable where
  ctl : ℕ → ConnCtl
  freelist : UInt16
  nextUnusedSlot : ℕ

/-- The statically initialized table. -/
def ConnTable.initial : ConnTable := ⟨fun _ => .zero,noSlot,0⟩

section Uid

/-- `uid & 0xFFFF` -/
def slotOf (uid : UInt32) : UInt16 := uid.toUInt16

/-- The uid of the next connection in a slot whose last uid was `uid`. -/
def issueUid (uid : UInt32) (slot : UInt16) : UInt32 :=
  ((uid + 0x00010000) &&& 0xFFFF0000) ||| slot.toUInt32

/-- The uid field of a slot that goes onto the free list. -/
def retireUid (uid : UInt32) (freelist : UInt16) : UInt32 :=
  (uid &&& 0xFFFF0000) ||| freelist.toUInt32

/-- The high half. -/
def counterOf (uid : UInt32) : ℕ := uid.toNat / 65536

theorem land_high {x : ℕ} (hx : x < 2 ^ 32) : x &&& 0xFFFF0000 = 2 ^ 16 * (x / 2 ^ 16) := by
  apply Nat.eq_of_testBit_eq
  intro i
  have hm : (0xFFFF0000 : ℕ) = 2 ^ 16 * (2 ^ 16 - 1) := by decide
  rw [hm, Nat.testBit_and, Nat.testBit_two_pow_mul, Nat.testBit_two_pow_mul,
    Nat.testBit_two_pow_sub_one, Nat.testBit_div_two_pow]
  by_cases hi : 16 ≤ i
  · by_cases hi' : i < 32
    · have hlt : i - 16 < 16 := by omega
      simp [hi,hlt,Nat.sub_add_cancel hi]
    · have hx' : x < 2 ^ i := Nat.lt_of_lt_of_le hx (Nat.pow_le_pow_right (by decide) (by omega))
      simp [hi,Nat.testBit_lt_two_pow hx',Nat.sub_add_cancel hi]
  · simp [hi]

/-- The halves put together. -/
theorem toNat_halves (x : UInt32) (y : UInt16) :
    ((x &&& 0xFFFF0000) ||| y.toUInt32).toNat = x.toNat / 65536 * 65536 + y.toNat := by
  have hy := y.toNat_lt
  have hmask : (0xFFFF0000 : UInt32).toNat = 0xFFFF0000 := rfl
  rw [UInt32.toNat_or, UInt32.toNat_and, UInt16.toNat_toUInt32, hmask, land_high x.toNat_lt,
    ← Nat.two_pow_add_eq_or_of_lt hy]
  omega

theorem slotOf_halves (x : UInt32) (y : UInt16) :
    slotOf ((x &&& 0xFFFF0000) ||| y.toUInt32) = y := by
  have hy := y.toNat_lt
  apply UInt16.toNat_inj.mp
  rw [slotOf, UInt32.toNat_toUInt16, toNat_halves]
  omega

theorem counterOf_halves (x : UInt32) (y : UInt16) :
    counterOf ((x &&& 0xFFFF0000) ||| y.toUInt32) = counterOf x := by
  have hy := y.toNat_lt
  rw [counterOf, counterOf, toNat_halves]
  omega

@[simp] theorem slotOf_issueUid (uid : UInt32) (slot : UInt16) :
    slotOf (issueUid uid slot) = slot := slotOf_halves _ _
@[simp] theorem slotOf_retireUid (uid : UInt32) (free : UInt16) :
    slotOf (retireUid uid free) = free := slotOf_halves _ _
@[simp] theorem counterOf_retireUid (uid : UInt32) (free : UInt16) :
    counterOf (retireUid uid free) = counterOf uid := counterOf_halves _ _

/-- The counter wraps around after 65536 connections in a slot. -/
theorem counterOf_issueUid (uid : UInt32) (slot : UInt16) :
    counterOf (issueUid uid slot) = (counterOf uid + 1) % 65536 := by
  have hu := uid.toNat_lt
  have hinc : (0x00010000 : UInt32).toNat = 65536 := rfl
  rw [issueUid, counterOf_halves, counterOf, counterOf, UInt32.toNat_add, hinc]
  omega

theorem counterOf_lt (uid : UInt32) : counterOf uid < 65536 := by
  have hu := uid.toNat_lt
  rw [counterOf]
  omega

end Uid

namespace ConnTable

def setCtl (t : ConnTable) (i : ℕ) (f : ConnCtl → ConnCtl) : ConnTable :=
  { t with ctl := Function.update t.ctl i (f (t.ctl i)) }

/-- `CONN_CTL(uid)` -/
def connCtl (t : ConnTable) (uid : UInt32) : ConnCtl := t.ctl (slotOf uid).toNat

/-- The head of the free list, or else the first slot never used. -/
def takeSlot (t : ConnTable) : Option (UInt16 × ConnTable) :=
  if t.freelist ≠ noSlot then
    some (t.freelist,{ t with freelist := slotOf (t.ctl t.freelist.toNat).uid })
  else if t.nextUnusedSlot ≥ maxConnections then none
  else some (.ofNat t.nextUnusedSlot,{ t with nextUnusedSlot := t.nextUnusedSlot + 1 })

def internalAlloc (t : ConnTable) : Option (ℕ × ConnTable) := do
  let (slot,t) ← t.takeSlot
  let t := t.setCtl slot.toNat (fun c =>
    { c with uid := issueUid c.uid slot, flags := { ConnFlags.zero with inuse := true } })
  pure (slot.toNat,t)

/-- `internal_free` of the slot `c` points to; the slot is read off the uid. -/
def internalFree (t : ConnTable) (i : ℕ) : ConnTable :=
  let slot := slotOf (t.ctl i).uid
  let t' := t.setCtl i (fun c =>
    { c with uid := retireUid c.uid t.freelist, flags := { c.flags with inuse := !c.flags.inuse } })
  { t' with freelist := slot }

@[simp] theorem ctl_setCtl (t : ConnTable) (i j : ℕ) (f : ConnCtl → ConnCtl) :
    (t.setCtl i f).ctl j = if j = i then f (t.ctl i) else t.ctl j := by
  simp only [setCtl, Function.update_apply]

@[simp] theorem freelist_setCtl (t : ConnTable) (i : ℕ) (f : ConnCtl → ConnCtl) :
    (t.setCtl i f).freelist = t.freelist := rfl
@[simp] theorem nextUnusedSlot_setCtl (t : ConnTable) (i : ℕ) (f : ConnCtl → ConnCtl) :
    (t.setCtl i f).nextUnusedSlot = t.nextUnusedSlot := rfl

/-- The slot a free slot links to. -/
def link (t : ConnTable) (slot : UInt16) : UInt16 := slotOf (t.ctl slot.toNat).uid

/-- The free list is a chain of exactly the slots that have been used and are free. -/
structure FreeChain (t : ConnTable) (free : List UInt16) : Prop where
  chain : Chain t.link noSlot t.freelist free
  mem : ∀ slot, slot ∈ free ↔ slot.toNat < t.nextUnusedSlot ∧
    (t.ctl slot.toNat).flags.inuse = false

/-- What holds of the table between calls. -/
structure Wf (t : ConnTable) : Prop where
  bound : t.nextUnusedSlot ≤ maxConnections
  used : ∀ i, (t.ctl i).flags.inuse = true → i < t.nextUnusedSlot ∧ (slotOf (t.ctl i).uid).toNat = i
  free : ∃ free, t.FreeChain free

theorem initial_wf : initial.Wf := by
  refine ⟨by decide,?_,[],rfl,?_⟩
  · intro i hi
    cases hi
  · intro slot
    simp [initial]

section Alloc
variable {t : ConnTable} {free : List UInt16} {i : ℕ}

/-- The slot handed out is marked in use under its next uid. -/
def issue (t : ConnTable) (slot : UInt16) : ConnTable := t.setCtl slot.toNat (fun c =>
  { c with uid := issueUid c.uid slot, flags := { ConnFlags.zero with inuse := true } })

theorem toNat_ofNat_of_lt {n : ℕ} (h : n < maxConnections) : (UInt16.ofNat n).toNat = n := by
  rw [UInt16.toNat_ofNat']
  simp only [maxConnections] at h
  omega

theorem slot_lt (hw : t.Wf) (hi : i < t.nextUnusedSlot) : (UInt16.ofNat i).toNat = i :=
  toNat_ofNat_of_lt (Nat.lt_of_lt_of_le hi hw.bound)

/-- A slot taken from the free list. -/
theorem takeSlot_free (hw : t.Wf) (hf : t.freelist ≠ noSlot) :
    ∃ slot t', t.takeSlot = some (slot,t') ∧ slot.toNat < maxConnections ∧
      (t.ctl slot.toNat).flags.inuse = false ∧ t'.ctl = t.ctl ∧
        t.nextUnusedSlot ≤ t'.nextUnusedSlot ∧ (t'.issue slot).Wf := by
  obtain ⟨free,hc,hm⟩ := hw.free
  cases free with
  | nil => exact absurd hc hf
  | cons x xs =>
    obtain ⟨hx,hne,hc⟩ := hc
    have hnd := List.nodup_cons.mp (Chain.nodup ⟨hx,hne,hc⟩)
    obtain ⟨hlt,hfree⟩ := (hm x).mp List.mem_cons_self
    have htake : t.takeSlot = some (x,{ t with freelist := t.link x }) := by
      rw [takeSlot, if_pos hf, hx]
      rfl
    refine ⟨x,_,htake,Nat.lt_of_lt_of_le hlt hw.bound,hfree,rfl,Nat.le_refl _,hw.bound,?_,xs,?_,?_⟩
    · intro j hj
      by_cases hjx : j = x.toNat
      · subst hjx
        simpa [issue] using hlt
      · simp only [issue, ctl_setCtl, hjx, if_false] at hj ⊢
        exact hw.used j hj
    · refine hc.congr (fun y hy => ?_)
      have hyx : y.toNat ≠ x.toNat := fun he => hnd.1 (UInt16.toNat_inj.mp he ▸ hy)
      simp [link,issue,hyx]
    · intro y
      by_cases hyx : y = x
      · subst hyx
        simp [issue,hnd.1]
      · have hyx' : y.toNat ≠ x.toNat := fun he => hyx (UInt16.toNat_inj.mp he)
        have hmy := hm y
        simp only [List.mem_cons, hyx, false_or] at hmy
        simpa [issue,hyx'] using hmy

theorem free_eq_nil (hf : t.freelist = noSlot) (hc : Chain t.link noSlot t.freelist free) :
    free = [] := by
  cases free with
  | nil => rfl
  | cons x xs => exact absurd (hc.1.symm.trans hf) hc.2.1

/-- A slot never used before. -/
theorem takeSlot_fresh (hw : t.Wf) (hf : t.freelist = noSlot)
    (hlt : t.nextUnusedSlot < maxConnections) :
    ∃ slot t', t.takeSlot = some (slot,t') ∧ slot.toNat < maxConnections ∧
      (t.ctl slot.toNat).flags.inuse = false ∧ t'.ctl = t.ctl ∧
        t.nextUnusedSlot ≤ t'.nextUnusedSlot ∧ (t'.issue slot).Wf := by
  obtain ⟨free,hc,hm⟩ := hw.free
  obtain rfl := free_eq_nil hf hc
  have hslot := toNat_ofNat_of_lt hlt
  have htake : t.takeSlot =
      some (.ofNat t.nextUnusedSlot,{ t with nextUnusedSlot := t.nextUnusedSlot + 1 }) := by
    rw [takeSlot, if_neg (not_not_intro hf), if_neg (Nat.not_le_of_lt hlt)]
  have hunused : (t.ctl t.nextUnusedSlot).flags.inuse = false := by
    cases hu : (t.ctl t.nextUnusedSlot).flags.inuse with
    | false => rfl
    | true => exact absurd (hw.used _ hu).1 (Nat.lt_irrefl _)
  refine ⟨_,_,htake,by rwa [hslot],by rwa [hslot],rfl,Nat.le_succ _,hlt,?_,[],hf,?_⟩
  · intro j hj
    by_cases hjn : j = t.nextUnusedSlot
    · simp [issue,hslot,hjn]
    · simp only [issue, hslot, ctl_setCtl, hjn, if_false] at hj ⊢
      exact ⟨Nat.lt_succ_of_lt (hw.used j hj).1,(hw.used j hj).2⟩
  · intro y
    have hmy := hm y
    simp only [List.not_mem_nil, false_iff, not_and] at hmy ⊢
    intro hy
    by_cases hyn : y.toNat = t.nextUnusedSlot
    · simp [issue,hslot,hyn]
    · have hy' : y.toNat < t.nextUnusedSlot := by
        simp only [issue, nextUnusedSlot_setCtl] at hy
        omega
      simpa [issue,hslot,hyn] using hmy hy'

/-- The table after a successful allocation of slot `i`. -/
structure Allocated (t : ConnTable) (i : ℕ) (t' : ConnTable) : Prop where
  bound : i < maxConnections
  unused : (t.ctl i).flags.inuse = false
  ctl : ∀ j, t'.ctl j = if j = i then { t.ctl i with
    uid := issueUid (t.ctl i).uid (.ofNat i), flags := { ConnFlags.zero with inuse := true } }
      else t.ctl j
  next : t.nextUnusedSlot ≤ t'.nextUnusedSlot
  wf : t'.Wf

/-- An allocation fails when all slots are in use, and else hands out a free one. -/
theorem internalAlloc_cases (hw : t.Wf) :
    (t.internalAlloc = none ∧ ∀ i < maxConnections, (t.ctl i).flags.inuse = true) ∨
      ∃ i t', t.internalAlloc = some (i,t') ∧ t.Allocated i t' := by
  have hsome : (∃ slot t', t.takeSlot = some (slot,t') ∧ slot.toNat < maxConnections ∧
      (t.ctl slot.toNat).flags.inuse = false ∧ t'.ctl = t.ctl ∧
        t.nextUnusedSlot ≤ t'.nextUnusedSlot ∧ (t'.issue slot).Wf) →
      ∃ i t', t.internalAlloc = some (i,t') ∧ t.Allocated i t' := by
    rintro ⟨slot,t',htake,hb,hu,he,hn,hwf⟩
    refine ⟨slot.toNat,t'.issue slot,?_,hb,hu,?_,hn,hwf⟩
    · rw [internalAlloc, htake]
      rfl
    · intro j
      rw [issue, ctl_setCtl, he, UInt16.ofNat_toNat]
  by_cases hf : t.freelist = noSlot
  · by_cases hlt : t.nextUnusedSlot < maxConnections
    · exact .inr (hsome (takeSlot_fresh hw hf hlt))
    · left
      constructor
      · rw [internalAlloc, takeSlot, if_neg (not_not_intro hf), if_pos (Nat.le_of_not_lt hlt)]
        rfl
      · intro i hi
        obtain ⟨free,hc,hm⟩ := hw.free
        obtain rfl := free_eq_nil hf hc
        have hmi := hm (.ofNat i)
        rw [toNat_ofNat_of_lt hi] at hmi
        simp only [List.not_mem_nil, false_iff, not_and, Bool.not_eq_false] at hmi
        exact hmi (by omega)
  · exact .inr (hsome (takeSlot_free hw hf))

/-- A slot in use goes onto the free list. -/
theorem internalFree_wf (hw : t.Wf) (hi : (t.ctl i).flags.inuse = true) :
    (t.internalFree i).Wf := by
  obtain ⟨free,hc,hm⟩ := hw.free
  obtain ⟨hlt,hslot⟩ := hw.used i hi
  have hlt' := Nat.lt_of_lt_of_le hlt hw.bound
  have hne : slotOf (t.ctl i).uid ≠ noSlot := by
    intro he
    rw [he] at hslot
    subst hslot
    exact absurd hlt' (by decide)
  have hnot : slotOf (t.ctl i).uid ∉ free := by
    intro hmem
    have hu := ((hm _).mp hmem).2
    rw [hslot, hi] at hu
    cases hu
  have hother : ∀ y : UInt16, y ≠ slotOf (t.ctl i).uid → y.toNat ≠ i := by
    intro y hy he
    exact hy (UInt16.toNat_inj.mp (he.trans hslot.symm))
  refine ⟨hw.bound,?_,slotOf (t.ctl i).uid :: free,⟨rfl,hne,?_⟩,?_⟩
  · intro j hj
    by_cases hji : j = i
    · subst hji
      simp [internalFree,hi] at hj
    · simp only [internalFree, ctl_setCtl, hji, if_false] at hj ⊢
      exact hw.used j hj
  · have hlink : (t.internalFree i).link (slotOf (t.ctl i).uid) = t.freelist := by
      simp [link,internalFree,hslot]
    rw [hlink]
    apply hc.congr
    intro y hy
    have hyi : y.toNat ≠ i := hother y (fun he => hnot (he ▸ hy))
    simp [link,internalFree,hyi]
  · intro y
    by_cases hy : y = slotOf (t.ctl i).uid
    · subst hy
      simp [internalFree,hslot,hi,hlt]
    · have hyi := hother y hy
      have hmy := hm y
      simpa [internalFree,hy,hyi] using hmy

/-- The table is well formed whatever else happens to the slots. -/
theorem Wf.congr {t' : ConnTable} (hw : t.Wf) (hu : ∀ i, (t'.ctl i).uid = (t.ctl i).uid)
    (hf : ∀ i, (t'.ctl i).flags.inuse = (t.ctl i).flags.inuse) (hl : t'.freelist = t.freelist)
    (hn : t'.nextUnusedSlot = t.nextUnusedSlot) : t'.Wf := by
  obtain ⟨free,hc,hm⟩ := hw.free
  refine ⟨hn ▸ hw.bound,?_,free,?_,?_⟩
  · intro i hi
    rw [hu, hn]
    exact hw.used i (hf i ▸ hi)
  · rw [hl]
    exact hc.congr (fun y _ => by rw [link, link, hu])
  · intro y
    rw [hm, hn, hf]

end Alloc

end ConnTable

end Kaplar.Server
