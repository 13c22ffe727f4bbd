import Kaplar.Foundation.Endian

/-! # Byte memory in regions

A program that reads and writes bytes in a few named regions of known size. An
access outside of its region is a fault, the value `none`, so that a program
stays in bounds exactly when it does not fault.
-/
namespace Kaplar
variable {ρ : Type}

structure Memory (ρ : Type) where
  size : ρ → ℕ
  bytes : ρ → ℕ → UInt8

abbrev MemM (ρ : Type) := StateT (Memory ρ) Option

namespace Memory

def u16 (m : Memory ρ) (r : ρ) (o : ℕ) : UInt16 :=
  u16le (m.bytes r o) (m.bytes r (o + 1))

def u32 (m : Memory ρ) (r : ρ) (o : ℕ) : UInt32 :=
  u32le (m.bytes r o) (m.bytes r (o + 1)) (m.bytes r (o + 2)) (m.bytes r (o + 3))

def u32be (m : Memory ρ) (r : ρ) (o : ℕ) : UInt32 :=
  Kaplar.u32be (m.bytes r o) (m.bytes r (o + 1)) (m.bytes r (o + 2)) (m.bytes r (o + 3))

/-- The `n` bytes from an offset on. -/
def slice (m : Memory ρ) (r : ρ) (o n : ℕ) : List UInt8 :=
  (List.range n).map (fun i => m.bytes r (o + i))

theorem slice_succ (m : Memory ρ) (r : ρ) (o n : ℕ) :
    m.slice r o (n + 1) = m.bytes r o :: m.slice r (o + 1) n := by
  simp [slice,List.range_succ_eq_map,Function.comp_def,Nat.add_assoc,Nat.add_comm 1]

@[simp] theorem length_slice (m : Memory ρ) (r : ρ) (o n : ℕ) :
    (m.slice r o n).length = n := by simp [slice]

theorem getElem_slice (m : Memory ρ) (r : ρ) (o n : ℕ) {i : ℕ} (h : i < (m.slice r o n).length) :
    (m.slice r o n)[i] = m.bytes r (o + i) := by simp [slice]

theorem slice_congr {m m' : Memory ρ} {r r' : ρ} {o o' n : ℕ}
    (h : ∀ i < n, m.bytes r (o + i) = m'.bytes r' (o' + i)) :
    m.slice r o n = m'.slice r' o' n :=
  List.map_congr_left (fun i hi => h i (List.mem_range.mp hi))

theorem slice_add (m : Memory ρ) (r : ρ) (o n k : ℕ) :
    m.slice r o (n + k) = m.slice r o n ++ m.slice r (o + n) k := by
  simp [slice,List.range_add,Function.comp_def,Nat.add_assoc]

variable [DecidableEq ρ]

/-- The bytes of a list from an offset on. -/
def write (m : Memory ρ) (r : ρ) (o : ℕ) (l : List UInt8) : Memory ρ :=
  { m with bytes := fun r' j =>
      if r' = r ∧ o ≤ j then l[j - o]?.getD (m.bytes r' j) else m.bytes r' j }

section Lemmas
variable {m : Memory ρ} {r r' : ρ} {j o : ℕ} {l : List UInt8}

@[simp] theorem size_write : (m.write r o l).size = m.size := rfl

theorem bytes_write : (m.write r o l).bytes r' j =
    if r' = r ∧ o ≤ j then l[j - o]?.getD (m.bytes r' j) else m.bytes r' j := rfl

theorem bytes_write_of_ne (h : r' ≠ r) : (m.write r o l).bytes r' = m.bytes r' :=
  funext (fun _ => if_neg (fun hr => h hr.1))

theorem bytes_write_of_disjoint (h : j < o ∨ o + l.length ≤ j) :
    (m.write r o l).bytes r' j = m.bytes r' j := by
  rw [bytes_write]
  by_cases hin : r' = r ∧ o ≤ j
  · rw [if_pos hin, List.getElem?_eq_none (by omega), Option.getD_none]
  · rw [if_neg hin]

theorem bytes_write_self (h : j < l.length) : (m.write r o l).bytes r (o + j) = l[j] := by
  rw [bytes_write, if_pos ⟨rfl,Nat.le_add_right o j⟩, Nat.add_sub_cancel_left,
    List.getElem?_eq_getElem h, Option.getD_some]

@[simp] theorem write_nil : m.write r o [] = m := by
  obtain ⟨size,bytes⟩ := m
  simp only [write, Memory.mk.injEq, true_and]
  funext r' j
  exact ite_self _

theorem write_append {k : List UInt8} :
    (m.write r o l).write r (o + l.length) k = m.write r o (l ++ k) := by
  obtain ⟨size,bytes⟩ := m
  simp only [write, Memory.mk.injEq, true_and]
  funext r' j
  by_cases hin : r' = r ∧ o ≤ j
  · by_cases hafter : o + l.length ≤ j
    · have hsub : j - (o + l.length) = j - o - l.length := Nat.sub_add_eq j o l.length
      rw [if_pos ⟨hin.1,hafter⟩, if_pos hin, if_pos hin, hsub,
        List.getElem?_append_right (by omega), List.getElem?_eq_none (by omega : l.length ≤ j - o),
        Option.getD_none]
    · rw [if_neg (fun h => hafter h.2), if_pos hin, if_pos hin,
        List.getElem?_append_left (by omega)]
  · rw [if_neg (fun h => hin ⟨h.1,by omega⟩), if_neg hin, if_neg hin]

/-- Two adjacent writes, the one behind first. -/
theorem write_prepend {k : List UInt8} :
    (m.write r (o + l.length) k).write r o l = m.write r o (l ++ k) := by
  obtain ⟨size,bytes⟩ := m
  simp only [write, Memory.mk.injEq, true_and]
  funext r' j
  by_cases hin : r' = r ∧ o ≤ j
  · by_cases hafter : o + l.length ≤ j
    · have hsub : j - (o + l.length) = j - o - l.length := Nat.sub_add_eq j o l.length
      rw [if_pos hin, if_pos hin, if_pos ⟨hin.1,hafter⟩, hsub,
        List.getElem?_append_right (by omega), List.getElem?_eq_none (by omega : l.length ≤ j - o),
        Option.getD_none]
    · rw [if_pos hin, if_pos hin, if_neg (fun h => hafter h.2),
        List.getElem?_append_left (by omega)]
  · rw [if_neg hin, if_neg hin, if_neg (fun h => hin ⟨h.1,by omega⟩)]

variable {n : ℕ}

theorem slice_write_of_ne (h : r' ≠ r) {o' : ℕ} :
    (m.write r o l).slice r' o' n = m.slice r' o' n :=
  slice_congr (fun _ _ => by rw [bytes_write_of_ne h])

theorem slice_write_of_disjoint {o' : ℕ} (h : o' + n ≤ o ∨ o + l.length ≤ o') :
    (m.write r o l).slice r' o' n = m.slice r' o' n :=
  slice_congr (fun _ _ => bytes_write_of_disjoint (by omega))

theorem slice_write_self : (m.write r o l).slice r o l.length = l := by
  apply List.ext_getElem (length_slice _ _ _ _)
  intro i _ hi
  rw [getElem_slice, bytes_write_self hi]

theorem slice_write_inside {i : ℕ} (h : i + n ≤ l.length) :
    (m.write r o l).slice r (o + i) n = (l.drop i).take n := by
  apply List.ext_getElem
  · rw [length_slice, List.length_take, List.length_drop]
    omega
  · intro j hj _
    rw [length_slice] at hj
    rw [getElem_slice, Nat.add_assoc, bytes_write_self (by omega), List.getElem_take,
      List.getElem_drop]

theorem write_write {k : List UInt8} (h : l.length ≤ k.length) :
    (m.write r o l).write r o k = m.write r o k := by
  obtain ⟨size,bytes⟩ := m
  simp only [write, Memory.mk.injEq, true_and]
  funext r' j
  by_cases hin : r' = r ∧ o ≤ j
  · by_cases hj : j - o < k.length
    · simp [hin,hj]
    · have hl : ¬ j - o < l.length := by omega
      simp [hin,hj,hl]
  · simp [hin]

theorem write_slice : m.write r o (m.slice r o n) = m := by
  obtain ⟨size,bytes⟩ := m
  simp only [write, Memory.mk.injEq, true_and]
  funext r' j
  by_cases hin : r' = r ∧ o ≤ j
  · obtain ⟨rfl,hj⟩ := hin
    by_cases hn : j - o < n
    · simp [slice,hj,hn]
    · simp [slice,hj,hn]
  · simp [hin]

theorem getD_write {i : ℕ} (h : i < l.length) :
    (m.write r o l).bytes r (o + i) = l.getD i 0 := by
  rw [bytes_write_self h]
  simp [h]

theorem u16_write {i : ℕ} (h : i + 1 < l.length) :
    (m.write r o l).u16 r (o + i) = wordAt l i := by
  rw [u16, Nat.add_assoc, getD_write h, getD_write (by omega), wordAt]

theorem u32_write {i : ℕ} (h : i + 3 < l.length) :
    (m.write r o l).u32 r (o + i) = dwordAt l i := by
  rw [u32, Nat.add_assoc, Nat.add_assoc, Nat.add_assoc, getD_write h, getD_write (by omega),
    getD_write (by omega), getD_write (by omega), dwordAt]

theorem u16_write_of_ne (h : r' ≠ r) {i : ℕ} : (m.write r o l).u16 r' i = m.u16 r' i := by
  rw [u16, bytes_write_of_ne h, u16]

end Lemmas

end Memory

section Accesses

def load (r : ρ) (i : ℕ) : MemM ρ UInt8 := fun m =>
  if i < m.size r then some (m.bytes r i,m) else none

def loadBytes (r : ρ) : ℕ → ℕ → MemM ρ (List UInt8)
  | _, 0 => pure []
  | o, n + 1 => do
    let b ← load r o
    let l ← loadBytes r (o + 1) n
    pure (b :: l)

def decodeU16le (r : ρ) (o : ℕ) : MemM ρ UInt16 := do
  let b0 ← load r o
  let b1 ← load r (o + 1)
  pure (u16le b0 b1)

def decodeU32le (r : ρ) (o : ℕ) : MemM ρ UInt32 := do
  let b0 ← load r o
  let b1 ← load r (o + 1)
  let b2 ← load r (o + 2)
  let b3 ← load r (o + 3)
  pure (u32le b0 b1 b2 b3)

def decodeU32be (r : ρ) (o : ℕ) : MemM ρ UInt32 := do
  let b0 ← load r o
  let b1 ← load r (o + 1)
  let b2 ← load r (o + 2)
  let b3 ← load r (o + 3)
  pure (u32be b0 b1 b2 b3)

variable [DecidableEq ρ]

def store (r : ρ) (i : ℕ) (v : UInt8) : MemM ρ Unit := fun m =>
  if i < m.size r then some ((),m.write r i [v]) else none

def storeBytes (r : ρ) : ℕ → List UInt8 → MemM ρ Unit
  | _, [] => pure ()
  | o, b :: l => do
    store r o b
    storeBytes r (o + 1) l

def encodeU16le (r : ρ) (o : ℕ) (v : UInt16) : MemM ρ Unit := storeBytes r o (bytes16 v)
def encodeU32le (r : ρ) (o : ℕ) (v : UInt32) : MemM ρ Unit := storeBytes r o (bytes32 v)
def encodeU32be (r : ρ) (o : ℕ) (v : UInt32) : MemM ρ Unit := storeBytes r o (bytes32be v)

def memcpy (dst : ρ) (doff : ℕ) (src : ρ) (soff n : ℕ) : MemM ρ Unit := do
  let l ← loadBytes src soff n
  storeBytes dst doff l

end Accesses

section Runs

theorem bind_run {σ α β : Type} {f : StateT σ Option α} {g : α → StateT σ Option β} {s s' : σ}
    {a : α} (h : f s = some (a,s')) : (f >>= g) s = g a s' := by
  change (f s).bind _ = _
  rw [h]
  rfl

theorem exists_of_bind {σ α β : Type} {f : StateT σ Option α} {g : α → StateT σ Option β} {s s' : σ}
    {b : β} (h : (f >>= g) s = some (b,s')) :
    ∃ a s₁, f s = some (a,s₁) ∧ g a s₁ = some (b,s') := by
  obtain ⟨⟨a,s₁⟩,hf,hg⟩ := Option.bind_eq_some_iff.mp h
  exact ⟨a,s₁,hf,hg⟩

theorem bind_fault {σ α β : Type} {f : StateT σ Option α} {g : α → StateT σ Option β} {s : σ}
    (h : f s = none) : (f >>= g) s = none := by
  change (f s).bind _ = _
  rw [h]
  rfl

variable {m : Memory ρ} {r : ρ} {i o n : ℕ} {v : UInt8}

theorem load_run (h : i < m.size r) : load r i m = some (m.bytes r i,m) := if_pos h
theorem load_fault (h : m.size r ≤ i) : load r i m = none := if_neg (Nat.not_lt_of_le h)

theorem loadBytes_run (h : o + n ≤ m.size r) :
    loadBytes r o n m = some (m.slice r o n,m) := by
  induction n generalizing o with
  | zero => rfl
  | succ n ih =>
    rw [loadBytes, bind_run (load_run (by omega)), bind_run (ih (by omega)), Memory.slice_succ]
    rfl

theorem loadBytes_fault (hn : 0 < n) (h : m.size r < o + n) : loadBytes r o n m = none := by
  induction n generalizing o with
  | zero => omega
  | succ n ih =>
    by_cases hoff : o < m.size r
    · rw [loadBytes, bind_run (load_run hoff)]
      exact bind_fault (ih (by omega) (by omega))
    · exact bind_fault (load_fault (by omega))

theorem decodeU16le_run (h : o + 2 ≤ m.size r) : decodeU16le r o m = some (m.u16 r o,m) := by
  rw [decodeU16le, bind_run (load_run (by omega)), bind_run (load_run (by omega))]
  rfl

theorem decodeU16le_fault (h : m.size r < o + 2) : decodeU16le r o m = none := by
  rw [decodeU16le]
  by_cases h0 : o < m.size r
  · rw [bind_run (load_run h0)]
    exact bind_fault (load_fault (by omega))
  · exact bind_fault (load_fault (by omega))

theorem decodeU32le_run (h : o + 4 ≤ m.size r) : decodeU32le r o m = some (m.u32 r o,m) := by
  rw [decodeU32le, bind_run (load_run (by omega)), bind_run (load_run (by omega)),
    bind_run (load_run (by omega)), bind_run (load_run (by omega))]
  rfl

theorem decodeU32be_run (h : o + 4 ≤ m.size r) : decodeU32be r o m = some (m.u32be r o,m) := by
  rw [decodeU32be, bind_run (load_run (by omega)), bind_run (load_run (by omega)),
    bind_run (load_run (by omega)), bind_run (load_run (by omega))]
  rfl

variable [DecidableEq ρ] {dst src : ρ} {doff soff : ℕ} {l : List UInt8}

theorem store_run (h : i < m.size r) : store r i v m = some ((),m.write r i [v]) := if_pos h

theorem storeBytes_run (h : o + l.length ≤ m.size r) :
    storeBytes r o l m = some ((),m.write r o l) := by
  induction l generalizing m o with
  | nil => rw [Memory.write_nil]; rfl
  | cons b l ih =>
    rw [List.length_cons] at h
    have happ : (m.write r o [b]).write r (o + 1) l = m.write r o (b :: l) :=
      Memory.write_append (l := [b])
    rw [storeBytes, bind_run (store_run (by omega)), ih (by rw [Memory.size_write]; omega), happ]

theorem storeBytes_fault (hl : l ≠ []) (h : m.size r < o + l.length) :
    storeBytes r o l m = none := by
  induction l generalizing m o with
  | nil => exact absurd rfl hl
  | cons b l ih =>
    rw [List.length_cons] at h
    by_cases hoff : o < m.size r
    · have hl' : l ≠ [] := by
        intro hnil
        rw [hnil, List.length_nil] at h
        omega
      rw [storeBytes, bind_run (store_run hoff), ih hl' (by rw [Memory.size_write]; omega)]
    · exact bind_fault (if_neg hoff)

theorem memcpy_run (hs : soff + n ≤ m.size src) (hd : doff + n ≤ m.size dst) :
    memcpy dst doff src soff n m = some ((),m.write dst doff (m.slice src soff n)) := by
  rw [memcpy, bind_run (loadBytes_run hs), storeBytes_run (by rw [Memory.length_slice]; exact hd)]

/-- A copy that reaches beyond its source faults. -/
theorem memcpy_fault (hn : 0 < n) (hs : m.size src < soff + n) :
    memcpy dst doff src soff n m = none := bind_fault (loadBytes_fault hn hs)

end Runs

end Kaplar
