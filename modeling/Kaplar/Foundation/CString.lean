import Mathlib.Data.List.TakeWhile
import Kaplar.Foundation.Memory

/-! # Strings that end with a zero byte

A string is known by the characters before its terminator. In memory it is read up to the
first zero byte of its region.
-/
namespace Kaplar

structure CString where
  chars : List UInt8
  nonzero : 0 ∉ chars
deriving DecidableEq

namespace CString

@[ext] theorem ext {s t : CString} (h : s.chars = t.chars) : s = t := by
  cases s
  cases t
  cases h
  rfl

def strlen (s : CString) : ℕ := s.chars.length

/-- A character, or the terminator behind the last one. -/
def get (s : CString) (i : ℕ) : UInt8 := s.chars.getD i 0

theorem get_zero_iff {s : CString} : s.get 0 = 0 ↔ s.chars = [] := by
  constructor
  · intro h
    apply List.eq_nil_iff_forall_not_mem.mpr
    intro c hc
    cases hs : s.chars with
    | nil =>
      rw [hs] at hc
      cases hc
    | cons a l =>
      have ha : a = 0 := by
        rw [get, hs] at h
        exact h
      exact s.nonzero (by rw [hs, ha]; exact List.mem_cons_self)
  · intro h
    rw [get, h]
    rfl

/-- The string from a character on. -/
def drop (s : CString) (n : ℕ) : CString :=
  ⟨s.chars.drop n,fun h => s.nonzero (List.mem_of_mem_drop h)⟩

/-- All bytes of a string. -/
def bytes (s : CString) : List UInt8 := s.chars ++ [0]

/-- The characters of a string literal, which ends at its first zero. -/
def ofString (s : String) : CString where
  chars := (s.toList.map (fun c => UInt8.ofNat c.toNat)).takeWhile (· ≠ 0)
  nonzero := by
    intro h
    have hne := List.mem_takeWhile_imp h
    simp at hne

/-- `strncmp` on the characters, each list ending with a zero. -/
def compareChars : List UInt8 → List UInt8 → ℕ → ℤ
  | _, _, 0 => 0
  | s, t, n + 1 =>
    if s.headD 0 ≠ t.headD 0 then (s.headD 0).toNat - (t.headD 0).toNat
    else if s.headD 0 = 0 then 0
    else compareChars s.tail t.tail n

def strncmp (s t : CString) (n : ℕ) : ℤ := compareChars s.chars t.chars n

theorem compareChars_eq_zero_iff {s t : List UInt8} (ht : 0 ∉ t) :
    compareChars s t t.length = 0 ↔ t <+: s := by
  induction t generalizing s with
  | nil => exact iff_of_true (by cases s <;> rfl) (List.nil_prefix)
  | cons c t ih =>
    have hc : c ≠ 0 := fun h => ht (h ▸ List.mem_cons_self)
    have ht' : 0 ∉ t := fun h => ht (List.mem_cons_of_mem c h)
    have hdiff {a : UInt8} (hne : a ≠ c) : (a.toNat : ℤ) - c.toNat ≠ 0 := by
      intro h0
      exact hne (UInt8.toNat_inj.mp (by omega))
    cases s with
    | nil =>
      change (if (0 : UInt8) ≠ c then _ else _) = (0 : ℤ) ↔ _
      rw [if_pos hc.symm]
      exact iff_of_false (hdiff hc.symm) (by simp)
    | cons a s =>
      change (if a ≠ c then _ else _) = (0 : ℤ) ↔ _
      rw [List.cons_prefix_cons]
      by_cases hac : a = c
      · subst hac
        rw [if_neg (not_not_intro rfl)]
        change (if a = 0 then _ else compareChars s t t.length) = 0 ↔ _
        rw [if_neg hc, ih ht', and_iff_right rfl]
      · rw [if_pos hac]
        exact iff_of_false (hdiff hac) (fun h => hac h.1.symm)

theorem strncmp_eq_zero_iff {s t : CString} : s.strncmp t t.strlen = 0 ↔ t.chars <+: s.chars :=
  compareChars_eq_zero_iff t.nonzero

@[simp] theorem length_bytes (s : CString) : s.bytes.length = s.strlen + 1 := by
  simp [bytes,strlen]

end CString

namespace Memory
variable {ρ : Type}

def cstring (m : Memory ρ) (r : ρ) : CString where
  chars := (m.slice r 0 (m.size r)).takeWhile (· ≠ 0)
  nonzero := by
    intro h
    have hne := List.mem_takeWhile_imp h
    simp at hne

section Lemmas
variable [DecidableEq ρ] {m : Memory ρ} {r : ρ} {o : ℕ} {l k : List UInt8} {x : UInt8}

/-- A string that fits is read back. -/
theorem cstring_write {s : CString} (h : s.strlen < m.size r) :
    (m.write r 0 s.bytes).cstring r = s := by
  have hne : ∀ c ∈ s.chars, decide (c ≠ 0) = true := by
    intro c hc
    exact decide_eq_true (fun h0 => s.nonzero (h0 ▸ hc))
  have hsize : m.size r = s.bytes.length + (m.size r - s.bytes.length) := by
    rw [CString.length_bytes]
    omega
  ext1
  simp only [cstring, size_write]
  rw [hsize, slice_add, Nat.zero_add, slice_write_self, CString.bytes, List.append_assoc,
    List.takeWhile_append_of_pos hne]
  simp

/-- A write over the last byte of another. -/
theorem write_over_last (h : k ≠ []) :
    (m.write r o (l ++ [x])).write r (o + l.length) k = m.write r o (l ++ k) := by
  have hlen : [x].length ≤ k.length := List.length_pos_iff.mpr h
  rw [← write_append, write_write hlen, write_append]

end Lemmas

end Memory

end Kaplar
