import Kaplar.Config.Config
import Kaplar.Foundation.Probing
import Mathlib.Data.List.Induction
import Mathlib.Data.List.Nodup

/-! # Looking configuration variables up

The comparison ends with the key that is looked for, so that it also succeeds for longer
keys which begin with it.
-/
namespace Kaplar.Config
open Probing
variable {t t' : ConfigTable} {vars : List ConfigVar} {var : ConfigVar} {k : CString}
  {idx : ConfigIdx}

def probesFrom : ℕ → ConfigIdx → List ConfigIdx
  | 0, _ => []
  | left + 1, idx => idx :: probesFrom left (nextIdx idx)

/-- The slots of a key, in the order they are tried. -/
def slotsOf (k : CString) : List ConfigIdx := probesFrom maxCollisions (configVarIdx k)

theorem slotsOf_eq (k : CString) : slotsOf k = [configVarIdx k,nextIdx (configVarIdx k)] := rfl

/-- The comparison of a lookup. -/
def matchesKey (k : CString) (var : ConfigVar) : Bool := var.key.strncmp k k.strlen = 0

def isFree (var : ConfigVar) : Bool := var.key.get 0 = 0

theorem matchesKey_iff : matchesKey k var = true ↔ k.chars <+: var.key.chars := by
  rw [matchesKey, decide_eq_true_eq, CString.strncmp_eq_zero_iff]

theorem isFree_iff : isFree var = true ↔ var.key.chars = [] := by
  rw [isFree, decide_eq_true_eq, CString.get_zero_iff]

theorem findLoop_eq (left : ℕ) (idx : ConfigIdx) : findLoop t k left idx =
    (probesFrom left idx).find? (fun i => matchesKey k (t i)) := by
  induction left generalizing idx with
  | zero => rfl
  | succ left ih =>
    rw [findLoop, probesFrom, List.find?_cons, ih]
    by_cases h : (t idx).key.strncmp k k.strlen = 0 <;> simp [matchesKey,h]

theorem insertLoop_eq (left : ℕ) (idx : ConfigIdx) : insertLoop t left idx =
    (probesFrom left idx).find? (fun i => isFree (t i)) := by
  induction left generalizing idx with
  | zero => rfl
  | succ left ih =>
    rw [insertLoop, probesFrom, List.find?_cons, ih]
    by_cases h : (t idx).key.get 0 = 0 <;> simp [isFree,h]

theorem configVarFind_eq : configVarFind t k = seek slotsOf (matchesKey k) t k :=
  findLoop_eq maxCollisions (configVarIdx k)

theorem configVarInsert_eq : configVarInsert t k = vacancy slotsOf isFree t k :=
  insertLoop_eq maxCollisions (configVarIdx k)

/-! ## The table after loading -/

theorem loadDefaults_concat : loadDefaults (vars ++ [var]) =
    loadDefault (loadDefaults vars) var := List.foldl_concat ..

theorem loadDefaults_holds (hne : ∀ var ∈ vars, var.key.chars ≠ []) :
    Holds slotsOf ConfigVar.key isFree (loadDefaults vars).1 (loadDefaults vars).2 := by
  induction vars using List.reverseRecOn with
  | nil => exact Holds.nil (fun _ => rfl)
  | append_singleton vars var ih =>
    have hheld := ih (fun var hvar => hne var (List.mem_append_left _ hvar))
    have hvar : isFree var = false := by
      apply Bool.eq_false_iff.mpr
      intro hfree
      exact hne var (by simp) (isFree_iff.mp hfree)
    rw [loadDefaults_concat, loadDefault]
    cases hi : configVarInsert (loadDefaults vars).1 var.key with
    | none => exact hheld
    | some idx => exact hheld.put hvar (configVarInsert_eq ▸ hi)

theorem loadDefaults_sublist : (loadDefaults vars).2.Sublist vars := by
  induction vars using List.reverseRecOn with
  | nil => exact List.Sublist.refl _
  | append_singleton vars var ih =>
    rw [loadDefaults_concat, loadDefault]
    cases configVarInsert (loadDefaults vars).1 var.key with
    | none => exact ih.trans (List.sublist_append_left vars [var])
    | some idx => exact ih.append (List.Sublist.refl [var])

theorem loadDefaults_keys (hkeys : (vars.map ConfigVar.key).Nodup) :
    ∀ v ∈ (loadDefaults vars).2, ∀ w ∈ (loadDefaults vars).2, v.key = w.key → v = w := by
  have hsub : (loadDefaults vars).2 ⊆ vars := loadDefaults_sublist.subset
  intro v hv w hw
  exact List.inj_on_of_nodup_map hkeys (hsub hv) (hsub hw)

/-! ## When a lookup is exact -/

/-- A longer key begins with this one. -/
def Extends (k : CString) (var : ConfigVar) : Prop := k.chars <+: var.key.chars ∧ var.key ≠ k

/-- A longer key is in the first slot, or it is in the second and the first is not the one
of this key. -/
def Shadows (t : ConfigTable) (k : CString) : Prop :=
  Extends k (t (configVarIdx k)) ∨
    (t (configVarIdx k)).key ≠ k ∧ Extends k (t (nextIdx (configVarIdx k)))

/-- A lookup finds the variable of that key, if it has found a place, and no other. -/
structure ExactFind (s : ConfigTable × List ConfigVar) (k : CString) : Prop where
  found : ∀ var ∈ s.2, var.key = k → ∃ idx, configVarFind s.1 k = some idx ∧ s.1 idx = var
  missed : (∀ var ∈ s.2, var.key ≠ k) → configVarFind s.1 k = none

theorem shadows_iff : Shadows t k ↔ Shadowed slotsOf ConfigVar.key (matchesKey k) t k := by
  rw [shadowed_pair (slotsOf_eq k)]
  simp only [matchesKey_iff, Shadows, Extends]

theorem exactFind_iff {s : ConfigTable × List ConfigVar} : ExactFind s k ↔
    Exact slotsOf ConfigVar.key (matchesKey k) s.1 s.2 k := by
  constructor
  · rintro ⟨hfound,hmissed⟩
    rw [configVarFind_eq] at hfound hmissed
    exact ⟨hfound,hmissed⟩
  · rintro ⟨hfound,hmissed⟩
    rw [← configVarFind_eq] at hfound hmissed
    exact ⟨hfound,hmissed⟩

theorem matchesKey_self (var : ConfigVar) (h : var.key = k) : matchesKey k var = true :=
  matchesKey_iff.mpr (h ▸ List.prefix_refl _)

theorem not_isFree_of_matches (hk : k.chars ≠ []) (var : ConfigVar)
    (h : matchesKey k var = true) : isFree var = false := by
  apply Bool.eq_false_iff.mpr
  intro hfree
  have hpre := matchesKey_iff.mp h
  rw [isFree_iff.mp hfree] at hpre
  exact hk (List.prefix_nil.mp hpre)

theorem configVarFind_exact_iff (hkeys : (vars.map ConfigVar.key).Nodup)
    (hne : ∀ var ∈ vars, var.key.chars ≠ []) (hk : k.chars ≠ []) :
    ExactFind (loadDefaults vars) k ↔ ¬ Shadows (loadDefaults vars).1 k := by
  rw [exactFind_iff, shadows_iff]
  apply (loadDefaults_holds hne).exact_iff
  · exact matchesKey_self
  · exact loadDefaults_keys hkeys
  · exact not_isFree_of_matches hk

/-- With the default variables alone, for one of their names. -/
theorem configVarFind_exact_motd : ExactFind (loadDefaults configDefaults) (.ofString "motd") ↔
    ¬ Shadows (loadDefaults configDefaults).1 (.ofString "motd") :=
  configVarFind_exact_iff (by decide) (by decide) (by decide)

/-- A part of the name of the password is taken for it. -/
theorem configVarFind_not_exact : ¬ ∀ (vars : List ConfigVar) (k : CString),
    (vars.map ConfigVar.key).Nodup → (∀ var ∈ vars, var.key.chars ≠ []) → k.chars ≠ [] →
      ExactFind (loadDefaults vars) k := by
  intro h
  have hexact := h configDefaults (.ofString "pgsq") (by decide) (by decide) (by decide)
  have hmissed := hexact.missed (by decide +kernel)
  exact absurd hmissed (by decide +kernel)

/-! ## Assignments from the command line -/

theorem assign_cases (t : ConfigTable) (argv : CString) : assign t argv = t ∨
    ∃ idx val, configVarFind t (parseArgv argv).1 = some idx ∧
      assign t argv = Function.update t idx (configVarSetValue (t idx) val) := by
  obtain ⟨key,val,hparse⟩ : ∃ key val, parseArgv argv = (key,val) := ⟨_,_,rfl⟩
  simp only [assign, hparse]
  split
  case isTrue => exact .inl rfl
  case isFalse =>
    cases hfind : configVarFind t key with
    | none => exact .inl rfl
    | some idx => exact .inr ⟨idx,_,rfl,rfl⟩

/-- Assignments change values only. -/
def SameKeys (t t' : ConfigTable) : Prop := ∀ idx, (t' idx).key = (t idx).key

theorem sameKeys_assign (t : ConfigTable) (argv : CString) : SameKeys t (assign t argv) := by
  intro idx
  rcases assign_cases t argv with hkept | ⟨i,val,_,hset⟩
  · rw [hkept]
  · rw [hset]
    by_cases h : idx = i
    · subst h
      rw [Function.update_self]
      rfl
    · rw [Function.update_of_ne h]

theorem SameKeys.findLoop (h : SameKeys t t') (left : ℕ) (idx : ConfigIdx) :
    findLoop t' k left idx = Config.findLoop t k left idx := by
  induction left generalizing idx with
  | zero => rfl
  | succ left ih => rw [Config.findLoop, Config.findLoop, h idx, ih]

theorem SameKeys.configVarFind (h : SameKeys t t') : configVarFind t' k = configVarFind t k :=
  h.findLoop maxCollisions (configVarIdx k)

theorem SameKeys.shadows (h : SameKeys t t') : Shadows t' k ↔ Shadows t k := by
  simp only [Shadows, Extends, h _]

theorem key_of_configVarFind (hs : ¬ Shadows t k) (hi : configVarFind t k = some idx) :
    (t idx).key = k := by
  rw [configVarFind_eq] at hi
  exact key_of_seek matchesKey_self (fun h => hs (shadows_iff.mpr h)) hi

/-- An assignment to a key that is not shadowed leaves the variables of other keys alone. -/
theorem assign_other {argv : CString} (hs : ¬ Shadows t (parseArgv argv).1)
    (hne : (parseArgv argv).1 ≠ (t idx).key) : assign t argv idx = t idx := by
  rcases assign_cases t argv with hkept | ⟨i,val,hi,hset⟩
  · rw [hkept]
  · rw [hset]
    apply Function.update_of_ne
    rintro rfl
    exact hne (key_of_configVarFind hs hi).symm

theorem assigns_other {args : List CString} (hs : ∀ argv ∈ args, ¬ Shadows t (parseArgv argv).1)
    (hne : ∀ argv ∈ args, (parseArgv argv).1 ≠ (t idx).key) :
    args.foldl assign t idx = t idx := by
  induction args generalizing t with
  | nil => rfl
  | cons argv args ih =>
    obtain ⟨hs₁,hs⟩ := List.forall_mem_cons.mp hs
    obtain ⟨hne₁,hne⟩ := List.forall_mem_cons.mp hne
    have hsame := sameKeys_assign t argv
    rw [List.foldl_cons, ih (fun a ha h => hs a ha (hsame.shadows.mp h))
      (fun a ha => hsame idx ▸ hne a ha), assign_other hs₁ hne₁]

instance (k : CString) (var : ConfigVar) : Decidable (Extends k var) :=
  inferInstanceAs (Decidable (_ ∧ _))

instance (t : ConfigTable) (k : CString) : Decidable (Shadows t k) :=
  inferInstanceAs (Decidable (_ ∨ _))

theorem configDefaults_placed : (loadDefaults configDefaults).2.map ConfigVar.key =
    configDefaults.map ConfigVar.key := by decide +kernel

theorem configDefaults_not_shadowed :
    ∀ var ∈ configDefaults, ¬ Shadows (loadDefaults configDefaults).1 var.key := by
  decide +kernel

theorem sameKeys_assigns (t : ConfigTable) (args : List CString) :
    SameKeys t (args.foldl assign t) := by
  induction args generalizing t with
  | nil => exact fun _ => rfl
  | cons argv args ih =>
    intro idx
    exact (ih (assign t argv) idx).trans (sameKeys_assign t argv idx)

/-- Whatever the command line, the name of a default variable finds this variable. -/
theorem configInit_finds (argv : List CString) {var : ConfigVar} (h : var ∈ configDefaults) :
    ∃ idx, configVarFind (configInit argv) var.key = some idx ∧
      (configInit argv idx).key = var.key := by
  have hsame : SameKeys (loadDefaults configDefaults).1 (configInit argv) :=
    sameKeys_assigns _ (argv.drop 1)
  have hkey : var.key ∈ (loadDefaults configDefaults).2.map ConfigVar.key := by
    rw [configDefaults_placed]
    exact List.mem_map_of_mem h
  obtain ⟨w,hw,hwkey⟩ := List.mem_map.mp hkey
  have hheld : Holds slotsOf ConfigVar.key isFree (loadDefaults configDefaults).1 _ :=
    loadDefaults_holds (by decide)
  obtain ⟨i,hi,hiw⟩ := hheld.placed w hw
  rw [hwkey] at hi
  cases hfind : configVarFind (loadDefaults configDefaults).1 var.key with
  | none =>
    rw [configVarFind_eq] at hfind
    exact absurd (matchesKey_self _ (hiw ▸ hwkey)) (List.find?_eq_none.mp hfind i hi)
  | some idx =>
    refine ⟨idx,hsame.configVarFind.trans hfind,?_⟩
    rw [hsame idx]
    exact key_of_configVarFind (configDefaults_not_shadowed var h) hfind

theorem loadDefaults_var (h : var ∈ configDefaults)
    (hkey : ((loadDefaults configDefaults).1 idx).key = var.key) :
    (loadDefaults configDefaults).1 idx = var := by
  have hne : ∀ var ∈ configDefaults, var.key.chars ≠ [] := by decide
  have hkeys : (configDefaults.map ConfigVar.key).Nodup := by decide
  have hfree : isFree ((loadDefaults configDefaults).1 idx) = false := by
    apply Bool.eq_false_iff.mpr
    intro hfree
    exact hne var h (hkey ▸ isFree_iff.mp hfree)
  have hmem := (loadDefaults_holds hne).held idx hfree
  exact List.inj_on_of_nodup_map hkeys (loadDefaults_sublist.subset hmem) h hkey

/-- A variable keeps its default unless an argument names it or a key that is shadowed. -/
theorem configGet_default (argv : List CString) (h : var ∈ configDefaults)
    (hs : ∀ a ∈ argv.drop 1, ¬ Shadows (loadDefaults configDefaults).1 (parseArgv a).1)
    (hne : ∀ a ∈ argv.drop 1, (parseArgv a).1 ≠ var.key) :
    configGet (configInit argv) var.key = var.value := by
  obtain ⟨idx,hfind,hkey⟩ := configInit_finds argv h
  have hsame : SameKeys (loadDefaults configDefaults).1 (configInit argv) :=
    sameKeys_assigns _ (argv.drop 1)
  have hdefault : ((loadDefaults configDefaults).1 idx).key = var.key := (hsame idx).symm.trans hkey
  have hkept : configInit argv idx = (loadDefaults configDefaults).1 idx := by
    refine assigns_other hs ?_
    rw [hdefault]
    exact hne
  rw [configGet, hfind]
  show (configInit argv idx).value = var.value
  rw [hkept, loadDefaults_var h hdefault]

-- a part of the name of the password sets the password
example : configGet (configInit [.ofString "kaplar",.ofString "pgsq=x"])
    (.ofString "pgsql_password") = .ofString "x" := by decide +kernel

end Kaplar.Config
