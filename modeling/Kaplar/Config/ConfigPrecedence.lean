import Kaplar.Config.ConfigLookup
import Kaplar.Foundation.Overriding

/-! # Where the value of a variable comes from

A configuration file overrides the command line, which overrides the defaults. Of several
arguments for one variable the last one counts.
-/
namespace Kaplar.Config
open Overriding
variable {t t' : ConfigTable} {var : ConfigVar} {k : CString} {idx : ConfigIdx}
  {scripts : CString → Option Globals} {g : Globals}

/-- The table before the command line is read. -/
def defaultTable : ConfigTable := (loadDefaults configDefaults).1

/-- What a variable keeps of a value. -/
def stored (val : List UInt8) : CString :=
  ⟨(val.take (maxValueLength - 1)).takeWhile (· ≠ 0),by
    intro h
    have hne := List.mem_takeWhile_imp h
    simp at hne⟩

/-- The value of an argument, if it is for the variable with this key: its own key finds the
same slot. -/
def argumentFor (k argv : CString) : Option CString :=
  let (key,val) := parseArgv argv
  if key.chars ≠ [] ∧ configVarFind defaultTable key = configVarFind defaultTable k then
    some (stored (if val = [] then (CString.ofString "true").chars else val))
  else none

def fromArguments (argv : List CString) (k : CString) : Option CString :=
  lastWritten (argumentFor k) (argv.drop 1)

/-- The script that is run, which the command line may name. -/
def scriptOf (scripts : CString → Option Globals) (argv : List CString) : Option Globals :=
  let path := (fromArguments argv (.ofString "config")).getD (.ofString "config.lua")
  if path.chars = [] then none else scripts path

/-- The script comes before the arguments and they before the default. -/
def setting (scripts : CString → Option Globals) (argv : List CString) (var : ConfigVar) :
    CString :=
  let fromScript := (scriptOf scripts argv).bind (fun g => (g var.key).map stored)
  (fromScript.or (fromArguments argv var.key)).getD var.value

/-! ## What one step writes -/

theorem value_configVarSetValue (var : ConfigVar) (val : List UInt8) :
    (configVarSetValue var val).value = stored val := by
  have htake : val.take (if val.length ≥ maxValueLength then maxValueLength - 1 else val.length) =
      val.take (maxValueLength - 1) := by
    split
    case isTrue => rfl
    case isFalse h =>
      rw [List.take_of_length_le (Nat.le_refl _), List.take_of_length_le (by omega)]
  ext1
  simp only [configVarSetValue, stored, htake]

theorem sameKeys_update (t : ConfigTable) (idx : ConfigIdx) (val : List UInt8) :
    SameKeys t (Function.update t idx (configVarSetValue (t idx) val)) := by
  intro i
  by_cases h : i = idx
  · subst h
    rw [Function.update_self]
    rfl
  · rw [Function.update_of_ne h]

theorem sameKeys_loadVar (g : Globals) (t : ConfigTable) (var : ConfigVar) :
    SameKeys t (loadVar g t var) := by
  rw [loadVar]
  split
  · exact fun _ => rfl
  · split
    · exact fun _ => rfl
    · exact sameKeys_update t _ _

theorem SameKeys.step (h : SameKeys t t') {t₂ : ConfigTable} (h' : SameKeys t' t₂) :
    SameKeys t t₂ := fun idx => (h' idx).trans (h idx)

theorem assign_cell (h : configVarFind defaultTable k = some idx) :
    Cell (SameKeys defaultTable) (fun t => (t idx).value) assign (argumentFor k) where
  keeps t argv ht := ht.step (sameKeys_assign t argv)
  reads t argv ht := by
    obtain ⟨key,val,hparse⟩ : ∃ key val, parseArgv argv = (key,val) := ⟨_,_,rfl⟩
    simp only [assign, argumentFor, hparse, ht.configVarFind, h]
    by_cases hkey : key.chars = []
    · simp [CString.strlen,hkey]
    · cases hfind : configVarFind defaultTable key with
      | none => simp [CString.strlen,hkey]
      | some i =>
        by_cases hi : idx = i
        · subst hi
          simp [CString.strlen,hkey,value_configVarSetValue]
        · simp [CString.strlen,hkey,hi,Ne.symm hi]

/-- What the script has for a variable in this slot. -/
def globalFor (g : Globals) (k : CString) (var : ConfigVar) : Option CString :=
  if configVarFind defaultTable var.key = configVarFind defaultTable k then
    (g var.key).map stored
  else none

theorem loadVar_cell (h : configVarFind defaultTable k = some idx) :
    Cell (SameKeys defaultTable) (fun t => (t idx).value) (loadVar g) (globalFor g k) where
  keeps t var ht := ht.step (sameKeys_loadVar g t var)
  reads t var ht := by
    simp only [loadVar, globalFor, ht.configVarFind, h]
    cases hfind : configVarFind defaultTable var.key with
    | none => simp
    | some i =>
      cases hg : g var.key with
      | none => simp
      | some val =>
        by_cases hi : idx = i
        · subst hi
          simp [value_configVarSetValue]
        · simp [hi,Ne.symm hi]

/-! ## The whole start -/

theorem defaultTable_finds (h : var ∈ configDefaults) :
    ∃ idx, configVarFind defaultTable var.key = some idx ∧ defaultTable idx = var := by
  obtain ⟨idx,hfind,hkey⟩ := configInit_finds [] h
  rw [configInit, List.drop_nil, List.foldl_nil] at hfind hkey
  rw [defaultTable]
  exact ⟨idx,hfind,loadDefaults_var h hkey⟩

theorem key_eq_of_find {v : ConfigVar} (h : var ∈ configDefaults) (hv : v ∈ configDefaults)
    (hsame : configVarFind defaultTable v.key = configVarFind defaultTable var.key) :
    v.key = var.key := by
  obtain ⟨i,hi,rfl⟩ := defaultTable_finds h
  obtain ⟨j,hj,rfl⟩ := defaultTable_finds hv
  rw [hi, hj, Option.some.injEq] at hsame
  rw [hsame]

theorem lastWritten_globalFor (h : var ∈ configDefaults) :
    lastWritten (globalFor g var.key) configDefaults = (g var.key).map stored := by
  cases hg : g var.key with
  | none =>
    apply lastWritten_eq_none
    intro v hv
    rw [globalFor]
    split
    case isTrue hsame => rw [key_eq_of_find h hv hsame, hg, Option.map_none]
    case isFalse => rfl
  | some val =>
    refine lastWritten_eq_some h ?_ ?_
    · rw [globalFor, if_pos rfl, hg, Option.map_some]
    · intro v hv w hw
      rw [globalFor, Option.ite_none_right_eq_some] at hw
      obtain ⟨hsame,hw⟩ := hw
      rw [key_eq_of_find h hv hsame, hg] at hw
      exact (Option.some.inj hw).symm

theorem configGet_of_sameKeys (ht : SameKeys defaultTable t)
    (h : configVarFind defaultTable k = some idx) : configGet t k = (t idx).value := by
  rw [configGet, ht.configVarFind, h]

theorem configInit_sameKeys (argv : List CString) : SameKeys defaultTable (configInit argv) :=
  sameKeys_assigns _ (argv.drop 1)

theorem configGet_configInit (argv : List CString) (h : var ∈ configDefaults) :
    configGet (configInit argv) var.key = (fromArguments argv var.key).getD var.value := by
  obtain ⟨idx,hfind,hvar⟩ := defaultTable_finds h
  have hcell := (assign_cell hfind).foldl (fun _ => rfl) (argv.drop 1)
  rw [configGet_of_sameKeys (configInit_sameKeys argv) hfind]
  exact hcell.trans (by rw [hvar]; rfl)

theorem loadVars_sameKeys (ht : SameKeys defaultTable t) :
    SameKeys defaultTable (configDefaults.foldl (loadVar g) t) := by
  obtain ⟨idx,hfind,-⟩ := defaultTable_finds List.mem_cons_self
  exact (loadVar_cell hfind).invariant ht configDefaults

theorem configGet_loadVars (ht : SameKeys defaultTable t) (h : var ∈ configDefaults) :
    configGet (configDefaults.foldl (loadVar g) t) var.key =
      ((g var.key).map stored).getD (configGet t var.key) := by
  obtain ⟨idx,hfind,-⟩ := defaultTable_finds h
  have hcell := (loadVar_cell (g := g) hfind).foldl ht configDefaults
  rw [configGet_of_sameKeys (loadVars_sameKeys ht) hfind, configGet_of_sameKeys ht hfind, hcell,
    lastWritten_globalFor h]

/-- A default variable gets the value of the script, else the one of its last argument, else
its own; and every key finds the slot it found before. -/
theorem configLoad_settings (scripts : CString → Option Globals) (argv : List CString) :
    (∀ var ∈ configDefaults, configGet (configLoad scripts (configInit argv)).1 var.key =
      setting scripts argv var) ∧
    (∀ k, configVarFind (configLoad scripts (configInit argv)).1 k =
      configVarFind defaultTable k) ∧
    (configLoad scripts (configInit argv)).2 = (scriptOf scripts argv).isSome := by
  have hfirst : ⟨.ofString "config",.ofString "config.lua",by decide,by decide⟩ ∈ configDefaults :=
    List.mem_cons_self
  have hpath := configGet_configInit argv hfirst
  dsimp only at hpath
  have hinit := configInit_sameKeys argv
  -- without a script the arguments decide
  have hkept (var : ConfigVar) (h : var ∈ configDefaults) :=
    configGet_configInit argv h
  simp only [configLoad, configLoadFromPath, setting, scriptOf, hpath, CString.get_zero_iff]
  split
  case isTrue => exact ⟨hkept,fun k => hinit.configVarFind,rfl⟩
  case isFalse =>
    split
    case h_1 hnone =>
      rw [hnone]
      exact ⟨hkept,fun k => hinit.configVarFind,rfl⟩
    case h_2 g hsome =>
      rw [hsome]
      have hloaded := loadVars_sameKeys (g := g) hinit
      dsimp only
      refine ⟨fun var h => ?_,fun k => hloaded.configVarFind,rfl⟩
      rw [configGet_loadVars hinit h, hkept var h, Option.bind_some]
      cases g var.key with
      | none => simp only [Option.map_none, Option.getD_none, Option.none_or]
      | some val => simp only [Option.map_some, Option.getD_some, Option.some_or]

-- the arguments name a script, which has another name for the server
example : let argv := [.ofString "kaplar",.ofString "sv_name=a",.ofString "config=b",
      .ofString "motd"]
    let scripts path := if path = .ofString "b" then
      some (fun k => if k = .ofString "sv_name" then some (CString.ofString "c").chars else none)
      else none
    let t := (configLoad scripts (configInit argv)).1
    configGet t (.ofString "sv_name") = .ofString "c" ∧
      configGet t (.ofString "motd") = .ofString "true" := by decide +kernel

end Kaplar.Config
