import Kaplar.Config.Murmur2
import Kaplar.Foundation.CString
import Mathlib.Logic.Function.Basic

/-! # Configuration variables

The table is filled with the defaults and from then on only the values change. A variable
may be in the slot of its hash or in the next one.
-/
namespace Kaplar.Config

def maxKeyLength : ℕ := 128
def maxValueLength : ℕ := 128

structure ConfigVar where
  key : CString
  value : CString
  key_lt : key.strlen < maxKeyLength
  value_lt : value.strlen < maxValueLength

def maxCollisions : ℕ := 2
abbrev maxConfigVars : ℕ := 256

abbrev ConfigIdx := Fin maxConfigVars
abbrev ConfigTable := ConfigIdx → ConfigVar

/-- What `memset` leaves. -/
def zeroVar : ConfigVar := ⟨⟨[],by simp⟩,⟨[],by simp⟩,by decide,by decide⟩

def configVarIdx (key : CString) : ConfigIdx :=
  Fin.ofNat maxConfigVars (murmur2_32 key.chars 0xC2EDF02D).toNat

/-- `idx += 1; if(idx >= MAX_CONFIG_VARS) idx = 0` -/
def nextIdx (idx : ConfigIdx) : ConfigIdx :=
  Fin.ofNat maxConfigVars (if idx.val + 1 ≥ maxConfigVars then 0 else idx.val + 1)

def findLoop (t : ConfigTable) (key : CString) : ℕ → ConfigIdx → Option ConfigIdx
  | 0, _ => none
  | left + 1, idx =>
    if (t idx).key.strncmp key key.strlen = 0 then some idx
    else findLoop t key left (nextIdx idx)

/-- The key is given by its `keylen` characters. -/
def configVarFind (t : ConfigTable) (key : CString) : Option ConfigIdx :=
  findLoop t key maxCollisions (configVarIdx key)

def insertLoop (t : ConfigTable) : ℕ → ConfigIdx → Option ConfigIdx
  | 0, _ => none
  | left + 1, idx =>
    if (t idx).key.get 0 = 0 then some idx
    else insertLoop t left (nextIdx idx)

def configVarInsert (t : ConfigTable) (key : CString) : Option ConfigIdx :=
  insertLoop t maxCollisions (configVarIdx key)

/-- What a reader of the value finds: it ends at its first zero. -/
def configVarSetValue (var : ConfigVar) (val : List UInt8) : ConfigVar :=
  let vallen := if val.length ≥ maxValueLength then maxValueLength - 1 else val.length
  { var with
    value := ⟨(val.take vallen).takeWhile (· ≠ 0),by
      intro h
      have hne := List.mem_takeWhile_imp h
      simp at hne⟩
    value_lt := by
      have hle := ((val.take vallen).takeWhile_sublist (· ≠ 0)).length_le
      rw [List.length_take] at hle
      change ((val.take vallen).takeWhile (· ≠ 0)).length < maxValueLength
      have hvallen : vallen < maxValueLength := by
        unfold vallen maxValueLength
        split <;> omega
      omega }

/-- A default is inserted and copied; one for which there is no place is skipped. The second
component lists those that have found a place. -/
def loadDefault (s : ConfigTable × List ConfigVar) (var : ConfigVar) :
    ConfigTable × List ConfigVar :=
  match configVarInsert s.1 var.key with
  | none => s
  | some idx => (Function.update s.1 idx var,s.2 ++ [var])

def loadDefaults (vars : List ConfigVar) : ConfigTable × List ConfigVar :=
  vars.foldl loadDefault (fun _ => zeroVar,[])

/-- Key and value of an argument. -/
def parseArgv (argv : CString) : CString × List UInt8 :=
  (⟨argv.chars.takeWhile (· ≠ UInt8.ofNat '='.toNat),
    fun h => argv.nonzero ((argv.chars.takeWhile_sublist _).subset h)⟩,
    (argv.chars.dropWhile (· ≠ UInt8.ofNat '='.toNat)).drop 1)

def assign (t : ConfigTable) (argv : CString) : ConfigTable :=
  let (key,val) := parseArgv argv
  if key.strlen = 0 then t
  else match configVarFind t key with
    | none => t
    | some idx => Function.update t idx (configVarSetValue (t idx)
      (if val.length = 0 then (CString.ofString "true").chars else val))

def configDefaults : List ConfigVar := [
  ⟨.ofString "config",.ofString "config.lua",by decide,by decide⟩,
  ⟨.ofString "sv_name",.ofString "Kaplar",by decide,by decide⟩,
  ⟨.ofString "sv_addr",.ofString "127.0.0.1",by decide,by decide⟩,
  ⟨.ofString "sv_echo_port",.ofString "7777",by decide,by decide⟩,
  ⟨.ofString "sv_login_port",.ofString "7171",by decide,by decide⟩,
  ⟨.ofString "sv_info_port",.ofString "7171",by decide,by decide⟩,
  ⟨.ofString "sv_game_port",.ofString "7172",by decide,by decide⟩,
  ⟨.ofString "tick_interval",.ofString "50",by decide,by decide⟩,
  ⟨.ofString "pgsql_host",.ofString "localhost",by decide,by decide⟩,
  ⟨.ofString "pgsql_port",.ofString "5432",by decide,by decide⟩,
  ⟨.ofString "pgsql_dbname",.ofString "kaplar",by decide,by decide⟩,
  ⟨.ofString "pgsql_user",.ofString "admin",by decide,by decide⟩,
  ⟨.ofString "pgsql_password",.ofString "admin",by decide,by decide⟩,
  ⟨.ofString "pgsql_connect_timeout",.ofString "5",by decide,by decide⟩,
  ⟨.ofString "pgsql_client_encoding",.ofString "UTF8",by decide,by decide⟩,
  ⟨.ofString "pgsql_application_name",.ofString "kaplarc",by decide,by decide⟩,
  ⟨.ofString "motd",.ofString "1\nKaplar!",by decide,by decide⟩]

/-- The table after the command line, whose first argument is the program. -/
def configInit (argv : List CString) : ConfigTable :=
  (argv.drop 1).foldl assign (loadDefaults configDefaults).1

def configGet (t : ConfigTable) (key : CString) : CString :=
  match configVarFind t key with
  | none => .ofString ""
  | some idx => (t idx).value

/-! ## The configuration file -/

/-- The global variables of a script that are strings or numbers, as strings. -/
abbrev Globals := CString → Option (List UInt8)

def loadVar (g : Globals) (t : ConfigTable) (var : ConfigVar) : ConfigTable :=
  match configVarFind t var.key with
  | none => t
  | some idx =>
    match g var.key with
    | none => t
    | some val => Function.update t idx (configVarSetValue (t idx) val)

/-- The scripts are those which can be loaded and run to their end. -/
def configLoadFromPath (scripts : CString → Option Globals) (t : ConfigTable) (path : CString) :
    ConfigTable × Bool :=
  match scripts path with
  | none => (t,false)
  | some g => (configDefaults.foldl (loadVar g) t,true)

def configLoad (scripts : CString → Option Globals) (t : ConfigTable) : ConfigTable × Bool :=
  let config := configGet t (.ofString "config")
  if config.get 0 = 0 then (t,false) else configLoadFromPath scripts t config

end Kaplar.Config
