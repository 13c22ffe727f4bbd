import Kaplar.Output.OutputFrame

/-! # Answering a login

The database thread looks up the account and its characters and writes one message
for the client: a disconnect text or the list of characters. What the database
answers is given: `none` is the `NULL` of a failed query.
-/
namespace Kaplar.Protocol.Login
open Kaplar.Crypto Kaplar.Output

/-- A row of `db_load_account_info`. -/
structure AccountInfo where
  id : Int32
  premend : Int64
  password : List UInt8

structure Database where
  loadAccountInfo : List UInt8 → Option (List AccountInfo)
  /-- the names of the rows -/
  loadAccountCharlist : Int32 → Option (List (List UInt8))

/-- The configuration values a character list is built from. -/
structure Config where
  motd : List UInt8
  svName : List UInt8
  svGamePort : Int

inductive Resolution where
  | disconnect (message : String)
  | charlist (names : List (List UInt8))

/-- The exits of `database_resolve_login`. -/
def resolution (db : Database) (accname password : List UInt8) : Resolution :=
  if accname = [] then .disconnect "Invalid account name."
  else match db.loadAccountInfo accname with
    | none | some [] => .disconnect "Account name or password is not correct."
    | some (account :: _) =>
      if account.password ≠ password then
        .disconnect "Account name or password is not correct."
      else match db.loadAccountCharlist account.id with
        | none => .disconnect "Internal error. Contact an admin."
        | some names => .charlist names

/-- The bytes of a string literal. -/
def cString (s : String) : List UInt8 := s.toList.map (fun c => UInt8.ofNat c.toNat)

section Messages
variable {ρ : Type} [DecidableEq ρ]

def buildDisconnectMessage (buf : ρ) (message : String) (xtea : XteaKey) : MemM ρ ℕ := do
  let ptr := outbufPrepare
  let ptr ← outbufWriteByte buf ptr 0x0A
  let ptr ← outbufWriteStr buf ptr (cString message)
  outbufWrap buf ptr xtea

def charlistLoop (cfg : Config) (buf : ρ) : List (List UInt8) → ℕ → MemM ρ ℕ
  | [], ptr => pure ptr
  | name :: names, ptr => do
    let ptr ← outbufWriteStr buf ptr name
    let ptr ← outbufWriteStr buf ptr cfg.svName
    let ptr ← outbufWriteU32 buf ptr 16777343
    let ptr ← outbufWriteU16 buf ptr (UInt16.ofInt cfg.svGamePort)
    charlistLoop cfg buf names ptr

def buildCharlist (cfg : Config) (buf : ρ) (names : List (List UInt8)) (xtea : XteaKey) :
    MemM ρ ℕ := do
  let ptr := outbufPrepare
  let ptr ← outbufWriteByte buf ptr 0x14
  let ptr ← outbufWriteStr buf ptr cfg.motd
  let ptr ← outbufWriteByte buf ptr 0x64
  let ptr ← outbufWriteByte buf ptr (UInt8.ofNat names.length)
  let ptr ← charlistLoop cfg buf names ptr
  let ptr ← outbufWriteU16 buf ptr 1
  outbufWrap buf ptr xtea

/-- The message for a login, written into a fresh outbuf. -/
def databaseResolveLogin (cfg : Config) (db : Database) (accname password : List UInt8)
    (xtea : XteaKey) (buf : ρ) : MemM ρ ℕ :=
  match resolution db accname password with
  | .disconnect message => buildDisconnectMessage buf message xtea
  | .charlist names => buildCharlist cfg buf names xtea

end Messages

/-! ## The messages as lists of writes -/

def disconnectWrites (message : String) : List OutWrite := [.byte 0x0A,.str (cString message)]

def entryWrites (cfg : Config) (name : List UInt8) : List OutWrite :=
  [.str name,.str cfg.svName,.u32 16777343,.u16 (UInt16.ofInt cfg.svGamePort)]

def charlistWrites (cfg : Config) (names : List (List UInt8)) : List OutWrite :=
  [.byte 0x14,.str cfg.motd,.byte 0x64,.byte (UInt8.ofNat names.length)] ++
    (names.flatMap (entryWrites cfg) ++ [.u16 1])

def writes (cfg : Config) : Resolution → List OutWrite
  | .disconnect message => disconnectWrites message
  | .charlist names => charlistWrites cfg names

section Writes
variable {ρ : Type} [DecidableEq ρ] (cfg : Config) (buf : ρ)

theorem runAll_append (ptr : ℕ) (ws vs : List OutWrite) : OutWrite.runAll buf ptr (ws ++ vs) =
    OutWrite.runAll buf ptr ws >>= fun ptr => OutWrite.runAll buf ptr vs := by
  induction ws generalizing ptr with
  | nil => simp only [List.nil_append, OutWrite.runAll, pure_bind]
  | cons w ws ih =>
    simp only [List.cons_append, OutWrite.runAll, bind_assoc, ih]

theorem charlistLoop_eq (names : List (List UInt8)) (ptr : ℕ) :
    charlistLoop cfg buf names ptr =
      OutWrite.runAll buf ptr (names.flatMap (entryWrites cfg)) := by
  induction names generalizing ptr with
  | nil => rfl
  | cons name names ih =>
    simp only [charlistLoop, List.flatMap_cons, runAll_append, entryWrites, OutWrite.runAll,
      OutWrite.run, bind_assoc, pure_bind, ih]

theorem buildDisconnectMessage_eq (message : String) (xtea : XteaKey) :
    buildDisconnectMessage buf message xtea = (do
      let ptr ← OutWrite.runAll buf outbufPrepare (disconnectWrites message)
      outbufWrap buf ptr xtea) := by
  simp only [buildDisconnectMessage, disconnectWrites, OutWrite.runAll, OutWrite.run, bind_assoc,
    pure_bind]

theorem buildCharlist_eq (names : List (List UInt8)) (xtea : XteaKey) :
    buildCharlist cfg buf names xtea = (do
      let ptr ← OutWrite.runAll buf outbufPrepare (charlistWrites cfg names)
      outbufWrap buf ptr xtea) := by
  simp only [buildCharlist, charlistWrites, runAll_append, charlistLoop_eq, OutWrite.runAll,
    OutWrite.run, bind_assoc, pure_bind]

theorem databaseResolveLogin_eq (db : Database) (accname password : List UInt8)
    (xtea : XteaKey) : databaseResolveLogin cfg db accname password xtea buf = (do
      let ptr ← OutWrite.runAll buf outbufPrepare (writes cfg (resolution db accname password))
      outbufWrap buf ptr xtea) := by
  rw [databaseResolveLogin]
  cases resolution db accname password with
  | disconnect message => exact buildDisconnectMessage_eq buf message xtea
  | charlist names => exact buildCharlist_eq cfg buf names xtea

end Writes

end Kaplar.Protocol.Login
