import ContextLayer.Platform
import ContextLayer.Lib.Dict
import ContextLayer.Lib.Machine

/-!
# Migrations

`migrate` of any number of replicas on one database. A replica takes the advisory lock, reads which files were applied,
and applies the others in a transaction each; every query is a step of its own, fails, or loses its connection, and with
the connection go the lock and the open transaction.
-/

namespace ContextLayer.Migrate

open Text

structure Migration where
  version : Text
  sql : Text
  deriving DecidableEq

/-- `readdir(dir)`: the files of a release, under distinct names. -/
structure Directory where
  files : List Migration
  distinct : (files.map Migration.version).Nodup

def Directory.migrations (dir : Directory) : List Migration :=
  (dir.files.filter fun f => decide (js ".sql" <:+ f.version)).insertionSort fun a b => a.version ≤ b.version

/-- A row of `schema_migrations`: the version and its checksum. -/
abbrev Applied := Text × Text

section

variable (P : Platform)

def record (f : Migration) : Applied := (f.version, P.sha256Hex f.sql)

/-- What a replica waits for. -/
inductive Stage where
  /-- `pg_advisory_lock`. -/
  | locking
  /-- `CREATE TABLE IF NOT EXISTS schema_migrations`. -/
  | creating
  /-- `SELECT version, checksum FROM schema_migrations`. -/
  | reading
  /-- The head of the loop: the file is read, compared, and `BEGIN` sent. -/
  | next (seen : List Applied) (rest : List Migration) (applied : List Applied)
  /-- The file's own statements. -/
  | begun (seen : List Applied) (file : Migration) (rest : List Migration) (applied : List Applied)
  /-- `INSERT INTO schema_migrations`. -/
  | executed (seen : List Applied) (file : Migration) (rest : List Migration) (applied : List Applied)
  /-- `COMMIT`. -/
  | recorded (seen : List Applied) (file : Migration) (rest : List Migration) (applied : List Applied)
  /-- `ROLLBACK`. -/
  | aborted
  /-- `pg_advisory_unlock`, with what `migrate` comes to; `none` is an exception. -/
  | unlocking (result : Option (List Applied))
  | done (result : Option (List Applied))
  deriving DecidableEq

structure Replica where
  files : List Migration
  stage : Stage
  deriving DecidableEq

structure State where
  replicas : List Replica
  /-- The session that holds the lock. -/
  lock : Option Nat
  /-- `none` before the table is there. -/
  table : Option (List Applied)
  /-- History: what was executed and committed, in order. -/
  executed : List Migration
  deriving DecidableEq

def State.rows (s : State) : List Applied := s.table.getD []

inductive Reply where
  | ok
  | error
  /-- The connection is gone; of a `COMMIT`, `committed` says which side of it. -/
  | lost (committed : Bool)

inductive Event where
  | start (dir : Directory)
  | reply (i : Nat) (r : Reply)

def State.goto (s : State) (i : Nat) (files : List Migration) (stage : Stage) : State :=
  { s with replicas := s.replicas.set i ⟨files, stage⟩ }

/-- The server ends the session. -/
def State.lose (s : State) (i : Nat) (files : List Migration) : State :=
  { s.goto i files (.done none) with lock := if s.lock = some i then none else s.lock }

def State.commit (s : State) (file : Migration) : State :=
  { s with table := some (s.rows ++ [record P file]), executed := s.executed ++ [file] }

/-- `none` is a reply that the database cannot give. -/
def State.advance (s : State) (i : Nat) (files : List Migration) : Stage → Reply → Option State
  | .done _, _ => none
  | .recorded _ file _ _, .lost true => some ((s.commit P file).lose i files)
  | _, .lost _ => some (s.lose i files)
  | .locking, .ok => if s.lock = none then some { s.goto i files .creating with lock := some i } else none
  | .locking, .error => some (s.goto i files (.unlocking none))
  | .creating, .ok => some { s.goto i files .reading with table := some s.rows }
  | .creating, .error => some (s.goto i files (.unlocking none))
  | .reading, .ok =>
      match s.table with
      | some rows => some (s.goto i files (.next rows files []))
      | none => none
  | .reading, .error => some (s.goto i files (.unlocking none))
  | .next _ [] applied, .ok => some (s.goto i files (.unlocking (some applied)))
  | .next _ [] _, .error => none
  | .next seen (file :: rest) applied, .ok =>
      match Dict.get? seen file.version with
      | none => some (s.goto i files (.begun seen file rest applied))
      | some checksum =>
          if checksum = P.sha256Hex file.sql then some (s.goto i files (.next seen rest applied))
          else some (s.goto i files (.unlocking none))
  | .next _ (_ :: _) _, .error => some (s.goto i files (.unlocking none))
  | .begun seen file rest applied, .ok => some (s.goto i files (.executed seen file rest applied))
  | .begun _ _ _ _, .error => some (s.goto i files .aborted)
  | .executed seen file rest applied, .ok =>
      if file.version ∈ s.rows.map Prod.fst then none
      else some (s.goto i files (.recorded seen file rest applied))
  | .executed _ _ _ _, .error => some (s.goto i files .aborted)
  | .recorded seen file rest applied, .ok =>
      some ((s.commit P file).goto i files (.next seen rest (applied ++ [record P file])))
  | .recorded _ _ _ _, .error => some (s.goto i files .aborted)
  | .aborted, _ => some (s.goto i files (.unlocking none))
  | .unlocking result, .ok =>
      some { s.goto i files (.done result) with lock := if s.lock = some i then none else s.lock }
  | .unlocking result, .error => some (s.goto i files (.done result))

def step? (s : State) : Event → Option State
  | .start dir => some { s with replicas := s.replicas ++ [⟨dir.migrations, .locking⟩] }
  | .reply i r => s.replicas[i]?.bind fun replica => s.advance P i replica.files replica.stage r

def initial : State := ⟨[], none, none, []⟩

def machine : Machine State Event := .ofStep initial (step? P)

instance decidableMay : DecidableRel (machine P).May :=
  inferInstanceAs (DecidableRel (Machine.ofStep initial (step? P)).May)

end

end ContextLayer.Migrate
