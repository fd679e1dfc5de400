import ContextLayer.Platform

/-!
# The knowledge base state and visibility

`KbState` is what one call sees: the latest accepted snapshot of every system and the documents the
generator wrote for their objects. An object is visible when the path of its machine document
matches one of the caller's globs, so visibility can change while the snapshot stays.
-/

namespace ContextLayer

open Text

/-! ### Globs -/

/-- What a glob compiles to: a literal unit, possibly optional, or a run of units in a class. -/
inductive GlobItem where
  | literal (u : UInt16) (optional : Bool)
  | run (anything : Bool)
  deriving DecidableEq

/-- The units `.` does not match. -/
def isLineTerminator (u : UInt16) : Bool := u == 0x0A || u == 0x0D || u == 0x2028 || u == 0x2029

/-- The class of a run: `.` for `**` (and for a NUL, its placeholder), and
`[^/]` for `*`. -/
def GlobItem.admits (anything : Bool) (u : UInt16) : Bool :=
  if anything then !isLineTerminator u else u != 0x2F

/-- `globMatch`'s rewriting of the pattern, item by item. `?` is the one metacharacter it leaves
unescaped, so it makes the item before it optional, or lazy, and `RegExp` rejects one that has
nothing to repeat. -/
def compileGlob : Text → Option (List GlobItem)
  | [] => some []
  | 0x3F :: _ => none
  | 0x2A :: 0x2A :: 0x3F :: rest => (compileGlob rest).map (.run true :: ·)
  | 0x2A :: 0x2A :: rest => (compileGlob rest).map (.run true :: ·)
  | 0x2A :: 0x3F :: rest => (compileGlob rest).map (.run false :: ·)
  | 0x2A :: rest => (compileGlob rest).map (.run false :: ·)
  | 0x00 :: 0x3F :: rest => (compileGlob rest).map (.run true :: ·)
  | 0x00 :: rest => (compileGlob rest).map (.run true :: ·)
  | u :: 0x3F :: 0x3F :: rest => (compileGlob rest).map (.literal u true :: ·)
  | u :: 0x3F :: rest => (compileGlob rest).map (.literal u true :: ·)
  | u :: rest => (compileGlob rest).map (.literal u false :: ·)

theorem compileGlob_everything : compileGlob (js "**") = some [.run true] := by decide

/-- What may be left of `s` after a run of units in a class. -/
def runSuffixes (anything : Bool) : Text → List Text
  | [] => [[]]
  | u :: rest =>
      (u :: rest) :: if GlobItem.admits anything u then runSuffixes anything rest else []

/-- `new RegExp("^" + escaped + "$").test(target)`. -/
def matchItems : List GlobItem → Text → Bool
  | [], s => s.isEmpty
  | .literal u optional :: items, s =>
      (optional && matchItems items s) ||
        match s with
        | [] => false
        | v :: rest => v == u && matchItems items rest
  | .run anything :: items, s => (runSuffixes anything s).any (matchItems items)

/-- A visibility glob. One that `RegExp` rejects makes every call that tries it throw, so a scope
carries the proof that its pattern compiles. -/
structure Scope where
  pattern : Text
  items : List GlobItem
  compiled : compileGlob pattern = some items

def globMatch (scope : Scope) (target : Text) : Bool := matchItems scope.items target

def pathVisible (scopes : List Scope) (relPath : Text) : Bool :=
  scopes.any fun scope => globMatch scope relPath

/-! ### The state of one call -/

/-- An object of an accepted snapshot. -/
structure SnapshotObject where
  system : Text
  schema : Text
  name : Text
  kind : Text
  columns : List Text
  deriving DecidableEq

def SnapshotObject.fqn (obj : SnapshotObject) : Text :=
  obj.system ++ js "." ++ obj.schema ++ js "." ++ obj.name

/-- What the gateway reads of a system's latest accepted snapshot. The objects are the values of a
`Map` keyed by FQN. -/
structure SystemState where
  systemClass : Text
  canonicalBodySha256 : Text
  objects : List SnapshotObject
  keyedByFqn : (objects.map (·.fqn)).Nodup

/-- The system's guardrail block in `conventions.md`. -/
abbrev Conventions := List (Text × Json)

structure KbState where
  /-- The path of the machine document of every object FQN. -/
  machineByFqn : List (Text × Text)
  systems : List (Text × SystemState)
  guardrails : List (Text × Conventions)

/-- `ws.guardrails[system] ?? {}`. -/
def KbState.conventions (ws : KbState) (system : Text) : Conventions :=
  (Dict.get? ws.guardrails system).getD []

/-- `replace(/^sha256:/, "")`. -/
def stripSha256 (s : Text) : Text :=
  if js "sha256:" <+: s then s.drop 7 else s

/-- The ref a token pins: ``sha256:${state.canonicalBodySha256.replace(/^sha256:/, "")}``. -/
def SystemState.snapshotRef (state : SystemState) : Text :=
  js "sha256:" ++ stripSha256 state.canonicalBodySha256

/-- Doc path for an object FQN. -/
def fqnPath (ws : KbState) (fqn : Text) : Option Text := Dict.get? ws.machineByFqn fqn

/-- Object-level visibility. An FQN without a document falls back to its conventional directory. -/
def fqnVisible (ws : KbState) (scopes : List Scope) (fqn : Text) : Bool :=
  match (fqnPath ws fqn).filter (· ≠ []) with
  | some docPath => pathVisible scopes docPath
  | none =>
    match fqn.splitOn 0x2E with
    | system :: schema :: _ :: _ =>
        pathVisible scopes (js "systems/" ++ system ++ js "/" ++ schema ++ js "/_") ||
          pathVisible scopes (js "systems/" ++ system ++ js "/_")
    | _ => pathVisible scopes (js "systems/" ++ fqn)

/-- An agent profile, as far as the gateway reads it. -/
structure Profile where
  name : Text
  timeoutS : Option Json
  rowCap : Option Json

end ContextLayer
