import ContextLayer.Visibility

/-!
# Agent profiles

The tools of a profile, as entries `tool` and `tool:qualifier`, and the gate a call of a tool goes through.
-/

namespace ContextLayer

open Text

structure AgentProfile where
  name : Text
  displayName : Text
  roles : List Text
  /-- `none` is an unqualified grant. -/
  allow : List (Text × Option (List Text))
  limits : Json

/-- One entry of the list. Of `split(":", 2)` the third piece and all behind it are gone. -/
def addGrant (allow : List (Text × Option (List Text))) (entry : Text) : List (Text × Option (List Text)) :=
  match entry.splitOn 0x3A with
  | [] => allow
  | tool :: rest =>
      if tool = [] then allow
      else
        match rest.head?.filter (· ≠ []), Dict.get? allow tool with
        | some _, some none => allow
        | some qualifier, some (some existing) => Dict.set allow tool (some (existing ++ [qualifier]))
        | some qualifier, none => Dict.set allow tool (some [qualifier])
        | none, some none => allow
        | none, _ => Dict.set allow tool none

/-- The items of `raw.tools?.allow` that are texts. -/
def grantEntries (raw : List (Text × Json)) : List Text :=
  match (member raw "tools").bind (·.field "allow") with
  | some (.arr entries) => entries.filterMap Json.asString
  | _ => []

def parseProfile (name : Text) (raw : List (Text × Json)) : AgentProfile where
  name := name
  displayName := ((member raw "name").bind Json.asString).getD name
  roles :=
    match member raw "roles" with
    | some (.arr roles) => roles.filterMap Json.asString
    | _ => []
  allow := (grantEntries raw).foldl addGrant []
  limits :=
    match member raw "limits" with
    | none | some .null => .obj []
    | some limits => limits

/-- The roles of the caller permit the profile. -/
def profilePermitted (profile : AgentProfile) (callerRoles : List Text) : Bool :=
  profile.roles.any fun role => decide (role ∈ callerRoles)

structure ToolGate where
  allowed : Bool
  reason : Option Text

/-- `qualifierArg` is what the call names its system or its target by, where the tool takes one. -/
def toolAllowed (profile : AgentProfile) (tool : Text) (qualifierArg : Option Text) : ToolGate :=
  match Dict.get? profile.allow tool with
  | none => ⟨false, some (js "tool " ++ tool ++ js " is not in the " ++ profile.name ++ js " profile allowlist")⟩
  | some none => ⟨true, none⟩
  | some (some qualifiers) =>
      let granted := (js ", ").intercalate qualifiers
      match qualifierArg with
      | none => ⟨false, some (js "tool " ++ tool ++ js " requires a system qualifier among " ++ granted)⟩
      | some qualifier =>
          if qualifier ∈ qualifiers then ⟨true, none⟩
          else ⟨false, some (js "tool " ++ tool ++ js " is granted only for " ++ granted ++ js ", not " ++ qualifier)⟩

/-- Of the tools, these two take a qualifier. -/
def qualifierArg (tool : Text) (args : List (Text × Json)) : Option Text :=
  if tool = js "execute_sql" then (member args "system").bind Json.asString
  else if tool = js "publish_report" then (member args "target").bind Json.asString
  else none

end ContextLayer
