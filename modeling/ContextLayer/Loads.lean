import ContextLayer.YamlScalars

/-!
# JSON as Python reads it

`json.loads` reads strings by code points: two codes that make up a character are joined, and a control character that
is not escaped is refused. Of an object that names a key twice the last value counts.
-/

namespace ContextLayer.PyJson

open Text YamlScalars

/-! ### Strings -/

/-- A character of a string, as it stands there or from its code. -/
inductive StringChar where
  | raw (c : CodePoint)
  | code (u : UInt16)

/-- `BACKSLASH`. -/
def backslash : List (UInt16 × UInt16) :=
  [(0x22, 0x22), (0x5C, 0x5C), (0x2F, 0x2F), (0x62, 0x08), (0x66, 0x0C), (0x6E, 0x0A), (0x72, 0x0D), (0x74, 0x09)]

def unescape : CodePoint → Option CodePoint
  | .pair _ _ _ _ => none
  | .unit u => (Dict.get? backslash u).map .unit

/-- The characters up to the closing quote, and what is behind it. -/
def scanChars : PyStr → Option (List StringChar × PyStr)
  | [] => none
  | c :: rest =>
      if c = .unit 0x22 then some ([], rest)
      else if c = .unit 0x5C then
        match rest with
        | [] => none
        | e :: rest =>
            if e = .unit 0x75 then
              match rest with
              | h₁ :: h₂ :: h₃ :: h₄ :: rest =>
                  ([h₁, h₂, h₃, h₄].mapM hexValue?).bind fun digits =>
                    (scanChars rest).map fun r => (.code (UInt16.ofNat (Nat.ofDigits 16 digits.reverse)) :: r.1, r.2)
              | _ => none
            else (unescape e).bind fun u => (scanChars rest).map fun r => (.raw u :: r.1, r.2)
      else if c < .unit 0x20 then none
      else (scanChars rest).map fun r => (.raw c :: r.1, r.2)

def joinCodes : List StringChar → PyStr
  | [] => []
  | .raw c :: rest => c :: joinCodes rest
  | .code u :: rest =>
      match rest with
      | .code v :: rest' =>
          if h : isHighSurrogate u = true ∧ isLowSurrogate v = true then .pair u v (high_of_pair h) (low_of_pair h) :: joinCodes rest'
          else .unit u :: joinCodes (.code v :: rest')
      | rest => .unit u :: joinCodes rest

/-- `scanstring`, behind the opening quote. -/
def scanString (s : PyStr) : Option (PyStr × PyStr) := (scanChars s).map fun r => (joinCodes r.1, r.2)

/-! ### Values -/

/-- `WHITESPACE`. -/
def isJsonSpace (c : CodePoint) : Bool :=
  decide (c = .unit 0x20 ∨ c = .unit 0x09 ∨ c = .unit 0x0A ∨ c = .unit 0x0D)

def skipSpace (s : PyStr) : PyStr := s.dropWhile isJsonSpace

def constants : List (PyStr × PyJson) :=
  [(py "null", .null), (py "true", .bool true), (py "false", .bool false), (py "NaN", .nonFinite .nan),
    (py "Infinity", .nonFinite .infinity), (py "-Infinity", .nonFinite .negInfinity)]

mutual

/-- `scan_once`, at a number with `number`. -/
def scanOnce (number : PyStr → Option (PyJson × PyStr)) : Nat → PyStr → Option (PyJson × PyStr)
  | 0, _ => none
  | _, [] => none
  | fuel + 1, c :: rest =>
      if c = .unit 0x22 then (scanString rest).map fun r => (.str r.1, r.2)
      else if c = .unit 0x7B then
        if (skipSpace rest).head? = some (.unit 0x7D) then some (.obj [], (skipSpace rest).tail)
        else (scanMembers number fuel (skipSpace rest)).map fun r => (.obj (Dict.ofList r.1), r.2)
      else if c = .unit 0x5B then
        if (skipSpace rest).head? = some (.unit 0x5D) then some (.arr [], (skipSpace rest).tail)
        else (scanItems number fuel (skipSpace rest)).map fun r => (.arr r.1, r.2)
      else
        match constants.find? fun e => e.1.isPrefixOf (c :: rest) with
        | some e => some (e.2, (c :: rest).drop e.1.length)
        | none => number (c :: rest)

/-- The members of an object, from a key on. -/
def scanMembers (number : PyStr → Option (PyJson × PyStr)) : Nat → PyStr → Option (List (PyStr × PyJson) × PyStr)
  | 0, _ => none
  | _, [] => none
  | fuel + 1, c :: rest =>
      if c ≠ .unit 0x22 then none
      else
        (scanString rest).bind fun key =>
          if (skipSpace key.2).head? ≠ some (.unit 0x3A) then none
          else
            (scanOnce number fuel (skipSpace (skipSpace key.2).tail)).bind fun value =>
              if (skipSpace value.2).head? = some (.unit 0x7D) then some ([(key.1, value.1)], (skipSpace value.2).tail)
              else if (skipSpace value.2).head? = some (.unit 0x2C) then
                (scanMembers number fuel (skipSpace (skipSpace value.2).tail)).map fun r =>
                  ((key.1, value.1) :: r.1, r.2)
              else none

/-- The items of a list, from a first one on. -/
def scanItems (number : PyStr → Option (PyJson × PyStr)) : Nat → PyStr → Option (List PyJson × PyStr)
  | 0, _ => none
  | fuel + 1, s =>
      (scanOnce number fuel s).bind fun value =>
        if (skipSpace value.2).head? = some (.unit 0x5D) then some ([value.1], (skipSpace value.2).tail)
        else if (skipSpace value.2).head? = some (.unit 0x2C) then
          (scanItems number fuel (skipSpace (skipSpace value.2).tail)).map fun r => (value.1 :: r.1, r.2)
        else none

end

/-- `json.loads`; `none` is a `JSONDecodeError`. -/
def loads (number : PyStr → Option (PyJson × PyStr)) (s : PyStr) : Option PyJson :=
  (scanOnce number (s.length + 1) (skipSpace s)).bind fun r => if skipSpace r.2 = [] then some r.1 else none

mutual

/-- The numbers of a value are read as they are printed. -/
def NumbersRead (number : PyStr → Option (PyJson × PyStr)) : PyJson → Prop
  | .number n => ∀ c rest, c = .unit 0x2C ∨ c = .unit 0x0A →
      number (n.text.text.map .unit ++ c :: rest) = some (.number n, c :: rest)
  | .arr items => NumbersReadItems number items
  | .obj members => NumbersReadMembers number members
  | _ => True

def NumbersReadItems (number : PyStr → Option (PyJson × PyStr)) : List PyJson → Prop
  | [] => True
  | v :: rest => v.NumbersRead number ∧ NumbersReadItems number rest

def NumbersReadMembers (number : PyStr → Option (PyJson × PyStr)) : List (PyStr × PyJson) → Prop
  | [] => True
  | (_, v) :: rest => v.NumbersRead number ∧ NumbersReadMembers number rest

end

example : (loads (fun _ => none) (py "\x7b\"a\": [\"x\\u00e9\", null], \"a\": true \x7d")).map dumps =
    some (py "\x7b\"a\":true\x7d") := by decide +kernel

end ContextLayer.PyJson
