import ContextLayer.PyJson

/-!
# Names in paths

An object is named by its system, schema and name joined with dots. A path keeps of a name its letters
in lower case, digits, `_` and `-`.
-/

namespace ContextLayer.Naming

open Text

/-- `_MANGLE.sub("-", c.lower())`. Of what is outside ASCII, two letters have a lower case with an ASCII
letter in it. -/
def mangleChar : CodePoint → PyStr
  | .pair _ _ _ _ => py "-"
  | .unit u =>
      if 0x41 ≤ u ∧ u ≤ 0x5A then [.unit (u + 0x20)]
      else if (0x61 ≤ u ∧ u ≤ 0x7A) ∨ (0x30 ≤ u ∧ u ≤ 0x39) ∨ u = 0x5F ∨ u = 0x2D then [.unit u]
      else if u = 0x212A then py "k"
      else if u = 0x0130 then py "i-"
      else py "-"

def mangle (name : PyStr) : PyStr := name.flatMap mangleChar

/-- `{system}.{schema}.{name}`. -/
def fqn (system schema name : PyStr) : PyStr := system ++ py "." ++ schema ++ py "." ++ name

example : mangle (py "Order Items_2") = py "order-items_2" := by decide

end ContextLayer.Naming
