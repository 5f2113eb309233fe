import Hmux.Lib.Json.Value

namespace Hmux.Lib.Json

/-!
# The indented text of a JSON value

`to_vec_pretty`: every item and every field on a line of its own, two blanks for each level.

The text is the compact one with line feeds and blanks at places that are outside every string.
-/

section

variable (format : UInt64 → List UInt8)

/-- A new line and its indentation. -/
def newLine (level : ℕ) : List UInt8 := 10 :: List.replicate (2 * level) 32

mutual

/-- The text of a value at a level. -/
def pretty (level : ℕ) : Json → List UInt8
  | .null => bytes "null"
  | .bool b => bytes (if b then "true" else "false")
  | .int n => decimal n
  | .float bits => format bits
  | .str s => quote s
  | .arr [] => [91, 93]
  | .arr (j :: items) =>
    91 :: (newLine (level + 1) ++ pretty (level + 1) j ++ prettyMore (level + 1) items ++
      newLine level ++ [93])
  | .obj [] => [123, 125]
  | .obj ((key, j) :: fields) =>
    123 :: (newLine (level + 1) ++ quote key ++ [58, 32] ++ pretty (level + 1) j ++
      prettyMoreFields (level + 1) fields ++ newLine level ++ [125])

/-- The items after the first. -/
def prettyMore (level : ℕ) : List Json → List UInt8
  | [] => []
  | j :: items => 44 :: (newLine level ++ pretty level j ++ prettyMore level items)

/-- The fields after the first. -/
def prettyMoreFields (level : ℕ) : List (String × Json) → List UInt8
  | [] => []
  | (key, j) :: fields =>
    44 :: (newLine level ++ quote key ++ [58, 32] ++ pretty level j ++
      prettyMoreFields level fields)

end

end

end Hmux.Lib.Json
