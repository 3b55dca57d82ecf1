import ExprCheck.Json.Value

/-!
Writing JSON: on one line without blanks, or with a line for each item and two
more blanks for each level.
-/

namespace ExprCheck.Json

inductive Style where
  | compact
  | pretty
deriving DecidableEq, Repr

namespace Style

/-- What stands before an item `depth` levels deep. -/
def lineBreak : Style → Nat → String
  | compact, _ => ""
  | pretty, depth => "\n" ++ String.ofList (List.replicate (2 * depth) ' ')

/-- What stands between a key and its value. -/
def colon : Style → String
  | compact => ":"
  | pretty => ": "

end Style

/-- The lower-case digit of a number below sixteen. -/
def hexDigit (n : Nat) : Char :=
  Nat.digitChar n

/-- A character inside quotes. Only quote, backslash and the control characters
are escaped. -/
def escape (c : Char) : String :=
  if c = '"' then "\\\""
  else if c = '\\' then "\\\\"
  else if c = '\n' then "\\n"
  else if c = '\r' then "\\r"
  else if c = '\t' then "\\t"
  else if c = '\x08' then "\\b"
  else if c = '\x0c' then "\\f"
  else if c.toNat < 0x20 then
    String.ofList ['\\', 'u', '0', '0', hexDigit (c.toNat / 16), hexDigit (c.toNat % 16)]
  else String.singleton c

def quoteOnto (out s : String) : String :=
  s.toList.foldl (fun out c => out ++ escape c) (out ++ "\"") ++ "\""

mutual

/-- Appends a value, `depth` levels deep, to `out`. -/
def writeOnto (style : Style) (depth : Nat) (out : String) : Value → String
  | .null => out ++ "null"
  | .bool true => out ++ "true"
  | .bool false => out ++ "false"
  | .number n => out ++ n.spelling
  | .string s => quoteOnto out s
  | .array [] => out ++ "[]"
  | .array (v :: vs) =>
    let first := writeOnto style (depth + 1) (out ++ "[" ++ style.lineBreak (depth + 1)) v
    writeItems style (depth + 1) first vs ++ style.lineBreak depth ++ "]"
  | .object [] => out ++ "\x7b\x7d"
  | .object ((k, v) :: fields) =>
    let key := quoteOnto (out ++ "\x7b" ++ style.lineBreak (depth + 1)) k
    let first := writeOnto style (depth + 1) (key ++ style.colon) v
    writeFields style (depth + 1) first fields ++ style.lineBreak depth ++ "\x7d"
  | .garbled => out ++ "\"\\ud800\""

/-- Appends further items, each after a comma. -/
def writeItems (style : Style) (depth : Nat) (out : String) : List Value → String
  | [] => out
  | v :: vs =>
    writeItems style depth (writeOnto style depth (out ++ "," ++ style.lineBreak depth) v) vs

/-- Appends further fields, each after a comma. -/
def writeFields (style : Style) (depth : Nat) (out : String) : List (String × Value) → String
  | [] => out
  | (k, v) :: fields =>
    let key := quoteOnto (out ++ "," ++ style.lineBreak depth) k
    writeFields style depth (writeOnto style depth (key ++ style.colon) v) fields

end

def Value.write (style : Style) (v : Value) : String :=
  writeOnto style 0 "" v

def Value.compact (v : Value) : String :=
  v.write .compact

def Value.pretty (v : Value) : String :=
  v.write .pretty

end ExprCheck.Json
