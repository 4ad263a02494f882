import Mathlib.Data.List.Basic
import Mathlib.Data.List.Infix

/-!
# JSON values and their text

`serde_json::Value` and the text `serde_json` writes for it. The digits of a double come from the
float printer `serde_json` links; they are the parameter `formatDouble` of `Runtime`.
-/

namespace LensoFlags

/-- An `f64`, by its bits. -/
structure F64 where
  bits : UInt64
  deriving DecidableEq, Repr

/-- `f64::is_finite`: the exponent field is not all ones. -/
def F64.isFinite (x : F64) : Bool := (x.bits >>> 52) &&& 0x7FF != 0x7FF

inductive Number
  | posInt (n : UInt64)
  | negInt (n : Int64)
  | float (x : F64)
  deriving DecidableEq

/-- `serde_json::Value`. The fields of an object stand in the order they are written. -/
inductive Json
  | null
  | bool (b : Bool)
  | number (n : Number)
  | string (s : String)
  | array (elements : List Json)
  | object (fields : List (String × Json))

/-- What the crate takes from outside its sources: SHA-256, the digits of a double and the
RFC 3339 text of an instant in nanoseconds. -/
structure Runtime where
  sha256 : List UInt8 → List UInt8
  formatDouble : F64 → String
  formatTimestamp : Int → String

/-- The runtime at the Unix epoch, over inputs of one digest. -/
def Runtime.atEpoch (digest : List UInt8) : Runtime :=
  { sha256 := fun _ => digest
    formatDouble := fun _ => "0.0"
    formatTimestamp := fun _ => "1970-01-01T00:00:00Z" }

def hexDigit (n : ℕ) : Char := (Nat.digitChar n)

/-- `serde_json`'s escapes of one character of a string. -/
def escapeChar (c : Char) : String :=
  if c = '"' then "\\\""
  else if c = '\\' then "\\\\"
  else if c = '\n' then "\\n"
  else if c = '\r' then "\\r"
  else if c = '\t' then "\\t"
  else if c.toNat = 8 then "\\b"
  else if c.toNat = 12 then "\\f"
  else if c.toNat < 32 then
    "\\u00" ++ String.ofList [hexDigit (c.toNat / 16), hexDigit (c.toNat % 16)]
  else String.ofList [c]

def renderString (s : String) : String :=
  "\"" ++ String.join (s.toList.map escapeChar) ++ "\""

def renderNumber (rt : Runtime) : Number → String
  | .posInt n => toString n.toNat
  | .negInt n => toString n.toInt
  | .float x => if x.isFinite then rt.formatDouble x else "null"

mutual

/-- `serde_json::Value::to_string`. -/
def Json.render (rt : Runtime) : Json → String
  | .null => "null"
  | .bool true => "true"
  | .bool false => "false"
  | .number n => renderNumber rt n
  | .string s => renderString s
  | .array elements => "[" ++ ",".intercalate (Json.renderElements rt elements) ++ "]"
  | .object fields => "\x7b" ++ ",".intercalate (Json.renderFields rt fields) ++ "\x7d"

def Json.renderElements (rt : Runtime) : List Json → List String
  | [] => []
  | v :: vs => Json.render rt v :: Json.renderElements rt vs

def Json.renderFields (rt : Runtime) : List (String × Json) → List String
  | [] => []
  | (k, v) :: fs => (renderString k ++ ":" ++ Json.render rt v) :: Json.renderFields rt fs

end

end LensoFlags
