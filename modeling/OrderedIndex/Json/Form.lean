import OrderedIndex.Bytes.Utf8
import OrderedIndex.Json.Value
import OrderedIndex.Text.Quoted

namespace OrderedIndex.Json

/-!
# Typed values in JSON

A type with a `Form` is written as compact JSON and read strictly: integers are
integer literals in range, strings have well-formed escapes and are UTF-8, and
a record is an object whose unknown members are skipped and whose known members
occur at most once, or an array of its fields in order.
-/

/-- The ways in which writing a value as JSON fails. -/
inductive WriteError where
  /-- An object member's name has to be a string. -/
  | keyNotString
  deriving Repr, DecidableEq

/-- The phrase that reports a failure to write. -/
def WriteError.message : WriteError → String
  | .keyNotString => "key must be a string"

/-- Types whose values have a JSON form. -/
class Form (Element : Type) where
  /-- The compact text of a value. -/
  write : Element → Except WriteError String
  /-- The value of a parsed text, if it has the type. -/
  read? : Value → Option Element

/-! ## Strings -/

/-- A character as it is written inside a JSON string. -/
def escapeCharacter (character : Char) : String :=
  match character with
  | '"' => "\\\""
  | '\\' => "\\\\"
  | '\x08' => "\\b"
  | '\t' => "\\t"
  | '\n' => "\\n"
  | '\x0c' => "\\f"
  | '\r' => "\\r"
  | _ =>
      if character.toNat < 0x10 then "\\u000" ++ Text.hexadecimal character.toNat
      else if character.toNat < 0x20 then "\\u00" ++ Text.hexadecimal character.toNat
      else character.toString

/-- The JSON text of a string. -/
def writeString (text : String) : String :=
  "\"" ++ String.join (text.toList.map escapeCharacter) ++ "\""

/-- The number that four hexadecimal digits spell. -/
def codeUnit? (first second third fourth : UInt8) : Option Nat := do
  let high := 16 * (← hexDigit? first) + (← hexDigit? second)
  let low := 16 * (← hexDigit? third) + (← hexDigit? fourth)
  return 256 * high + low

/-- The byte that a one-letter escape stands for. -/
def escapedByte? (letter : UInt8) : Option UInt8 :=
  if letter == 0x62 then some 0x08
  else if letter == 0x66 then some 0x0C
  else if letter == 0x6E then some 0x0A
  else if letter == 0x72 then some 0x0D
  else if letter == 0x74 then some 0x09
  else if letter == 0x22 || letter == 0x5C || letter == 0x2F then some letter
  else none

/-- The UTF-8 bytes of a code point that is no surrogate. -/
def codePointBytes (codePoint : Nat) : Bytes :=
  Utf8.encode (Char.ofNat codePoint).toString

/--
The bytes that a string's spelling stands for.  A surrogate escape has to be
the first half of a pair of them.
-/
def unescape? : Bytes → Option Bytes
  | [] => some []
  | 0x5C :: 0x75 :: first :: second :: third :: fourth :: rest => do
      let unit ← codeUnit? first second third fourth
      if unit < 0xD800 || 0xE000 ≤ unit then
        return codePointBytes unit ++ (← unescape? rest)
      else if 0xDC00 ≤ unit then none
      else
        match rest with
        | 0x5C :: 0x75 :: fifth :: sixth :: seventh :: eighth :: after => do
            let low ← codeUnit? fifth sixth seventh eighth
            if low < 0xDC00 || 0xE000 ≤ low then none
            else
              let codePoint := 0x10000 + (unit - 0xD800) * 0x400 + (low - 0xDC00)
              return codePointBytes codePoint ++ (← unescape? after)
        | _ => none
  | 0x5C :: letter :: rest => do
      return (← escapedByte? letter) :: (← unescape? rest)
  | byte :: rest => do
      return byte :: (← unescape? rest)

/-- The string that a spelling stands for. -/
def readString? (body : Bytes) : Option String := do
  (Utf8.decode (← unescape? body)).toOption

/-! ## Integers -/

/--
The integer that a literal spells without a fraction or an exponent.  Minus
zero is no integer.
-/
def readInteger? (literal : Bytes) : Option Int :=
  let value (digits : Bytes) : Nat :=
    digits.foldl (fun number digit => 10 * number + (digit.toNat - 0x30)) 0
  match literal with
  | [] => none
  | sign :: rest =>
      if sign == 0x2D then
        if Number.isDigits rest && value rest != 0 then some (-(value rest : Int)) else none
      else if Number.isDigits literal then some (value literal)
      else none

/-- The natural number below a bound that a value holds. -/
def readBelow? (bound : Nat) : Value → Option Nat
  | .number literal => do
      let integer ← readInteger? literal
      if 0 ≤ integer && integer < bound then some integer.toNat else none
  | _ => none

/-! ## Records -/

/-- The names of an object's members that a record knows, decoded. -/
def readMembers? (members : List (Bytes × Value)) : Option (List (String × Value)) :=
  members.mapM fun (name, value) => do return (← readString? name, value)

/-- Whether each of the field names occurs at most once. -/
def areDistinct (fields : List String) (members : List (String × Value)) : Bool :=
  fields.all fun field => (members.filter fun member => member.1 == field).length ≤ 1

/--
The values of a record's fields in order, `none` for each that is missing.  An
array may leave out fields at its end only.
-/
def readRecord? (fields : List String) : Value → Option (List (Option Value))
  | .object members => do
      let named ← readMembers? members
      if areDistinct fields named then
        return fields.map fun field => named.lookup field
      else none
  | .array items =>
      if items.length ≤ fields.length then
        some (items.map some ++ List.replicate (fields.length - items.length) none)
      else none
  | _ => none

/-- Write a record as an object of its fields in order. -/
def writeRecord (fields : List (String × String)) : String :=
  let members := fields.map fun (name, value) => writeString name ++ ":" ++ value
  "\x7b" ++ ",".intercalate members ++ "\x7d"

/-! ## The forms of the basic types -/

instance : Form Unit where
  write _ := .ok "null"
  read?
    | .null => some ()
    | _ => none

instance : Form Bool where
  write value := .ok (if value then "true" else "false")
  read?
    | .bool value => some value
    | _ => none

instance : Form UInt8 where
  write number := .ok (toString number.toNat)
  read? value := (readBelow? UInt8.size value).map UInt8.ofNat

instance : Form UInt64 where
  write number := .ok (toString number.toNat)
  read? value := (readBelow? UInt64.size value).map UInt64.ofNat

instance : Form Int64 where
  write number := .ok (toString number.toInt)
  read?
    | .number literal => do
        let integer ← readInteger? literal
        if Int64.minValue.toInt ≤ integer && integer ≤ Int64.maxValue.toInt then
          some (Int64.ofInt integer)
        else none
    | _ => none

instance : Form String where
  write text := .ok (writeString text)
  read?
    | .string body => readString? body
    | _ => none

instance {Element : Type} [Form Element] : Form (Option Element) where
  write
    | none => .ok "null"
    | some element => Form.write element
  read?
    | .null => some none
    | value => (Form.read? value).map some

instance {Element : Type} [Form Element] : Form (List Element) where
  write elements := do
    return "[" ++ ",".intercalate (← elements.mapM Form.write) ++ "]"
  read?
    | .array items => items.mapM Form.read?
    | _ => none

instance {First Second : Type} [Form First] [Form Second] : Form (First × Second) where
  write pair := do
    return "[" ++ (← Form.write pair.1) ++ "," ++ (← Form.write pair.2) ++ "]"
  read?
    | .array [first, second] => do return (← Form.read? first, ← Form.read? second)
    | _ => none

end OrderedIndex.Json
