import OrderedIndex.Text.GraphemeExtender

namespace OrderedIndex.Text

/-!
# Values as diagnostic text

Diagnostics show a string in double quotes, with an escape for every character
that would not show as itself, and a compound value by its parts.
-/

/-- A number in lower-case hexadecimal digits. -/
def hexadecimal (number : Nat) : String :=
  String.ofList (Nat.toDigits 16 number)

/-- Whether a character inside quotes stands for itself. -/
def showsItself (character : Char) : Bool :=
  if character.toNat < 0x80 then 0x20 ≤ character.toNat && character.toNat < 0x7F
  else !isUnprintable character && !isGraphemeExtender character

/-- A character as it is written inside quotes. -/
def quoteCharacter (character : Char) : String :=
  match character with
  | '\x00' => "\\0"
  | '\t' => "\\t"
  | '\n' => "\\n"
  | '\r' => "\\r"
  | '"' => "\\\""
  | '\\' => "\\\\"
  | _ =>
      if showsItself character then character.toString
      else "\\u\x7b" ++ hexadecimal character.toNat ++ "\x7d"

/-- A string in double quotes. -/
def quote (text : String) : String :=
  "\"" ++ String.join (text.toList.map quoteCharacter) ++ "\""

/-- Values that diagnostics can show. -/
class Described (Value : Type) where
  /-- The diagnostic text of a value. -/
  describe : Value → String

export Described (describe)

instance : Described Unit where
  describe _ := "()"

instance : Described UInt8 where
  describe number := toString number.toNat

instance : Described UInt64 where
  describe number := toString number.toNat

instance : Described Int64 where
  describe number := toString number.toInt

instance : Described String where
  describe := quote

instance {Value : Type} [Described Value] : Described (List Value) where
  describe values := "[" ++ ", ".intercalate (values.map describe) ++ "]"

instance {First Second : Type} [Described First] [Described Second] :
    Described (First × Second) where
  describe pair := "(" ++ describe pair.1 ++ ", " ++ describe pair.2 ++ ")"

/-- The parts of a map, each a key and a value, between braces. -/
def describeMap
    {Key Value : Type}
    [Described Key]
    [Described Value]
    (entries : List (Key × Value)) :
    String :=
  let parts := entries.map fun (key, value) => describe key ++ ": " ++ describe value
  "\x7b" ++ ", ".intercalate parts ++ "\x7d"

/-- A record by its name and its named fields. -/
def describeRecord (name : String) (fields : List (String × String)) : String :=
  let parts := fields.map fun (field, value) => field ++ ": " ++ value
  name ++ " \x7b " ++ ", ".intercalate parts ++ " \x7d"

end OrderedIndex.Text
