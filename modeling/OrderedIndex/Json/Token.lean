import OrderedIndex.Bytes.Basic

namespace OrderedIndex.Json

/-!
# Tokens of a JSON text

A JSON text is scanned byte by byte into tokens.  Number and string tokens keep
their spelling, because a reader of typed values needs to tell `8` from `8.0`
and leaves strings that nobody asked for unchecked beyond their escapes.
-/

/-- One token of a JSON text. -/
inductive Token where
  | openArray
  | closeArray
  | openObject
  | closeObject
  | colon
  | comma
  | null
  | bool (value : Bool)
  /-- A number, with its spelling. -/
  | number (literal : Bytes)
  /-- A string, with its spelling between the quotes. -/
  | string (body : Bytes)
  deriving Repr, DecidableEq

/-- The bytes of an ASCII word. -/
def ascii (word : String) : Bytes :=
  word.toList.map fun character => UInt8.ofNat character.toNat

/-- Whether a byte is a decimal digit. -/
def isDigit (byte : UInt8) : Bool := 0x30 ≤ byte && byte ≤ 0x39

/-- The value of a hexadecimal digit of either case. -/
def hexDigit? (byte : UInt8) : Option Nat :=
  if isDigit byte then some (byte.toNat - 0x30)
  else if 0x61 ≤ byte && byte ≤ 0x66 then some (byte.toNat - 0x61 + 10)
  else if 0x41 ≤ byte && byte ≤ 0x46 then some (byte.toNat - 0x41 + 10)
  else none

/-- Whether a byte may stand between tokens. -/
def isBlank (byte : UInt8) : Bool :=
  byte == 0x20 || byte == 0x0A || byte == 0x0D || byte == 0x09

/-- Whether a byte is a lower-case letter, as the bare words are spelled. -/
def isWordByte (byte : UInt8) : Bool := 0x61 ≤ byte && byte ≤ 0x7A

/-- Whether a byte can occur in a number. -/
def isNumberByte (byte : UInt8) : Bool :=
  isDigit byte || byte == 0x2B || byte == 0x2D || byte == 0x2E || byte == 0x45 ||
    byte == 0x65

namespace Number

/-- Drop a leading sign. -/
def dropSign : Bytes → Bytes
  | byte :: rest => if byte == 0x2B || byte == 0x2D then rest else byte :: rest
  | [] => []

/-- Whether the bytes are one or more digits. -/
def isDigits (bytes : Bytes) : Bool := !bytes.isEmpty && bytes.all isDigit

/-- Whether the bytes are an exponent part or nothing. -/
def isExponent : Bytes → Bool
  | [] => true
  | byte :: rest => (byte == 0x45 || byte == 0x65) && isDigits (dropSign rest)

/-- Whether the bytes are a fraction part, an exponent part, both or nothing. -/
def isTail : Bytes → Bool
  | [] => true
  | byte :: rest =>
      if byte == 0x2E then
        !(rest.takeWhile isDigit).isEmpty && isExponent (rest.dropWhile isDigit)
      else isExponent (byte :: rest)

/-- Whether the bytes spell a number: no leading zeros, no bare point or sign. -/
def isLiteral (bytes : Bytes) : Bool :=
  let unsigned := match bytes with
    | byte :: rest => if byte == 0x2D then rest else byte :: rest
    | [] => []
  let digits := unsigned.takeWhile isDigit
  !digits.isEmpty && (digits.length == 1 || digits.head? != some 0x30) &&
    isTail (unsigned.dropWhile isDigit)

end Number

/-- Where the scanner is inside the text. -/
inductive ScanState where
  /-- Between tokens. -/
  | between
  /-- Inside a bare word. -/
  | word (spelled : Bytes)
  /-- Inside a number. -/
  | number (spelled : Bytes)
  /-- Inside a string. -/
  | string (spelled : Bytes)
  /-- After a backslash inside a string. -/
  | escape (spelled : Bytes)
  /-- Before the given number of hexadecimal digits of an escape. -/
  | codeUnit (missing : Nat) (spelled : Bytes)

/-- The token that a bare word spells; its bytes come last first. -/
def wordToken? (spelled : Bytes) : Option Token :=
  let word := spelled.reverse
  if word = ascii "null" then some .null
  else if word = ascii "true" then some (.bool true)
  else if word = ascii "false" then some (.bool false)
  else none

/-- The token of a finished number; its bytes come last first. -/
def numberToken? (spelled : Bytes) : Option Token :=
  if Number.isLiteral spelled.reverse then some (.number spelled.reverse) else none

/-- The token that a single byte of punctuation makes. -/
def punctuation? (byte : UInt8) : Option Token :=
  if byte == 0x5B then some .openArray
  else if byte == 0x5D then some .closeArray
  else if byte == 0x7B then some .openObject
  else if byte == 0x7D then some .closeObject
  else if byte == 0x3A then some .colon
  else if byte == 0x2C then some .comma
  else none

/-- Read a byte between tokens: the state it leads to and the token it ends. -/
def begin? (byte : UInt8) : Option (ScanState × List Token) :=
  if isBlank byte then some (.between, [])
  else if byte == 0x22 then some (.string [], [])
  else if isDigit byte || byte == 0x2D then some (.number [byte], [])
  else if isWordByte byte then some (.word [byte], [])
  else (punctuation? byte).map fun token => (.between, [token])

/-- Whether a byte after a backslash makes a complete escape. -/
def isSimpleEscape (byte : UInt8) : Bool :=
  (ascii "\"\\/bfnrt").contains byte

/-- Read one byte: the next state and the tokens that ended. -/
def step? (state : ScanState) (byte : UInt8) : Option (ScanState × List Token) :=
  match state with
  | .between => begin? byte
  | .word spelled =>
      if isWordByte byte then some (.word (byte :: spelled), [])
      else do
        let token ← wordToken? spelled
        let (next, tokens) ← begin? byte
        return (next, token :: tokens)
  | .number spelled =>
      if isNumberByte byte then some (.number (byte :: spelled), [])
      else do
        let token ← numberToken? spelled
        let (next, tokens) ← begin? byte
        return (next, token :: tokens)
  | .string spelled =>
      if byte == 0x22 then some (.between, [.string spelled.reverse])
      else if byte == 0x5C then some (.escape (byte :: spelled), [])
      else if byte < 0x20 then none
      else some (.string (byte :: spelled), [])
  | .escape spelled =>
      if byte == 0x75 then some (.codeUnit 4 (byte :: spelled), [])
      else if isSimpleEscape byte then some (.string (byte :: spelled), [])
      else none
  | .codeUnit missing spelled => do
      let _ ← hexDigit? byte
      if missing ≤ 1 then return (.string (byte :: spelled), [])
      else return (.codeUnit (missing - 1) (byte :: spelled), [])

/-- The tokens that end with the text. -/
def finish? : ScanState → Option (List Token)
  | .between => some []
  | .word spelled => (wordToken? spelled).map ([·])
  | .number spelled => (numberToken? spelled).map ([·])
  | _ => none

/-- Scan the rest of a text from a state; tokens are collected last first. -/
def scanFrom? (state : ScanState) (tokens : List Token) : Bytes → Option (List Token)
  | [] => (finish? state).map fun ended => (ended.reverse ++ tokens).reverse
  | byte :: rest =>
      match step? state byte with
      | some (next, ended) => scanFrom? next (ended.reverse ++ tokens) rest
      | none => none

/-- The tokens of a JSON text, unless some byte cannot belong to any. -/
def tokens? (text : Bytes) : Option (List Token) :=
  scanFrom? .between [] text

end OrderedIndex.Json
