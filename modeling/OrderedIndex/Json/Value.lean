import OrderedIndex.Json.Token

namespace OrderedIndex.Json

/-!
# JSON values

A value keeps the spelling of its numbers and strings.  Parsing runs over the
tokens with an explicit stack of the containers that are still open, so that
nesting costs no call depth.
-/

/-- A JSON value. -/
inductive Value where
  | null
  | bool (value : Bool)
  /-- A number, with its spelling. -/
  | number (literal : Bytes)
  /-- A string, with its spelling between the quotes. -/
  | string (body : Bytes)
  | array (items : List Value)
  /-- The members in the order of the text, repeated names included. -/
  | object (members : List (Bytes × Value))

/-- An open container.  What it holds so far comes last first. -/
inductive Frame where
  | array (items : List Value)
  /-- An object whose next member has not begun. -/
  | object (members : List (Bytes × Value))
  /-- An object whose member of the given name has no value yet. -/
  | member (members : List (Bytes × Value)) (name : Bytes)

/-- What the parser expects next. -/
inductive Phase where
  /-- A value. -/
  | value
  /-- A value, or the end of an array that is still empty. -/
  | firstItem
  /-- A member's name, or the end of an object that is still empty. -/
  | firstName
  /-- A member's name. -/
  | name
  /-- The colon between a member's name and its value. -/
  | colon
  /-- A comma or the end of the innermost container. -/
  | separator
  /-- Nothing but the end of the text. -/
  | done (value : Value)

/-- The parser's state between two tokens. -/
structure ParseState where
  frames : List Frame
  phase : Phase

namespace ParseState

/-- Hand a finished value to the innermost open container. -/
def complete? (frames : List Frame) (value : Value) : Option ParseState :=
  match frames with
  | [] => some ⟨[], .done value⟩
  | .array items :: outer => some ⟨.array (value :: items) :: outer, .separator⟩
  | .member members name :: outer =>
      some ⟨.object ((name, value) :: members) :: outer, .separator⟩
  | .object _ :: _ => none

/-- Begin a value with a token. -/
def begin? (frames : List Frame) : Token → Option ParseState
  | .openArray => some ⟨.array [] :: frames, .firstItem⟩
  | .openObject => some ⟨.object [] :: frames, .firstName⟩
  | .null => complete? frames .null
  | .bool value => complete? frames (.bool value)
  | .number literal => complete? frames (.number literal)
  | .string body => complete? frames (.string body)
  | _ => none

/-- Begin a member with its name. -/
def beginMember? (frames : List Frame) : Token → Option ParseState
  | .string name =>
      match frames with
      | .object members :: outer => some ⟨.member members name :: outer, .colon⟩
      | _ => none
  | _ => none

/-- Close the innermost container with a token. -/
def close? (frames : List Frame) (token : Token) : Option ParseState :=
  match token, frames with
  | .closeArray, .array items :: outer => complete? outer (.array items.reverse)
  | .closeObject, .object members :: outer =>
      complete? outer (.object members.reverse)
  | _, _ => none

/-- Consume one token. -/
def step? (state : ParseState) (token : Token) : Option ParseState :=
  match state.phase with
  | .value => begin? state.frames token
  | .firstItem =>
      if token = .closeArray then close? state.frames token
      else begin? state.frames token
  | .firstName =>
      if token = .closeObject then close? state.frames token
      else beginMember? state.frames token
  | .name => beginMember? state.frames token
  | .colon => if token = .colon then some ⟨state.frames, .value⟩ else none
  | .separator =>
      if token = .comma then
        match state.frames with
        | .array _ :: _ => some ⟨state.frames, .value⟩
        | .object _ :: _ => some ⟨state.frames, .name⟩
        | _ => none
      else close? state.frames token
  | .done _ => none

end ParseState

/-- Parse the rest of the tokens from a state. -/
def Value.parseFrom? (state : ParseState) : List Token → Option Value
  | [] =>
      match state.phase with
      | .done value => some value
      | _ => none
  | token :: rest =>
      match state.step? token with
      | some next => parseFrom? next rest
      | none => none

/-- The value that a text spells, with blanks around it at most. -/
def Value.parse? (text : Bytes) : Option Value := do
  Value.parseFrom? ⟨[], .value⟩ (← tokens? text)

end OrderedIndex.Json
