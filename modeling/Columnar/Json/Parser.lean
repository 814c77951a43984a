import Columnar.Json.Token

namespace Columnar.Json

inductive Open
  | array (items : List Json)
  | object (fields : List (String × Json)) (key : String)
  | unpaired

inductive Awaiting
  | value
  | item
  | key
  | member
  | colon
  | separator
  | nothing (v : Json)

structure Reader where
  stack : List Open
  awaiting : Awaiting

namespace Reader

def start : Reader := ⟨[], .value⟩

def put (v : Json) : List Open → Reader
  | [] => ⟨[], .nothing v⟩
  | .array items :: rest => ⟨.array (v :: items) :: rest, .separator⟩
  | .object fields key :: rest => ⟨.object ((key, v) :: fields) key :: rest, .separator⟩
  | .unpaired :: rest => ⟨.unpaired :: rest, .separator⟩

def openValue (t : Token) (stack : List Open) : Option Reader :=
  match t with
  | .openArray => some ⟨.array [] :: stack, .item⟩
  | .openObject => some ⟨.object [] "" :: stack, .member⟩
  | .scalar v => some (put v stack)
  | _ => none

def setKey (t : Token) (stack : List Open) : Option Reader :=
  match t, stack with
  | .scalar (.text key), .object fields _ :: rest => some ⟨.object fields key :: rest, .colon⟩
  | .scalar (.text _), .unpaired :: rest => some ⟨.unpaired :: rest, .colon⟩
  | .scalar .unpaired, _ :: rest => some ⟨.unpaired :: rest, .colon⟩
  | _, _ => none

def step (r : Reader) (t : Token) : Option Reader :=
  match r.awaiting, t, r.stack with
  | .item, .closeArray, .array _ :: rest => some (put (.array []) rest)
  | .member, .closeObject, .object _ _ :: rest => some (put (.object []) rest)
  | .value, t, stack => openValue t stack
  | .item, t, stack => openValue t stack
  | .key, t, stack => setKey t stack
  | .member, t, stack => setKey t stack
  | .colon, .colon, stack => some ⟨stack, .value⟩
  | .separator, .comma, stack@(.array _ :: _) => some ⟨stack, .value⟩
  | .separator, .comma, stack@(_ :: _) => some ⟨stack, .key⟩
  | .separator, .closeArray, .array items :: rest => some (put (.array items.reverse) rest)
  | .separator, .closeObject, .object fields _ :: rest => some (put (.object fields.reverse) rest)
  | .separator, .closeObject, .unpaired :: rest => some (put .unpaired rest)
  | _, _, _ => none

end Reader

def ofTokens? (ts : Array Token) : Option Json := do
  let r ← ts.foldlM Reader.step .start
  match r.awaiting with
  | .nothing v => some v
  | _ => none

def parse? (s : String) : Option Json := (Token.scan s.toList #[]).bind ofTokens?

end Columnar.Json
