import Columnar.Number.Decimal

namespace Columnar

inductive Json
  | null
  | bool (b : Bool)
  | int (i : Int)
  | decimal (x : Float)
  | text (s : String)
  /-- A string with half of a surrogate pair in it, which is no text, or an object with such a name. -/
  | unpaired
  | array (items : List Json)
  | object (fields : List (String × Json))
  deriving Inhabited

namespace Json

def hexDigits (n : Nat) : List Char :=
  let ds := Nat.toDigits 16 n
  List.replicate (4 - ds.length) '0' ++ ds

def escape (c : Char) : List Char :=
  if c = '"' then ['\\', '"']
  else if c = '\\' then ['\\', '\\']
  else if c = '\n' then ['\\', 'n']
  else if c = '\t' then ['\\', 't']
  else if c = '\r' then ['\\', 'r']
  else if c.toNat < 0x20 then '\\' :: 'u' :: hexDigits c.toNat
  else [c]

def renderText (s : String) : String :=
  if s.all fun c => c ≠ '"' && c ≠ '\\' && 0x20 ≤ c.toNat then "\"" ++ s ++ "\""
  else .ofList ('"' :: s.toList.flatMap escape ++ ['"'])

def renderDecimal (x : Float) : String :=
  if Double.isFinite x then Decimal.Layout.canonical.write x else "null"

mutual

def renderAfter (out : String) : Json → String
  | null => out ++ "null"
  | bool b => out ++ (if b then "true" else "false")
  | int i => out ++ toString i
  | decimal x => out ++ renderDecimal x
  | text s => out ++ renderText s
  | unpaired => out ++ "null"
  | array items => (renderItems (out ++ "[") true items).push ']'
  | object fields => (renderFields (out ++ "\x7b") true fields).push '\x7d'

def renderItems (out : String) (first : Bool) : List Json → String
  | [] => out
  | v :: vs => renderItems (v.renderAfter (if first then out else out.push ',')) false vs

def renderFields (out : String) (first : Bool) : List (String × Json) → String
  | [] => out
  | (k, v) :: fs =>
    let out := if first then out else out.push ','
    renderFields (v.renderAfter (out ++ renderText k ++ ":")) false fs

end

def render (v : Json) : String := v.renderAfter ""

/-- Of several fields of one name the last counts. -/
def last? (name : String) (fields : List (String × α)) : Option α :=
  fields.foldl (fun found (k, v) => if k = name then some v else found) none

def field? (name : String) : Json → Option Json
  | object fields => last? name fields
  | _ => none

end Json

end Columnar
