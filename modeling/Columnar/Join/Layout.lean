namespace Columnar

inductive JoinKind
  | inner
  | left
  | right
  | outer
  | cross
  deriving DecidableEq, Repr

inductive JoinSide
  | left
  | right
  deriving DecidableEq, Repr

namespace JoinKind

def text : JoinKind → String
  | inner => "inner"
  | left => "left"
  | right => "right"
  | outer => "outer"
  | cross => "cross"

def all : List JoinKind := [inner, left, right, outer, cross]

def ofText? (s : String) : Option JoinKind := all.find? (·.text == s)

/-- Whether the rows of a side that a filter drops could only give rows that it would drop as well. -/
def preserves : JoinKind → JoinSide → Bool
  | inner, _ | cross, _ => true
  | left, side => side = .left
  | right, side => side = .right
  | outer, _ => false

def keepsLeft : JoinKind → Bool
  | left | outer => true
  | _ => false

def keepsRight : JoinKind → Bool
  | right | outer => true
  | _ => false

end JoinKind

structure JoinColumn where
  side : JoinSide
  source : String
  name : String
  fallback : Option String
  deriving DecidableEq, Repr

namespace JoinColumn

def standardSuffix : String := "_right"

def effectiveSuffix (suffix : String) : String :=
  if suffix.isEmpty then standardSuffix else suffix

def suffixed (name suffix : String) : Nat → String
  | 0 => name
  | n + 1 => suffixed name suffix n ++ suffix

/-- The name with the least number of suffixes that is not taken yet. -/
def freshName (taken : List String) (suffix name : String) : String :=
  ((List.range (taken.length + 1)).map (suffixed name suffix)).find? (!taken.contains ·)
    |>.getD name

def sharedKeys (leftOn rightOn : List String) : List String :=
  (leftOn.zip rightOn).filterMap fun (l, r) => if l = r then some l else none

def leftColumns (shared : List String) (kind : JoinKind) (left : List String) : List JoinColumn :=
  left.map fun c => ⟨.left, c, c, if kind.keepsRight && shared.contains c then some c else none⟩

def rightColumns (shared : List String) (suffix : String) (taken : List String) :
    List String → List JoinColumn
  | [] => []
  | c :: cs =>
    if shared.contains c then rightColumns shared suffix taken cs
    else
      let name := freshName taken suffix c
      ⟨.right, c, name, none⟩ :: rightColumns shared suffix (name :: taken) cs

def layout (left right leftOn rightOn : List String) (kind : JoinKind) (suffix : String) :
    List JoinColumn :=
  let shared := sharedKeys leftOn rightOn
  leftColumns shared kind left ++ rightColumns shared (effectiveSuffix suffix) left right

end JoinColumn

end Columnar
