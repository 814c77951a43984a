import Columnar.Column.Order
import Columnar.Host

namespace Columnar

structure Grouping where
  ids : Array Nat
  firstRows : Array Nat
  counts : Array Nat

namespace Grouping

def size (g : Grouping) : Nat := g.counts.size

/-- The groups found so far, each by its first row. A hash leads to the first group that has it, and each group to the
next one of its hash. -/
structure Assignment where
  ids : Array Nat
  firstRows : Array Nat
  heads : Std.HashMap UInt64 Nat
  links : Array (Option Nat)

namespace Assignment

def empty : Assignment := ⟨#[], #[], {}, #[]⟩

/-- Where the search for the key of a row ends: at the group that has it or at the last group of its hash, or nowhere if
it is led astray. -/
inductive Stop
  | found (g : Nat)
  | last (g : Nat)
  | astray

/-- Looks for the group that has the key of a row, from a group on along the links, which lead upwards. -/
def walk (same : Nat → Nat → Bool) (a : Assignment) (row g : Nat) : Stop :=
  match a.firstRows[g]? with
  | none => .astray
  | some first =>
    if same first row then .found g
    else
      match a.links[g]? with
      | none => .astray
      | some none => .last g
      | some (some next) =>
        if _up : g < next ∧ next < a.links.size then a.walk same row next else .astray
termination_by a.links.size - g

def next (same : Nat → Nat → Bool) (a : Assignment) (h : UInt64) : Assignment :=
  let row := a.ids.size
  let new := a.firstRows.size
  match a.heads[h]? with
  | none => ⟨a.ids.push new, a.firstRows.push row, a.heads.insert h new, a.links.push none⟩
  | some g =>
    match a.walk same row g with
    | .found g => { a with ids := a.ids.push g }
    | .last g =>
      ⟨a.ids.push new, a.firstRows.push row, a.heads, (a.links.setIfInBounds g (some new)).push none⟩
    | .astray => a

end Assignment

def assign (hashes : Array UInt64) (same : Nat → Nat → Bool) : Assignment :=
  hashes.foldl (Assignment.next same) .empty

def accumulate (f : β → α → β) (values : Array α) (ids : Array Nat) (slots : Array β) : Array β :=
  (values.zip ids).foldl (fun slots (v, g) => slots.modify g (f · v)) slots

def counted (ids firstRows : Array Nat) : Grouping where
  ids := ids
  firstRows := firstRows
  counts := accumulate (fun n _ => n + 1) ids ids (.replicate firstRows.size 0)

def ofAssignment (a : Assignment) : Grouping := counted a.ids a.firstRows

def sameKeys (keys : List Column) (i j : Nat) : Bool := keys.all fun k => k.groupEq i k j

def keyHashes (host : Host) (keys : List Column) (height : Nat) : Array UInt64 :=
  let hashes := Hasher.rows host.hasher.code
  if 1 < keys.length && host.pool.pays .groupHash height then
    Hasher.keys (host.pool.tasks keys.length fun i => (keys[i]?.map hashes).getD #[]) height
  else Hasher.keys (keys.map hashes) height

def ofKeys (host : Host) (keys : List Column) : Grouping :=
  let height := Column.heightOf keys
  ofAssignment (assign (keyHashes host keys height) (sameKeys keys))

def lastRows (g : Grouping) : Array Nat :=
  accumulate (fun _ row => row) (.range g.ids.size) g.ids (.replicate g.size 0)

end Grouping

end Columnar
