import Std.Data.HashMap

namespace Columnar

structure Dictionary where
  labels : Array String
  codes : Array (Option (Fin labels.size))

namespace Dictionary

structure Lexicon where
  labels : Array String
  places : Std.HashMap String Nat

def Lexicon.empty : Lexicon := ⟨#[], {}⟩

def Lexicon.insert (d : Lexicon) (s : String) : Lexicon :=
  if d.places.contains s then d else ⟨d.labels.push s, d.places.insert s d.labels.size⟩

def Lexicon.ofTexts (rows : Array (Option String)) : Lexicon :=
  rows.foldl (fun d row => row.elim d d.insert) .empty

def Lexicon.code? (d : Lexicon) (s : String) : Option (Fin d.labels.size) :=
  d.places[s]?.bind fun n => if h : n < d.labels.size then some ⟨n, h⟩ else none

def encode (rows : Array (Option String)) : Dictionary :=
  let d := Lexicon.ofTexts rows
  ⟨d.labels, rows.map (·.bind d.code?)⟩

def label (d : Dictionary) (code : Fin d.labels.size) : String := d.labels[code]

def text? (d : Dictionary) (i : Nat) : Option String := (d.codes[i]?.join).map d.label

def texts (d : Dictionary) : Array (Option String) := d.codes.map (·.map d.label)

def ofCodes (labels : Array String) (codes : Array (Option Nat)) : Dictionary :=
  ⟨labels, codes.map (·.bind fun n => if h : n < labels.size then some ⟨n, h⟩ else none)⟩

def nulls (n : Nat) : Dictionary := ⟨#[], .replicate n none⟩

end Dictionary

end Columnar
