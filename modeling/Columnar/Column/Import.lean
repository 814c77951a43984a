import Columnar.Column

namespace Columnar

inductive Foreign
  | int8 (rows : Array (Option Int8))
  | int16 (rows : Array (Option Int16))
  | int32 (rows : Array (Option Int32))
  | int64 (rows : Array (Option Int64))
  | uint8 (rows : Array (Option UInt8))
  | uint16 (rows : Array (Option UInt16))
  | uint32 (rows : Array (Option UInt32))
  | uint64 (rows : Array (Option UInt64))
  | float16 (rows : Array (Option UInt16))
  | float32 (rows : Array (Option Float32))
  | float64 (rows : Array (Option Float))
  | bool (rows : Array (Option Bool))
  | text (rows : Array (Option String))
  | dictionary (rows : Dictionary)
  | null (height : Nat)
  | other (kind : String)

namespace Foreign

def half : Binary.Format := ⟨11, 5⟩

def ofHalf (bits : UInt16) : Float32 := .ofBits (.ofNat (half.convert .single bits.toNat))

/-- A double is rounded twice, to single precision on the way. -/
def toHalf (x : Float) : UInt16 :=
  .ofNat (Binary.Format.single.convert half (Single.narrow x).toBits.toNat)

def fit (ofInt : Int → α) (toInt : α → Int) (rows : Array (Option Int)) : Array (Option α) :=
  rows.map (·.bind fun i => if toInt (ofInt i) = i then some (ofInt i) else none)

def ofInts? (type : String) (rows : Array (Option Int)) : Option Foreign :=
  match type with
  | "int8" => some (int8 (fit .ofInt (·.toInt) rows))
  | "int16" => some (int16 (fit .ofInt (·.toInt) rows))
  | "int32" => some (int32 (fit .ofInt (·.toInt) rows))
  | "int64" => some (int64 (fit .ofInt (·.toInt) rows))
  | "uint8" => some (uint8 (fit .ofInt (·.toNat) rows))
  | "uint16" => some (uint16 (fit .ofInt (·.toNat) rows))
  | "uint32" => some (uint32 (fit .ofInt (·.toNat) rows))
  | "uint64" => some (uint64 (fit .ofInt (·.toNat) rows))
  | _ => none

def encode (limit : Nat) (rows : Array (Option String)) : Except Error Foreign :=
  let d := Dictionary.encode rows
  if limit < d.labels.size then .error (.dictionaryLimit d.labels.size limit) else .ok (.dictionary d)

/-- Words past the largest signed one are lost. -/
def ofWord (w : UInt64) : Option Int64 :=
  if w < 0x8000000000000000 then some w.toInt64 else none

end Foreign

def Column.ofForeign (name : String) : Foreign → Except Error Column
  | .int8 rows => .ok ⟨name, .int64 (rows.map (·.map (·.toInt64)))⟩
  | .int16 rows => .ok ⟨name, .int64 (rows.map (·.map (·.toInt64)))⟩
  | .int32 rows => .ok ⟨name, .int32 rows⟩
  | .int64 rows => .ok ⟨name, .int64 rows⟩
  | .uint8 rows => .ok ⟨name, .int64 (rows.map (·.map (·.toUInt64.toInt64)))⟩
  | .uint16 rows => .ok ⟨name, .int64 (rows.map (·.map (·.toUInt64.toInt64)))⟩
  | .uint32 rows => .ok ⟨name, .int64 (rows.map (·.map (·.toUInt64.toInt64)))⟩
  | .uint64 rows => .ok ⟨name, .int64 (rows.map (·.bind Foreign.ofWord))⟩
  | .float16 rows => .ok ⟨name, .float32 (rows.map (·.map Foreign.ofHalf))⟩
  | .float32 rows => .ok ⟨name, .float32 rows⟩
  | .float64 rows => .ok ⟨name, .float64 rows⟩
  | .bool rows => .ok ⟨name, .bool rows⟩
  | .text rows => .ok ⟨name, .string rows⟩
  | .dictionary rows => .ok ⟨name, .categorical rows⟩
  | .null n => .ok ⟨name, .null n⟩
  | .other kind => .error (.unsupportedLayout kind name)

def Column.toForeign (c : Column) : Foreign :=
  match c.cells with
  | .float64 rows => .float64 rows
  | .float32 rows => .float32 rows
  | .int64 rows => .int64 rows
  | .int32 rows => .int32 rows
  | .bool rows => .bool rows
  | .string rows => .text rows
  | .categorical rows => .dictionary rows
  | .null n => .null n

end Columnar
