import Columnar.DType
import Columnar.Text.Quoted

namespace Columnar

inductive Error
  | malformedConfig
  | zeroMorsel
  | emptySuffix
  | rowLimit (rows limit : Nat)
  | duplicateColumn (name : String)
  | unevenColumn (name : String) (rows expected : Nat)
  | missingColumn (name : String)
  | columnHeight (name : String) (rows height : Nat)
  | stackMismatch (upper lower : List String)
  | maskHeight (mask height : Nat)
  | maskLength (mask : Nat) (column : String) (rows : Nat)
  | lengthMismatch (left : String) (leftRows : Nat) (right : String) (rightRows : Nat)
  | unsupportedLayout (layout column : String)
  | notNumeric (column : String) (dtype : DType)
  | noReduction (reduction column : String) (dtype : DType)
  | nonNumericOperands (left right : DType)
  | incomparable (left right : DType)
  | nothingToStack
  | notBoolean (expr : String) (dtype : DType)
  | noAggregate (aggregation column : String) (dtype : DType)
  | missingKey (name : String)
  | unjoinable (left : String) (leftType : DType) (right : String) (rightType : DType)
  | sortDirections (keys directions : Nat)
  | strayAggregation (expr : String)
  | emptyCoalesce
  | computedKey (expr : String)
  | plainAggregation (expr : String)
  | missingAggregand (name : String)
  | noGroupKeys
  | noPivotIndex
  | crossKeys
  | noJoinKeys (kind : String)
  | joinKeyCount (left right : Nat)
  | refused (reason : String)
  | applyHeight (function column : String) (rows expected : Nat)
  | failed (reason : String)
  | unreadable (reason : String)
  | structField (name : String)
  | listElement (index : Int64)
  | sortMergeKind (kind : String)
  | dictionaryLimit (labels limit : Nat)
  /-- A sum is no word of its type, which ends the program. -/
  | overflow
  deriving DecidableEq

namespace Error

inductive Kind
  | config
  | schema
  | planning
  | execution
  | io
  | encoding
  | unsupported
  | panic
  deriving DecidableEq, Repr

def Kind.label : Kind → String
  | config => "invalid configuration"
  | schema => "schema error"
  | planning => "planning error"
  | execution => "execution error"
  | io => "io error"
  | encoding => "encoding error"
  | unsupported => "unsupported"
  | panic => "panic"

def kind : Error → Kind
  | malformedConfig | zeroMorsel | emptySuffix => .config
  | sortDirections .. | strayAggregation _ | emptyCoalesce | computedKey _ | plainAggregation _
  | missingAggregand _ | noGroupKeys | noPivotIndex | crossKeys | noJoinKeys _ | joinKeyCount ..
  | refused _ => .planning
  | applyHeight .. | failed _ => .execution
  | unreadable _ => .io
  | dictionaryLimit .. => .encoding
  | structField _ | listElement _ | sortMergeKind _ => .unsupported
  | overflow => .panic
  | _ => .schema

def detail : Error → String
  | malformedConfig => "engine config"
  | zeroMorsel => "parallel.morsel_size must be >= 1"
  | emptySuffix => "join_suffix must not be empty"
  | rowLimit rows limit => s!"frame of {rows} rows exceeds the {limit} row limit"
  | duplicateColumn name => s!"duplicate column name '{name}'"
  | unevenColumn name rows expected => s!"column '{name}' has {rows} rows, expected {expected}"
  | missingColumn name => s!"column '{name}' not found"
  | columnHeight name rows height => s!"column '{name}' has {rows} rows, frame has {height}"
  | stackMismatch upper lower =>
    "vstack column mismatch: " ++ Text.quotedList upper ++ " vs " ++ Text.quotedList lower
  | maskHeight mask height => s!"filter mask has {mask} rows, frame has {height}"
  | maskLength mask column rows =>
    s!"filter mask length {mask} does not match column '{column}' length {rows}"
  | lengthMismatch left m right n => s!"length mismatch between '{left}' ({m}) and '{right}' ({n})"
  | unsupportedLayout layout column => s!"unsupported arrow type {layout} for column '{column}'"
  | notNumeric column dtype => s!"column '{column}' of type {dtype.text} is not numeric"
  | noReduction reduction column dtype =>
    s!"{reduction} not supported for column '{column}' of type {dtype.text}"
  | nonNumericOperands left right =>
    s!"arithmetic requires numeric operands, got {left.text} and {right.text}"
  | incomparable left right => s!"cannot compare {left.text} with {right.text}"
  | nothingToStack => "cannot concat zero series"
  | notBoolean expr dtype => s!"expected a boolean expression, {expr} has type {dtype.text}"
  | noAggregate aggregation column dtype =>
    s!"cannot compute {aggregation} of column '{column}' with type {dtype.text}"
  | missingKey name => s!"group_by key column '{name}' not found"
  | unjoinable left l right r => s!"cannot join '{left}' ({l.text}) with '{right}' ({r.text})"
  | sortDirections keys directions => s!"sort got {keys} keys but {directions} directions"
  | strayAggregation expr => s!"aggregation {expr} is only valid inside group_by"
  | emptyCoalesce => "coalesce needs at least one input"
  | computedKey expr => s!"group_by key must be a column reference, got {expr}"
  | plainAggregation expr => s!"group_by expects aggregation expressions, got {expr}"
  | missingAggregand name => s!"aggregation on nonexistent column '{name}'"
  | noGroupKeys => "group_by requires at least one key column"
  | noPivotIndex => "pivot requires at least one index column"
  | crossKeys => "cross join does not take join keys"
  | noJoinKeys kind => s!"{kind} join requires at least one key"
  | joinKeyCount left right =>
    s!"join key count mismatch: left_on has {left}, right_on has {right}"
  | refused reason => reason
  | applyHeight function column rows expected =>
    s!"apply '{function}' on column '{column}' returned {rows} rows, expected {expected}"
  | failed reason => reason
  | unreadable reason => reason
  | structField name => s!"struct field access '{name}': frames have no struct columns"
  | listElement index =>
    s!"list element access [{index.toInt}]: frames have no list columns"
  | sortMergeKind kind => s!"sort-merge join only implements inner joins, got {kind}"
  | dictionaryLimit labels limit => s!"dictionary of {labels} texts exceeds the {limit} code limit"
  | overflow => "attempt to add with overflow"

def message (e : Error) : String := e.kind.label ++ ": " ++ e.detail

end Error

end Columnar
