import ListQuery.Value.Basic
import ListQuery.Text.Search

/-!
# Attributes

A record is asked for its entries by name, and any other value for its attributes.  Some of these
are data, such as the year of a date; the others are operations.  A name that stands for neither
finds null.

* `Kind.name`, `Kind.operations`   what a kind is called, and what its values can do;
* `Value.attributes`               the attributes that are data;
* `Value.member`                   a row's value under a name.
-/

namespace ListQuery

namespace Kind

def name : Kind → String
  | .bool => "bool"
  | .int => "int"
  | .float => "float"
  | .str => "str"
  | .set => "set"
  | .date => "date"
  | .instant => "datetime"
  | .object => "SimpleNamespace"
  | .pageMeta => "PageMeta"
  | .unset => "_Unset"
  | .exact => "Exact"
  | .oneOf => "ArrayIn"
  | .range => "Range"
  | .flag => "Boolean"
  | .differs => "NotEqual"
  | .related => "RelationExistence"
  | .builtin => "builtin_function_or_method"
  | .method => "method"
  | .kind => "type"
  | .zone => "timezone"
  | .duration => "timedelta"

def path (k : Kind) : String :=
  match k with
  | .date | .instant | .zone | .duration => "datetime." ++ k.name
  | .object => "types." ++ k.name
  | .pageMeta => "querypilot.response." ++ k.name
  | .unset | .exact | .oneOf | .range | .flag | .differs | .related =>
    "querypilot.conditions." ++ k.name
  | _ => k.name

def text (k : Kind) : String := "<class '" ++ k.path ++ "'>"

/-! ## operations -/

def words (line : String) : List String := (Text.splitOn ' ' line.toList).map String.ofList

/-- the words of a line with two underscores on either side, as the names that signs and built-in
functions go by -/
def reserved (line : String) : List String := (words line).map fun word => "__" ++ word ++ "__"

def common : List String :=
  reserved "delattr dir doc eq format ge getattribute getstate gt hash init init_subclass" ++
  reserved "le lt ne new reduce reduce_ex repr setattr sizeof str subclasshook"

def ofNumbers : List String :=
  words "as_integer_ratio conjugate" ++
  reserved "abs add bool ceil divmod float floor floordiv getnewargs int mod mul neg pos" ++
  reserved "pow radd rdivmod rfloordiv rmod rmul round rpow rsub rtruediv sub truediv" ++
  reserved "trunc"

def ofIntegers : List String :=
  words "bit_count bit_length from_bytes to_bytes" ++
  reserved "and index invert lshift or rand rlshift ror rrshift rshift rxor xor"

def ofTexts : List String :=
  words "capitalize casefold center count encode endswith expandtabs find format" ++
  words "format_map index isalnum isalpha isascii isdecimal isdigit isidentifier" ++
  words "islower isnumeric isprintable isspace istitle isupper join ljust lower lstrip" ++
  words "maketrans partition removeprefix removesuffix replace rfind rindex rjust" ++
  words "rpartition rsplit rstrip split splitlines startswith strip swapcase title" ++
  words "translate upper zfill" ++
  reserved "add contains getitem getnewargs iter len mod mul rmod rmul"

def ofSets : List String :=
  words "add clear copy difference difference_update discard intersection" ++
  words "intersection_update isdisjoint issubset issuperset pop remove" ++
  words "symmetric_difference symmetric_difference_update union update" ++
  reserved "and class_getitem contains iand ior isub iter ixor len or rand ror rsub rxor sub xor"

def ofDates : List String :=
  words "ctime fromisocalendar fromisoformat fromordinal fromtimestamp isocalendar" ++
  words "isoformat isoweekday replace strftime timetuple today toordinal weekday" ++
  reserved "add radd rsub sub"

def ofInstants : List String :=
  words "astimezone combine date dst now strptime time timestamp timetz tzname" ++
  words "utcfromtimestamp utcnow utcoffset utctimetuple"

def ofCounts : List String :=
  words "construct copy dict from_orm json model_construct model_copy model_dump" ++
  words "model_dump_json model_fields model_fields_set model_json_schema" ++
  words "model_parametrized_name model_post_init model_rebuild model_validate" ++
  words "model_validate_json model_validate_strings parse_file parse_obj parse_raw" ++
  words "schema schema_json update_forward_refs validate" ++
  reserved "annotations class_getitem class_vars copy deepcopy fields fields_set" ++
  reserved "get_pydantic_core_schema get_pydantic_json_schema iter module" ++
  reserved "private_attributes pydantic_complete pydantic_core_schema pydantic_decorators" ++
  reserved "pydantic_fields pydantic_fields_set pydantic_generic_metadata" ++
  reserved "pydantic_init_subclass pydantic_serializer pydantic_validator replace" ++
  reserved "rich_repr signature slots"

def ofConditions : List String :=
  words "to_raw" ++ reserved "annotations dataclass_fields dataclass_params module"

def ofDurations : List String :=
  words "total_seconds" ++
  reserved "abs add bool divmod floordiv mod mul neg pos radd rdivmod rfloordiv rmod rmul" ++
  reserved "rsub rtruediv sub truediv"

def operations (k : Kind) : List String :=
  common ++ match k with
    | .bool | .int => ofNumbers ++ ofIntegers
    | .float => words "fromhex hex is_integer" ++ reserved "getformat" ++ ofNumbers
    | .str => ofTexts
    | .set => ofSets
    | .date => ofDates
    | .instant => ofDates ++ ofInstants
    | .object => []
    | .pageMeta => ofCounts
    | .unset => reserved "annotations bool module"
    | .exact | .oneOf | .range | .flag | .differs | .related => ofConditions
    | .builtin => reserved "call text_signature"
    | .method => reserved "annotations call func module"
    | .kind => words "mro" ++ reserved "bases call mro module subclasses"
    | .zone => words "dst fromutc tzname utcoffset" ++ reserved "getinitargs"
    | .duration => ofDurations

/-- kinds whose values may change, and so have no hash -/
def isMutable : Kind → Bool
  | .set | .object | .pageMeta => true
  | _ => false

end Kind

namespace Value

/-! ## attributes that are data -/

def kindOfCondition : Condition → Kind
  | .exact _ => .exact
  | .oneOf _ => .oneOf
  | .range _ _ => .range
  | .flag _ => .flag
  | .differs _ => .differs
  | .related _ _ => .related

def kind? : Value → Option Kind
  | .null | .list _ | .tuple _ | .record _ => none
  | .bool _ => some .bool
  | .int _ => some .int
  | .float _ => some .float
  | .str _ => some .str
  | .set _ => some .set
  | .date _ => some .date
  | .instant _ => some .instant
  | .object _ => some .object
  | .pageMeta _ => some .pageMeta
  | .unset => some .unset
  | .condition c => some (kindOfCondition c)
  | .operation owner _ =>
    match owner with
    | .pageMeta _ | .condition _ | .unset => some .method
    | _ => some .builtin
  | .kind _ => some .kind
  | .zone _ => some .zone
  | .duration _ => some .duration

def longest : Value := .duration (1000000000 * 86400000000 - 1)
def microsecond : Value := .duration 1

def dateBounds : List (String × Value) :=
  [("min", .date ⟨1, 1, 1⟩), ("max", .date ⟨9999, 12, 31⟩), ("resolution", .duration 86400000000)]

def instantBounds : List (String × Value) :=
  [("min", .instant ⟨⟨1, 1, 1⟩, 0, 0, 0, 0, none⟩),
    ("max", .instant ⟨⟨9999, 12, 31⟩, 23, 59, 59, 999999, none⟩), ("resolution", microsecond)]

/-- universal time, and the zones farthest from it -/
def zoneBounds : List (String × Value) :=
  [("utc", .zone 0), ("min", .zone (-86340000000)), ("max", .zone 86340000000)]

def durationBounds : List (String × Value) :=
  [("min", .duration (-999999999 * 86400000000)), ("max", longest), ("resolution", microsecond)]

def shared : Kind → List (String × Value)
  | .date => dateBounds
  | .instant => instantBounds
  | .zone => zoneBounds
  | .duration => durationBounds
  | .pageMeta => [("model_config", .record []), ("model_computed_fields", .record [])]
  | .unset => [("_instance", .unset)]
  | _ => []

def dateAttributes (d : Date) : List (String × Value) :=
  [("year", .int d.year), ("month", .int d.month), ("day", .int d.day)]

def integerAttributes (n : Int) : List (String × Value) :=
  [("real", .int n), ("imag", .int 0), ("numerator", .int n), ("denominator", .int 1)]

def withRecord (entries : List (String × Value)) : List (String × Value) :=
  entries ++ [("__dict__", .record entries)]

def emptiness : Condition → List (String × Value)
  | .range lower upper => [("is_empty", .bool (lower.isNull && upper.isNull))]
  | _ => []

def attributesOfCondition (c : Condition) : List (String × Value) :=
  let entries := conditionAttributes c
  withRecord entries ++ emptiness c ++ [("__match_args__", .tuple (entries.map (.str ·.1)))]

/-- the attributes of a value that are its own data -/
def ownAttributes : Value → List (String × Value)
  | .bool b => integerAttributes b.toNat
  | .int n => integerAttributes n
  | .float x => [("real", .float x), ("imag", .float .zero)]
  | .date d => dateAttributes d
  | .instant t =>
    dateAttributes t.date ++ [("hour", .int t.hour), ("minute", .int t.minute),
      ("second", .int t.second), ("microsecond", .int t.microsecond), ("fold", .int 0),
      ("tzinfo", (t.offset.map Value.zone).getD .null)]
  | .object entries => withRecord entries
  | .pageMeta m => withRecord (ofPageMeta m)
  | .condition c => attributesOfCondition c
  | .unset => withRecord []
  | .operation owner name => [("__name__", .str name), ("__self__", owner),
      ("__qualname__", .str (((owner.kind?.map fun k => k.name ++ ".").getD "") ++ name))]
  | .kind k => [("__name__", .str k.name), ("__qualname__", .str k.name)] ++ shared k
  | .duration us =>
    let rest := us.fmod 86400000000
    [("days", .int (us.fdiv 86400000000)), ("seconds", .int (rest / 1000000)),
      ("microseconds", .int (rest % 1000000))]
  | _ => []

def attributes (v : Value) : List (String × Value) :=
  v.ownAttributes ++ match v.kind? with
    | none => []
    | some k =>
      [("__class__", .kind k)] ++ (if k.isMutable then [("__hash__", .null)] else []) ++ shared k

/-- what a value can do; a kind can do what its values can -/
def operations : Value → List String
  | .kind k => Kind.operations .kind ++ k.operations
  | v => (v.kind?.map Kind.operations).getD []

/-! ## members -/

def attributeNamed (name : String) (v : Value) : Value :=
  match field? name v.attributes with
  | some w => w
  | none => if v.operations.contains name then .operation v name else .null

def has (name : String) (v : Value) : Bool :=
  (field? name v.attributes).isSome || v.operations.contains name

/-- a row's value under a name, null when it has none -/
def member (name : String) : Value → Value
  | .record entries => (field? name entries).getD .null
  | v => v.attributeNamed name

end Value

end ListQuery
