import SortKey.Kind
import SortKey.Text.Quoted

namespace SortKey

/-!
# Historical dialects

A dialect changes how codes are read.  It never changes what is written.  In
`sherlock` every code is one lower and the highest one doubles as the marker
of an empty record.  In `legacyStrings` text carries a length of 16 bits.
Codes that a dialect does not mention keep their meaning.

A dialect is chosen by its name.  Case does not matter in it, nor white space
around it, and underscores are as good as hyphens.
-/

namespace Text

/-- Whether a character is white space, which is the Unicode property
`White_Space`. -/
def isBlank (c : Char) : Bool :=
  let n := c.toNat
  (0x09 ≤ n && n ≤ 0x0D) || n == 0x20 || n == 0x85 || n == 0xA0 || n == 0x1680 ||
    (0x2000 ≤ n && n ≤ 0x200A) || n == 0x2028 || n == 0x2029 || n == 0x202F || n == 0x205F ||
    n == 0x3000

/-- Drop white space from both ends. -/
def trim (chars : List Char) : List Char :=
  ((chars.dropWhile isBlank).reverse.dropWhile isBlank).reverse

end Text

/-- A historical way to assign codes. -/
inductive Dialect where
  | sherlock
  | legacyStrings
deriving DecidableEq, Repr

/-- A name that no dialect has. -/
structure UnknownDialect where
  name : String
deriving DecidableEq, Repr

/-- The text of the failure, with the name as it was given. -/
def UnknownDialect.message (unknown : UnknownDialect) : String :=
  "unknown compatibility mode " ++ Text.quoted unknown.name ++
    ", expected \"sherlock\" or \"legacy-strings\""

namespace Dialect

def all : List Dialect :=
  [sherlock, legacyStrings]

def name : Dialect -> String
  | sherlock => "sherlock"
  | legacyStrings => "legacy-strings"

/-- The name of a dialect in detailed texts. -/
def label : Dialect -> String
  | sherlock => "Sherlock"
  | legacyStrings => "LegacyStrings"

/-- The codes that a dialect reads differently, each with its present code. -/
def table : Dialect -> List (UInt8 × UInt8)
  | sherlock => [(0, 1), (1, 2), (2, 3), (3, 4), (4, 5), (5, 6), (6, emptyMarker)]
  | legacyStrings => [(5, shortTextCode)]

/-- The present code for a code of the dialect. -/
def convert (dialect : Dialect) (code : UInt8) : UInt8 :=
  match dialect.table.find? fun row => row.1 = code with
  | some row => row.2
  | none => code

/-- The spelling of a name that is compared: no blanks around it, lower case
in ASCII, and hyphens for underscores. -/
def normalName (name : String) : String :=
  String.ofList ((Text.trim name.toList).map fun c => if c = '_' then '-' else c.toLower)

def ofName (name : String) : Except UnknownDialect Dialect :=
  match all.find? fun dialect => dialect.name = normalName name with
  | some dialect => .ok dialect
  | none => .error ⟨name⟩

end Dialect

/-- A dialect that may be absent, in detailed texts. -/
def dialectText : Option Dialect -> String
  | none => "None"
  | some dialect => "Some(" ++ dialect.label ++ ")"

end SortKey
