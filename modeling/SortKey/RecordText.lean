import SortKey.Decimal.Layout
import SortKey.Record
import SortKey.Text.Quoted

namespace SortKey

/-!
# Records as text

The plain text of a record is for people: kinds with values, and a note for
entries that have none.  The detailed text is for logs: every value with its
kind, text in quotes, and the cause for which an entry has no value.
-/

/-- A list of texts in brackets. -/
def bracketed (parts : List String) : String :=
  "[" ++ String.intercalate ", " parts ++ "]"

mutual

/-- The plain text of a value. -/
def Value.plainText : Value -> String
  | .byte b => toString b.toNat
  | .bytes content => octetsText octetsShown content
  | .double bits => Decimal.plain.text bits
  | .integer n => toString n.toInt
  | .long n => toString n.toInt
  | .text content => content
  | .record entries => bracketed (Entry.plainTexts entries)

/-- The plain text of an entry. -/
def Entry.plainText : Entry -> String
  | .ofValue value => "\x7b" ++ value.kind.name ++ "-" ++ value.plainText ++ "\x7d"
  | .undecodable _ _ _ => "\x7b INVALID \x7d"

/-- The plain texts of entries. -/
def Entry.plainTexts : List Entry -> List String
  | [] => []
  | entry :: entries => entry.plainText :: Entry.plainTexts entries

end

/-- The plain text of a record. -/
def Record.plainText (record : Record) : String :=
  bracketed (Entry.plainTexts record)

mutual

/-- The detailed text of a value. -/
def Value.detailText : Value -> String
  | .byte b => "Byte(" ++ toString b.toNat ++ ")"
  | .bytes content => "ByteArray(ByteView[" ++ octetsText octetsShown content ++ "])"
  | .double bits => "Double(" ++ Decimal.detailed.text bits ++ ")"
  | .integer n => "Integer(" ++ toString n.toInt ++ ")"
  | .long n => "Long(" ++ toString n.toInt ++ ")"
  | .text content => "String(" ++ Text.quoted content ++ ")"
  | .record entries => "Marshal(" ++ bracketed (Entry.detailTexts entries) ++ ")"

/-- The detailed text of an entry. -/
def Entry.detailText : Entry -> String
  | .ofValue value => "Entry \x7b type: " ++ value.kind.label ++ ", value: " ++ value.detailText ++ " \x7d"
  | .undecodable kind _ cause =>
      "Entry \x7b type: " ++ kind.label ++ ", error: " ++ cause.label ++ " \x7d"

/-- The detailed texts of entries. -/
def Entry.detailTexts : List Entry -> List String
  | [] => []
  | entry :: entries => entry.detailText :: Entry.detailTexts entries

end

/-- The detailed text of a record. -/
def Record.detailText (record : Record) : String :=
  bracketed (Entry.detailTexts record)

end SortKey
