import SortKey.Dialect
import SortKey.Settings.Json

namespace SortKey
namespace Settings

/-!
# Settings as JSON

Kinds and dialects are given by their exact names.  A name may also be given
as an object whose one member has that name and the value null.  Decoding
options are an object whose member `mode` is a dialect or null.  Other members
are ignored, and a list of at most one item gives the options in order.
-/

/-- How keys and streams are to be read. -/
structure Options where
  dialect : Option Dialect
deriving DecidableEq, Repr

/-- The name that a setting gives. -/
def Json.name? : Json -> Option String
  | .text content => content
  | .object [(name, .null)] => name
  | _ => none

/-- The kind that a setting names. -/
def kindOfJson? (json : Json) : Option Kind :=
  json.name?.bind fun name => Kind.all.find? fun kind => kind.name = name

/-- The dialect that a setting names. -/
def dialectOfJson? (json : Json) : Option Dialect :=
  json.name?.bind fun name => Dialect.all.find? fun dialect => dialect.name = name

/-- A dialect or null. -/
def optionOfJson? : Json -> Option (Option Dialect)
  | .null => some none
  | json => (dialectOfJson? json).map some

/-- The options in the members of an object.  A repeated `mode` is an error,
and so is a name without content. -/
def optionsOfMembers? (known : Option (Option Dialect)) :
    List (Option String × Json) -> Option Options
  | [] => some ⟨known.getD none⟩
  | (none, _) :: _ => none
  | (some name, json) :: rest =>
      if name = "mode" then
        match known with
        | some _ => none
        | none =>
            match optionOfJson? json with
            | some dialect => optionsOfMembers? (some dialect) rest
            | none => none
      else optionsOfMembers? known rest

/-- The options that a setting gives. -/
def optionsOfJson? : Json -> Option Options
  | .object members => optionsOfMembers? none members
  | .list [] => some ⟨none⟩
  | .list [item] => (optionOfJson? item).map Options.mk
  | _ => none

end Settings
end SortKey
