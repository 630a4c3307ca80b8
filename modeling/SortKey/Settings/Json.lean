namespace SortKey
namespace Settings

/-!
# JSON texts

Settings are JSON texts.  Only their shape matters here: numbers are checked
and forgotten, and a string that spells a lone surrogate has no content but is
still well formed.  Members are kept in order, repeated names included.
-/

/-- The shape of a JSON text. -/
inductive Json where
  | null
  | bool (value : Bool)
  | number
  | text (content : Option String)
  | list (items : List Json)
  | object (members : List (Option String × Json))

/-- A character of a string, or one half of a surrogate pair. -/
inductive Piece where
  | char (c : Char)
  | unit (n : Nat)

/-- The text that the pieces make, unless a half is alone. -/
def textOfPieces (made : List Char) : List Piece -> Option String
  | [] => some (String.ofList made.reverse)
  | .char c :: rest => textOfPieces (c :: made) rest
  | .unit n :: rest =>
      if n < 0xD800 ∨ 0xE000 ≤ n then textOfPieces (Char.ofNat n :: made) rest
      else if n < 0xDC00 then
        match rest with
        | .unit low :: rest =>
            if 0xDC00 ≤ low ∧ low < 0xE000 then
              textOfPieces (Char.ofNat (0x10000 + (n - 0xD800) * 0x400 + (low - 0xDC00)) :: made) rest
            else none
        | _ => none
      else none

/-- Drop the blanks that may stand between tokens. -/
def skip (chars : List Char) : List Char :=
  chars.dropWhile fun c => c = ' ' || c = '\n' || c = '\t' || c = '\r'

def hexValue? (c : Char) : Option Nat :=
  if '0' ≤ c ∧ c ≤ '9' then some (c.toNat - 48)
  else if 'a' ≤ c ∧ c ≤ 'f' then some (c.toNat - 87)
  else if 'A' ≤ c ∧ c ≤ 'F' then some (c.toNat - 55)
  else none

/-- Four hexadecimal digits. -/
def unitOfDigits? (a b c d : Char) : Option Nat := do
  let a <- hexValue? a
  let b <- hexValue? b
  let c <- hexValue? c
  let d <- hexValue? d
  return ((a * 16 + b) * 16 + c) * 16 + d

/-- The character for a one-letter escape. -/
def escaped? (c : Char) : Option Char :=
  match c with
  | '"' => some '"'
  | '\\' => some '\\'
  | '/' => some '/'
  | 'b' => some '\x08'
  | 'f' => some '\x0c'
  | 'n' => some '\n'
  | 'r' => some '\r'
  | 't' => some '\t'
  | _ => none

/-- A string after its first quote, pieces newest first in `made`. -/
def piecesOnto (made : List Piece) : List Char -> Option (List Piece × List Char)
  | [] => none
  | '"' :: rest => some (made.reverse, rest)
  | '\\' :: 'u' :: a :: b :: c :: d :: rest =>
      match unitOfDigits? a b c d with
      | some n => piecesOnto (.unit n :: made) rest
      | none => none
  | '\\' :: c :: rest =>
      match escaped? c with
      | some c => piecesOnto (.char c :: made) rest
      | none => none
  | c :: rest => if c.toNat < 0x20 ∨ c = '\\' then none else piecesOnto (.char c :: made) rest

/-- A string after its first quote. -/
def string? (chars : List Char) : Option (Option String × List Char) :=
  (piecesOnto [] chars).map fun found => (textOfPieces [] found.1, found.2)

/-- At least one digit, and what follows the digits. -/
def digits? : List Char -> Option (List Char)
  | [] => none
  | c :: rest => if c.isDigit then some (rest.dropWhile Char.isDigit) else none

/-- An optional fraction. -/
def fraction? : List Char -> Option (List Char)
  | '.' :: rest => digits? rest
  | chars => some chars

/-- An optional exponent. -/
def exponent? : List Char -> Option (List Char)
  | c :: rest =>
      if c = 'e' ∨ c = 'E' then
        match rest with
        | '+' :: rest => digits? rest
        | '-' :: rest => digits? rest
        | _ => digits? rest
      else some (c :: rest)
  | [] => some []

/-- Digits without a leading zero. -/
def whole? : List Char -> Option (List Char)
  | '0' :: rest =>
      match rest with
      | c :: _ => if c.isDigit then none else some rest
      | [] => some rest
  | chars => digits? chars

/-- A number, and what follows it. -/
def number? (chars : List Char) : Option (List Char) :=
  let unsigned := match chars with
    | '-' :: rest => rest
    | _ => chars
  (whole? unsigned).bind fun rest => (fraction? rest).bind exponent?

mutual

/-- A value at the front.  The fuel bounds the number of tokens. -/
def value? : (fuel : Nat) -> List Char -> Option (Json × List Char)
  | 0, _ => none
  | fuel + 1, chars =>
      match skip chars with
      | 'n' :: 'u' :: 'l' :: 'l' :: rest => some (.null, rest)
      | 't' :: 'r' :: 'u' :: 'e' :: rest => some (.bool true, rest)
      | 'f' :: 'a' :: 'l' :: 's' :: 'e' :: rest => some (.bool false, rest)
      | '"' :: rest => (string? rest).map fun found => (.text found.1, found.2)
      | '[' :: rest =>
          match skip rest with
          | ']' :: rest => some (.list [], rest)
          | rest => items? fuel [] rest
      | '\x7b' :: rest =>
          match skip rest with
          | '\x7d' :: rest => some (.object [], rest)
          | rest => members? fuel [] rest
      | rest => (number? rest).map fun rest => (.number, rest)

/-- Items up to the closing bracket, newest first in `made`. -/
def items? : (fuel : Nat) -> (made : List Json) -> List Char -> Option (Json × List Char)
  | 0, _, _ => none
  | fuel + 1, made, chars =>
      match value? fuel chars with
      | none => none
      | some (item, rest) =>
          match skip rest with
          | ',' :: rest => items? fuel (item :: made) rest
          | ']' :: rest => some (.list (item :: made).reverse, rest)
          | _ => none

/-- Members up to the closing brace, newest first in `made`. -/
def members? : (fuel : Nat) -> (made : List (Option String × Json)) -> List Char ->
    Option (Json × List Char)
  | 0, _, _ => none
  | fuel + 1, made, chars =>
      match skip chars with
      | '"' :: rest =>
          match string? rest with
          | none => none
          | some (name, rest) =>
              match skip rest with
              | ':' :: rest =>
                  match value? fuel rest with
                  | none => none
                  | some (item, rest) =>
                      match skip rest with
                      | ',' :: rest => members? fuel ((name, item) :: made) rest
                      | '\x7d' :: rest => some (.object ((name, item) :: made).reverse, rest)
                      | _ => none
              | _ => none
      | _ => none

end

/-- The shape of a text that is one JSON value and nothing else. -/
def Json.ofText? (text : String) : Option Json :=
  let chars := text.toList
  match value? (2 * chars.length + 1) chars with
  | some (json, rest) => if (skip rest).isEmpty then some json else none
  | none => none

end Settings
end SortKey
