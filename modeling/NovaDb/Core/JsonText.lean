import NovaDb.Core.Json

namespace NovaDb
namespace Core

/-!
# The text of JSON

What `serde_json::to_string` writes: no blanks, the members of an object in their
order, and in strings an escape for the quote, the backslash and the characters
below the space.  How a number is written is a parameter.
-/

/-- One character of a string: the two-character escapes, `\u00XX` for the other
control characters, and else the character itself. -/
def escapeChar (c : Char) : List Char :=
  match c with
  | '"' => ['\\', '"']
  | '\\' => ['\\', '\\']
  | '\n' => ['\\', 'n']
  | '\t' => ['\\', 't']
  | '\r' => ['\\', 'r']
  | '\x08' => ['\\', 'b']
  | '\x0c' => ['\\', 'f']
  | other =>
      if other.toNat < 32 then ['\\', 'u', '0', '0'] ++ hexByte (UInt8.ofNat other.toNat)
      else [other]

def quoted (text : String) : List Char :=
  '"' :: (text.toList.flatMap escapeChar ++ ['"'])

/-- The decimal text of an integer. -/
def decimal (number : Int) : List Char :=
  if number < 0 then '-' :: Nat.toDigits 10 number.natAbs else Nat.toDigits 10 number.natAbs

namespace JsonValue

variable {Number : Type} (numberText : Number -> List Char)

mutual

/-- `serde_json::to_string` -/
def text : JsonValue Number -> List Char
  | .null => "null".toList
  | .bool true => "true".toList
  | .bool false => "false".toList
  | .number literal => numberText literal
  | .string content => quoted content
  | .array items => '[' :: ([','].intercalate (textItems items) ++ [']'])
  | .object members => '{' :: ([','].intercalate (textMembers members) ++ ['}'])

def textItems : List (JsonValue Number) -> List (List Char)
  | [] => []
  | item :: items => text item :: textItems items

def textMembers : List (String × JsonValue Number) -> List (List Char)
  | [] => []
  | (key, value) :: members => (quoted key ++ ':' :: text value) :: textMembers members

end

end JsonValue

end Core
end NovaDb
