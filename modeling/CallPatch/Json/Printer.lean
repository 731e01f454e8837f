import CallPatch.Json.Basic
/-!
# JSON — writing a value

The compact form: no space between tokens, fields in the order held. A
string escapes the quote, the backslash and the control characters below
U+0020, five of them with a letter, the others by their code; other
characters stand for themselves. Only U+007F is written both ways. A string
is written in blocks of sixteen bytes, and a block of printable ASCII and
U+007F alone is copied as it is; everywhere else U+007F is escaped.
-/

namespace CallPatch.Json

/-- The characters that write one character of a string. -/
def escaped (c : Char) : List Char :=
  if c = '"' then ['\\', '"']
  else if c = '\\' then ['\\', '\\']
  else if c = '\x08' then ['\\', 'b']
  else if c = '\t' then ['\\', 't']
  else if c = '\n' then ['\\', 'n']
  else if c = '\x0c' then ['\\', 'f']
  else if c = '\r' then ['\\', 'r']
  else if c.toNat < 0x20 ∨ c.toNat = 0x7F then '\\' :: 'u' :: Numeral.hex 4 c.toNat
  else [c]

/-- The length of a block in bytes. -/
def blockSize : Nat := 16

/-- The characters that a copied block may hold. -/
def isPlain (c : Char) : Bool :=
  0x20 ≤ c.toNat && c.toNat < 0x80 && c ≠ '"' && c ≠ '\\'

/-- Whether the characters open with a block to be copied. -/
def opensPlain (cs : List Char) : Bool :=
  (cs.take blockSize).length = blockSize && (cs.take blockSize).all isPlain

/-- What is between the quotes. So many characters of the block are still to be copied, or so many
bytes of it are still to be written one character after another; a character that reaches beyond
the block belongs to it. -/
def quotedFrom (copied escapedBytes : Nat) : List Char → List Char
  | [] => []
  | c :: rest =>
    if 0 < copied then c :: quotedFrom (copied - 1) escapedBytes rest
    else if 0 < escapedBytes then
      escaped c ++ quotedFrom 0 (escapedBytes - c.utf8Size) rest
    else if opensPlain (c :: rest) then c :: quotedFrom (blockSize - 1) 0 rest
    else escaped c ++ quotedFrom 0 (blockSize - c.utf8Size) rest

/-- A string with its quotes. -/
def quoted (s : String) : List Char :=
  '"' :: (quotedFrom 0 0 s.toList ++ ['"'])

mutual

/-- The compact form of a value. -/
def render : Json → List Char
  | .null => ['n', 'u', 'l', 'l']
  | .bool true => ['t', 'r', 'u', 'e']
  | .bool false => ['f', 'a', 'l', 's', 'e']
  | .number i => Numeral.signed i
  | .string s => quoted s
  | .array [] => ['[', ']']
  | .array (v :: items) => '[' :: (render v ++ renderItems items)
  | .object [] => ['{', '}']
  | .object ((k, v) :: fields) => '{' :: (quoted k ++ ':' :: (render v ++ renderFields fields))

/-- The items behind the first, and the end of the array. -/
def renderItems : List Json → List Char
  | [] => [']']
  | v :: items => ',' :: (render v ++ renderItems items)

/-- The fields behind the first, and the end of the object. -/
def renderFields : List (String × Json) → List Char
  | [] => ['}']
  | (k, v) :: fields => ',' :: (quoted k ++ ':' :: (render v ++ renderFields fields))

end

/-- The compact form of a value, as a text. -/
def text (v : Json) : String :=
  String.ofList (render v)

end CallPatch.Json
