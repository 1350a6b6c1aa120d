/-
Far2l.Utils.Escaping — `EscapeCmdStr` and `QuoteCmdArg` of
`utils/src/Escaping.cpp`.
-/
import Far2l.Utils.Chars

namespace Far2l

/-- `'"'`. -/
def DQUOTE : Byte := 0x22

/-- The apostrophe. -/
def SQUOTE : Byte := 0x27

/-- The backslash. -/
def BACKSLASH : Byte := 0x5C

/-- `'$'`. -/
def DOLLAR : Byte := 0x24

/-- The backtick. -/
def BACKTICK : Byte := 0x60

/-- The default `escaped_chars` of `EscapeCmdStr`. -/
def cmdEscapedChars : List Byte := [BACKSLASH, DQUOTE, DOLLAR, BACKTICK]

/-- `EscapeCmdStr`: a backslash is inserted at each character found, and the search goes on
behind that character. -/
def escapeCmdStr (escapedChars : List Byte) : List Byte → List Byte
  | [] => []
  | c :: str =>
      if c ∈ escapedChars then BACKSLASH :: c :: escapeCmdStr escapedChars str
      else c :: escapeCmdStr escapedChars str

/-- `QuoteCmdArg`. -/
def quoteCmdArg (str : List Byte) : List Byte :=
  DQUOTE :: escapeCmdStr cmdEscapedChars str ++ [DQUOTE]

end Far2l
