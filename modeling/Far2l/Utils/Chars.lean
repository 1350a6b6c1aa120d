/-
Far2l.Utils.Chars — the two character types of the repository.

`char` buffers are lists of `Byte`; `wchar_t` is four bytes wide on every
platform the repository builds for, so a wide string is a list of `WChar`.
Characters of a literal are written through `L`, as the sources write `L"..."`.
-/
import Mathlib.Algebra.GroupWithZero.Nat
import Mathlib.Algebra.Ring.Int.Defs

namespace Far2l

/-- `unsigned char`. -/
abbrev Byte := UInt8

instance byteString_lawfulBEq : @LawfulBEq (List Byte) List.instBEq := inferInstance

/-- `wchar_t` (4 bytes). -/
abbrev WChar := UInt32

/-- A wide string, without its terminating NUL. -/
abbrev WStr := List WChar

/-- `L"..."`, character by character. -/
def L (cs : List Char) : WStr := cs.map Char.val

/-- `L'\r'`. -/
def CR : WChar := 0x0D

/-- `L'\n'`. -/
def LF : WChar := 0x0A

/-- `L'\t'`. -/
def TAB : WChar := 0x09

/-- `L' '`. -/
def SPACE : WChar := 0x20

end Far2l
