import Stepwise.Text.DefaultIgnorable
import Stepwise.Text.GraphemeExtend
import Stepwise.Text.Unprintable

/-!
# Quoted text

A text is quoted for a reader who wants to see every character of it: between double quotes, with
a backslash in front of quotes and backslashes, short escapes for the common controls, and the
code point in hexadecimal for every other character that would be hidden.
-/

namespace Stepwise.Text
set_option autoImplicit false

/-- The code point of a character between braces, in hexadecimal. -/
def codePointEscape (c : Char) : List Char :=
  ['\\', 'u', '\x7b'] ++ Nat.toDigits 16 c.toNat ++ ['\x7d']

/-- The sound marks of halfwidth kana belong to the character before them, but stand in a cell of
their own. -/
def isHalfwidthSoundMark (c : Char) : Bool := c == '\uff9e' || c == '\uff9f'

/-- A reader would not see the character: it melts into the one before it, or it is not shown. -/
def isHidden (c : Char) : Bool :=
  (isGraphemeExtend c && !isHalfwidthSoundMark c) || isDefaultIgnorable c || isUnprintable c

def escape (c : Char) : List Char :=
  if c = '"' then ['\\', '"']
  else if c = '\\' then ['\\', '\\']
  else if c = '\n' then ['\\', 'n']
  else if c = '\r' then ['\\', 'r']
  else if c = '\t' then ['\\', 't']
  else if c = '\x00' then ['\\', '0']
  else if isHidden c then codePointEscape c
  else [c]

def quoted (s : String) : String :=
  String.ofList (['"'] ++ s.toList.flatMap escape ++ ['"'])

end Stepwise.Text
