/-
Text on a terminal. A style is a list of attributes, and switching it off resets them one by
one. Marks and controls take no column, most characters one, ideographs and pictures two; a
cluster of characters is as wide as the first of them that has any width.
-/

import TreeCheck.Text.Grapheme
import TreeCheck.Text.Split

namespace TreeCheck.Text

/-! ### Colour -/

/-- Attributes of a terminal, by number. -/
structure Style where
  attributes : List Nat
  deriving DecidableEq, Repr

namespace Style

def bold : Nat := 1
def faint : Nat := 2
def red : Nat := 31
def green : Nat := 32
def yellow : Nat := 33
def blue : Nat := 34
def cyan : Nat := 36

/-- What resets an attribute. -/
def reset (code : Nat) : Nat := if code = bold ∨ code = faint then 22 else 0

def sequence (attributes : List Nat) : String :=
  "\x1b[" ++ join ";" (attributes.map toString) ++ "m"

/-- The text in a style, if colour is on. -/
def paint (style : Style) (on : Bool) (text : String) : String :=
  if on then sequence style.attributes ++ text ++ sequence (style.attributes.map reset) else text

end Style

/-! ### Columns -/

/-- Characters of two columns. -/
def wideText : String :=
"1100 5f 11ba 1 d 1 be 3 3 0 2 0 209 1 15 1 32 b 2b 0 13 0 d 0 8 1 11 1 5 1 8 0 5 0 15 0 7 1 1 0 4
0 2 0 7 0 4 1 1c 0 23 0 1 0 4 2 1 0 3d 2 18 0 e 0 35b 1 33 0 4 0 32a 19 1 58 c d5 1a 4e 2 55 2 66
5 2a 1 5d 1 53 b 2f 1 27 8 1b6f 40 568c 3 36 499 1c 283 2ba3 215c 1ff 310 9 16 22 1 12 1 3 95 5f
7f 6 6ff9 4 b 1 e 17f7 8 4d5 2a 8 22e7 3 1 6 1 1 1 122 f 0 1d 2 2 0 e 3 8 18b 3d08 0 ca 0 be 0 2 9
65 2 d 2b 4 8 7 1 e 5 9a 20 c 8 1 45 1 15 c 2a 4 4 c 10 3 0 3 46 1 0 1 ba 2 3e d 3 1 17 12 0 1a 1
d 0 56 54 30 45 6 0 3 2 2 2 4 3 b 1 7 8 e3 b 4 0 11b 2e 1 9 1 b8 70 c 3 8 7 2d 1 6 8 d 4 8 7 8 507
fffd 2 fffd"

/-- Characters without a width. -/
def flatText : String :=
"0 1f 5f 20 d 0 252 6f 113 4 287 0 db 8 40c 0 3 0 ee 0 c 1 65b 2 4ab 4 26f 0 30 1e 9c 8 24c 3f 20b
4 18 6 3b 5 60 20 bfe 2 ee 1f 299 1 75d4 3 1 9 20 1 50 1 1ee 11 2f0e 7ff 1e00 f 10 f cf 0 f9 2 2 1
1fd 0 cff 2 46 a 31 3 37a 1 39 1 29 6 3 4 577b 4 640b 2d 2 16 21e 4 3 5 8 7 2 6 1e 3 94 2 dbb 6 1
10 2 6 1 1 1 4 64 0 840 6"

def wide : Ranges := .ofText wideText
def flat : Ranges := .ofText flatText

def charWidth (character : Char) : Nat :=
  let code := character.toNat
  if code < 0x20 then 0
  else if code < 0x7f then 1
  else if flat.contains character then 0
  else if wide.contains character then 2
  else 1

def clusterWidth (cluster : List Char) : Nat :=
  ((cluster.map charWidth).find? (0 < ·)).getD 0

/-- The width of a text in columns. -/
def width (text : String) : Nat :=
  ((Grapheme.clusters text.toList).map clusterWidth).foldr (· + ·) 0

/-- The text with blanks behind it, so that it is at least so wide. -/
def fillRight (text : String) (columns : Nat) : String :=
  text ++ repeated " " (columns - width text)

end TreeCheck.Text
