import ReplCore.Text.GeneralCategory.Capital
import ReplCore.Text.GeneralCategory.Letter
import ReplCore.Text.GeneralCategory.Mark
import ReplCore.Text.GeneralCategory.Number
import ReplCore.Text.GeneralCategory.Recent
import ReplCore.Text.GeneralCategory.Symbol

/-!
# Classes of characters

The classes that scanning, identifiers and diagnostics distinguish. All of them cover the whole of
Unicode and are built from the tables of general categories.
-/

namespace ReplCore.CharClass

open GeneralCategory

/-- White space: the separators, the ASCII controls that move the cursor, the four ASCII
information separators and the next-line control. -/
def isBlank (c : Char) : Bool :=
  CodeRanges.covers
    [(0x9, 0xD), (0x1C, 0x20), (0x85, 0x85), (0xA0, 0xA0), (0x1680, 0x1680), (0x2000, 0x200A),
     (0x2028, 0x2029), (0x202F, 0x202F), (0x205F, 0x205F), (0x3000, 0x3000)] c.toNat

def isLetter (c : Char) : Bool := letter.covers c.toNat

def isLetterNumber (c : Char) : Bool := letterNumber.covers c.toNat

/-- A decimal digit of any script. -/
def isDigit (c : Char) : Bool := decimalDigit.covers c.toNat

/-- The value of a decimal digit: its distance from the zero that starts its run. -/
def digitValue? (c : Char) : Option Nat :=
  (decimalDigit.find? fun r => decide (r.1 ≤ c.toNat) && decide (c.toNat ≤ r.2)).map
    fun r => (c.toNat - r.1) % 10

/-- The characters of a word: letters, numbers of every kind and the low line. -/
def isWord (c : Char) : Bool :=
  c = '_' || isLetter c || isDigit c || isLetterNumber c || otherNumber.covers c.toNat

/-- What may begin an identifier of the highlighted language: the letters and letter numbers of
Unicode 11. -/
def beginsIdentifier (c : Char) : Bool :=
  let n := c.toNat
  c = '$' || c = '_'
    || ((isLetter c || isLetterNumber c) && !addedSinceTwelve.covers n
      && !markBeforeTwelve.covers n)

/-- What may continue an identifier of the highlighted language: also the marks, digits and
connectors of Unicode 11 and the two zero-width joiners. -/
def continuesIdentifier (c : Char) : Bool :=
  let n := c.toNat
  c = '$' || c = '\u200c' || c = '\u200d'
    || ((isLetter c || isLetterNumber c || isDigit c || combiningMark.covers n
      || connector.covers n) && !addedSinceTwelve.covers n)

/-- Letters whose compatibility form is not an identifier by itself. -/
private def neverNames : CodeRanges :=
  [(0x37A, 0x37A), (0x2E2F, 0x2E2F), (0xFC5E, 0xFC63), (0xFDFA, 0xFDFB), (0xFE70, 0xFE70),
   (0xFE72, 0xFE72), (0xFE74, 0xFE74), (0xFE76, 0xFE76), (0xFE78, 0xFE78), (0xFE7A, 0xFE7A),
   (0xFE7C, 0xFE7C), (0xFE7E, 0xFE7E)]

/-- Letters whose compatibility form continues a name but does not begin one. -/
private def onlyContinuesNames : CodeRanges :=
  [(0xE33, 0xE33), (0xEB3, 0xEB3), (0xFF9E, 0xFF9F)]

/-- Characters outside the letters that have the property `Other_ID_Start`. -/
private def otherNameStart : CodeRanges :=
  [(0x1885, 0x1886), (0x2118, 0x2118), (0x212E, 0x212E)]

/-- Characters outside the letters, marks, digits and connectors that have the property
`Other_ID_Continue`. -/
private def otherNameContinue : CodeRanges :=
  [(0xB7, 0xB7), (0x387, 0x387), (0x1369, 0x1371), (0x19DA, 0x19DA)]

/-- The property `XID_Start`, or the low line. -/
def beginsName (c : Char) : Bool :=
  let n := c.toNat
  c = '_' || otherNameStart.covers n
    || ((isLetter c || isLetterNumber c) && !neverNames.covers n && !onlyContinuesNames.covers n)

/-- The property `XID_Continue`. -/
def continuesName (c : Char) : Bool :=
  let n := c.toNat
  otherNameStart.covers n || otherNameContinue.covers n
    || ((isLetter c || isLetterNumber c || isDigit c || combiningMark.covers n
      || connector.covers n) && !neverNames.covers n)

/-- Characters that a diagnostic shows as they are: all but controls, formats, unassigned and
private code points and the separators other than the space. -/
def isPrintable (c : Char) : Bool :=
  let n := c.toNat
  c = ' ' || isLetter c || punctuationOrSymbol.covers n || isDigit c || isLetterNumber c
    || combiningMark.covers n || otherNumber.covers n || enclosingMark.covers n

/-- A capital of any script. -/
def isCapital (c : Char) : Bool := GeneralCategory.isCapital c.toNat

/-- A character of ASCII. -/
def isAscii (c : Char) : Bool := c.toNat < 0x80

/-- White space without the four ASCII information separators. -/
def isPlainBlank (c : Char) : Bool := isBlank c && !('\x1c' ≤ c && c ≤ '\x1f')

/-- The capital letters whose small letter is ASCII: `A` to `Z` and the Kelvin sign. -/
def smallLetter? (c : Char) : Option Char :=
  if 'A' ≤ c ∧ c ≤ 'Z' then some (Char.ofNat (c.toNat + 32))
  else if c = '\u212a' then some 'k' else none

/-- The small letter of a capital that has an ASCII one; any other character is kept. -/
def fold (c : Char) : Char := (smallLetter? c).getD c

/-- An identifier by the default rule of Unicode, with the low line as a start. -/
def isName : List Char → Bool
  | [] => false
  | c :: rest => beginsName c && rest.all continuesName

end ReplCore.CharClass
