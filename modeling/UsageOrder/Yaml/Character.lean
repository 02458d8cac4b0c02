import UsageOrder.Text.Basic

/-!
# Characters of YAML

The classes of characters that the parts of a YAML text are told apart by.

| class | members |
|---|---|
| `isLineEnd` | line feed, next line, line separator, paragraph separator |
| `isGap` | space, tab |
| `isReadable` | all characters but most control characters and those that are none |
| `isWordChar` | letters, digits, `-` and `_` of ASCII |
| `isFlowMark` | the comma and the brackets and braces |
-/

namespace UsageOrder
namespace Yaml

/-- Whether a character ends a line. -/
def isLineEnd (c : Char) : Bool :=
  c = '\n' || c.toNat = 0x85 || c.toNat = 0x2028 || c.toNat = 0x2029

/-- Whether a character is white space within a line. -/
def isGap (c : Char) : Bool := c = ' ' || c = '\t'

/-- Whether a word, an indicator or a mark ends in front of a text: at white space, at the end of a
line and at the end of the text. -/
def endsWord (text : Text) : Bool := text.head?.all fun c => isGap c || isLineEnd c

/-- Whether a text starts at the end of a line, or has ended. -/
def atLineEnd (text : Text) : Bool := text.head?.all isLineEnd

/-- Whether a name ends in front of a text: at a space, which a tab is not, or at the end of a
line. -/
def endsName (text : Text) : Bool := text.head?.all fun c => c = ' ' || isLineEnd c

/-- Whether a character may stand in a YAML text. -/
def isReadable (c : Char) : Bool :=
  let n := c.toNat
  c = '\t' || c = '\n' || c = '\r' || (0x20 ≤ n && n ≤ 0x7E) || n = 0x85 ||
    (0xA0 ≤ n && n ≤ 0xFFFD) || 0x10000 ≤ n

/-- Whether a character may stand in the name of an anchor, of a directive or of a tag handle. -/
def isWordChar (c : Char) : Bool := c.isAlphanum || c = '-' || c = '_'

/-- Whether a character separates the parts of flow collections. -/
def isFlowMark (c : Char) : Bool := [',', '[', ']', '\x7b', '\x7d'].contains c

/-- Whether a character cannot be the first one of a plain scalar. -/
def isIndicator (c : Char) : Bool :=
  isFlowMark c || ['#', '&', '*', '!', '|', '>', '\'', '"', '%', '@', '\x60'].contains c

/-- Whether a mark that separates documents stands at the start of a text. -/
def startsWithMark (mark : Text) (text : Text) : Bool :=
  mark.isPrefixOf text && endsWord (text.drop mark.length)

/-- The mark that starts a document. -/
def startMark : Text := ['-', '-', '-']

/-- The mark that ends a document. -/
def endMark : Text := ['.', '.', '.']

/-- Whether one of the two marks that separate documents stands at the start of a text. -/
def atSeparator (text : Text) : Bool :=
  startsWithMark startMark text || startsWithMark endMark text

end Yaml
end UsageOrder
