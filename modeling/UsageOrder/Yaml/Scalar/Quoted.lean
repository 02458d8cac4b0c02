import UsageOrder.Json.Reader
import UsageOrder.Yaml.Cursor

/-!
# Quoted scalars

A scalar between single quotes has no escapes but the doubled quote; one between double quotes has
escapes with a backslash.  Either may go over several lines, which are folded: white space around a
line end is dropped.  A mark that separates documents may not stand at the start of such a line.
-/

namespace UsageOrder
namespace Yaml

/-- The two kinds of quotes. -/
inductive Quote where
  | single
  | double
deriving DecidableEq, Repr

/-- The further line ends between two lines of a quoted scalar, with the white space around them
dropped. -/
def quotedBreaks : Nat → Text → Cursor → Option (Text × Cursor)
  | 0, _, _ => none
  | fuel + 1, done, cursor =>
    if atSeparator cursor.rest then none
    else
      match (cursor.skipWhile isGap).lineBreak with
      | ([], cursor) => some (done, cursor)
      | (mark, cursor) => quotedBreaks fuel (done ++ mark) cursor

/-- The further line ends that follow the first one in a quoted scalar. -/
def moreBreaks (cursor : Cursor) : Option (Text × Cursor) :=
  quotedBreaks (cursor.rest.length + 1) [] cursor

/-- The characters that short escapes stand for. -/
def shortEscapes : List (Char × Nat) := [
  ('0', 0), ('a', 7), ('b', 8), ('t', 9), ('\t', 9), ('n', 10), ('v', 11), ('f', 12), ('r', 13),
  ('e', 27), (' ', 32), ('"', 34), ('\\', 92), ('/', 47), ('N', 133), ('_', 160), ('L', 8232),
  ('P', 8233)]

/-- The number of digits of the code escapes. -/
def codeEscapes : List (Char × Nat) := [('x', 2), ('u', 4), ('U', 8)]

/-- The value of a number of hexadecimal digits at the start of a text. -/
def hexNumber? (width : Nat) (text : Text) : Option Nat :=
  match (text.take width).mapM Json.hexValue? with
  | some ds => if ds.length = width then some (ds.foldl (fun n d => 16 * n + d) 0) else none
  | none => none

/-- The second half of a pair of code escapes that stand for one character. -/
def lowEscape? (text : Text) : Option Nat :=
  match text with
  | '\\' :: 'u' :: rest =>
    (hexNumber? 4 rest).filter fun code => decide (0xDC00 ≤ code ∧ code ≤ 0xDFFF)
  | _ => none

/-- The character of a code escape, given its code and what follows it, and how many characters of
that belong to the escape.  Half of a pair that stands alone is no character. -/
def codeCharacter? (code : Nat) (text : Text) : Option (Char × Nat) :=
  if 0x10FFFF < code then none
  else if 0xD800 ≤ code ∧ code ≤ 0xDFFF then
    match lowEscape? text with
    | some low =>
      if code ≤ 0xDBFF then
        some (Char.ofNat (0x10000 + (code - 0xD800) * 1024 + (low - 0xDC00)), 6)
      else some ('\uFFFD', 0)
    | none => some ('\uFFFD', 0)
  else some (Char.ofNat code, 0)

/-- Reads an escape from behind its backslash; an escaped line end stands for nothing. -/
def escaped? (cursor : Cursor) : Option (Text × Cursor) :=
  match cursor.rest with
  | [] => none
  | mark :: rest =>
    if isLineEnd mark then moreBreaks cursor.step
    else
      match shortEscapes.lookup mark, codeEscapes.lookup mark with
      | some code, _ => some ([Char.ofNat code], cursor.step)
      | none, some width => do
        let code ← hexNumber? width rest
        let (c, more) ← codeCharacter? code (rest.drop width)
        some ([c], cursor.skip (1 + width + more))
      | none, none => none

/-- Reads a quoted scalar from behind its opening quote; `done` is what was read, last character
first. -/
def quotedFrom (quote : Quote) : Nat → Text → Cursor → Option (Text × Cursor)
  | 0, _, _ => none
  | fuel + 1, done, cursor =>
    match cursor.rest with
    | [] => none
    | c :: rest =>
      if isGap c || isLineEnd c then
        let (gap, cursor) := cursor.span isGap
        match cursor.lineBreak with
        | ([], cursor) => quotedFrom quote fuel (gap.reverse ++ done) cursor
        | (first, cursor) => do
          let (more, cursor) ← moreBreaks cursor
          quotedFrom quote fuel ((foldLines first more).reverse ++ done) cursor
      else if quote = .double && c = '"' then some (done.reverse, cursor.step)
      else if quote = .double && c = '\\' then do
        let (text, cursor) ← escaped? cursor.step
        quotedFrom quote fuel (text.reverse ++ done) cursor
      else if quote = .single && c = '\'' then
        if rest.head? = some '\'' then quotedFrom quote fuel ('\'' :: done) (cursor.skip 2)
        else some (done.reverse, cursor.step)
      else quotedFrom quote fuel (c :: done) cursor.step

/-- Reads a quoted scalar from behind its opening quote. -/
def quoted? (quote : Quote) (cursor : Cursor) : Option (Text × Cursor) :=
  quotedFrom quote (cursor.rest.length + 1) [] cursor

end Yaml
end UsageOrder
