import UsageOrder.Files.Entry

/-!
# Archives as bytes

An archive is a sequence of records, one for every file and every directory, in a wrapper of
stored blocks.

| part | layout |
|---|---|
| wrapper | ten bytes of head, the blocks, the check of the records and their length |
| block | a mark (one for the last block), the length twice (the second time inverted), the bytes |
| record | a head of 512 bytes, the content, zeros up to a multiple of 512 |
| head | name, modes, size in octal digits, sum of the head's own bytes, kind |

A name of more than a hundred bytes is the content of a record of its own in front.  Only wrappers
whose blocks are stored, not compressed, are read.
-/

namespace UsageOrder
namespace Archive

/-- The lowest bytes of a number, the lowest first. -/
def lowBytes (width n : Nat) : List UInt8 :=
  (List.range width).map fun i => UInt8.ofNat (n / Nat.pow 256 i)

/-- The number with the given bytes, the lowest first. -/
def ofLowBytes (bytes : List UInt8) : Nat := bytes.foldr (fun byte n => byte.toNat + 256 * n) 0

/-- The bytes of a text. -/
def textBytes (s : String) : List UInt8 := s.toUTF8.toList

/-- One shift of the remainder of the cyclic check. -/
def shiftCheck (remainder : UInt32) : UInt32 :=
  if remainder &&& 1 = 1 then (remainder >>> 1) ^^^ 0xEDB88320 else remainder >>> 1

/-- The cyclic check of bytes. -/
def check (bytes : List UInt8) : Nat :=
  let remainder := bytes.foldl (fun remainder byte =>
    (List.range 8).foldl (fun r _ => shiftCheck r) (remainder ^^^ byte.toUInt32)) 0xFFFFFFFF
  (remainder ^^^ 0xFFFFFFFF).toNat

/-- The greatest length of a stored block. -/
def longestBlock : Nat := 65535

/-- A stored block. -/
def block (isLast : Bool) (bytes : List UInt8) : List UInt8 :=
  (if isLast then 1 else 0) :: lowBytes 2 bytes.length ++ lowBytes 2 (longestBlock - bytes.length) ++
    bytes

/-- Bytes in stored blocks. -/
def blocks (bytes : List UInt8) : List UInt8 :=
  if bytes.length ≤ longestBlock then block true bytes
  else block false (bytes.take longestBlock) ++ blocks (bytes.drop longestBlock)
termination_by bytes.length
decreasing_by simp only [longestBlock, List.length_drop] at *; omega

/-- The bytes in stored blocks, read in at most as many steps as there are blocks. -/
def ofBlocks? : Nat → List UInt8 → Option (List UInt8)
  | steps + 1, mark :: low :: high :: _ :: _ :: rest =>
    let length := ofLowBytes [low, high]
    if mark = 1 then some (rest.take length)
    else if mark = 0 then (ofBlocks? steps (rest.drop length)).map (rest.take length ++ ·)
    else none
  | _, _ => none

/-- The head of the wrapper. -/
def wrapperHead : List UInt8 := [31, 139, 8, 0, 0, 0, 0, 0, 0, 255]

/-- Bytes in the wrapper. -/
def wrap (bytes : List UInt8) : List UInt8 :=
  wrapperHead ++ blocks bytes ++ lowBytes 4 (check bytes) ++ lowBytes 4 bytes.length

/-- The bytes in a wrapper. -/
def unwrap? (bytes : List UInt8) : Option (List UInt8) :=
  if [31, 139, 8, 0].isPrefixOf bytes then ofBlocks? bytes.length (bytes.drop wrapperHead.length)
  else none

/-- A field of a head: the bytes, with zeros behind them. -/
def field (width : Nat) (bytes : List UInt8) : List UInt8 :=
  bytes.take width ++ List.replicate (width - bytes.length) 0

/-- A field with a number in octal digits. -/
def octal (width n : Nat) : List UInt8 :=
  let ds := (Nat.toDigits 8 n).map fun d => UInt8.ofNat d.toNat
  List.replicate (width - 1 - ds.length) 48 ++ ds ++ [0]

/-- The kinds of record: a file, a directory, a long name. -/
inductive Kind where
  | file
  | directory
  | longName
deriving DecidableEq

namespace Kind

/-- The byte for a kind of record. -/
def byte : Kind → UInt8
  | .file => 48
  | .directory => 53
  | .longName => 76

/-- The kind of record that a byte stands for. -/
def ofByte? (byte : UInt8) : Option Kind :=
  [Kind.file, .directory, .longName].find? fun kind => decide (kind.byte = byte)

end Kind

/-- The head of a record. -/
def head (kind : Kind) (name : List UInt8) (size : Nat) : List UInt8 :=
  let mode := if kind = .directory then 493 else 420
  let front := field 100 name ++ octal 8 mode ++ octal 8 0 ++ octal 8 0 ++ octal 12 size ++ octal 12 0
  let back := kind.byte :: field 100 [] ++ field 6 (textBytes "ustar") ++ [48, 48] ++ field 247 []
  let sum := (front ++ List.replicate 8 32 ++ back).foldl (fun n (byte : UInt8) => n + byte.toNat) 0
  front ++ octal 7 sum ++ [32] ++ back

/-- A record. -/
def record (kind : Kind) (name content : List UInt8) : List UInt8 :=
  head kind name content.length ++ content ++
    List.replicate ((512 - content.length % 512) % 512) 0

/-- A record with the name in front of it if that is long. -/
def namedRecord (kind : Kind) (name content : List UInt8) : List UInt8 :=
  (if name.length ≤ 100 then [] else record .longName (textBytes "././@LongLink") (name ++ [0])) ++
    record kind name content

/-- The bytes of a file's content. -/
def contentBytes : Content → List UInt8
  | .text value => textBytes (String.ofList value)
  | .bytes value => value

/-- The bytes of the name of a place. -/
def placeBytes (place : List String) : List UInt8 := textBytes ("/".intercalate place)

mutual
/-- The records of an entry at a place and of all below it. -/
def records : Entry → List String → List UInt8
  | .file content _, place => namedRecord .file (placeBytes place) (contentBytes content)
  | .archive inner packed _, place =>
    namedRecord .file (placeBytes place) (wrap (records packed inner ++ List.replicate 1024 0))
  | .directory members _, place =>
    namedRecord .directory (placeBytes place ++ [47]) [] ++ recordsOfMembers members place
termination_by structural entry => entry

/-- The records of the members of a directory. -/
def recordsOfMembers : List (String × Entry) → List String → List UInt8
  | [], _ => []
  | member :: members, place => recordsOfMember member place ++ recordsOfMembers members place
termination_by structural members => members

/-- The records of a member of a directory. -/
def recordsOfMember : String × Entry → List String → List UInt8
  | (name, entry), place => records entry (place ++ [name])
termination_by structural member => member
end

/-- The bytes of an archive of an entry that is unpacked to a place. -/
def encode (place : List String) (packed : Entry) : List UInt8 :=
  wrap (records packed place ++ List.replicate 1024 0)

/-- The number in a field of octal digits. -/
def octalValue (bytes : List UInt8) : Nat :=
  (bytes.takeWhile fun byte => 48 ≤ byte && byte ≤ 55).foldl (fun n byte => 8 * n + byte.toNat - 48) 0

/-- The parts of the name in a field. -/
def nameParts (bytes : List UInt8) : List String :=
  match String.fromUTF8? (bytes.takeWhile (· ≠ 0)).toByteArray with
  | some name => ((Text.pieces '/' name.toList).filter (· ≠ [])).map String.ofList
  | none => []

/-- The entry with the directories above a place. -/
def withDirectories (top : Entry) (place : List String) : Entry :=
  (List.range place.length).foldl (fun top count =>
    match top.at? (place.take (count + 1)) with
    | some _ => top
    | none => top.put (place.take (count + 1)) (.directory [] none)) top

/-- Puts the entries of records into a directory, in at most as many steps as there are records;
`longName` is the name for the next record. -/
def unpack : Nat → Option (List String) → Entry → List UInt8 → Entry
  | 0, _, top, _ => top
  | steps + 1, longName, top, bytes =>
    match bytes with
    | [] => top
    | 0 :: _ => top
    | _ =>
      let size := octalValue ((bytes.drop 124).take 12)
      let content := (bytes.drop 512).take size
      let rest := bytes.drop (512 + (size + 511) / 512 * 512)
      let place := longName.getD (nameParts (bytes.take 100))
      match ((bytes.drop 156).head?).bind Kind.ofByte? with
      | some .longName => unpack steps (some (nameParts content)) top rest
      | some .file =>
        let above := withDirectories top place.dropLast
        unpack steps none (above.put place (.file (Content.ofBytes content) none)) rest
      | some .directory => unpack steps none (withDirectories top place) rest
      | none => unpack steps none top rest

/-- The place and the entry in the bytes of an archive, which holds one entry at its top. -/
def decode? (bytes : List UInt8) : Option (List String × Entry) :=
  match unwrap? bytes with
  | none => none
  | some bytes =>
    match unpack bytes.length none (.directory [] none) bytes with
    | .directory [(name, packed)] _ => some ([name], packed)
    | _ => none

end Archive
end UsageOrder
