import SymbolicVM.Dict
import SymbolicVM.Text.Split

/-!
# Files as a value

A directory of files by path. Programs read it and leave another one behind.
-/

namespace SymbolicVM

/-- The content of a file or stream. -/
abbrev Bytes := List UInt8

namespace Bytes

/-- The bytes of a text. -/
def ofText (s : String) : Bytes :=
  s.toUTF8.toList

/-- The text that bytes encode, if they encode one. -/
def text? (bytes : Bytes) : Option String :=
  String.fromUTF8? bytes.toByteArray

/-- The text that bytes encode; where they encode none, bytes outside of ASCII are replaced. -/
def text (bytes : Bytes) : String :=
  (text? bytes).getD <| String.ofList <|
    bytes.map fun b => if b < 128 then Char.ofNat b.toNat else Char.ofNat 0xFFFD

end Bytes

/-- Files by path. -/
abbrev Directory := Dict Bytes

namespace Directory

/-- A path without the parts that lead nowhere. -/
def normal (path : String) : String :=
  let parts := (Text.splitWhere (fun c => c == '/') path.toList).filter fun part =>
    !part.isEmpty && part != ['.']
  (if path.toList.head? == some '/' then "/" else "") ++
    String.intercalate "/" (parts.map String.ofList)

/-- The directory of texts by path. -/
def ofTexts (files : List (String × String)) : Directory :=
  Dict.ofList (files.map fun (path, text) => (normal path, Bytes.ofText text))

/-- The content of a file. -/
def read? (d : Directory) (path : String) : Option Bytes :=
  d.get? (normal path)

/-- The text of a file. -/
def readText? (d : Directory) (path : String) : Option String :=
  (d.read? path).bind Bytes.text?

/-- The directory with a file written anew. -/
def write (d : Directory) (path : String) (bytes : Bytes) : Directory :=
  d.insert (normal path) bytes

/-- The directory with bytes added to the end of a file. -/
def append (d : Directory) (path : String) (bytes : Bytes) : Directory :=
  d.write path ((d.read? path).getD [] ++ bytes)

end Directory

end SymbolicVM
