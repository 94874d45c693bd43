/-!
# Encoded text

Source files are read as UTF-8, with one byte order mark dropped from their beginning; a file that
is not UTF-8 is read as Latin-1, where every byte is a character.  A file that holds nothing but the
mark, be it cut short, is empty.  Other files are read as UTF-8 only.  All line ends become line
feeds.

## Main definitions

* `unifyLineEnds` — line feeds in place of all line ends.
* `decodeUtf8?`, `decodeSource` — the text of a file that has to be UTF-8, and of any file.
* `encode` — the bytes of a text.
-/

namespace StarlarkLint.Text

/-- Line feeds in place of carriage returns, with the line feeds behind them or without. -/
def unifyLineEnds : List Char → List Char
  | [] => []
  | '\r' :: '\n' :: cs => '\n' :: unifyLineEnds cs
  | '\r' :: cs => '\n' :: unifyLineEnds cs
  | c :: cs => c :: unifyLineEnds cs

/-- The byte order mark as a character. -/
def byteOrderMark : Char := '\ufeff'

/-- The bytes of the byte order mark. -/
def byteOrderMarkBytes : List UInt8 := [0xef, 0xbb, 0xbf]

/-- The characters without one byte order mark at their head. -/
def dropMark : List Char → List Char
  | c :: cs => if c = byteOrderMark then cs else c :: cs
  | [] => []

/-- Every byte as the character with its number. -/
def latin1 (bytes : ByteArray) : List Char := bytes.toList.map fun b => Char.ofNat b.toNat

/-- The characters of a source file, line ends as they are. -/
def sourceChars (bytes : ByteArray) : List Char :=
  -- a mark that is cut short is no UTF-8, and yet it is not read as Latin-1
  if bytes.toList.isPrefixOf byteOrderMarkBytes then []
  else match String.fromUTF8? bytes with
    | some text => dropMark text.toList
    | none => latin1 bytes

/-- The text of a source file. -/
def decodeSource (bytes : ByteArray) : String := String.ofList (unifyLineEnds (sourceChars bytes))

/-- The text of a file that has to be UTF-8. -/
def decodeUtf8? (bytes : ByteArray) : Option String :=
  (String.fromUTF8? bytes).map fun text => String.ofList (unifyLineEnds text.toList)

/-- The bytes of a text. -/
def encode (text : String) : ByteArray := text.toUTF8

end StarlarkLint.Text
