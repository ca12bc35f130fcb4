import ComHeaders.Gzip.Member
import ComHeaders.Json.Reader
import ComHeaders.Metadata.Repository
import ComHeaders.Workspace

/-!
# Loading a metadata dump

A dump is a JSON document in a file, possibly compressed.  Whether it is compressed is seen
from its first bytes and not from its name.
-/

namespace ComHeaders

namespace Repository

/-- The document in a text.  An integer too long to be read is a fault of its own, and so is half
a character. -/
def parseDocument (path : Path) (data : ByteArray) : Except Failure Value :=
  match String.fromUTF8? data with
  | none => throw (.notJson path.text)
  | some text => match Json.read text with
    | .ok v => return v
    | .error .syntaxError => throw (.notJson path.text)
    | .error .hugeInteger => throw (.fault .unreadableNumber)
    | .error .halfCharacter => throw (.fault .halfCharacter)

/-- The bytes of a dump, decompressed. -/
def readDump (path : Path) : Work ByteArray := do
  let data ← Work.read path
  if Gzip.isCompressed data then
    note (.plain .loader .debug s!"Decompressing {path.text} ({data.size} bytes)")
    Work.ofExcept (faulty (Gzip.decompress data))
  else return data

/-- The repository of the dump in a file. -/
def load (path : Path) : Work Repository :=
  timed .loader "MetadataLoader.load" do
    let data ← readDump path
    let document ← Work.ofExcept (parseDocument path data)
    let r ← Work.ofLogged (ofDocument document)
    note (.plain .loader .info s!"Loaded {r.size} type definitions from {path.text}")
    return r

end Repository

end ComHeaders
