import ComHeaders.Text.Quoted

/-!
# Faults

A fault is something wrong with the surroundings of a run and not with the rules of
header generation: a value of a kind that does not admit an operation, a number that
cannot be read, a stream that ends early, a path that cannot be used.  Each fault has
a tag, by which messages and log lines call it.  Some have a text of their own, and those
of files and paths are worded the way the system words them.
-/

namespace ComHeaders

/-- What can be wrong with the surroundings of a run. -/
inductive Fault where
  /-- An object lacks a member. -/
  | missingKey (key : String)
  /-- A value of a kind that the operation does not admit. -/
  | wrongKind
  /-- A member was asked of something that is no object. -/
  | notAnObject
  /-- A text or a not-a-number stands where a number is read. -/
  | unreadableNumber
  /-- A column whose width is negative, or no possible length. -/
  | badWidth
  /-- There is no room for a text of the length that is asked for. -/
  | noRoom
  /-- An attribute has fewer arguments than are read. -/
  | missingArgument
  /-- A number beyond the range of the type it is converted to. -/
  | outOfRange
  /-- A GUID attribute with a number of arguments other than eleven. -/
  | guidArity (count : Nat)
  /-- A compressed stream ends before its end marker. -/
  | truncatedStream
  /-- A compressed stream with a bad frame: magic, method, checksum or length. -/
  | badFrame
  /-- A compressed stream with bad contents. -/
  | corruptStream
  | fileNotFound (path : String)
  | fileExists (path : String)
  | isDirectory (path : String)
  | notDirectory (path : String)
  /-- A path that is too long, or goes through a name that is. -/
  | nameTooLong (path : String)
  /-- The system refuses what is to be done at a path. -/
  | permissionDenied (path : String)
  /-- A null character stands where the system takes none. -/
  | nullCharacter
  /-- A variable has a name that no environment can hold. -/
  | illegalName
  /-- Bytes that are no UTF-8 text. -/
  | badEncoding
  /-- Half a character stands in a text. -/
  | halfCharacter
  /-- A text that the console cannot show. -/
  | unencodable
  /-- Something leads on to itself and is followed until there is no room left. -/
  | tooDeep
  /-- Neither metadata nor a path to it was given. -/
  | noMetadata
  /-- The configured metadata file does not exist. -/
  | metadataNotFound (path : String)
  /-- The configured metadata path is no regular file. -/
  | notAFile (path : String)
  /-- No header profile covers the namespace. -/
  | unknownProfile (namespaceName : String)
  /-- A failure raised by the caller with a text of its own. -/
  | raised (text : String)
  deriving DecidableEq, Repr

namespace Fault

/-- The tag under which a fault is reported. -/
def tag : Fault → String
  | missingKey _ | unknownProfile _ => "KeyError"
  | wrongKind => "TypeError"
  | notAnObject => "AttributeError"
  | unreadableNumber | badWidth | guidArity _ | noMetadata | metadataNotFound _ | notAFile _
  | nullCharacter | illegalName => "ValueError"
  | missingArgument => "IndexError"
  | outOfRange => "OverflowError"
  | noRoom => "MemoryError"
  | truncatedStream => "EOFError"
  | badFrame => "BadGzipFile"
  | corruptStream => "zlib.error"
  | fileNotFound _ => "FileNotFoundError"
  | fileExists _ => "FileExistsError"
  | isDirectory _ => "IsADirectoryError"
  | notDirectory _ => "NotADirectoryError"
  | nameTooLong _ => "OSError"
  | permissionDenied _ => "PermissionError"
  | badEncoding => "UnicodeDecodeError"
  | halfCharacter => "UnicodeError"
  | unencodable => "UnicodeEncodeError"
  | tooDeep => "RecursionError"
  | raised _ => "RuntimeError"

/-- The text of the faults whose wording is fixed. -/
def text? : Fault → Option String
  | missingKey key => some key
  | unknownProfile n => some s!"No header profile for namespace: {n}"
  | guidArity n => some s!"GuidAttribute expects 11 arguments, got {n}"
  | noMetadata => some "Either metadata_path or repository is required"
  | metadataNotFound path => some s!"Metadata file not found: {path}"
  | notAFile path => some s!"Not a file: {path}"
  | raised text => some text
  | _ => none

/-- The text of a fault as the system words it; its tag where the system leaves it to the
tag. -/
def wording : Fault → String
  | permissionDenied path => s!"[Errno 13] Permission denied: {quoted path}"
  | fileNotFound path => s!"[Errno 2] No such file or directory: {quoted path}"
  | fileExists path => s!"[Errno 17] File exists: {quoted path}"
  | notDirectory path => s!"[Errno 20] Not a directory: {quoted path}"
  | isDirectory path => s!"[Errno 21] Is a directory: {quoted path}"
  | nameTooLong path => s!"[Errno 36] File name too long: {quoted path}"
  | nullCharacter => "embedded null byte"
  | illegalName => "illegal environment variable name"
  | f => f.tag

/-- The fault as it is cited inside the message about a malformed definition: its tag,
and for a missing member the member's name as well. -/
def citation : Fault → String
  | missingKey key => "KeyError(" ++ quoted key ++ ")"
  | f => f.tag

end Fault

end ComHeaders
