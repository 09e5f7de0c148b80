/-!
# Files as the system gives them

A path leads to some bytes, to nothing, or to a directory, and only the first can be read.
-/

namespace LoxLang

/-- What the system answers when asked for a file. -/
inductive FileContent where
  | bytes (content : List UInt8)
  | missing
  | directory

namespace FileContent

/-- The words for a path that leads nowhere. -/
def missingText (path : String) : String := "open " ++ path ++ ": no such file or directory"

/-- The words for a path that leads to a directory. -/
def directoryText (path : String) : String := "read " ++ path ++ ": is a directory"

/-- The bytes of a file, or the words for why there are none. -/
def read (path : String) : FileContent → Except String (List UInt8)
  | .bytes content => .ok content
  | .missing => .error (missingText path)
  | .directory => .error (directoryText path)

end FileContent

end LoxLang
