import BufferPool.Bytes

/-! # Places in a file system

What a path leads to, as far as opening a file there can tell, and why a file
cannot be opened.
-/

namespace BufferPool

inductive IoError where
  | notFound
  | isDirectory
  | other (text : String)
  deriving DecidableEq, Repr

def IoError.message : IoError → String
  | notFound => "No such file or directory (os error 2)"
  | isDirectory => "Is a directory (os error 21)"
  | other text => text

/-- What has a name: a file, a directory, nothing yet, or nothing in a directory that does not
exist. -/
inductive Place where
  | file (contents : Bytes)
  | vacant
  | directory
  | orphaned
  deriving DecidableEq

namespace Place

/-- The contents of the file, which is created empty if the name is vacant. -/
def openOrCreate : Place → Except IoError Bytes
  | file contents => .ok contents
  | vacant => .ok []
  | directory => .error .isDirectory
  | orphaned => .error .notFound

/-- The contents of the file, which has to exist. -/
def contents : Place → Except IoError Bytes
  | file contents => .ok contents
  | directory => .error .isDirectory
  | vacant | orphaned => .error .notFound

end Place

end BufferPool
