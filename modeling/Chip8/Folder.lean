import Chip8.LoadError

/-!
A folder of files without subfolders, and what opening a path from it answers. A path is a row of
names. It starts in the folder, or at the top when it begins with a slash, and an empty name or a
single dot stays where it is; so the empty path is the folder itself. The folder and those above it
are directories; nothing else outside of it can be found.
-/
namespace Chip8

structure Folder where
  files : List (String × List UInt8)

namespace Folder

-- Both limits count bytes.
def nameLimit : Nat := 255

def pathLimit : Nat := 4095

def stays (name : String) : Bool := name == "" || name == "."

/-- Whether a name in a path leads from a directory to itself or to the one above it. -/
def staysOrRises (name : String) : Bool := stays name || name == ".."

def read (folder : Folder) (path : String) : Except FileError (List UInt8) :=
  let names := path.splitOn "/"
  if path.contains '\x00' then .error .zeroCharacter
  else if pathLimit < path.utf8ByteSize then .error .tooLong
  else
    match names.dropWhile staysOrRises with
    | [] => .error .isDirectory
    | name :: deeper =>
      if nameLimit < name.utf8ByteSize then .error .tooLong
      else if path.startsWith "/" || names.dropWhile stays != name :: deeper then .error .notFound
      else
        match folder.files.lookup name with
        | none => .error .notFound
        | some content => if deeper = [] then .ok content else .error .notDirectory

end Folder

end Chip8
