import HookTrace.Limits
import HookTrace.Field
import HookTrace.Fault

/-!
# HookTrace.File.OpenFile

Open files as the file hooks see them.

* `OpenFile`: an identity that is stable while the file is open, and three answers that may each
  be a fault. A name is the bytes written for it, terminator included.
* `OpenFile.basenameInto`, `fullPathInto`: the names as they change a destination.
* `Opened`: a file all of whose facts are known, named by its path.
-/

namespace HookTrace.File

structure OpenFile where
  identity : UInt64
  isRegular : Except Fault Bool
  /-- The last component of the path, cut to fit a file name field. -/
  basename : Except Fault Bytes
  /-- The whole path. Only some hooks may ask for it. -/
  fullPath : Except Fault Bytes

namespace OpenFile

/-- Writes a name into a field, and says what is in it then. -/
def nameInto {n : Nat} (name : Except Fault Bytes) (dest : Field n) :
    Except Fault Unit × Field n :=
  match name with
  | .ok bytes => (.ok (), dest.overwrite bytes)
  | .error fault => (.error fault, dest)

def basenameInto (file : OpenFile) (dest : Field Limits.filename) :
    Except Fault Unit × Field Limits.filename :=
  nameInto file.basename dest

def fullPathInto (file : OpenFile) (dest : Field Limits.filename) :
    Except Fault Unit × Field Limits.filename :=
  nameInto file.fullPath dest

end OpenFile

structure Opened where
  identity : UInt64
  /-- Not a pipe, socket or device. -/
  regular : Bool := true
  path : Bytes

namespace Opened

def separator : UInt8 := 0x2f

/-- What stands behind the last separator, all of the path if there is none. -/
def lastComponent (path : Bytes) : Bytes :=
  (path.reverse.takeWhile (· ≠ separator)).reverse

/-- Cut to leave room for the terminator, and terminated. -/
def terminated (name : Bytes) : Bytes :=
  name.take (Limits.filename - 1) ++ [0]

/-- The error number for a name that is too long. -/
def nameTooLong : Int64 := -36

/-- A last component that does not fit is cut; a path that does not fit is refused. -/
def view (file : Opened) : OpenFile where
  identity := file.identity
  isRegular := .ok file.regular
  basename := .ok (terminated (lastComponent file.path))
  fullPath :=
    if file.path.length ≥ Limits.filename then .error (.noPath "d_path" nameTooLong)
    else .ok (terminated file.path)

end Opened

end HookTrace.File
