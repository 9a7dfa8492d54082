import Patchbay.Command.Run

/-!
The command line program.
-/

namespace Patchbay

/-- Whether the number of an error says that a path leads through a file.  It comes with either
sign. -/
def isThroughFile (code : UInt32) : Bool := code == 20 || code == 0 - 20

def readEntry (p : Path) : IO FileEntry := do
  try
    let octets ← IO.FS.readBinFile p.text
    return .file (octets.toList.map UInt8.toNat)
  catch
    | .noFileOrDirectory .. => return .missing
    | .inappropriateType _ code _ => return if isThroughFile code then .blocked else .directory
    | e => throw e

def fileSystem : FileSource IO := ⟨readEntry⟩

end Patchbay

open Patchbay in
def main (arguments : List String) : IO UInt32 := do
  match Command.Invocation.read arguments with
  | .error stop =>
    IO.eprint stop.text
    return UInt32.ofNat stop.exitCode
  | .ok invocation =>
    match ← invocation.run fileSystem with
    | .ok result =>
      IO.print result.output
      IO.eprint result.errors
      return UInt32.ofNat result.exitCode
    | .error fault =>
      IO.eprintln fault.message
      return 1
