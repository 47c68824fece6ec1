import StaticLiteral.Command.Run
import StaticLiteral.Command.Timestamp
import StaticLiteral.ParseTree.Listing
import Std.Time.DateTime.Timestamp

/-!
# The command

Reads the files named on the command line, and beside each of them the listing of its parse tree
under the same name with `.tree` added, and reports what they denote.
-/

namespace StaticLiteral.Main

open Command

/-- A text as a string of the operating system. -/
def osString (t : Text) : String := String.ofList (t.map Char.ofNat)

/-- What is found under a name. -/
def find (storage : Storage) (path : Text) : IO Storage := do
  try
    let bytes ← IO.FS.readBinFile (osString path)
    return storage.reveal path (.file bytes.toList)
  catch
    | .inappropriateType _ 20 _ => return storage.reveal (Path.directory path) (.file [])
    | .inappropriateType .. => return storage.reveal path .directory
    | _ => return storage

/-- The text of a file and its tree, if both are there. -/
def findTree (storage : Storage) (path : Text) : IO (List (Text × ParsedSource)) := do
  let .ok bytes := storage.read path | return []
  try
    let listing ← IO.FS.readBinFile (osString (path ++ Text.ofString ".tree"))
    return (ParsedSource.ofListing? (Utf8.decode listing.toList)).toList.map
      fun tree => (Utf8.decode bytes, tree)
  catch _ => return []

/-- Writes text to a stream. -/
def put (stream : IO.FS.Stream) (t : Text) : IO Unit := do
  stream.write (ByteArray.mk (Utf8.encode t).toArray)
  stream.flush

/-- The form of a call. -/
def usage : String :=
  "usage: static_literal [-h] [--target TARGET] [--out OUT] [--debug] files [files ...]\n"

/-- The current moment. -/
def now : IO Text := do
  let moment ← Std.Time.Timestamp.now
  return Timestamp.ofMicroseconds (moment.toNanosecondsSinceUnixEpoch.val.toNat / 1000)

/-- Runs the command and writes what it leaves. -/
def run (arguments : Arguments) : IO UInt32 := do
  let storage ← arguments.files.foldlM find {}
  let trees := (← arguments.files.mapM (findTree storage)).flatten
  let parse : Grammar := fun _ text => (trees.lookup text).getD .unparsed
  match Command.runWith parse storage (← now) arguments with
  | .error _ =>
    put (← IO.getStderr) (Text.ofString "error: the report cannot be written\n")
    return 1
  | .ok outcome =>
    if let some path := arguments.out then
      if let .ok bytes := outcome.storage.read path then
        if !path.isEmpty then
          IO.FS.createDirAll (osString (Path.join Path.dot (Path.directory path)))
          IO.FS.writeBinFile (osString path) (ByteArray.mk bytes.toArray)
    put (← IO.getStdout) outcome.output
    put (← IO.getStderr) outcome.errorOutput
    return outcome.code.toUInt32

end StaticLiteral.Main

/-- The command. -/
def main (words : List String) : IO UInt32 := do
  match StaticLiteral.Command.Arguments.ofWords (words.map StaticLiteral.Text.ofString) with
  | .ok arguments => StaticLiteral.Main.run arguments
  | .error stop =>
    let stream ← if stop = .help then IO.getStdout else IO.getStderr
    StaticLiteral.Main.put stream (StaticLiteral.Text.ofString StaticLiteral.Main.usage)
    return stop.code.toUInt32
