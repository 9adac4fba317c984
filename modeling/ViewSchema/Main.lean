import ViewSchema.Command.Run

/-!
# The program

The command line on the files of the system.
-/

namespace ViewSchema

/-- Access to the files of the system. What cannot be looked at is not there. -/
def systemFiles : Files IO where
  kind? path :=
    try
      let real ← IO.FS.realPath path
      if ← real.isDir then return some .directory
      else if ← real.pathExists then return some .file
      else return none
    catch _ => return none
  read? path :=
    try return some (← IO.FS.readFile path)
    catch _ => return none
  names path :=
    try
      let real ← IO.FS.realPath path
      return (← real.readDir).toList.map fun entry => entry.fileName
    catch _ => return []

end ViewSchema

def main (args : List String) : IO UInt32 := do
  let result ← ViewSchema.runCommandLine ViewSchema.systemFiles args
  IO.print result.written
  if let some message := result.error then
    IO.eprintln ("Error: " ++ message)
  return UInt32.ofNat result.code
