import CodeSurvey.Command.Run

/-!
The program: it reads the folder it is called in, carries out the command that its arguments give,
prints what comes of it and writes the configuration file if the command changed it.
-/

namespace CodeSurvey

/-- The entries of a folder on disk. -/
partial def readEntries (entries : Array IO.FS.DirEntry) : IO Folder :=
  entries.toList.mapM fun e => do
    if ← e.path.isDir then return .folder e.fileName (← readEntries (← e.path.readDir))
    return .file e.fileName (← IO.FS.readBinFile e.path).toList

/-- Writes the configuration file if it is another one now. -/
def writeChanges (before after : Folder) : IO Unit := do
  match after.read? Config.filePath with
  | none => return
  | some content =>
    if before.read? Config.filePath == some content then return
    IO.FS.createDirAll (String.ofList (Path.directory Config.filePath.toList))
    IO.FS.writeBinFile Config.filePath ⟨content.toArray⟩

/-- What is said about a command that did not end well. -/
def complaint : Ending → Option String
  | .done | .failed => none
  | .refused (.badParameter (some message)) => some s!"Invalid value: {message}"
  | .refused _ => some "These arguments make no command."
  | .broken f => some f.message

end CodeSurvey

open CodeSurvey in
/-- Carries out the command that the arguments give. -/
def main (arguments : List String) : IO UInt32 := do
  let base ← IO.currentDir
  let before ← readEntries (← base.readDir)
  let outcome := Command.runArguments base.toString before arguments
  writeChanges before outcome.folder
  (← IO.getStdout).putStr (String.ofList outcome.text)
  if let some message := complaint outcome.ending then
    (← IO.getStderr).putStrLn s!"Error: {message}"
  return outcome.ending.code.toUInt32
