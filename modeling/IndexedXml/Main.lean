/-
# The command line program

Reads the files that a command line names, runs the command on them, and prints its
output, or its failure on the error stream.
-/

import IndexedXml.Cli.Run

namespace IndexedXml
namespace Cli

/-- The text of a file, if it can be read. -/
def readText (path : String) : IO (Option String) := do
  try
    let text ← IO.FS.readFile path
    pure (some text)
  catch _ => pure none

/-- The names in a directory, if it can be read. -/
def listNames (path : String) : IO (Option (List String)) := do
  try
    let directory ← IO.FS.realPath path
    let entries ← directory.readDir
    pure (some (entries.toList.map fun entry => entry.fileName))
  catch _ => pure none

/-- What can be read under a path, as a list to look it up in. -/
def entry {α : Type} (path : String) (content : Option α) : List (String × α) :=
  content.toList.map (path, ·)

/-- The directories that a command names, with what is in them. -/
def readDirectories (directories : List String) :
    IO (List (String × List String) × List (String × String)) := do
  let mut listings := []
  let mut texts := []
  for directory in directories do
    let names ← listNames directory
    listings := listings ++ entry directory names
    for name in documentNames (names.getD []) do
      let path := inDirectory directory name
      texts := texts ++ entry path (← readText path)
  pure (listings, texts)

/-- The paths of the configuration and of the directories that a command names. -/
def sources : Command → List String × List String
  | .query command => (command.config.toList, command.data)
  | .explain command => (command.config.toList, [])

/-- The files that a command line names. -/
def readFiles (args : List String) : IO Files := do
  let (configs, directories) := ((command? args).map sources).getD ([], [])
  let mut texts := []
  for path in configs do
    texts := texts ++ entry path (← readText path)
  let (listings, documents) ← readDirectories directories
  let all := texts ++ documents
  pure ⟨fun path => named? path all, fun path => named? path listings⟩

end Cli
end IndexedXml

/-- Runs the program on its arguments. -/
def main (args : List String) : IO UInt32 := do
  let files ← IndexedXml.Cli.readFiles args
  match IndexedXml.Cli.run files args with
  | .ok (_, output) =>
    if output.isEmpty then pure 0
    else
      IO.println output
      pure 0
  | .error cause =>
    IO.eprintln cause.message
    pure 1
