/-
# Loading files

What the commands read: a configuration, and directories of documents.  A directory
becomes a collection that is named for it, and each of its files whose extension is
`xml`, in capitals or not, becomes a document named for the file.  The files are taken
in the order of their names.

How a path leads to a text or a directory is left to `Files`.
-/

import IndexedXml.Query.Error
import IndexedXml.Store.Basic

namespace IndexedXml
namespace Cli

/-- The files that are there. -/
structure Files where
  /-- The text of the file under a path, if it can be read. -/
  read : String → Option String
  /-- The names in the directory under a path, if it can be read. -/
  list : String → Option (List String)

/-- Why a command fails. -/
inductive CliError where
  /-- The arguments are refused. -/
  | usage
  /-- The path of a directory ends in no name. -/
  | noCollectionName (path : String)
  /-- The store or a file refuses. -/
  | store (cause : StoreError)
  /-- The query is refused or fails. -/
  | query (cause : QueryError)
  deriving DecidableEq

/-- The report of a failure. -/
def CliError.message : CliError → String
  | usage => "usage: (query | explain) [OPTIONS] EXPR"
  | noCollectionName path => "cannot derive a collection name from " ++ path
  | store cause => cause.message
  | query cause => cause.code.text ++ ": " ++ cause.message

/-- The names in a path; empty ones and single points stand for nothing. -/
def pathNames (path : String) : List String :=
  (path.splitOn "/").filter fun name => name != "" && name != "."

/-- The name that a path ends in; two points are none. -/
def pathName? (path : String) : Option String :=
  (pathNames path).getLast?.filter fun name => name != ".."

/-- The characters after the last point of a name, which has to have some before it. -/
def extension? (name : String) : Option String :=
  let reversed := name.toList.reverse
  match reversed.dropWhile (· != '.') with
  | _ :: _ :: _ => some (.ofList (reversed.takeWhile (· != '.')).reverse)
  | _ => none

/-- Whether a file is taken for a document. -/
def isXmlName (name : String) : Bool :=
  ((extension? name).map fun s => s.toList.map Char.toLower == "xml".toList).getD false

/-- The documents in a directory, in the order of their names. -/
def documentNames (names : List String) : List String :=
  ascending (names.filter isXmlName)

/-- The path of a name in a directory. -/
def inDirectory (directory name : String) : String := directory ++ "/" ++ name

/-- The configuration under a path, or the standard one without a path. -/
def loadConfiguration (files : Files) : Option String → Except CliError Configuration
  | none => .ok .standard
  | some path =>
    match files.read path with
    | none => .error (.store (.unreadable path))
    | some text =>
      match Configuration.parse? text with
      | some config => .ok config
      | none => .error (.store .invalidConfiguration)

/-- The store with a document from a file. -/
def loadFile (files : Files) (uri directory : String) (s : Store) (name : String) :
    Except CliError Store :=
  let path := inDirectory directory name
  match files.read path with
  | none => .error (.store (.unreadable path))
  | some xml => ((s.storeXml uri name xml).mapError .store).map Prod.snd

/-- The store with the documents of a directory. -/
def loadDirectory (files : Files) (s : Store) (directory : String) : Except CliError Store :=
  match pathName? directory with
  | none => .error (.noCollectionName directory)
  | some name =>
    let uri := "/db/" ++ name
    let (_, s) := s.createCollection uri
    match files.list directory with
    | none => .error (.store (.unreadable directory))
    | some names => (documentNames names).foldlM (loadFile files uri directory) s

/-- **The store with the documents of all directories.** -/
def openStore (files : Files) (config : Configuration) (directories : List String) :
    Except CliError Store :=
  directories.foldlM (loadDirectory files) (.ofConfiguration config)

/-- The documents of some collections, or all documents when none is named. -/
def contextDocuments (s : Store) (uris : List String) : Except StoreError NodeSet :=
  if uris.isEmpty then .ok s.allDocuments
  else
    uris.foldlM
      (fun documents uri => do
        let more ← s.documentsUnder uri
        pure (documents.union more))
      .empty

end Cli
end IndexedXml
