namespace Lox.CommandLine

/-!
# Directories

A directory holds files and other directories by their paths.  A path is walked
step by step, so that a way up from a missing directory leads nowhere.
-/

/-- What a path leads to. -/
inductive Entry where
  | missing
  | directory
  | file (bytes : List UInt8)
  deriving Repr, DecidableEq

/-- The names along a path from the directory itself. -/
abbrev Route :=
  List String

/--
The files of a directory by their routes, and the routes of the directories in it.
-/
structure Directory where
  files : List (Route × List UInt8)
  directories : List Route
  deriving Repr, DecidableEq

/-- Cut a path at its slashes. -/
def splitPath :
    List Char → List (List Char)
  | [] => [[]]
  | character :: rest =>
      match splitPath rest with
      | [] => [[character]]
      | step :: steps =>
          if character = '/' then
            [] :: step :: steps
          else
            (character :: step) :: steps

/-- The steps of a path; empty ones and single dots lead nowhere else. -/
def pathSteps
    (path : String) :
    List String :=
  ((splitPath path.toList).map String.ofList).filter fun step =>
    step ≠ "" && step ≠ "."

namespace Directory

/-- The directory with files and directories at the given paths. -/
def ofPaths
    (files : List (String × List UInt8))
    (directories : List String) :
    Directory where
  files := files.map fun (path, bytes) => (pathSteps path, bytes)
  directories := directories.map pathSteps

/-- A route leads to a directory if one is there, or anything below it is. -/
def isDirectory
    (directory : Directory)
    (route : Route) :
    Bool :=
  route.isEmpty ||
    directory.directories.any route.isPrefixOf ||
    directory.files.any fun file => route.isPrefixOf file.1 && route ≠ file.1

/-- What a route leads to. -/
def entryAt
    (directory : Directory)
    (route : Route) :
    Entry :=
  match directory.files.lookup route with
  | some bytes => .file bytes
  | none => if directory.isDirectory route then .directory else .missing

/-- Walk steps from a route; only directories can be walked through. -/
def walk
    (directory : Directory) :
    Route → List String → Entry
  | route, [] => directory.entryAt route
  | route, step :: rest =>
      if directory.isDirectory route then
        directory.walk
          (if step = ".." then route.dropLast else route ++ [step]) rest
      else
        .missing

/-- What a path leads to; paths from the root of the file system are outside. -/
def entry
    (directory : Directory)
    (path : String) :
    Entry :=
  if path.isEmpty || path.toList.head? = some '/' then
    .missing
  else
    directory.walk [] (pathSteps path)

end Directory

end Lox.CommandLine
