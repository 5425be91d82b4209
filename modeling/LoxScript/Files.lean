import LoxScript.Path

/-!
# Files

A small tree of files and directories, with the ways in which reading and creating a file can fail.
Paths are followed name by name from the working directory: each name but the last must be that of a
directory, and a slash at the end asks for a directory too.
-/

namespace LoxScript

/-- Why a file cannot be used. -/
inductive FileFault.Cause where
  | notFound
  | notDirectory
  | isDirectory
  /-- Any other reason that a system may give. -/
  | other (reason : Bytes)
  deriving DecidableEq

/-- What was being done with a file. -/
inductive FileFault.Action where
  | opening
  | reading
  deriving DecidableEq

/-- A file that cannot be used. -/
structure FileFault where
  action : FileFault.Action
  path : Bytes
  cause : FileFault.Cause
  deriving DecidableEq

/-- The message for a file that cannot be used. -/
def FileFault.message (f : FileFault) : Bytes :=
  let action := match f.action with
    | .opening => utf8 "open "
    | .reading => utf8 "read "
  let cause := match f.cause with
    | .notFound => utf8 "no such file or directory"
    | .notDirectory => utf8 "not a directory"
    | .isDirectory => utf8 "is a directory"
    | .other reason => reason
  action ++ f.path ++ utf8 ": " ++ cause

/-- A file or directory and where it is: the names that lead to it from the working directory. -/
structure Files.Entry where
  place : List Bytes
  /-- The content of a file; a directory has none. -/
  content : Option Bytes
  deriving DecidableEq

/-- The files below a working directory.  A directory with something in it need not be listed. -/
structure Files where
  entries : List Files.Entry
  deriving DecidableEq

namespace Files

/-- The files given by their paths and contents.  A path with a slash at its end is that of a
directory, and has no content. -/
def ofList (paths : List (Bytes × Bytes)) : Files :=
  ⟨paths.map fun (path, content) =>
    ⟨(Path.names path).filter (· ≠ []),
      if path.getLast? = some Path.slash then none else some content⟩⟩

/-- What a path leads to. -/
inductive Target where
  | file (place : List Bytes) (content : Bytes)
  | directory (place : List Bytes)
  /-- Nothing, but it could be created in a directory that is there. -/
  | nothing (place : List Bytes)
  deriving DecidableEq

/-- What is at a place. -/
def at? (fs : Files) (place : List Bytes) : Target :=
  match fs.entries.find? fun e => e.place = place with
  | some ⟨_, some content⟩ => .file place content
  | some ⟨_, none⟩ => .directory place
  | none =>
    if place = [] ∨ fs.entries.any fun e => e.place.take place.length = place then .directory place
    else .nothing place

/-- Follows the names of a path from a place. -/
def follow (fs : Files) (here : Target) : List Bytes → Except FileFault.Cause Target
  | [] => .ok here
  | name :: rest =>
    match here with
    | .file _ _ => .error .notDirectory
    | .nothing _ => .error .notFound
    | .directory place =>
      if name = [] ∨ name = utf8 "." then fs.follow here rest
      else if name = utf8 ".." then fs.follow (fs.at? place.dropLast) rest
      else fs.follow (fs.at? (place ++ [name])) rest

/-- What a path leads to.  The empty path leads nowhere. -/
def resolve (fs : Files) (path : Bytes) : Except FileFault.Cause Target :=
  if path = [] then .error .notFound else fs.follow (.directory []) (Path.names path)

/-- The content of a file. -/
def read (fs : Files) (path : Bytes) : Except FileFault Bytes :=
  match fs.resolve path with
  | .ok (.file _ content) => .ok content
  | .ok (.directory _) => .error ⟨.reading, path, .isDirectory⟩
  | .ok (.nothing _) => .error ⟨.opening, path, .notFound⟩
  | .error cause => .error ⟨.opening, path, cause⟩

/-- The files after the one at a place has been given a content. -/
def put (fs : Files) (place : List Bytes) (content : Bytes) : Files :=
  ⟨⟨place, some content⟩ :: fs.entries.filter fun e => e.place ≠ place⟩

/-- The path without the slashes at its end. -/
def withoutSlash (path : Bytes) : Bytes :=
  (path.reverse.dropWhile (· = Path.slash)).reverse

/-- The files with an empty file at a path, and the place of it.  What stood in the file is lost.  A
path with a slash at its end can only be that of a directory, which is no file. -/
def create (fs : Files) (path : Bytes) : Except FileFault (Files × List Bytes) :=
  let fault := fun cause => .error ⟨.opening, path, cause⟩
  match fs.resolve path with
  | .ok (.file place _) | .ok (.nothing place) => .ok (fs.put place [], place)
  | .ok (.directory _) => fault .isDirectory
  | .error cause =>
    if withoutSlash path ≠ path ∧ (fs.resolve (withoutSlash path)).toBool then fault .isDirectory
    else fault cause

end Files

end LoxScript
