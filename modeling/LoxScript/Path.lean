import LoxScript.Text.Bytes

/-!
# Paths

A path is a text of names with slashes between them.  Cleaning a path leaves the shortest one with
the same meaning: no empty names, no `.`, and `..` only at the front of a relative path, where
nothing can be taken back.
-/

namespace LoxScript

namespace Path

/-- The byte between the names of a path. -/
def slash : UInt8 := 47

/-- The names between the slashes, empty ones included. -/
def names : Bytes → List Bytes
  | [] => [[]]
  | b :: rest =>
    if b = slash then [] :: names rest
    else
      match names rest with
      | [] => [[b]]
      | name :: others => (b :: name) :: others

/-- Does the path start at the root? -/
def isRooted (path : Bytes) : Bool :=
  path.head? = some slash

/-- One more name after names that are already clean, which are given from the last to the first. -/
def step (rooted : Bool) (done : List Bytes) (name : Bytes) : List Bytes :=
  if name = [] ∨ name = utf8 "." then done
  else if name = utf8 ".." then
    match done with
    | [] => if rooted then [] else [name]
    | last :: before => if last = utf8 ".." then name :: done else before
  else name :: done

/-- The shortest path with the same meaning. -/
def clean (path : Bytes) : Bytes :=
  let rooted := isRooted path
  let kept := ((names path).foldl (step rooted) []).reverse
  let joined := [slash].intercalate kept
  if rooted then slash :: joined
  else if joined = [] then utf8 "."
  else joined

/-- The path of a name below a directory, cleaned. -/
def join (directory name : Bytes) : Bytes :=
  match directory, name with
  | [], [] => []
  | [], _ => clean name
  | _, [] => clean directory
  | _, _ => clean (directory ++ slash :: name)

end Path

end LoxScript
