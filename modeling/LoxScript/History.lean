import LoxScript.Files

/-!
# The history of sessions

The lines typed in sessions are kept in a file.  The store that holds them may itself fail; neither
that nor a file that cannot be used ends a session, but a warning is given.
-/

namespace LoxScript

namespace History

/-- The text of a history file as far as it can be loaded, and the warnings given.  The store may
fail for a reason instead of taking the text.  A file that is not there is an empty history. -/
def load (files : Files) (path : Bytes) (failure : Option Bytes) : Bytes × Bytes :=
  let unread := fun reason =>
    ([], Bytes.line (utf8 "warning: could not read history " ++ path ++ utf8 ": " ++ reason))
  match files.read path, failure with
  | .ok _, some reason => unread reason
  | .ok text, none => (text, [])
  | .error fault, _ =>
    match fault.action, fault.cause, failure with
    | .opening, .notFound, _ => ([], [])
    | .opening, _, _ =>
      ([], Bytes.line (utf8 "warning: could not open history: " ++ fault.message))
    | .reading, _, some reason => unread reason
    | .reading, _, none => unread fault.message

/-- The files after a history has been saved, and the warnings given.  The file is emptied before
the store writes the text to it, or fails for a reason. -/
def save (files : Files) (path text : Bytes) (failure : Option Bytes) : Files × Bytes :=
  match files.create path with
  | .error fault =>
    (files, Bytes.line (utf8 "warning: could not save history: " ++ fault.message))
  | .ok (emptied, place) =>
    match failure with
    | none => (emptied.put place text, [])
    | some reason =>
      (emptied, Bytes.line
        (utf8 "warning: could not write history " ++ path ++ utf8 ": " ++ reason))

end History

end LoxScript
