import Frontend.Command.Run

/-! # Folders

A folder to run the command in: files, and folders without anything in them.
A path is followed name by name, from the folder on. Nothing is known of what
lies around it.
-/

namespace Frontend.Command

/-- The items of a folder by name, with the bytes of those that are files. -/
structure Folder where
  items : List (String × Option ByteArray)

namespace Folder

/-- Where the names of a path have led so far. -/
inductive Spot where
  /-- The folder itself. -/
  | here
  /-- A folder around it. -/
  | above
  /-- A folder in it. -/
  | below
  | file (bytes : ByteArray)
  | lost (reason : String)

/-- Follow one more name. An empty one, like a single dot, leads nowhere else, but only
a folder has names to follow at all. -/
def follow (folder : Folder) : Spot → String → Spot
  | .lost reason, _ => .lost reason
  | .file _, _ => .lost Entry.notAFolder
  | spot, "" => spot
  | spot, "." => spot
  | .below, ".." => .here
  | _, ".." => .above
  | .here, name =>
    match folder.items.lookup name with
    | some (some bytes) => .file bytes
    | some none => .below
    | none => .lost Entry.notFound
  | _, _ => .lost Entry.notFound

def Spot.entry : Spot → Entry
  | here | above | below => .unreadable Entry.isAFolder
  | file bytes => .file bytes
  | lost reason => .unreadable reason

def entry (folder : Folder) (path : String) : Entry :=
  let start := if path.startsWith "/" then Spot.above else .here
  ((path.splitOn "/").foldl folder.follow start).entry

end Folder

end Frontend.Command
