import Collate.Stream

/-!
# File trees

A tree of directories, files and symbolic links held in memory, with paths that
are followed name by name: every directory on the way has to exist, `..` goes
back along the directories really passed, and a link is followed wherever it
stands. A program can run on such a tree in place of a disk.
-/

namespace Collate

/-- The names that lead from the root to a place, all of them real: none is `.`
or `..`, and none is a link. -/
abbrev Location := List Bytes

/-- What stands at a place. -/
inductive Node
  | directory
  | file (body : Bytes)
  /-- A file that is always empty, whatever is written to it. -/
  | void
  | link (target : Bytes)
  deriving DecidableEq

/-- The places of a tree other than the root, which is a directory, and the
directory where relative paths begin. -/
structure FileTree where
  nodes : List (Location × Node)
  working : Location

/-- Where following names has led. -/
inductive Walk
  /-- The last name is taken. Something may stand there or not. -/
  | reached (location : Location)
  /-- A link stands in a directory, with names still to follow after it. -/
  | linked (directory : Location) (target : Bytes) (rest : List Bytes)
  | blocked (failure : Failure)
  deriving DecidableEq

namespace FileTree

/-! ## Paths -/

/-- The octet between two names of a path. -/
def slash : UInt8 := 0x2F

/-- The name that stays in a directory. -/
def dot : Bytes := Bytes.ofText "."

/-- The name that leads back out of a directory. -/
def dotDot : Bytes := Bytes.ofText ".."

/-- The names that a path is written with. Slashes next to each other count as
one. -/
def writtenNames (path : Bytes) : List Bytes :=
  (Bytes.splitOn slash path).filter (!·.isEmpty)

/-- Tell whether a path asks for a directory by a slash at its end. -/
def endsInSlash (path : Bytes) : Bool :=
  path.getLast? == some slash

/-- The names to follow for a path. A slash at the end counts as a further `.`,
which only a directory has. -/
def names (path : Bytes) : List Bytes :=
  writtenNames path ++ (if endsInSlash path then [dot] else [])

/-- Where a path begins when it is met in a directory. -/
def origin (directory : Location) (path : Bytes) : Location :=
  if path.head? = some slash then [] else directory

/-- The longest name a directory takes. -/
def nameLimit : Nat := 255

/-- The length from which on a path is too long. -/
def pathLimit : Nat := 4096

/-- How many links may be followed on the way to one place. -/
def linkLimit : Nat := 40

/-! ## Places -/

/-- What stands at a place. -/
def node? (tree : FileTree) (location : Location) : Option Node :=
  if location.isEmpty then some .directory else tree.nodes.lookup location

/-- The tree with nothing at a place. -/
def erase (tree : FileTree) (location : Location) : FileTree :=
  { tree with nodes := tree.nodes.filter (·.1 != location) }

/-- The tree with a node at a place. -/
def put (tree : FileTree) (location : Location) (node : Node) : FileTree :=
  { tree with nodes := (location, node) :: (tree.erase location).nodes }

/-- Follow names from a directory up to the first link. A link at the very end
is a place itself unless it is to be followed. -/
def walk (tree : FileTree) (followLast : Bool) : Location -> List Bytes -> Walk
  | here, [] => .reached here
  | here, name :: rest =>
      if name = dot then tree.walk followLast here rest
      else if name = dotDot then tree.walk followLast here.dropLast rest
      else if nameLimit < name.length then .blocked .nameTooLong
      else
        let there := here ++ [name]
        match tree.node? there with
        | none => if rest.isEmpty then .reached there else .blocked .notFound
        | some .directory => tree.walk followLast there rest
        | some (.link target) =>
            if rest.isEmpty && !followLast then .reached there
            else .linked here target rest
        | some _ => if rest.isEmpty then .reached there else .blocked .notADirectory

/-- Follow names from a directory, and links as long as some are left. -/
def resolve
    (tree : FileTree)
    (followLast : Bool) :
    Nat -> Location -> List Bytes -> Except Failure Location
  | 0, here, rest =>
      match tree.walk followLast here rest with
      | .reached location => .ok location
      | .linked .. => .error .filesystemLoop
      | .blocked failure => .error failure
  | links + 1, here, rest =>
      match tree.walk followLast here rest with
      | .reached location => .ok location
      | .linked directory target rest =>
          tree.resolve followLast links (origin directory target) (names target ++ rest)
      | .blocked failure => .error failure

/-- The place that names written as a path lead to. -/
def locateNames
    (tree : FileTree)
    (followLast : Bool)
    (path : Bytes)
    (toFollow : List Bytes) : Except Failure Location :=
  if 0 ∈ path then .error .zeroOctet
  else if path.isEmpty then .error .notFound
  else if pathLimit ≤ path.length then .error .nameTooLong
  else tree.resolve followLast linkLimit (origin tree.working path) toFollow

/-- The place a path leads to. -/
def locate
    (tree : FileTree)
    (followLast : Bool)
    (path : Bytes) : Except Failure Location :=
  tree.locateNames followLast path (names path)

/-- The place of a path's last name, whether or not a slash follows it. -/
def locateEntry (tree : FileTree) (path : Bytes) : Except Failure Location :=
  tree.locateNames false path (writtenNames path)

/-- Tell whether nothing stands below a place. -/
def isBare (tree : FileTree) (location : Location) : Bool :=
  tree.nodes.all fun (other, _) => other == location || !location.isPrefixOf other

/-! ## Reading and changing -/

/-- What reading the file at a path delivers. -/
def read (tree : FileTree) : Storage := fun path =>
  match tree.locate true path with
  | .error failure => .failing failure
  | .ok location =>
      match tree.node? location with
      | some (.file body) => { body }
      | some .void => { body := [] }
      | some .directory => .failing .isADirectory
      | some (.link _) => .failing .filesystemLoop
      | none => .failing .notFound

/-- Replace the body of the file at a path by a function of it. A file that is
not there yet begins empty. -/
def update
    (tree : FileTree)
    (path : Bytes)
    (change : Bytes -> Bytes) : Except Failure FileTree := do
  let location ← tree.locate true path
  match tree.node? location with
  | some .directory => .error .isADirectory
  | some .void => .ok tree
  | some (.file body) => .ok (tree.put location (.file (change body)))
  | _ => .ok (tree.put location (.file (change [])))

/-- Write a file anew. -/
def write (tree : FileTree) (path body : Bytes) : Except Failure FileTree :=
  tree.update path (fun _ => body)

/-- Add to the end of a file. -/
def append (tree : FileTree) (path body : Bytes) : Except Failure FileTree :=
  tree.update path (· ++ body)

/-- Make the directories that the remaining names lead to, after those that the
names passed already lead to. -/
def makeDirectoriesFrom
    (tree : FileTree)
    (start : Location)
    (passed : List Bytes) : List Bytes -> Except Failure FileTree
  | [] => .ok tree
  | name :: rest =>
      let further := passed ++ [name]
      match tree.resolve true linkLimit start further with
      | .error failure => .error failure
      | .ok location =>
          match tree.node? location with
          | none => (tree.put location .directory).makeDirectoriesFrom start further rest
          | some .directory => tree.makeDirectoriesFrom start further rest
          | some _ => .error .notADirectory

/-- Make a directory, and those on the way to it that are missing. -/
def makeDirectories (tree : FileTree) (path : Bytes) : Except Failure FileTree := do
  let _ ← if 0 ∈ path then .error Failure.zeroOctet else .ok ()
  tree.makeDirectoriesFrom (origin tree.working path) [] (names path)

/-- Make a link where nothing stands yet. -/
def makeLink (tree : FileTree) (path target : Bytes) : Except Failure FileTree := do
  let location ← tree.locate false path
  match tree.node? location with
  | some _ => .error .alreadyExists
  | none => .ok (tree.put location (.link target))

/-- Move what stands at one place, with all that stands below it, to another. -/
def move (tree : FileTree) (source destination : Location) : FileTree :=
  { tree with
    nodes := (tree.erase destination).nodes.map fun (location, node) =>
      if source.isPrefixOf location then
        (destination ++ location.drop source.length, node)
      else (location, node) }

/-- Give what stands at a path another path. A directory replaces a bare
directory, and anything else replaces anything but a directory. Only a directory
may have a slash after its name. -/
def rename (tree : FileTree) (path target : Bytes) : Except Failure FileTree := do
  let source ← tree.locateEntry path
  let destination ← tree.locateEntry target
  match tree.node? source, tree.node? destination with
  | none, _ => .error .notFound
  | some .directory, occupant =>
      if source = destination then .ok tree
      else if source.isPrefixOf destination then .error .invalidArgument
      else if occupant != none && occupant != some .directory then
        .error .notADirectory
      else if occupant != none && !tree.isBare destination then
        .error .directoryNotEmpty
      else .ok (tree.move source destination)
  | some _, occupant =>
      if endsInSlash path || endsInSlash target then .error .notADirectory
      else if source = destination then .ok tree
      else if occupant = some .directory then .error .isADirectory
      else .ok (tree.move source destination)

/-- Delete a file or a link. -/
def remove (tree : FileTree) (path : Bytes) : Except Failure FileTree := do
  let location ← tree.locate false path
  match tree.node? location with
  | none => .error .notFound
  | some .directory => .error .isADirectory
  | some _ => .ok (tree.erase location)

/-- A tree with an empty working directory and a void device. The working
directory has the empty name, which no path can spell, so that only `.` and `..`
lead to it. -/
def initial : FileTree :=
  let devices := Bytes.ofText "dev"
  let temporary := Bytes.ofText "tmp"
  let working := [temporary, []]
  { nodes :=
      [([devices], .directory), ([devices, Bytes.ofText "null"], .void),
        ([temporary], .directory), (working, .directory)]
    working }

end FileTree
end Collate
