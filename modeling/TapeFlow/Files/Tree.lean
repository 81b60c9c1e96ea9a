import TapeFlow.Files.Path

namespace TapeFlow

/-! A tree of files, and what can be done to it by path. -/

/-- A place in a tree: the names that lead to it from the root. -/
abbrev Location := List Text

inductive Entry where
  | directory
  | file (octets : List UInt8)
  deriving DecidableEq

/-- Entries by their places, each place once. The root is always a directory. Paths that do not
begin at the root begin at `here`. There are no links: paths that lead to different places lead to
different files. -/
structure FileTree where
  here : Location
  entries : List (Location × Entry)
  deriving DecidableEq

/-- Why an operation on files fails. -/
inductive FileError where
  | notFound
  | alreadyExists
  | notADirectory
  | isADirectory
  | nameTooLong
  | unusableName
  /-- What no tree gives rise to, but a disk may. -/
  | other (description : String)
  deriving DecidableEq

def FileError.message : FileError → String
  | .notFound => "No such file or directory (os error 2)"
  | .alreadyExists => "File exists (os error 17)"
  | .notADirectory => "Not a directory (os error 20)"
  | .isADirectory => "Is a directory (os error 21)"
  | .nameTooLong => "File name too long (os error 36)"
  | .unusableName => "file name contained an unexpected NUL byte"
  | .other description => description

namespace FileTree

def get? (tree : FileTree) (location : Location) : Option Entry :=
  if location = [] then some .directory else tree.entries.lookup location

/-- Gives a place an entry, in place of the one that it may have. -/
def put (tree : FileTree) (location : Location) (entry : Entry) : FileTree :=
  { tree with entries := (location, entry) :: tree.entries.filter (·.1 ≠ location) }

theorem get?_put_self (tree : FileTree) (entry : Entry) {location : Location}
    (inside : location ≠ []) : (tree.put location entry).get? location = some entry := by
  simp [put, get?, inside]

theorem lookup_filter_of_ne (entries : List (Location × Entry)) {location other : Location}
    (apart : other ≠ location) :
    (entries.filter (·.1 ≠ location)).lookup other = entries.lookup other := by
  induction entries with
  | nil => rfl
  | cons first rest ih =>
      obtain ⟨place, entry⟩ := first
      by_cases removed : place = location
      · subst place
        have missed : (other == location) = false := by simpa using apart
        simpa [List.lookup_cons, missed] using ih
      · simp only [ne_eq, removed, not_false_eq_true, decide_true, List.filter_cons_of_pos,
          List.lookup_cons, ih]

theorem get?_put_of_ne (tree : FileTree) (entry : Entry) {location other : Location}
    (apart : other ≠ location) : (tree.put location entry).get? other = tree.get? other := by
  have missed : (other == location) = false := by simpa using apart
  simp only [put, get?, List.lookup_cons, missed, lookup_filter_of_ne tree.entries apart]

/-- Where a name leads from a directory. -/
def follow (location : Location) (name : Text) : Location :=
  if Path.stays name then location
  else if name = Path.parent then location.dropLast
  else location ++ [name]

/-- Follows names, each from a directory. The place where they end may have no entry. -/
def walk (tree : FileTree) (location : Location) : List Text → Except FileError Location
  | [] => .ok location
  | name :: rest =>
    match tree.get? location with
    | none => .error .notFound
    | some (.file _) => .error .notADirectory
    | some .directory =>
      if Path.isLongName name then .error .nameTooLong
      else tree.walk (follow location name) rest

/-- Refuses a path as a whole, before any of its names is looked at. -/
def screen (names : List Text) : Except FileError Unit :=
  if !Path.isUsable names then .error .unusableName
  else if Path.isLong names then .error .nameTooLong
  else .ok ()

/-- Follows the names of a path. -/
def reach (tree : FileTree) (start : Location) (names : List Text) : Except FileError Location := do
  screen names
  tree.walk start names

/-- Where a path begins. -/
def origin (tree : FileTree) (path : Text) : Location :=
  if Path.isAbsolute path then [] else tree.here

def locate (tree : FileTree) (path : Text) : Except FileError Location :=
  tree.reach (tree.origin path) (Path.names path)

def read (tree : FileTree) (path : Text) : Except FileError (List UInt8) := do
  match tree.get? (← tree.locate path) with
  | none => throw .notFound
  | some .directory => throw .isADirectory
  | some (.file octets) => return octets

/-- Makes a file, or replaces what a file holds. -/
def write (tree : FileTree) (path : Text) (octets : List UInt8) : Except FileError FileTree := do
  let location ← tree.locate path
  match tree.get? location with
  | some .directory => throw .isADirectory
  | _ => return tree.put location (.file octets)

/-- Makes the directory that names lead to. Slashes at the end of the path lead nowhere, but they
are part of the path that may be refused. -/
def makeDirectory (tree : FileTree) (start : Location) (names : List Text) :
    Except FileError FileTree := do
  screen names
  let location ← tree.walk start (Path.trimmed names)
  match tree.get? location with
  | none => return tree.put location .directory
  | some _ => throw .alreadyExists

def leadsToDirectory (tree : FileTree) (start : Location) (names : List Text) : Bool :=
  match tree.reach start names with
  | .ok location => tree.get? location = some .directory
  | .error _ => false

/-- Makes a directory unless there is one. -/
def ensureDirectory (tree : FileTree) (start : Location) (names : List Text) :
    Except FileError FileTree :=
  match tree.makeDirectory start names with
  | .error .alreadyExists =>
    if tree.leadsToDirectory start names then .ok tree else .error .alreadyExists
  | result => result

/-- The names of the directory above the one that names lead to. Names are listed from the last to
the first. -/
def namesAbove (reversed : List Text) : List Text :=
  (reversed.dropWhile Path.stays).tail.dropWhile Path.stays

theorem namesAbove_length_lt (name : Text) (above : List Text) :
    (namesAbove (name :: above)).length < (name :: above).length := by
  have inner := (List.dropWhile_sublist (l := name :: above) Path.stays).length_le
  have outer := (List.dropWhile_sublist (l := ((name :: above).dropWhile Path.stays).tail)
    Path.stays).length_le
  simp only [namesAbove, List.length_tail, List.length_cons] at *
  omega

/-- Makes a directory and, where it cannot be found, first the directory above it. What is made
stays, even if what follows fails. Names are listed from the last to the first. -/
def ensureDirectories (tree : FileTree) (start : Location) (reversed : List Text) :
    FileTree × Option FileError :=
  match reversed with
  | [] => (tree, none)
  | name :: above =>
    match tree.ensureDirectory start (name :: above).reverse with
    | .ok after => (after, none)
    | .error .notFound =>
      match tree.ensureDirectories start (namesAbove (name :: above)) with
      | (tree, some problem) => (tree, some problem)
      | (tree, none) =>
        match tree.ensureDirectory start (name :: above).reverse with
        | .ok after => (after, none)
        | .error problem => (tree, some problem)
    | .error problem => (tree, some problem)
termination_by reversed.length
decreasing_by exact namesAbove_length_lt name above

/-- Makes the directory at a path and those above it that are missing. -/
def createDirectories (tree : FileTree) (path : Text) : FileTree × Option FileError :=
  tree.ensureDirectories (tree.origin path) (Path.names path).reverse

end FileTree

end TapeFlow
