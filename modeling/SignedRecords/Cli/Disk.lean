import SignedRecords.Store.Rows

/-!
# The disk

What is at which place of the disk: directories, files, and record stores, each of which is a
directory of its own. A path is followed step by step from the current directory, so every step
but the last one has to be a directory that is there; a step back leaves the directory that was
reached. What is wrong with a path is worded in the words of the system.
-/

namespace SignedRecords.Cli

/-! ## 1. Paths -/

/-- The steps that lead to a place from the root. -/
abbrev Place := List String

/-- Why a path cannot be used. -/
inductive PathFault where
  /-- There is a character with the number zero in it. -/
  | zeroCharacter
  | missing
  | alreadyThere
  | notDirectory
  | isDirectory
  | nameTooLong
  deriving DecidableEq, Repr

/-- The wording of a fault. -/
def PathFault.message : PathFault → String
  | .zeroCharacter => "file name contained an unexpected NUL byte"
  | .missing => "No such file or directory (os error 2)"
  | .alreadyThere => "File exists (os error 17)"
  | .notDirectory => "Not a directory (os error 20)"
  | .isDirectory => "Is a directory (os error 21)"
  | .nameTooLong => "File name too long (os error 36)"

/-- A path that was read. -/
structure Path where
  /-- Whether it starts at the root. -/
  absolute : Bool
  /-- The steps, without empty ones; of those that stay only the last one counts. -/
  steps : List String
  /-- Whether it can only name a directory. -/
  namesDirectory : Bool
  deriving DecidableEq

namespace Path

/-- Reads a path. -/
def read (text : String) : Except PathFault Path :=
  let parts := text.splitOn "/"
  let steps := parts.filter (· != "")
  let last := if steps.getLast? = some "." then ["."] else []
  if text.contains (Char.ofNat 0) then .error .zeroCharacter
  else .ok
    { absolute := text.startsWith "/"
      steps := steps.filter (· != ".") ++ last
      namesDirectory := parts.getLast?.any fun s => s = "" || s = "." || s = ".." }

/-- Where a path starts. -/
def origin (p : Path) (directory : Place) : Place := if p.absolute then [] else directory

/-- The places on the way of a path if every step on it is a directory. -/
def places (p : Path) (directory : Place) : List Place :=
  (p.steps.foldl (fun (here, seen) s =>
    let next := if s = "." then here else if s = ".." then here.dropLast else here ++ [s]
    (next, seen ++ [next])) (p.origin directory, [p.origin directory])).2

/-- The steps to what holds the end of a path, the last step first; a last step that stays goes
    together with the one before it. -/
def aboveLast : List String → List String
  | "." :: _ :: above => above
  | _ :: above => above
  | [] => []

theorem length_aboveLast (s : String) (rest : List String) :
    (aboveLast (s :: rest)).length < (s :: rest).length := by
  unfold aboveLast
  split
  · rename_i heq
    obtain ⟨-, rfl⟩ := List.cons.inj heq
    exact Nat.lt_trans (Nat.lt_succ_self _) (Nat.lt_succ_self _)
  · rename_i heq
    obtain ⟨-, rfl⟩ := List.cons.inj heq
    exact Nat.lt_succ_self _
  · rename_i heq
    cases heq

/-- The steps to what holds the end of a path. -/
def above (steps : List String) : List String := (aboveLast steps.reverse).reverse

end Path

/-! ## 2. What is on the disk -/

/-- What is at a place. -/
inductive Entry where
  | directory
  | file (content : Bytes)
  deriving DecidableEq

/-- What is on the disk. The root is always there. -/
structure Disk where
  entries : List (Place × Entry)
  stores : List (Place × RowStore)

namespace Disk

/-- What is at a place; a record store is a directory. -/
def entry? (d : Disk) (place : Place) : Option Entry :=
  if place.isEmpty || d.stores.any (·.1 == place) then some .directory
  else (d.entries.find? (·.1 == place)).map (·.2)

/-- Puts something at a place. -/
def enter (d : Disk) (place : Place) (e : Entry) : Disk :=
  { d with entries := (place, e) :: d.entries.filter (·.1 != place) }

/-- Goes a step on from a place. -/
def step (d : Disk) (here : Place) (name : String) : Except PathFault Place :=
  match d.entry? here with
  | none => .error .missing
  | some (.file _) => .error .notDirectory
  | some .directory =>
    if name = "." then .ok here
    else if name = ".." then .ok here.dropLast
    else if 255 < name.utf8ByteSize then .error .nameTooLong
    else .ok (here ++ [name])

/-- Follows steps from a place; there need not be anything where the last one leads. -/
def follow (d : Disk) (start : Place) (steps : List String) : Except PathFault Place :=
  steps.foldlM d.step start

/-! ## 3. Directories -/

/-- Whether steps lead to a directory. -/
def isDirectory (d : Disk) (start : Place) (steps : List String) : Bool :=
  match d.follow start steps with
  | .ok place => d.entry? place == some .directory
  | .error _ => false

/-- Makes one directory. -/
def makeDirectory (d : Disk) (start : Place) (steps : List String) : Except PathFault Disk :=
  match d.follow start steps with
  | .error fault => .error fault
  | .ok place =>
    if (d.entry? place).isSome then .error .alreadyThere else .ok (d.enter place .directory)

/-- What is left of the failure to make a directory: none, if there is one. -/
def settle (d : Disk) (start : Place) (steps : List String) (fault : PathFault) :
    Except PathFault Disk :=
  if d.isDirectory start steps then .ok d else .error fault

/-- Makes a directory and those above it that are missing; the last step comes first. -/
def makeFromLast (d : Disk) (start : Place) : List String → Except PathFault Disk
  | [] => .ok d
  | s :: rest =>
    let steps := (s :: rest).reverse
    match d.makeDirectory start steps with
    | .ok d => .ok d
    | .error .missing =>
      match d.makeFromLast start (Path.aboveLast (s :: rest)) with
      | .error fault => .error fault
      | .ok d =>
        match d.makeDirectory start steps with
        | .ok d => .ok d
        | .error fault => d.settle start steps fault
    | .error fault => d.settle start steps fault
termination_by steps => steps.length
decreasing_by exact Path.length_aboveLast s rest

/-- Makes a directory and those above it that are missing. -/
def makeDirectories (d : Disk) (start : Place) (steps : List String) : Except PathFault Disk :=
  d.makeFromLast start steps.reverse

/-! ## 4. Files -/

/-- The content of the file that a path names; nothing if it names none. -/
def readFile (d : Disk) (directory : Place) (path : Path) : Except PathFault (Option Bytes) :=
  match d.follow (path.origin directory) path.steps with
  | .error _ => .ok none
  | .ok place =>
    match d.entry? place with
    | none => .ok none
    | some .directory => .error .isDirectory
    | some (.file content) => .ok (if path.namesDirectory then none else some content)

/-- Writes a file into a directory that is there. -/
def writeFile (d : Disk) (directory : Place) (path : Path) (content : Bytes) :
    Except PathFault Disk :=
  match d.follow (path.origin directory) path.steps with
  | .error fault => .error fault
  | .ok place =>
    if path.namesDirectory || d.entry? place == some .directory then .error .isDirectory
    else .ok (d.enter place (.file content))

/-- Writes a file after making the directories above it; says what went wrong, if anything. -/
def saveFile (d : Disk) (directory : Place) (path : Path) (content : Bytes) :
    Disk × Option PathFault :=
  match d.makeDirectories (path.origin directory) (Path.above path.steps) with
  | .error fault => (d, some fault)
  | .ok d =>
    match d.writeFile directory path content with
    | .error fault => (d, some fault)
    | .ok d => (d, none)

/-! ## 5. Record stores -/

/-- The store at a place; a new one is empty. -/
def store (d : Disk) (place : Place) : RowStore :=
  ((d.stores.find? (·.1 == place)).map (·.2)).getD .empty

/-- Keeps a store at a place. -/
def writeStore (d : Disk) (place : Place) (s : RowStore) : Disk :=
  { d with stores := (place, s) :: d.stores.filter (·.1 != place) }

end Disk

end SignedRecords.Cli
