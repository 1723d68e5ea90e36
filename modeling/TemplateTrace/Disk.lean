import TemplateTrace.Storage

/-!
A file system as a value. A path is followed step by step, and every step but the last has to start
from a directory. Of what lies outside the working directory nothing is known but that there are
directories above it and a root.
-/

namespace TemplateTrace

inductive DiskEntry
  | file (bytes : ByteArray)
  | directory
  deriving BEq

/-- A directory that names lead down from: the one so many levels above the working directory, or
the root. -/
inductive Base
  | above (levels : Nat)
  | root
  deriving DecidableEq

/-- A place on the disk: the names on the way down from a base, the last one first. -/
structure Spot where
  base : Base := .above 0
  names : List String := []
  deriving DecidableEq

structure Disk where
  entries : List (Spot × DiskEntry) := []

namespace Spot

/-- The directory around the spot; there is none around the root. -/
def outer : Spot → Spot
  | ⟨.above levels, []⟩ => ⟨.above (levels + 1), []⟩
  | ⟨.root, []⟩ => ⟨.root, []⟩
  | ⟨base, _ :: names⟩ => ⟨base, names⟩

/-- Where a step leads from a directory. -/
def move (here : Spot) (step : String) : Spot :=
  if Path.stays step then here
  else if step = ".." then here.outer
  else { here with names := step :: here.names }

end Spot

namespace Disk

/-- What is at the spot; a base is always there. -/
def entryAt (d : Disk) (p : Spot) : Option DiskEntry :=
  if p.names = [] then some .directory else d.entries.lookup p

def replace (p : Spot) (e : DiskEntry) : List (Spot × DiskEntry) → List (Spot × DiskEntry)
  | [] => [(p, e)]
  | (q, f) :: rest => if q = p then (p, e) :: rest else (q, f) :: replace p e rest

/-- The disk with the entry at the spot. -/
def put (d : Disk) (p : Spot) (e : DiskEntry) : Disk := ⟨replace p e d.entries⟩

/-- The spot that the steps lead to; nothing needs to be there yet. -/
def follow (d : Disk) (here : Spot) : List String → Except FileError Spot
  | [] => .ok here
  | step :: rest =>
    match d.entryAt here with
    | none => .error .notFound
    | some (.file _) => .error .notDirectory
    | some .directory => follow d (here.move step) rest

/-- The spot that a path leads to. The empty path leads nowhere. -/
def locate (d : Disk) (path : String) : Except FileError Spot :=
  if path.isEmpty then .error .notFound
  else d.follow { base := if Path.isAbsolute path then .root else .above 0 } (Path.steps path)

def isPresent (d : Disk) (path : String) : Bool :=
  match d.locate path with
  | .ok p => (d.entryAt p).isSome
  | .error _ => false

def read (d : Disk) (path : String) : Except FileError ByteArray :=
  match d.locate path with
  | .error e => .error e
  | .ok p =>
    match d.entryAt p with
    | none => .error .notFound
    | some .directory => .error .isDirectory
    | some (.file bytes) => .ok bytes

/-- Slashes may follow the name of a directory that is still to be made. -/
def makeDirectory (d : Disk) (path : String) : Except FileError Unit × Disk :=
  match d.locate (Path.withoutSlashes path) with
  | .error e => (.error e, d)
  | .ok p =>
    match d.entryAt p with
    | some _ => (.error .alreadyExists, d)
    | none => (.ok (), d.put p .directory)

def write (d : Disk) (path text : String) : Except FileError Unit × Disk :=
  match d.locate path with
  | .error e => (.error e, d)
  | .ok p =>
    match d.entryAt p with
    | some .directory => (.error .isDirectory, d)
    | _ => (.ok (), d.put p (.file text.toUTF8))

theorem lookup_replace (p q : Spot) (e : DiskEntry) (l : List (Spot × DiskEntry)) :
    (replace p e l).lookup q = if q = p then some e else l.lookup q := by
  induction l with
  | nil =>
    by_cases h : q = p
    · simp [replace, h]
    · simp [replace, List.lookup_cons, h, beq_false_of_ne h]
  | cons a l ih =>
    obtain ⟨r, f⟩ := a
    by_cases hr : r = p
    · subst hr
      by_cases h : q = r
      · simp [replace, h]
      · simp [replace, List.lookup_cons, h, beq_false_of_ne h]
    · by_cases h : q = r
      · subst h
        simp [replace, hr]
      · simp [replace, hr, List.lookup_cons, beq_false_of_ne h, ih]

theorem entryAt_put (d : Disk) (p q : Spot) (e : DiskEntry) :
    (d.put p e).entryAt q = if q.names = [] then some .directory else if q = p then some e
      else d.entryAt q := by
  simp only [entryAt, put, lookup_replace]
  split <;> rfl

end Disk

instance : Storage (StateM Disk) where
  isPresent path := do return (← get).isPresent path
  read path := do return (← get).read path
  makeDirectory path := modifyGet (·.makeDirectory path)
  write path text := modifyGet (·.write path text)

end TemplateTrace
