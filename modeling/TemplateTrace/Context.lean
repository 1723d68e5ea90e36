import TemplateTrace.Dictionary.Search
import TemplateTrace.Evaluation
import TemplateTrace.Recording

/-!
Turning the entries of a trace into events, one after the other. What an entry leaves behind for
those after it are the names that were resolved and the files that were named; an entry that fails
names no file.
-/

namespace TemplateTrace

structure Context where
  /-- Refuse what can only be shown in part: compressed names and files that were never named. -/
  strict : Bool
  names : Glossary
  files : FileTable := {}

namespace Context

/-- Stands for a name that the trace has in compressed form only. -/
def compressedName : String := "?????"

def initial (strict : Bool) (d : Dictionary) : Context :=
  { strict, names := { dictionary := d } }

/-- The name that is referred to, and the names known after it. -/
def name (c : Context) (index : Nat) (n : NameRef) : Except Failure String × Glossary :=
  match n.literal, n.dictionaryId, n.compressed with
  | some text, _, _ => (.ok text, c.names)
  | none, some id, _ =>
    match c.names.resolve id with
    | (.ok text, names) => (.ok text, names)
    | (.error cause, names) => (.error (.unresolved (some index) cause), names)
  | none, none, none => (.error (.malformed index .emptyName), c.names)
  | none, none, some _ =>
    if c.strict then (.error (.compressedName index), c.names)
    else (.ok compressedName, c.names)

def place (c : Context) (index : Nat) (p : PlaceRef) : Except Failure (Place × FileTable) :=
  if c.strict && p.fileName.isNone && !c.files.knows p.fileId then
    .error (.unnamedFile index p.fileId)
  else .ok (c.files.locate p.fileId p.fileName p.line p.column)

def opening (c : Context) (index : Nat) (o : Opening) : Except Failure Event × Context :=
  match Kind.ofCode? o.kind with
  | none => (.error (.unknownKind index o.kind), c)
  | some kind =>
    match c.name index o.name with
    | (.error failure, names) => (.error failure, { c with names })
    | (.ok name, names) =>
      match c.place index o.place with
      | .error failure => (.error failure, { c with names })
      | .ok (place, files) => (.ok (.opens ⟨kind, name, place⟩), { c with names, files })

/-- The event of the entry at the index, and what there is after it. -/
def step (c : Context) (index : Nat) (e : Entry) : Except Failure Event × Context :=
  match e.opening, e.closing with
  | some _, true => (.error (.malformed index .bothBeginAndEnd), c)
  | none, false => (.error (.malformed index .neitherBeginNorEnd), c)
  | none, true => (.ok .closes, c)
  | some o, false => c.opening index o

/-- The events of the entries from the index on, up to the first failure. -/
def events (c : Context) (index : Nat) : List Entry → Except Failure (List Event)
  | [] => .ok []
  | e :: es =>
    match c.step index e with
    | (.error failure, _) => .error failure
    | (.ok event, c) =>
      match events c (index + 1) es with
      | .error failure => .error failure
      | .ok rest => .ok (event :: rest)

end Context

def Trace.events (strict : Bool) (t : Trace) : Except Failure (List Event) :=
  (Context.initial strict t.dictionary).events 0 t.entries

end TemplateTrace
