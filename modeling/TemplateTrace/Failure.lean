import TemplateTrace.Dictionary
import TemplateTrace.Storage

/-!
Everything that can go wrong between the text of a trace and the finished tree, with the wording of
each cause. Entries are counted from zero.
-/

namespace TemplateTrace

/-- What is wrong with the shape of an entry. -/
inductive EntryProblem
  | bothBeginAndEnd
  | neitherBeginNorEnd
  | emptyName
  deriving DecidableEq

namespace EntryProblem

def message : EntryProblem → String
  | bothBeginAndEnd => "entry has both a begin and an end payload"
  | neitherBeginNorEnd => "entry has neither a begin nor an end payload"
  | emptyName => "template name has no name, dict_id or compressed_name"

end EntryProblem

inductive Failure
  | malformed (index : Nat) (problem : EntryProblem)
  | unknownKind (index : Nat) (code : Int32)
  | unresolved (entry : Option Nat) (cause : NameError)
  | unbalanced (entry : Option Nat) (openFrames : Nat)
  /-- The text is no trace collection. -/
  | format (description : String)
  /-- The text is a trace collection, but not one that can be used. -/
  | layout (description : String)
  | unnamedFile (index : Nat) (id : UInt32)
  | compressedName (index : Nat)
  | settings (description : String)
  | file (cause : FileError)
  deriving DecidableEq

namespace Failure

def atEntry : Option Nat → String
  | some index => s!" at entry {index}"
  | none => ""

def imbalance : Nat → String
  | 0 => "end event without a matching begin"
  | n => s!"{n} frame(s) still open at the end of the trace"

def message : Failure → String
  | malformed index problem => s!"Malformed trace entry {index}: {problem.message}"
  | unknownKind index code =>
    s!"Trace entry {index} has an unknown instantiation kind: {code.toInt}"
  | unresolved entry cause => s!"Name resolution failed{atEntry entry}: {cause.message}"
  | unbalanced entry openFrames => s!"Unbalanced trace{atEntry entry}: {imbalance openFrames}"
  | format description => s!"Trace format error: {description}"
  | layout description => s!"Trace format error: {description}"
  | unnamedFile index id => s!"Trace entry {index} references file id {id} that was never named"
  | compressedName index =>
    s!"Trace entry {index} uses a compressed name, which cannot be decoded"
  | settings description => s!"Configuration error: {description}"
  | file cause => s!"IO error: {cause.message}"

end Failure

end TemplateTrace
