/-!
The kinds of template instantiation that a compiler reports, the codes they are recorded under, and
the names they are shown by.
-/

namespace TemplateTrace

inductive Kind
  | templateInstantiation
  | defaultTemplateArgument
  | defaultFunctionArgument
  | explicitSubstitution
  | deducedSubstitution
  | priorSubstitution
  | defaultArgumentChecking
  | exceptionSpec
  | memoization
  deriving DecidableEq

namespace Kind

/-- Every kind, in the order of the codes. -/
def all : List Kind :=
  [templateInstantiation, defaultTemplateArgument, defaultFunctionArgument, explicitSubstitution,
    deducedSubstitution, priorSubstitution, defaultArgumentChecking, exceptionSpec, memoization]

def code : Kind → Int32
  | templateInstantiation => 0
  | defaultTemplateArgument => 1
  | defaultFunctionArgument => 2
  | explicitSubstitution => 3
  | deducedSubstitution => 4
  | priorSubstitution => 5
  | defaultArgumentChecking => 6
  | exceptionSpec => 7
  | memoization => 8

def name : Kind → String
  | templateInstantiation => "TemplateInstantiation"
  | defaultTemplateArgument => "DefaultTemplateArgumentInstantiation"
  | defaultFunctionArgument => "DefaultFunctionArgumentInstantiation"
  | explicitSubstitution => "ExplicitTemplateArgumentSubstitution"
  | deducedSubstitution => "DeducedTemplateArgumentSubstitution"
  | priorSubstitution => "PriorTemplateArgumentSubstitution"
  | defaultArgumentChecking => "DefaultTemplateArgumentChecking"
  | exceptionSpec => "ExceptionSpecInstantiation"
  | memoization => "Memoization"

/-- Substitution and checking steps: they matter to the compiler more than to a reader, and are
dropped from the tree when nothing hangs below them. -/
def isBookkeeping : Kind → Bool
  | explicitSubstitution | deducedSubstitution | priorSubstitution | defaultArgumentChecking => true
  | _ => false

def ofCode? (c : Int32) : Option Kind := all.find? (·.code = c)

def ofName? (s : String) : Option Kind := all.find? (·.name = s)

theorem mem_all (k : Kind) : k ∈ all := by cases k <;> decide

@[simp] theorem ofCode?_code (k : Kind) : ofCode? k.code = some k := by cases k <;> rfl

@[simp] theorem ofName?_name (k : Kind) : ofName? k.name = some k := by cases k <;> decide

end Kind

end TemplateTrace
