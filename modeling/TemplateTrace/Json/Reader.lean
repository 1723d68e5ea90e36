import TemplateTrace.Json.Token

/-!
Reading a JSON document from its tokens, with the unfinished arrays and objects on a stack, so that
no nesting is too deep.
-/

namespace TemplateTrace

namespace Json

/-- An array or object that is not closed; what it holds so far stands latest first. -/
inductive Open
  | array (items : List Json)
  /-- An object whose last key waits for its value. -/
  | object (members : List (Text × Json)) (key : Text)

/-- What may come next, inside the open containers, the innermost first. -/
inductive Expecting
  | value (outer : List Open)
  | firstItem (outer : List Open)
  | firstKey (outer : List Open)
  | key (members : List (Text × Json)) (outer : List Open)
  | colon (members : List (Text × Json)) (key : Text) (outer : List Open)
  | moreItems (items : List Json) (outer : List Open)
  | moreMembers (members : List (Text × Json)) (outer : List Open)
  | nothing (document : Json)

namespace Expecting

/-- A value is complete. -/
def deliver (v : Json) : List Open → Expecting
  | [] => .nothing v
  | .array items :: outer => .moreItems (v :: items) outer
  | .object members k :: outer => .moreMembers ((k, v) :: members) outer

/-- The token begins a value. -/
def enter (outer : List Open) : Token → Option Expecting
  | .value v => some (deliver v outer)
  | .text t => some (deliver (.text t) outer)
  | .beginArray => some (.firstItem outer)
  | .beginObject => some (.firstKey outer)
  | _ => none

def step : Expecting → Token → Option Expecting
  | .value outer, t => enter outer t
  | .firstItem outer, .endArray => some (deliver (.array []) outer)
  | .firstItem outer, t => enter (.array [] :: outer) t
  | .firstKey outer, .endObject => some (deliver (.object []) outer)
  | .firstKey outer, .text k => some (.colon [] k outer)
  | .key members outer, .text k => some (.colon members k outer)
  | .colon members k outer, .colon => some (.value (.object members k :: outer))
  | .moreItems items outer, .comma => some (.value (.array items :: outer))
  | .moreItems items outer, .endArray => some (deliver (.array items.reverse) outer)
  | .moreMembers members outer, .comma => some (.key members outer)
  | .moreMembers members outer, .endObject => some (deliver (.object members.reverse) outer)
  | _, _ => none

def run (s : Expecting) (tokens : List Token) : Option Expecting := tokens.foldlM step s

def finish : Expecting → Option Json
  | .nothing document => some document
  | _ => none

@[simp] theorem run_nil (s : Expecting) : run s [] = some s := rfl

@[simp] theorem run_cons (s : Expecting) (t : Token) (ts : List Token) :
    run s (t :: ts) = (step s t).bind fun s => run s ts := rfl

theorem run_append (s : Expecting) (us vs : List Token) :
    run s (us ++ vs) = (run s us).bind fun s => run s vs := by
  simp [run, List.foldlM_append]

end Expecting

def ofTokens? (tokens : List Token) : Option Json :=
  (Expecting.run (.value []) tokens).bind Expecting.finish

/-- The document that a text writes. -/
def ofText? (text : String) : Option Json := (tokens? text.toList).bind ofTokens?

end Json

end TemplateTrace
