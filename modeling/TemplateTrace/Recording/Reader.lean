import TemplateTrace.Recording
import TemplateTrace.Recording.Record
import TemplateTrace.Json.Reader

/-!
Reading a recorded trace from JSON.
-/

namespace TemplateTrace

def NameRef.ofJson? (v : Json) : Option NameRef := do
  let r ← Record.ofJson? ["name", "dict_id", "compressed_name"] v
  return {
    literal := ← r.optional "name" Json.text?
    dictionaryId := ← r.optional "dict_id" Json.word?
    compressed := ← r.optional "compressed_name" Json.text? }

def PlaceRef.ofJson? (v : Json) : Option PlaceRef := do
  let r ← Record.ofJson? ["file_id", "file_name", "line", "column"] v
  return {
    fileId := ← r.required "file_id" Json.word?
    fileName := ← r.optional "file_name" Json.text?
    line := ← r.withDefault "line" Json.word? 0
    column := ← r.optional "column" Json.word? }

def Opening.ofJson? (v : Json) : Option Opening := do
  let r ← Record.ofJson? ["kind", "name", "location"] v
  return {
    kind := ← r.required "kind" Json.signedWord?
    name := ← r.required "name" NameRef.ofJson?
    place := ← r.required "location" PlaceRef.ofJson? }

def Entry.ofJson? (v : Json) : Option Entry := do
  let r ← Record.ofJson? ["begin", "end"] v
  let opening ← r.optional "begin" Opening.ofJson?
  let closing ← r.optional "end" (Record.ofJson? [])
  return { opening, closing := closing.isSome }

def DictionaryEntry.ofJson? (v : Json) : Option DictionaryEntry := do
  let r ← Record.ofJson? ["marked_name", "marker_ids"] v
  return {
    marked := ← r.required "marked_name" Json.text?
    markers := ← r.withDefault "marker_ids" (Json.list? Json.word?) [] }

def Trace.ofJson? (v : Json) : Option Trace := do
  let r ← Record.ofJson? ["entries", "names"] v
  let entries ← r.withDefault "entries" (Json.list? Entry.ofJson?) []
  let names ← r.withDefault "names" (Json.list? DictionaryEntry.ofJson?) []
  return { entries, dictionary := names.toArray }

namespace Collection

def ofJson? (v : Json) : Option Collection := do
  let r ← Record.ofJson? ["traces"] v
  return { traces := ← r.withDefault "traces" (Json.list? Trace.ofJson?) [] }

def ofText (text : String) : Except Failure Collection :=
  match (Json.ofText? text).bind ofJson? with
  | some c => .ok c
  | none => .error (.format "the text is not a trace collection")

end Collection

end TemplateTrace
