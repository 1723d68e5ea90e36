import TemplateTrace.Json.Reader
import TemplateTrace.Proofs.Json.Scanning

/-!
Documents are read back as they were written.

The reader keeps what is open on a stack, so it is enough to know of the tokens of a value that they
are read as that value, whatever is open and whatever comes behind.
-/

namespace TemplateTrace

namespace Json

namespace Expecting

lemma run_step {s s' : Expecting} {t : Token} (ts : List Token) (h : step s t = some s') :
    run s (t :: ts) = run s' ts := by
  rw [run_cons, h, Option.bind_some]

/-- Where an array is open, a value may come, since its first token does not close the array. -/
lemma run_firstItem (v : Json) (outer : List Open) (rest : List Token) :
    run (.firstItem outer) (tokens v ++ rest) =
      run (.value (.array [] :: outer)) (tokens v ++ rest) := by
  rcases v with _ | _ | _ | _ | (_ | ⟨v, vs⟩) | (_ | ⟨⟨k, v⟩, ms⟩) <;> rfl

mutual

/-- The tokens of a value are read as the value, whatever is open and whatever comes behind. -/
theorem run_tokens (v : Json) (outer : List Open) (rest : List Token) :
    run (.value outer) (tokens v ++ rest) = run (deliver v outer) rest := by
  match v with
  | .null | .bool _ | .number _ | .text _ | .array [] | .object [] => rfl
  | .array (v :: vs) =>
    have hopen : step (.value outer) .beginArray = some (.firstItem outer) := rfl
    have hclose : step (.moreItems (vs.reverse ++ [v]) outer) .endArray =
        some (deliver (.array (v :: vs)) outer) := by simp [step]
    rw [tokens, List.cons_append, run_step _ hopen, List.append_assoc, List.append_assoc,
      run_firstItem, run_tokens v, deliver, run_itemTokens vs, List.singleton_append,
      run_step _ hclose]
  | .object ((k, v) :: ms) =>
    have hopen : step (.value outer) .beginObject = some (.firstKey outer) := rfl
    have hkey : step (.firstKey outer) (.text k) = some (.colon [] k outer) := rfl
    have hcolon : step (.colon [] k outer) .colon = some (.value (.object [] k :: outer)) := rfl
    have hclose : step (.moreMembers (ms.reverse ++ [(k, v)]) outer) .endObject =
        some (deliver (.object ((k, v) :: ms)) outer) := by simp [step]
    rw [tokens, memberTokens, List.cons_append, run_step _ hopen, List.append_assoc,
      List.append_assoc, List.cons_append, run_step _ hkey, List.cons_append, run_step _ hcolon,
      run_tokens v, deliver, run_moreTokens ms, List.singleton_append, run_step _ hclose]

theorem run_itemTokens (vs items : List Json) (outer : List Open) (rest : List Token) :
    run (.moreItems items outer) (itemTokens vs ++ rest) =
      run (.moreItems (vs.reverse ++ items) outer) rest := by
  match vs with
  | [] => rfl
  | v :: vs =>
    have hcomma : step (.moreItems items outer) .comma = some (.value (.array items :: outer)) :=
      rfl
    rw [itemTokens, List.cons_append, run_step _ hcomma, List.append_assoc, run_tokens v, deliver,
      run_itemTokens vs, List.reverse_cons, List.append_assoc, List.singleton_append]

theorem run_moreTokens (ms members : List (Text × Json)) (outer : List Open)
    (rest : List Token) :
    run (.moreMembers members outer) (moreTokens ms ++ rest) =
      run (.moreMembers (ms.reverse ++ members) outer) rest := by
  match ms with
  | [] => rfl
  | (k, v) :: ms =>
    have hcomma : step (.moreMembers members outer) .comma = some (.key members outer) := rfl
    have hkey : step (.key members outer) (.text k) = some (.colon members k outer) := rfl
    have hcolon : step (.colon members k outer) .colon =
        some (.value (.object members k :: outer)) := rfl
    rw [moreTokens, memberTokens, List.cons_append, run_step _ hcomma, List.append_assoc,
      List.cons_append, run_step _ hkey, List.cons_append, run_step _ hcolon, run_tokens v,
      deliver, run_moreTokens ms, List.reverse_cons, List.append_assoc, List.singleton_append]

end

end Expecting

lemma ofTokens?_tokens (v : Json) : ofTokens? (tokens v) = some v := by
  have hrun := Expecting.run_tokens v [] []
  rw [List.append_nil] at hrun
  rw [ofTokens?, hrun]
  rfl

/-- **A document is read back as it was written**, in either layout. -/
theorem ofText?_write {v : Json} (h : Integral v) (l : Layout) :
    ofText? (String.ofList (write l v)) = some v := by
  rw [ofText?, String.toList_ofList, tokens?_write h, Option.bind_some, ofTokens?_tokens]

end Json

end TemplateTrace
