import CodeCensus.Json.Value

/-!
# Records in JSON

A record with named fields is an object, in which members that are no fields are passed over and no
field may stand twice. It may also be an array with the values of its fields in their order, of which
the last ones may be missing but none may be too many.
-/

namespace CodeCensus.Json

/-- The values of the fields with the given names among some members. -/
def fieldsOfMembers? (names : List String) (members : List (Option String × Value)) :
    Option (List (Option Value)) := do
  let keyed ← members.mapM fun (key, value) => key.map (·, value)
  names.mapM fun name =>
    match keyed.filter (·.1 == name) with
    | [] => some none
    | [(_, value)] => some (some value)
    | _ => none

/-- The values of the fields with the given names, each if it is there. -/
def fields? (names : List String) : Value → Option (List (Option Value))
  | .object members => fieldsOfMembers? names members
  | .array elements =>
    if elements.length ≤ names.length then
      some (elements.map some ++ List.replicate (names.length - elements.length) none)
    else none
  | _ => none

end CodeCensus.Json
