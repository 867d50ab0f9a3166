import Pacing.Json.Token

/-!
# Reading JSON values

Tokens are taken in one by one, with the arrays and objects that are still open on a stack. What may
come next is always clear from the last token, so a text is read in one pass. There is no comma after
the last item, and nothing after the value. Values nest up to `maxDepth` deep.
-/

namespace Pacing.Json

/-- How many arrays and objects may be open at once. -/
def maxDepth : Nat := 127

/-- An array or object that is still open, its last entries first. -/
inductive Frame
  | array (items : List Json)
  /-- An object whose next value belongs to `key`. -/
  | object (fields : List (List Char × Json)) (key : List Char)

/-- What has been read, and what may come next. -/
inductive Progress
  /-- A value must come. -/
  | value (stack : List Frame)
  /-- The first item of an array must come, or its end. -/
  | arrayStart (stack : List Frame)
  /-- The first key of an object must come, or its end. -/
  | objectStart (stack : List Frame)
  /-- Another key of an object must come. -/
  | key (stack : List Frame) (fields : List (List Char × Json))
  /-- The colon after a key must come. -/
  | colon (stack : List Frame) (fields : List (List Char × Json)) (key : List Char)
  /-- A value has just ended. -/
  | done (stack : List Frame) (v : Json)

namespace Progress

def beginValue? (stack : List Frame) : Token → Option Progress
  | .null => some (.done stack .null)
  | .bool b => some (.done stack (.bool b))
  | .number n => some (.done stack (.number n))
  | .string s => some (.done stack (.string s))
  | .arrayOpen => if stack.length < maxDepth then some (.arrayStart stack) else none
  | .objectOpen => if stack.length < maxDepth then some (.objectStart stack) else none
  | _ => none

/-- Goes on after a value in the innermost open array or object. -/
def afterValue? (v : Json) : List Frame → Token → Option Progress
  | .array items :: stack, .comma => some (.value (.array (v :: items) :: stack))
  | .array items :: stack, .arrayClose => some (.done stack (.array (v :: items).reverse))
  | .object fields k :: stack, .comma => some (.key stack ((k, v) :: fields))
  | .object fields k :: stack, .objectClose =>
    some (.done stack (.object ((k, v) :: fields).reverse))
  | _, _ => none

def step? (p : Progress) (t : Token) : Option Progress :=
  match p, t with
  | .value stack, t => beginValue? stack t
  | .arrayStart stack, .arrayClose => some (.done stack (.array []))
  | .arrayStart stack, t => beginValue? (.array [] :: stack) t
  | .objectStart stack, .objectClose => some (.done stack (.object []))
  | .objectStart stack, .string k => some (.colon stack [] k)
  | .key stack fields, .string k => some (.colon stack fields k)
  | .colon stack fields k, .colon => some (.value (.object fields k :: stack))
  | .done stack v, t => afterValue? v stack t
  | _, _ => none

def result? : Progress → Option Json
  | .done [] v => some v
  | _ => none

end Progress

def ofTokens? (ts : List Token) : Option Json :=
  (ts.foldlM Progress.step? (.value [])).bind Progress.result?

def ofText? (cs : List Char) : Option Json := (Token.scan? cs).bind ofTokens?

end Pacing.Json
