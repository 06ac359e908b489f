import FluentChain.Json.Basic
import FluentChain.Text.Blank
import FluentChain.Text.Quoted

/-!
# Reading JSON

A text is cut into tokens (`Json.tokens?`), and the tokens are read one by one by a machine that keeps the
containers still open (`Json.Reader.step?`).  Both stop at the first thing that is not JSON.
-/

namespace FluentChain.Json

open FluentChain.Text

inductive Token
  | openArray
  | closeArray
  | openObject
  | closeObject
  | comma
  | colon
  | scalar (value : Json)
  | string (text : Option String)

/-- Whether a character may stand in a number or in one of the words `null`, `true`, `false`. -/
def isWordChar (c : Char) : Bool :=
  c.isAlphanum || c == '+' || c == '-' || c == '.'

def word? (cs : List Char) : Option Json :=
  if cs = ['n', 'u', 'l', 'l'] then some .null
  else if cs = ['t', 'r', 'u', 'e'] then some (.bool true)
  else if cs = ['f', 'a', 'l', 's', 'e'] then some (.bool false)
  else if isNumber cs then some (.number (String.ofList cs))
  else none

/-- The text of a string, from what stands between its quotes.  The outer level is `none` when that is not
a string at all. -/
def stringBody? (body : List Char) : Option (Option String) := do
  let items ← Quoted.items? body
  return (Quoted.join? items).map String.ofList

def punctuation? : Char → Option Token
  | '[' => some .openArray
  | ']' => some .closeArray
  | '\x7b' => some .openObject
  | '\x7d' => some .closeObject
  | ',' => some .comma
  | ':' => some .colon
  | _ => none

def tokens? (cs : List Char) : Option (List Token) :=
  match cs with
  | [] => some []
  | c :: rest =>
    if isSpace c then tokens? rest
    else if c = '"' then
      match _h : Quoted.split rest with
      | none => none
      | some (body, after) => do
        let text ← stringBody? body
        return .string text :: (← tokens? after)
    else match punctuation? c with
      | some token => (tokens? rest).map (token :: ·)
      | none =>
        if isWordChar c then do
          let value ← word? (c :: rest.takeWhile isWordChar)
          return .scalar value :: (← tokens? (rest.dropWhile isWordChar))
        else none
termination_by cs.length
decreasing_by
  all_goals simp only [List.length_cons]
  · omega
  · have := Quoted.length_after_split _h
    omega
  · omega
  · have := (List.dropWhile_sublist isWordChar (l := rest)).length_le
    omega

/-- A container that is still open, with what it holds so far, last first. -/
inductive Frame
  | array (done : List Json)
  | member (done : List (Option String × Json)) (key : Option String)

/-- What a reader waits for, or the value it has just finished. -/
inductive Stage
  | value
  | firstElement
  | firstKey
  | key (done : List (Option String × Json))
  | colon (done : List (Option String × Json)) (key : Option String)
  | finished (value : Json)

structure Reader where
  frames : List Frame := []
  stage : Stage := .value

namespace Reader

def step? (r : Reader) (token : Token) : Option Reader :=
  match r.stage, token, r.frames with
  | .firstElement, .closeArray, .array _ :: frames => some ⟨frames, .finished (.array [])⟩
  | .value, .scalar v, frames | .firstElement, .scalar v, frames => some ⟨frames, .finished v⟩
  | .value, .string t, frames | .firstElement, .string t, frames =>
    some ⟨frames, .finished (.string t)⟩
  | .value, .openArray, frames | .firstElement, .openArray, frames =>
    some ⟨.array [] :: frames, .firstElement⟩
  | .value, .openObject, frames | .firstElement, .openObject, frames => some ⟨frames, .firstKey⟩
  | .firstKey, .closeObject, frames => some ⟨frames, .finished (.object [])⟩
  | .firstKey, .string k, frames => some ⟨frames, .colon [] k⟩
  | .key done, .string k, frames => some ⟨frames, .colon done k⟩
  | .colon done k, .colon, frames => some ⟨.member done k :: frames, .value⟩
  | .finished v, .comma, .array done :: frames => some ⟨.array (v :: done) :: frames, .value⟩
  | .finished v, .comma, .member done k :: frames => some ⟨frames, .key ((k, v) :: done)⟩
  | .finished v, .closeArray, .array done :: frames =>
    some ⟨frames, .finished (.array (v :: done).reverse)⟩
  | .finished v, .closeObject, .member done k :: frames =>
    some ⟨frames, .finished (.object ((k, v) :: done).reverse)⟩
  | _, _, _ => none

def result? (r : Reader) : Option Json :=
  match r.frames, r.stage with
  | [], .finished v => some v
  | _, _ => none

end Reader

/-- The value that a whole text writes. -/
def read? (text : String) : Option Json := do
  let tokens ← tokens? text.toList
  let reader ← tokens.foldlM Reader.step? {}
  reader.result?

end FluentChain.Json
