import Mathlib.Data.List.Infix
import Souq.Basic

/-!
# JSON values in a JavaScript program

What `JSON.parse` returns, with the operators that the TypeScript services apply to it
before anything has checked its shape.
-/

namespace Souq

/-- A value. The keys of a parsed object are distinct. -/
inductive Json where
  | undefined
  | null
  | bool (value : Bool)
  | num (value : Int)
  | str (value : String)
  | arr (elements : List Json)
  | obj (fields : List (String × Json))

namespace Json

/-- `value?.key`. -/
def get : Json → String → Json
  | obj fields, key => (fields.lookup key).getD undefined
  | _, _ => undefined

/-- `value ?? fallback`. -/
def orElse : Json → Json → Json
  | undefined, fallback | null, fallback => fallback
  | value, _ => value

/-- `if (value)`. -/
def truthy : Json → Bool
  | undefined | null => false
  | bool value => value
  | num value => value ≠ 0
  | str value => value ≠ ""
  | arr _ | obj _ => true

mutual

/-- `String(value)`. -/
def text : Json → String
  | undefined => "undefined"
  | null => "null"
  | bool value => if value then "true" else "false"
  | num value => toString value
  | str value => value
  | arr elements => ",".intercalate (texts elements)
  | obj _ => "[object Object]"

/-- The elements as `Array.prototype.join` shows them. -/
def texts : List Json → List String
  | [] => []
  | undefined :: rest | null :: rest => "" :: texts rest
  | element :: rest => element.text :: texts rest

end

def isStr : Json → String → Bool
  | str value, expected => value = expected
  | _, _ => false

end Json

def idText (id : ID) : String := toString id

/-- `text.includes(part)`. -/
def includes (text part : String) : Bool := decide (part.toList <:+: text.toList)

/-- `text.endsWith(suffix)`. -/
def endsWith (text suffix : String) : Bool := decide (suffix.toList <:+ text.toList)

end Souq
