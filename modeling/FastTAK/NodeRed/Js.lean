import Mathlib

/-!
# Values of a flow

The JavaScript values that `JSON.parse` makes, and what the function nodes do with them:
properties, truth, and conversion to text, which throws for an object with a `toString` of
its own.
-/

namespace FastTAK.NodeRed

/-- A value that came out of JSON, or the `undefined` of a property that is not there.  A
number is given by the text that `String` makes of it. -/
inductive Js where
  | undefined
  | null
  | bool (b : Bool)
  | num (text : String)
  | str (s : String)
  | arr (items : List Js)
  | obj (fields : List (String × Js))

namespace Js

/-- `x == null`. -/
def isNullish : Js → Bool
  | undefined | null => true
  | _ => false

/-- `Boolean(x)`. -/
def truthy : Js → Bool
  | undefined | null => false
  | bool b => b
  | num text => text != "0"
  | str s => s != ""
  | arr _ | obj _ => true

/-- `x || y`. -/
def orElse (x y : Js) : Js := if x.truthy then x else y

/-- `x.key` of a value that is neither `undefined` nor `null`, where `key` is no name of a
method. -/
def prop (key : String) : Js → Js
  | obj fields => (fields.lookup key).getD undefined
  | _ => undefined

/-- `x[i]`, likewise. -/
def item (i : ℕ) : Js → Js
  | arr items => items.getD i undefined
  | str s => (s.toList[i]?.map fun c => str (String.singleton c)).getD undefined
  | obj fields => (fields.lookup (toString i)).getD undefined
  | _ => undefined

mutual

/-- `String(x)`, if it does not throw. -/
def text : Js → Option String
  | undefined => some "undefined"
  | null => some "null"
  | bool b => some (toString b)
  | num text => some text
  | str s => some s
  | arr items => (texts items).map (String.intercalate ",")
  | obj fields => if (fields.lookup "toString").isSome then none else some "[object Object]"

/-- The texts of the items of an array, as `join` takes them. -/
def texts : List Js → Option (List String)
  | [] => some []
  | undefined :: items => (texts items).map ("" :: ·)
  | null :: items => (texts items).map ("" :: ·)
  | x :: items => do
      let first ← text x
      let rest ← texts items
      return first :: rest

end

/-- The code units of a string. -/
def units (s : String) : ℕ := (s.toList.map fun c => if c.toNat < 0x10000 then 1 else 2).sum

end Js

end FastTAK.NodeRed
