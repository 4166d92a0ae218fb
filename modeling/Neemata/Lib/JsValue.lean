import Neemata.Lib.Json

/-!
# JavaScript values

A value as far as its own enumerable properties and its JSON text go. Values that `JSON.stringify`
throws on, a `bigint` or a cycle, are left out.
-/

namespace Neemata

open Json (JsString Number Value)

inductive JsNumber where
  | nan
  | infinity (negative : Bool)
  /-- With the text `-0` for the negative zero. -/
  | finite (n : Number)
deriving DecidableEq

inductive JsValue where
  | undefined
  | null
  | bool (b : Bool)
  | num (n : JsNumber)
  | str (s : JsString)
  /-- A function or a symbol, by its identity. -/
  | func (id : Nat)
  /-- An empty slot of an array. -/
  | hole
  | arr (items : List JsValue)
  | obj (entries : List (JsString × JsValue))
  /-- An object that has another value in JSON texts than its entries make up: what its `toJSON`
  returns, or the primitive that it boxes; `none` is `undefined`. -/
  | exotic (entries : List (JsString × JsValue)) (json : Option (Value Empty))

namespace JsValue

/-- `Object.is` of two values that are no objects. -/
def sameLeaf : JsValue → JsValue → Bool
  | .undefined, .undefined | .null, .null => true
  | .bool a, .bool b => a = b
  | .num a, .num b => a = b
  | .str a, .str b => a = b
  | .func a, .func b => a = b
  | _, _ => false

/-- `Object.entries`, for an object that is no array. -/
def entries? : JsValue → Option (List (JsString × JsValue))
  | .obj entries | .exotic entries _ => some entries
  | _ => none

/-- `value[key]`, with `undefined` where there is no such entry. -/
def property (entries : List (JsString × JsValue)) (key : JsString) : JsValue :=
  ((entries.find? fun entry => entry.1 = key).map Prod.snd).getD .undefined

end JsValue

end Neemata
