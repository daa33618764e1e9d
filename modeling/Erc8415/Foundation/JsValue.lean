import Mathlib.Algebra.Group.Nat.Defs
import Erc8415.Foundation.BigIntText

/-! # ECMAScript values

The values an untyped argument can hold: what a JSON document parses to,
together with `undefined` and integers of arbitrary precision. Property access
is total: an absent property, or a property of a value that has none, reads as
`undefined`.
-/

/-- An untyped value. A number is the rational its double denotes, or an
infinity, which a JSON number beyond the doubles reads as. -/
inductive JsValue where
  | undefined
  | null
  | boolean (b : Bool)
  | number (q : Rat)
  | infinity (negative : Bool)
  | bigint (n : Int)
  | string (s : String)
  | array (items : List JsValue)
  | object (properties : List (String × JsValue))

namespace JsValue

/-- The first property of a name; a JSON object holds each name once. -/
def property (name : String) : List (String × JsValue) → JsValue
  | [] => undefined
  | (name', value) :: rest => if name' = name then value else property name rest

/-- `value[name]` for a value that is not `null` or `undefined`. -/
def get (value : JsValue) (name : String) : JsValue :=
  match value with
  | object properties => property name properties
  | _ => undefined

theorem get_cons_self (name : String) (value : JsValue) (rest : List (String × JsValue)) :
    (object ((name, value) :: rest)).get name = value := by
  simp only [get, property, if_true]

theorem get_cons_of_ne {name' name : String} (hne : name' ≠ name) (value : JsValue)
    (rest : List (String × JsValue)) :
    (object ((name', value) :: rest)).get name = (object rest).get name := by
  simp only [get, property, hne, if_false]

/-- `typeof value === 'object' && value !== null`. -/
def isObject : JsValue → Bool
  | array _ => true
  | object _ => true
  | _ => false

/-- The string a value is, when `typeof value === 'string'`. -/
def asString : JsValue → Option String
  | string s => some s
  | _ => none

/-- The integer a value is, when `typeof value === 'bigint'`. -/
def asBigInt : JsValue → Option Int
  | bigint n => some n
  | _ => none

/-- `BigInt` of the text an array is joined to; a second item leaves a comma in it. -/
def bigIntOfItems : List JsValue → Option Int
  | [] => some 0
  | [undefined] => some 0
  | [null] => some 0
  | [string s] => BigIntText.parse s
  | [bigint n] => some n
  -- From `1e21` on a number is written with an exponent.
  | [number q] => if q.den = 1 ∧ q.num.natAbs < 10 ^ 21 then some q.num else none
  | [array items] => bigIntOfItems items
  | _ => none

/-- `BigInt(value)`; `none` where it throws. -/
def toBigInt : JsValue → Option Int
  | bigint n => some n
  | boolean b => some (if b then 1 else 0)
  | number q => if q.den = 1 then some q.num else none
  | string s => BigIntText.parse s
  | array items => bigIntOfItems items
  | _ => none

/-- `value ?? fallback`. -/
def orElse (value fallback : JsValue) : JsValue :=
  match value with
  | undefined => fallback
  | null => fallback
  | value => value

/-- `value === text`. -/
def isText (value : JsValue) (text : String) : Bool :=
  match value.asString with
  | some s => s = text
  | none => false

end JsValue
