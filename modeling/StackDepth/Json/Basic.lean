/-!
# JSON values

Numbers are kept as they are written, since what a number may be depends on the field it is read into.
The fields of an object keep their order, and a name may occur more than once.
-/

namespace StackDepth

/-- A JSON value. -/
inductive Json where
  /-- The literal `null`. -/
  | null
  /-- A truth value. -/
  | bool (b : Bool)
  /-- A number, as written. -/
  | number (text : String)
  /-- A text. -/
  | string (s : String)
  /-- A list of values. -/
  | array (items : List Json)
  /-- Named values in order. -/
  | object (fields : List (String × Json))
deriving Inhabited

namespace Json

/-- An integer. -/
def ofInt (n : Int) : Json := .number (toString n)

/-- A natural number. -/
def ofNat (n : Nat) : Json := ofInt n

/-- The last field with a name. -/
def field? (j : Json) (name : String) : Option Json :=
  match j with
  | .object fields => (fields.reverse.find? fun f => f.1 == name).map Prod.snd
  | _ => none

end Json

end StackDepth
