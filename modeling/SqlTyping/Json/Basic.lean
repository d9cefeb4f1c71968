import SqlTyping.Field

/-!
# JSON values

Values of the JSON data model, with the members of an object in the order they were written.
-/

namespace SqlTyping

/-- The number `mantissa / 10 ^ exponent`. -/
structure Decimal where
  mantissa : Int
  exponent : Nat
deriving DecidableEq, Inhabited

inductive Json where
  | null
  | bool (value : Bool)
  | number (value : Decimal)
  | string (value : String)
  | array (items : List Json)
  | object (members : List (Field Json))
deriving Inhabited

namespace Json

def nat (n : Nat) : Json := .number ⟨n, 0⟩

/-- The value of the first member called `name`. -/
def member? (name : String) : Json → Option Json
  | .object members => (members.find? (·.name == name)).map Field.value
  | _ => none

def isNull : Json → Bool
  | .null => true
  | _ => false

def asBool? : Json → Option Bool
  | .bool b => some b
  | _ => none

def asString? : Json → Option String
  | .string s => some s
  | _ => none

def asNat? : Json → Option Nat
  | .number ⟨.ofNat n, 0⟩ => some n
  | _ => none

def asArray? : Json → Option (List Json)
  | .array items => some items
  | _ => none

mutual

/-- The number of arrays and objects that may stand around a value inside this one. -/
def depth : Json → Nat
  | .null | .bool _ | .number _ | .string _ => 0
  | .array items => depthItems items + 1
  | .object members => depthMembers members + 1

def depthItems : List Json → Nat
  | [] => 0
  | item :: rest => max item.depth (depthItems rest)

def depthMembers : List (Field Json) → Nat
  | [] => 0
  | m :: rest => max (depthMember m) (depthMembers rest)

def depthMember : Field Json → Nat
  | ⟨_, value⟩ => value.depth

end

/-! ## Reading typed values -/

/-- A list whose items are read by `read`. -/
def readList (read : Json → Option α) (json : Json) : Option (List α) :=
  json.asArray?.bind (·.mapM read)

/-- The member called `name`, which has to be there, read by `read`. -/
def require (name : String) (read : Json → Option α) (json : Json) : Option α :=
  (json.member? name).bind read

/-- The member called `name` read by `read`; a member that is null counts as absent. -/
def allow (name : String) (read : Json → Option α) (json : Json) : Option (Option α) :=
  match json.member? name with
  | none | some .null => some none
  | some value => (read value).map some

/-- The member called `name` read by `read`, or `fallback` if it is absent. -/
def allowD (name : String) (read : Json → Option α) (fallback : α) (json : Json) : Option α :=
  (json.allow name read).map (·.getD fallback)

/-! ## Writing typed values -/

def ofOption (write : α → Json) : Option α → Json
  | none => .null
  | some a => write a

def ofList (write : α → Json) (items : List α) : Json := .array (items.map write)

end Json

end SqlTyping
