/-!
# JSON values

Values as a strict reader of JSON sees them. Some well-formed texts can be passed over but not
used: a string with half of a surrogate pair, an object with such a key, and containers nested too
deep. They are `unreadable`. `record?` and `single?` view a value as a record or a tagged value.
-/

namespace DocWeave

inductive Json where
  | null
  | bool (b : Bool)
  | number (literal : String)
  | string (s : String)
  | array (items : List Json)
  | object (fields : List (String × Json))
  | unreadable
  deriving Repr, Inhabited

namespace Json

mutual

/-- The value with its containers below the given number of levels made unreadable. -/
def clip : Nat → Json → Json
  | 0, array _ => unreadable
  | 0, object _ => unreadable
  | levels + 1, array items => array (clipItems levels items)
  | levels + 1, object fields => object (clipFields levels fields)
  | _, null => null
  | _, bool b => bool b
  | _, number literal => number literal
  | _, string s => string s
  | _, unreadable => unreadable

def clipItems : Nat → List Json → List Json
  | _, [] => []
  | levels, item :: rest => clip levels item :: clipItems levels rest

def clipFields : Nat → List (String × Json) → List (String × Json)
  | _, [] => []
  | levels, (name, value) :: rest => (name, clip levels value) :: clipFields levels rest

end

/-- The text of a string. -/
def string? : Json → Option String
  | string s => some s
  | _ => none

def bool? : Json → Option Bool
  | bool b => some b
  | _ => none

def array? : Json → Option (List Json)
  | array items => some items
  | _ => none

/-- The strings of an array that holds nothing else. -/
def strings? (j : Json) : Option (List String) :=
  j.array?.bind (·.mapM string?)

/-- A value that `null` stands for the absence of. -/
def nullable {α : Type} (read : Json → Option α) : Json → Option (Option α)
  | null => some none
  | j => (read j).map some

/-- The known fields of a record. An object may have further fields and need not have all of the
known ones, but has none of them twice. An array holds the first fields in their order, `least` of
them or more, and nothing else. -/
def record? (names : List String) (least : Nat) : Json → Option (List (String × Json))
  | object fields =>
    let known := fields.filter fun (name, _) => names.contains name
    if (known.map Prod.fst).Nodup then some known else none
  | array items =>
    if least ≤ items.length ∧ items.length ≤ names.length then some (names.zip items) else none
  | _ => none

/-- The value of a field, read by `read`, or `default` if there is no such field. -/
def fieldD {α : Type} (fields : List (String × Json)) (name : String) (read : Json → Option α)
    (default : α) : Option α :=
  match fields.lookup name with
  | some value => read value
  | none => some default

/-- The value of a field that has to be there. -/
def field? {α : Type} (fields : List (String × Json)) (name : String) (read : Json → Option α) :
    Option α :=
  (fields.lookup name).bind read

/-- The tag and the content of a tagged value: an object with one field. -/
def single? : Json → Option (String × Json)
  | object [(tag, content)] => some (tag, content)
  | _ => none

/-- The name of a constant: a string, or an object whose one field is `null`. -/
def constant? : Json → Option String
  | string s => some s
  | object [(name, null)] => some name
  | _ => none

end Json
end DocWeave
