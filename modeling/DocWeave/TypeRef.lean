import DocWeave.Name

/-!
# Type references

The types that parameters are declared with. Erasure forgets type arguments and replaces a type
variable by its bound; two types are the same for overloading if their erasures are equal.
-/

namespace DocWeave

/-- The primitive types. -/
inductive Primitive where
  | boolean | byte | short | int | long | float | double | char
  deriving DecidableEq, Repr

namespace Primitive

def all : List Primitive := [boolean, byte, short, int, long, float, double, char]

/-- How the type is written. -/
def keyword : Primitive → String
  | boolean => "boolean"
  | byte => "byte"
  | short => "short"
  | int => "int"
  | long => "long"
  | float => "float"
  | double => "double"
  | char => "char"

/-- The primitive type that is written `word`. -/
def ofKeyword? (word : String) : Option Primitive :=
  all.find? (·.keyword == word)

theorem ofKeyword?_keyword (p : Primitive) : ofKeyword? p.keyword = some p := by
  cases p <;> decide

end Primitive

inductive TypeRef where
  | primitive (kind : Primitive)
  | array (component : TypeRef)
  | declared (name : QualifiedName)
  | parameterized (base : QualifiedName) (args : List TypeRef)
  | typeVariable (name : String) (bound : Option TypeRef)
  deriving Repr

namespace TypeRef

mutual

/-- Equality of types. -/
def decEq : (a b : TypeRef) → Decidable (a = b)
  | primitive p, primitive q =>
    if h : p = q then isTrue (by rw [h]) else isFalse (fun e => h (by injection e))
  | array s, array t =>
    match decEq s t with
    | isTrue h => isTrue (by rw [h])
    | isFalse h => isFalse (fun e => h (by injection e))
  | declared m, declared n =>
    if h : m = n then isTrue (by rw [h]) else isFalse (fun e => h (by injection e))
  | parameterized m ss, parameterized n ts =>
    if h : m = n then
      match decEqList ss ts with
      | isTrue h' => isTrue (by rw [h, h'])
      | isFalse h' => isFalse (fun e => h' (by injection e))
    else isFalse (fun e => h (by injection e))
  | typeVariable m s, typeVariable n t =>
    if h : m = n then
      match decEqOption s t with
      | isTrue h' => isTrue (by rw [h, h'])
      | isFalse h' => isFalse (fun e => h' (by injection e))
    else isFalse (fun e => h (by injection e))
  | primitive _, array _ | primitive _, declared _ | primitive _, parameterized _ _
  | primitive _, typeVariable _ _ | array _, primitive _ | array _, declared _
  | array _, parameterized _ _ | array _, typeVariable _ _ | declared _, primitive _
  | declared _, array _ | declared _, parameterized _ _ | declared _, typeVariable _ _
  | parameterized _ _, primitive _ | parameterized _ _, array _ | parameterized _ _, declared _
  | parameterized _ _, typeVariable _ _ | typeVariable _ _, primitive _
  | typeVariable _ _, array _ | typeVariable _ _, declared _
  | typeVariable _ _, parameterized _ _ => isFalse (fun e => by injection e)

/-- Equality of type arguments. -/
def decEqList : (as bs : List TypeRef) → Decidable (as = bs)
  | [], [] => isTrue rfl
  | a :: as, b :: bs =>
    match decEq a b, decEqList as bs with
    | isTrue h, isTrue h' => isTrue (by rw [h, h'])
    | isFalse h, _ => isFalse (fun e => h (by injection e))
    | _, isFalse h => isFalse (fun e => h (by injection e))
  | [], _ :: _ | _ :: _, [] => isFalse (fun e => by injection e)

/-- Equality of bounds. -/
def decEqOption : (a b : Option TypeRef) → Decidable (a = b)
  | none, none => isTrue rfl
  | some a, some b =>
    match decEq a b with
    | isTrue h => isTrue (by rw [h])
    | isFalse h => isFalse (fun e => h (by injection e))
  | none, some _ | some _, none => isFalse (fun e => by injection e)

end

instance : DecidableEq TypeRef := decEq

instance : Inhabited TypeRef := ⟨declared ""⟩

/-- The type that every variable without a bound is erased to. -/
def root : TypeRef := declared "java.lang.Object"

/-- The type without its arguments, and the erased bound for a variable. -/
def erasure : TypeRef → TypeRef
  | primitive p => primitive p
  | array component => array component.erasure
  | declared name => declared name
  | parameterized base _ => declared base
  | typeVariable _ (some bound) => bound.erasure
  | typeVariable _ none => root

@[simp]
theorem erasure_erasure (type : TypeRef) : type.erasure.erasure = type.erasure := by
  fun_induction erasure type with
  | case1 | case3 | case4 | case6 => rfl
  | case2 component ih => rw [erasure, ih]
  | case5 _ bound ih => exact ih

/-- Types that parameter lists do not tell apart. -/
def isSameType (a b : TypeRef) : Bool :=
  a.erasure == b.erasure

mutual

/-- How the type is written. -/
def print : TypeRef → String
  | primitive p => p.keyword
  | array component => component.print ++ "[]"
  | declared name => name
  | parameterized base args => base ++ "<" ++ printArgs args ++ ">"
  | typeVariable name _ => name

/-- The types with a comma between neighbours. -/
def printArgs : List TypeRef → String
  | [] => ""
  | [a] => a.print
  | a :: b :: rest => a.print ++ "," ++ printArgs (b :: rest)

end

end TypeRef
end DocWeave
