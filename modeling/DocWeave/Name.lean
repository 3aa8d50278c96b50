import DocWeave.Text.Split

/-!
# Qualified names

Names of types, modules and members are texts; a dot separates the simple name at the end from
what qualifies it. `split?` takes the two apart and `join` puts them together.
-/

namespace DocWeave

/-- A name with dots, such as `a.b.C`. -/
abbrev QualifiedName := String

namespace QualifiedName

/-- The text before the last dot and the text after it. -/
def split? (name : QualifiedName) : Option (String × String) :=
  (Text.splitLast? '.' name.toList).map fun (before, after) =>
    (String.ofList before, String.ofList after)

/-- The text after the last dot, or the whole name if it has none. -/
def simpleName (name : QualifiedName) : String :=
  match name.split? with
  | some (_, simple) => simple
  | none => name

/-- The text before the last dot. -/
def parent? (name : QualifiedName) : Option String :=
  name.split?.map Prod.fst

/-- `child` inside `parent`; an empty parent adds nothing. -/
def join (parent child : String) : QualifiedName :=
  if parent.isEmpty then child else parent ++ "." ++ child

/-- Whether the name has a dot, so that it is looked up as it is written. -/
def isQualified (name : QualifiedName) : Bool :=
  name.toList.contains '.'

theorem split?_eq_none_iff {name : QualifiedName} : name.split? = none ↔ '.' ∉ name.toList := by
  simp [split?, Text.splitLast?_eq_none_iff]

theorem split?_eq_some_iff {name : QualifiedName} {before after : String} :
    name.split? = some (before, after) ↔ name = before ++ "." ++ after ∧ '.' ∉ after.toList := by
  have hchars : name = before ++ "." ++ after ↔
      name.toList = before.toList ++ '.' :: after.toList := by
    simp [← String.toList_inj]
  rw [hchars, ← Text.splitLast?_eq_some_iff, split?, Option.map_eq_some_iff]
  constructor
  · rintro ⟨⟨b, a⟩, hsplit, heq⟩
    cases heq
    simpa only [String.toList_ofList] using hsplit
  · intro hsplit
    exact ⟨_, hsplit, by simp only [String.ofList_toList]⟩

theorem simpleName_of_split? {name : QualifiedName} {before after : String}
    (h : name.split? = some (before, after)) : name.simpleName = after := by
  rw [simpleName, h]

theorem simpleName_of_not_mem {name : QualifiedName} (h : '.' ∉ name.toList) :
    name.simpleName = name := by
  rw [simpleName, split?_eq_none_iff.2 h]

theorem dot_not_mem_simpleName (name : QualifiedName) : '.' ∉ name.simpleName.toList := by
  cases hsplit : name.split? with
  | none =>
    have hdot := split?_eq_none_iff.1 hsplit
    rwa [simpleName_of_not_mem hdot]
  | some parts =>
    rw [simpleName_of_split? hsplit]
    exact (split?_eq_some_iff.1 hsplit).2

theorem parent?_eq_some_iff {name : QualifiedName} {parent : String} :
    name.parent? = some parent ↔ name.split? = some (parent, name.simpleName) := by
  rw [parent?, Option.map_eq_some_iff]
  constructor
  · rintro ⟨⟨before, after⟩, hsplit, rfl⟩
    rw [hsplit, simpleName_of_split? hsplit]
  · intro hsplit
    exact ⟨_, hsplit, rfl⟩

end QualifiedName

end DocWeave
