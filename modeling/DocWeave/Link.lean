import DocWeave.Declaration

/-!
# Link markup

A link formatter turns symbols into destinations and writes a destination with its label.
-/

namespace DocWeave

structure LinkFormatter where
  /-- Destination of a type. -/
  typeLink : QualifiedName → String
  /-- Destination of a method found through the given type. -/
  methodLink : QualifiedName → Member → String
  /-- Destination of a field found through the given type. -/
  fieldLink : QualifiedName → Member → String
  /-- The markup of a link with the given destination and label. -/
  compose : String → String → String :=
    fun destination label => "link:" ++ destination ++ "[`" ++ label ++ "`]"

end DocWeave
