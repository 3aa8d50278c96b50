import DocWeave.Name

/-!
# Configuration

Where unqualified names are looked up last, and which inline tags mean a link and an inclusion.
-/

namespace DocWeave

structure Config where
  defaultNamespace : QualifiedName := "java.lang"
  includeTag : String := "include"
  linkTags : List String := ["link", "linkplain"]
  deriving DecidableEq, Repr

namespace Config

instance : Inhabited Config := ⟨{}⟩

/-- Whether `tag` is one of the link tags. -/
def isLinkTag (config : Config) (tag : String) : Bool :=
  config.linkTags.contains tag

/-- Whether `tag` is the inclusion tag. -/
def isIncludeTag (config : Config) (tag : String) : Bool :=
  config.includeTag == tag

end Config
end DocWeave
