import DocWeave.Description
import DocWeave.Json

/-!
# Writing descriptions

Records are objects with all their fields in a fixed order; a choice is an object whose one key is
the name of the alternative.
-/

namespace DocWeave

def Json.ofStrings (strings : List String) : Json :=
  .array (strings.map .string)

def Json.ofOption {α : Type} (write : α → Json) : Option α → Json
  | some a => write a
  | none => .null

namespace TypeRef

mutual

def toJson : TypeRef → Json
  | primitive kind => .object [("primitive", .string kind.keyword)]
  | array component => .object [("array", component.toJson)]
  | declared name => .object [("declared", .string name)]
  | parameterized base args =>
    .object [("parameterized", .object [("base", .string base), ("args", .array (allToJson args))])]
  | typeVariable name bound =>
    .object [("variable", .object [("name", .string name), ("bound", boundToJson bound)])]

def allToJson : List TypeRef → List Json
  | [] => []
  | type :: rest => type.toJson :: allToJson rest

def boundToJson : Option TypeRef → Json
  | none => .null
  | some bound => bound.toJson

end

end TypeRef

/-- The word for a kind of member. -/
def MemberKind.word : MemberKind → String
  | field => "field"
  | method => "method"
  | constructor => "constructor"
  | enumConstant => "enum_constant"

def MemberEntry.toJson (m : MemberEntry) : Json :=
  .object [("name", .string m.name), ("kind", .string m.kind.word),
    ("params", .array (TypeRef.allToJson m.params))]

def TypeEntry.toJson (entry : TypeEntry) : Json :=
  .object [("name", .string entry.name), ("supertypes", .ofStrings entry.supertypes),
    ("members", .array (entry.members.map MemberEntry.toJson))]

def ModuleEntry.toJson (entry : ModuleEntry) : Json :=
  .object [("name", .string entry.name), ("imports", .ofStrings entry.imports),
    ("static_imports", .ofStrings entry.staticImports), ("doc", .ofOption .string entry.doc?),
    ("generate", .bool entry.generate)]

def Config.toJson (config : Config) : Json :=
  .object [("default_namespace", .string config.defaultNamespace),
    ("include_tag", .string config.includeTag), ("link_tags", .ofStrings config.linkTags)]

def Description.toJson (description : Description) : Json :=
  .object [("config", .ofOption Config.toJson description.config?),
    ("modules", .array (description.modules.map ModuleEntry.toJson)),
    ("types", .array (description.types.map TypeEntry.toJson))]

end DocWeave
