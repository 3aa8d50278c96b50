import DocWeave.Link.Javadoc
import DocWeave.Proofs.Members.Enumeration
import DocWeave.Proofs.Resolution.TypeName
import DocWeave.Proofs.Text.Pieces

/-!
# Javadoc destinations

A destination is put together without any escapes. If no name in it holds a character that stands
between its parts, the parts can be told apart again: the page ends at the `#`, the name of a method
and the code of each parameter at a `-`, and the type under the brackets at the first `:`. So
destinations are equal only for equal symbols.
-/

namespace DocWeave.Javadoc

variable {base name : String} {cs : List Char} {type type' : TypeRef} {types types' : List TypeRef}
  {owner owner' : QualifiedName} {m m' : Member}

/-- The characters that stand between the parts of a destination, and brackets. -/
def marks : List Char := ['-', '/', '#', ':', '[', ']']

/-- A name without marks. -/
structure Clean (name : String) : Prop where
  ne_empty : name ≠ ""
  no_mark : ∀ c ∈ marks, c ∉ name.toList

/-- A clean name that is not written like a primitive type. -/
structure CleanType (name : QualifiedName) : Prop extends Clean name where
  not_primitive : Primitive.ofKeyword? name = none

instance : DecidablePred Clean := fun name =>
  decidable_of_iff (name ≠ "" ∧ marks.all (!name.toList.contains ·) = true) <| by
    simp only [List.all_eq_true, Bool.not_eq_true', List.contains_eq_mem, decide_eq_false_iff_not]
    exact ⟨fun ⟨hne, hmark⟩ => ⟨hne, hmark⟩, fun h => ⟨h.ne_empty, h.no_mark⟩⟩

instance : DecidablePred CleanType := fun name =>
  decidable_of_iff (Clean name ∧ Primitive.ofKeyword? name = none)
    ⟨fun ⟨hclean, hkind⟩ => ⟨hclean, hkind⟩, fun h => ⟨h.toClean, h.not_primitive⟩⟩

/-- A method whose name and erased parameter types are clean. -/
structure CleanMethod (m : Member) : Prop where
  name : Clean m.name
  params : ∀ type ∈ m.erasedParams, type.ArraysOver CleanType

theorem Clean.ne_nil (h : Clean name) : name.toList ≠ [] := by
  rw [Ne, String.toList_eq_nil_iff]
  exact h.ne_empty

theorem clean_keyword (kind : Primitive) : Clean kind.keyword := by
  cases kind <;> decide

/-! ## Codes of types -/

/-- What stands for an erased type in an anchor. -/
def code (type : TypeRef) : List Char :=
  markArrays type.print.toList

theorem markArrays_of_not_mem (h : '[' ∉ cs) : markArrays cs = cs := by
  induction cs with
  | nil => rfl
  | cons c cs ih =>
    simp only [List.mem_cons, not_or] at h
    rw [markArrays, ih h.2]
    rintro ds rfl
    exact absurd rfl h.1

theorem markArrays_append_brackets (cs : List Char) :
    markArrays (cs ++ ['[', ']']) = markArrays cs ++ [':', 'A'] := by
  fun_induction markArrays cs with
  | case1 cs ih => rw [List.cons_append, List.cons_append, markArrays, ih]; rfl
  | case2 c cs hne ih =>
    rw [List.cons_append, markArrays, ih, List.cons_append]
    intro ds hc heq
    cases cs with
    | nil => cases heq
    | cons x cs =>
      cases heq
      exact hne cs hc rfl
  | case3 => rfl

theorem code_array (component : TypeRef) :
    code (.array component) = code component ++ [':', 'A'] := by
  rw [code, TypeRef.print, String.toList_append]
  exact markArrays_append_brackets _

theorem code_primitive (kind : Primitive) : code (.primitive kind) = kind.keyword.toList :=
  markArrays_of_not_mem ((clean_keyword kind).no_mark _ (by decide))

theorem code_declared (h : Clean name) : code (.declared name) = name.toList :=
  markArrays_of_not_mem (h.no_mark _ (by decide))

theorem code_ne_nil (h : type.ArraysOver CleanType) : code type ≠ [] := by
  cases h with
  | primitive kind => rw [code_primitive]; exact (clean_keyword kind).ne_nil
  | declared hname => rw [code_declared hname.toClean]; exact hname.ne_nil
  | array _ => rw [code_array]; exact List.append_ne_nil_of_right_ne_nil _ (by decide)

theorem dash_not_mem_code (h : type.ArraysOver CleanType) : '-' ∉ code type := by
  induction h with
  | primitive kind => rw [code_primitive]; exact (clean_keyword kind).no_mark _ (by decide)
  | declared hname => rw [code_declared hname.toClean]; exact hname.no_mark _ (by decide)
  | array _ ih => rw [code_array, List.mem_append, not_or]; exact ⟨ih, by decide⟩

/-- Only the codes of arrays have a colon. -/
theorem code_array_ne (h : ':' ∉ code type) (component : TypeRef) :
    code (.array component) ≠ code type := by
  rw [code_array]
  intro heq
  exact h (heq ▸ by simp)

theorem CleanType.ne_keyword (h : CleanType name) (kind : Primitive) : name ≠ kind.keyword := by
  rintro rfl
  cases (Primitive.ofKeyword?_keyword kind).symm.trans h.not_primitive

/-- The code tells brackets by the colon, and primitive types by their keywords, which no clean name
of a declared type is. -/
theorem code_inj (h : type.ArraysOver CleanType) (h' : type'.ArraysOver CleanType)
    (heq : code type = code type') : type = type' := by
  have hprimitive : ∀ kind, ':' ∉ code (.primitive kind) := by
    intro kind
    rw [code_primitive]
    exact (clean_keyword kind).no_mark _ (by decide)
  have hdeclared : ∀ {name}, CleanType name → ':' ∉ code (.declared name) := by
    intro name hname
    rw [code_declared hname.toClean]
    exact hname.no_mark _ (by decide)
  induction h generalizing type' with
  | primitive kind =>
    cases h' with
    | primitive kind' =>
      rw [code_primitive, code_primitive, String.toList_inj] at heq
      rw [Primitive.keyword_injective heq]
    | declared hname =>
      rw [code_primitive, code_declared hname.toClean, String.toList_inj] at heq
      exact absurd heq.symm (hname.ne_keyword kind)
    | array _ => exact absurd heq.symm (code_array_ne (hprimitive kind) _)
  | declared hname =>
    cases h' with
    | primitive kind =>
      rw [code_primitive, code_declared hname.toClean, String.toList_inj] at heq
      exact absurd heq (hname.ne_keyword kind)
    | declared hname' =>
      rw [code_declared hname.toClean, code_declared hname'.toClean, String.toList_inj] at heq
      rw [heq]
    | array _ => exact absurd heq.symm (code_array_ne (hdeclared hname) _)
  | array _ ih =>
    cases h' with
    | primitive kind => exact absurd heq (code_array_ne (hprimitive kind) _)
    | declared hname => exact absurd heq (code_array_ne (hdeclared hname) _)
    | array hcomponent =>
      rw [code_array, code_array, List.append_cancel_right_eq] at heq
      rw [ih hcomponent heq]

/-! ## Anchors -/

/-- The codes, each with a `-` behind it, or a `-` alone if there are none. -/
def paramCodes (types : List TypeRef) : List Char :=
  if types = [] then ['-'] else types.flatMap (code · ++ ['-'])

theorem toList_methodAnchor (m : Member) :
    (methodAnchor m).toList = m.name.toList ++ '-' :: paramCodes m.erasedParams := by
  unfold methodAnchor paramCodes MemberDecl.erasedParams
  cases hparams : m.params with
  | nil => simp
  | cons type params =>
    simp [code, anchorType, String.toList_join, List.flatMap_map]

theorem codes_inj (h : ∀ type ∈ types, type.ArraysOver CleanType)
    (h' : ∀ type ∈ types', type.ArraysOver CleanType)
    (heq : types.flatMap (code · ++ ['-']) = types'.flatMap (code · ++ ['-'])) :
    types = types' := by
  induction types generalizing types' with
  | nil =>
    cases types' with
    | nil => rfl
    | cons type' types' => simp at heq
  | cons type types ih =>
    cases types' with
    | nil => simp at heq
    | cons type' types' =>
      rw [List.forall_mem_cons] at h h'
      rw [List.flatMap_cons, List.flatMap_cons, ← List.append_cons, ← List.append_cons,
        Text.append_cons_inj (dash_not_mem_code h.1) (dash_not_mem_code h'.1)] at heq
      rw [code_inj h.1 h'.1 heq.1, ih h.2 h'.2 heq.2]

/-- The lone `-` is no code with a `-` behind it, because no code is empty. -/
theorem dash_ne_codes (h : ∀ type ∈ types, type.ArraysOver CleanType) :
    ['-'] ≠ types.flatMap (code · ++ ['-']) := by
  intro heq
  cases types with
  | nil => cases heq
  | cons type types =>
    rw [List.forall_mem_cons] at h
    rw [List.flatMap_cons, ← List.append_cons, ← List.nil_append ['-'],
      Text.append_cons_inj List.not_mem_nil (dash_not_mem_code h.1)] at heq
    exact code_ne_nil h.1 heq.1.symm

theorem paramCodes_inj (h : ∀ type ∈ types, type.ArraysOver CleanType)
    (h' : ∀ type ∈ types', type.ArraysOver CleanType) :
    paramCodes types = paramCodes types' ↔ types = types' := by
  refine ⟨fun heq => ?_, congrArg paramCodes⟩
  unfold paramCodes at heq
  split at heq <;> split at heq
  · simp [*]
  · exact absurd heq (dash_ne_codes h')
  · exact absurd heq.symm (dash_ne_codes h)
  · exact codes_inj h h' heq

theorem methodAnchor_inj (h : CleanMethod m) (h' : CleanMethod m') :
    methodAnchor m = methodAnchor m' ↔ m.name = m'.name ∧ m.erasedParams = m'.erasedParams := by
  rw [← String.toList_inj, toList_methodAnchor, toList_methodAnchor,
    Text.append_cons_inj (h.name.no_mark _ (by decide)) (h'.name.no_mark _ (by decide)),
    String.toList_inj, paramCodes_inj h.params h'.params]

/-- A name without a `-` is the anchor of no method. -/
theorem methodAnchor_ne (h : Clean name) : methodAnchor m ≠ name := by
  rintro rfl
  refine h.no_mark '-' (by decide) ?_
  rw [toList_methodAnchor]
  simp

/-- Methods of one type never share an anchor: their keys differ. -/
theorem pairwise_methodAnchor (index : SymbolIndex) (type : QualifiedName) :
    (index.allMembers type).Pairwise fun m m' =>
      m.isMethod = true → m'.isMethod = true → CleanMethod m → CleanMethod m' →
        methodAnchor m ≠ methodAnchor m' := by
  refine (index.pairwise_allMembers type).imp fun hkeys hm hm' h h' heq => ?_
  rw [methodAnchor_inj h h'] at heq
  rw [Member.sharesKey_of_isMethod hm hm'] at hkeys
  simp [heq] at hkeys

/-! ## Pages -/

/-- What stands before the path of a page. -/
def pagePrefix (base : String) : List Char :=
  if base.isEmpty then [] else base.toList ++ ['/']

/-- The path of the page of a type. -/
def pagePath (owner : QualifiedName) : List Char :=
  owner.toList.map (fun c => if c = '.' then '/' else c) ++ ".html".toList

theorem toList_page (base : String) (owner : QualifiedName) :
    (page base owner).toList = pagePrefix base ++ pagePath owner := by
  unfold page pagePrefix pagePath
  split <;> simp [String.toList_map]

/-- Without a slash in the name the slashes of the path are its dots. -/
theorem dots_of_slashes (h : Clean owner) :
    (owner.toList.map fun c => if c = '.' then '/' else c).map (fun c => if c = '/' then '.' else c) =
      owner.toList := by
  rw [List.map_map]
  refine (List.map_congr_left fun c hc => ?_).trans (List.map_id _)
  have hslash : c ≠ '/' := by
    rintro rfl
    exact h.no_mark _ (by decide) hc
  by_cases hdot : c = '.' <;> simp [hdot, hslash]

theorem pagePath_inj (h : Clean owner) (h' : Clean owner')
    (heq : pagePath owner = pagePath owner') : owner = owner' := by
  rw [pagePath, pagePath, List.append_cancel_right_eq] at heq
  rw [← String.toList_inj, ← dots_of_slashes h, heq, dots_of_slashes h']

theorem hash_not_mem_pagePath (h : Clean owner) : '#' ∉ pagePath owner := by
  rw [pagePath, List.mem_append, not_or]
  refine ⟨?_, by decide⟩
  rw [List.mem_map]
  rintro ⟨c, hc, hhash⟩
  split at hhash
  · cases hhash
  · exact h.no_mark _ (by decide) (hhash ▸ hc)

theorem page_inj (h : Clean owner) (h' : Clean owner') :
    page base owner = page base owner' ↔ owner = owner' := by
  refine ⟨fun heq => pagePath_inj h h' ?_, congrArg (page base)⟩
  rwa [← String.toList_inj, toList_page, toList_page, List.append_cancel_left_eq] at heq

/-- A page with something behind a `#`: the base may hold one too, but it is the same on both
sides. -/
theorem anchored_inj {anchor anchor' : String} (h : Clean owner) (h' : Clean owner') :
    page base owner ++ "#" ++ anchor = page base owner' ++ "#" ++ anchor' ↔
      owner = owner' ∧ anchor = anchor' := by
  have hhash : "#".toList = ['#'] := rfl
  rw [← String.toList_inj]
  simp only [String.toList_append, toList_page, hhash, List.append_assoc,
    List.append_cancel_left_eq, List.singleton_append]
  rw [Text.append_cons_inj (hash_not_mem_pagePath h) (hash_not_mem_pagePath h'), String.toList_inj]
  exact and_congr_left' ⟨pagePath_inj h h', congrArg pagePath⟩

theorem page_ne_anchored {anchor : String} (h : Clean owner) :
    page base owner ≠ page base owner' ++ "#" ++ anchor := by
  rw [Ne, ← String.toList_inj]
  simp only [String.toList_append, toList_page, List.append_assoc, List.append_cancel_left_eq]
  intro heq
  exact hash_not_mem_pagePath h (heq ▸ by simp)

/-! ## Destinations -/

/-- The base URL without the slashes at its end. -/
def site (baseUrl : String) : String :=
  String.ofList (Text.dropEndWhile (· == '/') baseUrl.toList)

theorem typeLink_links (baseUrl : String) (owner : QualifiedName) :
    (links baseUrl).typeLink owner = page (site baseUrl) owner := by
  simp only [links, site]

theorem methodLink_links (baseUrl : String) (owner : QualifiedName) (m : Member) :
    (links baseUrl).methodLink owner m = page (site baseUrl) owner ++ "#" ++ methodAnchor m := by
  simp only [links, site]

theorem fieldLink_links (baseUrl : String) (owner : QualifiedName) (f : Member) :
    (links baseUrl).fieldLink owner f = page (site baseUrl) owner ++ "#" ++ f.name := by
  simp only [links, site]

/-- Under every base the links of clean symbols are equal just if the symbols are: types by name,
methods by owner, name and erased parameter types, and fields by owner and name. A link to a type,
one to a method and one to a field are never equal, and no two methods of a type have the same
anchor. -/
theorem destinations_identify (baseUrl : String) :
    (∀ owner owner', Clean owner → Clean owner' →
      ((links baseUrl).typeLink owner = (links baseUrl).typeLink owner' ↔ owner = owner') ∧
      (∀ m m', CleanMethod m → CleanMethod m' →
        ((links baseUrl).methodLink owner m = (links baseUrl).methodLink owner' m' ↔
          owner = owner' ∧ m.name = m'.name ∧ m.erasedParams = m'.erasedParams)) ∧
      (∀ f f' : Member, Clean f.name → Clean f'.name →
        ((links baseUrl).fieldLink owner f = (links baseUrl).fieldLink owner' f' ↔
          owner = owner' ∧ f.name = f'.name)) ∧
      (∀ m, CleanMethod m →
        (links baseUrl).typeLink owner ≠ (links baseUrl).methodLink owner' m) ∧
      (∀ f : Member, Clean f.name →
        (links baseUrl).typeLink owner ≠ (links baseUrl).fieldLink owner' f) ∧
      ∀ m f, CleanMethod m → Clean f.name →
        (links baseUrl).methodLink owner m ≠ (links baseUrl).fieldLink owner' f) ∧
    ∀ index type, (SymbolIndex.allMembers index type).Pairwise fun m m' =>
      m.isMethod = true → m'.isMethod = true → CleanMethod m → CleanMethod m' →
        methodAnchor m ≠ methodAnchor m' := by
  refine ⟨fun owner owner' h h' => ⟨?type, ?method, ?field, ?typeMethod, ?typeField, ?methodField⟩,
    fun index type => pairwise_methodAnchor index type⟩
  case type =>
    rw [typeLink_links, typeLink_links, page_inj h h']
  case method =>
    intro m m' hm hm'
    rw [methodLink_links, methodLink_links, anchored_inj h h', methodAnchor_inj hm hm']
  case field =>
    intro f f' _ _
    rw [fieldLink_links, fieldLink_links, anchored_inj h h']
  case typeMethod =>
    intro m _
    rw [typeLink_links, methodLink_links]
    exact page_ne_anchored h
  case typeField =>
    intro f _
    rw [typeLink_links, fieldLink_links]
    exact page_ne_anchored h
  case methodField =>
    intro m f _ hf
    rw [methodLink_links, fieldLink_links, Ne, anchored_inj h h', not_and]
    exact fun _ => methodAnchor_ne hf

/-- `close(java.lang.String[], int[][])`. -/
def closing : Member where
  name := "close"
  kind := .method
  params := [.array (.parameterized "java.lang.String" []), .array (.array (.primitive .int))]
  owner := "p.T"

/-- `close(java.lang.String)`. -/
def closingOne : Member where
  name := "close"
  kind := .method
  params := [.typeVariable "S" (some (.declared "java.lang.String"))]
  owner := "p.T"

/-- A type with both methods. -/
def closable : SymbolIndex :=
  SymbolIndex.addType {}
    { name := "p.T", members := [closing.toMemberDecl, closingOne.toMemberDecl] }

theorem destinations_identify_closable :
    CleanMethod closing ∧ CleanMethod closingOne ∧
      (links "https://p.org/#/").methodLink "p.T" closing ≠
        (links "https://p.org/#/").methodLink "p.T" closingOne ∧
      (links "https://p.org/#/").typeLink "p.T" ≠
        (links "https://p.org/#/").methodLink "p.T" closing ∧
      (links "https://p.org/#/").methodLink "p.T" closing ≠
        (links "https://p.org/#/").fieldLink "p.T" { closing with name := "CLOSED", kind := .field } ∧
      closable.allMembers "p.T" = [closing, closingOne] ∧
      methodAnchor closing ≠ methodAnchor closingOne := by
  have hT : Clean "p.T" := by decide
  have hclose : Clean "close" := by decide
  have hclosed : Clean "CLOSED" := by decide
  have hstring : CleanType "java.lang.String" := by decide
  have hclosing : CleanMethod closing := by
    refine ⟨hclose, ?_⟩
    show ∀ type ∈ [TypeRef.array (.declared "java.lang.String"), .array (.array (.primitive .int))],
      type.ArraysOver CleanType
    rw [List.forall_mem_cons, List.forall_mem_singleton]
    exact ⟨.array (.declared hstring), .array (.array (.primitive .int))⟩
  have hclosingOne : CleanMethod closingOne := by
    refine ⟨hclose, ?_⟩
    show ∀ type ∈ [TypeRef.declared "java.lang.String"], type.ArraysOver CleanType
    rw [List.forall_mem_singleton]
    exact .declared hstring
  obtain ⟨hlinks, hanchors⟩ := destinations_identify "https://p.org/#/"
  obtain ⟨-, hmethod, -, htypeMethod, -, hmethodField⟩ := hlinks "p.T" "p.T" hT hT
  have hmembers : closable.allMembers "p.T" = [closing, closingOne] := by decide +kernel
  have hpairwise := hanchors closable "p.T"
  rw [hmembers, List.pairwise_pair] at hpairwise
  refine ⟨hclosing, hclosingOne, ?_, htypeMethod closing hclosing,
    hmethodField closing _ hclosing hclosed, hmembers, hpairwise rfl rfl hclosing hclosingOne⟩
  rw [Ne, hmethod closing closingOne hclosing hclosingOne]
  decide

end DocWeave.Javadoc
