import ImportRepair.Declaration.Basic
import ImportRepair.Json.Record

/-!
# Persisted declarations

A declaration is kept in a lockfile as a record of two optional lists, of the kind that claims every
repository, and of the flag. A record that was read is validated like the arguments it stands for.
-/

namespace ImportRepair

/-- The persisted form of a declaration. -/
structure DeclarationRecord where
  regular : Option (List String) := none
  dev : Option (List String) := none
  /-- The kind that claims every repository. -/
  useAll : Option DepKind := none
  reproducible : Bool := false
  deriving DecidableEq, Repr

namespace Declaration

/-- The regular names, if the declaration lists names. -/
def regular? (d : Declaration) : Option (List String) :=
  match d.opinion with
  | .listed deps => some deps.regular
  | _ => none

/-- The dev names, if the declaration lists names. -/
def dev? (d : Declaration) : Option (List String) :=
  match d.opinion with
  | .listed deps => some deps.dev
  | _ => none

/-- The kind that claims every repository, if there is one. -/
def useAll? (d : Declaration) : Option DepKind :=
  match d.opinion with
  | .all kind => some kind
  | _ => none

/-- The record of a declaration. -/
def toRecord (d : Declaration) : DeclarationRecord :=
  ⟨d.regular?, d.dev?, d.useAll?, d.reproducible⟩

/-- Validate a record. The kind that claims every repository has no list of its own, and the other
kind has no list or an empty one. -/
def ofRecord (r : DeclarationRecord) : Except DeclarationError Declaration :=
  match r.useAll with
  | none => validate (.ofOption r.regular) (.ofOption r.dev) r.reproducible
  | some .regular =>
    if r.regular.isSome then .error .allWithSibling
    else validate .all (.names (r.dev.getD [])) r.reproducible
  | some .dev =>
    if r.dev.isSome then .error .allWithSibling
    else validate (.names (r.regular.getD [])) .all r.reproducible

end Declaration

namespace DeclarationRecord

open Json (Fields Reader)
open Json.Fields

/-- The words for the kind that claims every repository. -/
def useAllNames : List (String × Option DepKind) :=
  [("no", none), ("regular", some .regular), ("dev", some .dev)]

/-- The word for the kind that claims every repository. -/
def useAllName : Option DepKind → String
  | none => "no"
  | some .regular => "regular"
  | some .dev => "dev"

/-- The fields of a persisted declaration. -/
def fields : Fields DeclarationRecord :=
  DeclarationRecord.mk <$>
    withDefault "explicit_root_module_direct_deps"
      (Reader.optional (Reader.list Reader.string)) none <*>
    withDefault "explicit_root_module_direct_dev_deps"
      (Reader.optional (Reader.list Reader.string)) none <*>
    withDefault "use_all_repos" (Reader.variant useAllNames) none <*>
    withDefault "reproducible" Reader.boolean false

/-- Read a persisted declaration without validating it. -/
def reader : Reader DeclarationRecord := Reader.record "MetadataRepr" fields

/-- The member for a list, unless it is absent. -/
def listMember (name : String) : Option (List String) → List (String × Json)
  | some ns => [(name, .strings ns)]
  | none => []

/-- The JSON form of a record; absent lists are left out. -/
def toJson (r : DeclarationRecord) : Json :=
  .object (listMember "explicit_root_module_direct_deps" r.regular ++
    listMember "explicit_root_module_direct_dev_deps" r.dev ++
    [("use_all_repos", .string (useAllName r.useAll)), ("reproducible", .boolean r.reproducible)])

end DeclarationRecord

namespace Declaration

/-- Read a persisted declaration. -/
def reader : Json.Reader Declaration :=
  .checked DeclarationRecord.reader ofRecord DeclarationError.message

/-- Load a declaration from the text it was persisted as. -/
def load (text : String) : Except Json.ReadError Declaration := Json.Reader.readText reader text

/-- The text under which a declaration is persisted. -/
def persisted (d : Declaration) : String := d.toRecord.toJson.prettyText

end Declaration

end ImportRepair
