import ImportRepair.Json.Record
import ImportRepair.Usage.Basic

/-!
# Usages as JSON

The records of locations, proxies and usages.
-/

namespace ImportRepair

open Json (Fields Reader)
open Json.Fields

namespace Location

/-- The fields of a location. -/
def fields : Fields Location :=
  Location.mk <$> required "file" Reader.string <*> withDefault "line" Reader.uint32 0 <*>
    withDefault "column" Reader.uint32 0

/-- Read a location. -/
def reader : Reader Location := Reader.record "Location" fields

/-- The JSON form of a location. -/
def toJson (l : Location) : Json :=
  .object [("file", .string l.file), ("line", .integer l.line.toNat),
    ("column", .integer l.column.toNat)]

end Location

/-- Read the path of a module file. -/
def ModulePath.reader : Reader ModulePath := fun t =>
  (Reader.stringAs "a UTF-8 path string" t).map .mk

/-- Read an alias map; of two members with one alias the later one counts. -/
def AliasMap.reader : Reader AliasMap := fun t =>
  (Reader.entries Reader.string t).map AliasMap.ofList

/-- Read a set of names; order and repetition do not matter. -/
def RepoSet.reader : Reader RepoSet := fun t =>
  (Reader.list Reader.string t).map RepoSet.ofList

/-- Read the flag `dev_dependency` as a kind. -/
def DepKind.reader : Reader DepKind := fun t => (Reader.boolean t).map DepKind.ofFlag

namespace Proxy

/-- The fields of a proxy. -/
def fields : Fields Proxy :=
  Proxy.mk <$> required "containing_module_file_path" ModulePath.reader <*>
    withDefault "proxy_name" Reader.string "" <*>
    withDefault "dev_dependency" DepKind.reader .regular <*>
    withDefault "imports" AliasMap.reader ∅ <*>
    required "location" Location.reader

/-- Read a proxy. -/
def reader : Reader Proxy := Reader.record "UsageProxy" fields

/-- The JSON form of a proxy. -/
def toJson (p : Proxy) : Json :=
  .object [("containing_module_file_path", .string p.path.text), ("proxy_name", .string p.name),
    ("dev_dependency", .boolean p.kind.isDev),
    ("imports", .object (p.imports.toList.map fun e => (e.1, .string e.2))),
    ("location", p.location.toJson)]

end Proxy

namespace Usage

/-- The fields of a usage. -/
def fields : Fields Usage :=
  Usage.mk <$> required "extension_bzl_file" Reader.string <*>
    required "extension_name" Reader.string <*>
    withDefault "proxies" (Reader.list Proxy.reader) []

/-- Read a usage. -/
def reader : Reader Usage := Reader.record "UsageRepr" fields

/-- The JSON form of a usage. -/
def toJson (u : Usage) : Json :=
  .object [("extension_bzl_file", .string u.bzlFile), ("extension_name", .string u.extensionName),
    ("proxies", .array (u.proxies.map Proxy.toJson))]

end Usage

end ImportRepair
