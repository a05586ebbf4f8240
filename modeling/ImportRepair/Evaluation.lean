import ImportRepair.Repair.Basic
import ImportRepair.Usage.Json

/-!
# Evaluations of extensions

An evaluation is the document that describes one run of an extension: how it declared its direct
dependencies, what it generated, and which proxies the root module has. Checking it makes the
repair that is called for.

## Implementation notes

The two arguments of the declaration are kept as they came. They are validated when the evaluation
is checked, so a document with a bad declaration can be read.
-/

namespace ImportRepair

open Json (Fields Reader)
open Json.Fields

/-- The record of one run of an extension. -/
structure Evaluation where
  /-- The identifier of the document format. -/
  schema : String
  bzlFile : String
  extensionName : String
  /-- The argument for regular dependencies. -/
  deps : Json
  /-- The argument for dev dependencies. -/
  devDeps : Json
  reproducible : Bool
  /-- The repositories that the extension generated. -/
  generated : RepoSet
  /-- The proxies of the root module, in declaration order. -/
  proxies : List Proxy

namespace Evaluation

/-- The identifier of the format of evaluations. -/
def supportedSchema : String := "usefix.evaluation.v1"

/-- The fields of an evaluation. -/
def fields : Fields Evaluation :=
  Evaluation.mk <$> withDefault "schema" Reader.string supportedSchema <*>
    required "extension_bzl_file" Reader.string <*>
    required "extension_name" Reader.string <*>
    withDefault "root_module_direct_deps" (Reader.value 1) .null <*>
    withDefault "root_module_direct_dev_deps" (Reader.value 1) .null <*>
    withDefault "reproducible" Reader.boolean false <*>
    withDefault "generated_repos" RepoSet.reader ∅ <*>
    withDefault "proxies" (Reader.list Proxy.reader) []

/-- Read an evaluation. -/
def reader : Reader Evaluation := Reader.record "ExtensionEvaluation" fields

/-- Why a text is no evaluation that can be checked. -/
inductive LoadError
  | unreadable (e : Json.ReadError)
  | unsupportedSchema (schema : String)
  deriving DecidableEq, Repr

/-- The message for a document of another format. -/
def schemaMessage (schema path : String) : String :=
  "unsupported evaluation schema '" ++ schema ++ "' in " ++ path ++ " (expected '" ++
    supportedSchema ++ "')"

/-- Load an evaluation from a text. -/
def load (text : String) : Except LoadError Evaluation :=
  match Reader.readText reader text with
  | .error e => .error (.unreadable e)
  | .ok e => if e.schema = supportedSchema then .ok e else .error (.unsupportedSchema e.schema)

/-- The usage that an evaluation describes. -/
def usage (e : Evaluation) : Usage := ⟨e.bzlFile, e.extensionName, e.proxies⟩

/-- The declaration of an evaluation. -/
def declaration (e : Evaluation) : Except DeclarationError Declaration :=
  Declaration.validate (.ofJson e.deps) (.ofJson e.devDeps) e.reproducible

/-- Why an evaluation gives no verdict. -/
inductive CheckError
  | declaration (e : DeclarationError)
  | repair (e : RepairError)
  deriving DecidableEq, Repr

/-- The message shown to the user. -/
def CheckError.message : CheckError → String
  | .declaration e => e.message
  | .repair e => e.message

/-- The class of a failure. -/
def CheckError.failureClass : CheckError → FailureClass
  | .declaration e => e.failureClass
  | .repair e => e.failureClass

/-- The repair that an evaluation calls for, if any. -/
def check (e : Evaluation) : Except CheckError (Option Repair) :=
  match e.declaration with
  | .error err => .error (.declaration err)
  | .ok d =>
    match d.repair? e.usage e.generated with
    | .error err => .error (.repair err)
    | .ok r => .ok r

end Evaluation

end ImportRepair
