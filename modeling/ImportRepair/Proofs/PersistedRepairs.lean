import ImportRepair.Proofs.CommandText
import ImportRepair.Proofs.Json.Documents
import ImportRepair.Repair.Report

/-!
# Repairs as documents

A repair is loaded from its JSON report as it was, if its commands can be read off their texts; and
the commands of every repair that was loaded can be (`load_jsonText`).

## Implementation notes

Each record is shown to be written exactly (`exact_toJson`) and to be read as it was written
(`reader_toJson`, with one case for each field in their order). Only commands have a condition:
everything else is read as it stands.
-/

namespace ImportRepair

open Json (Exact Reader Tree)
open Json.Fields (build_map_eq_ok_iff build_seq_eq_ok_iff exists_of_build_required)

namespace Location

theorem exact_toJson (l : Location) : Exact l.toJson :=
  .member (.string _) (.member (Json.exact_uint32 _) (.member (Json.exact_uint32 _) .noMembers))

theorem reader_toJson (l : Location) : reader (Tree.ofJson l.toJson) = .ok l := by
  apply Reader.record_ofJson (by decide) (List.Sublist.refl _)
  obtain ⟨file, line, column⟩ := l
  refine .seq (.seq (.map ?_) ?_) ?_
  · exact .required rfl rfl
  · exact .withDefault rfl (Reader.uint32_ofJson line)
  · exact .withDefault rfl (Reader.uint32_ofJson column)

end Location

namespace Proxy

theorem exact_toJson (p : Proxy) : Exact p.toJson := by
  have himports : Exact (.object (p.imports.toList.map fun e => (e.1, .string e.2))) := by
    apply Exact.object
    intro m hm
    obtain ⟨e, -, rfl⟩ := List.mem_map.mp hm
    exact .string _
  exact .member (.string _) (.member (.string _) (.member (.boolean _) (.member himports
    (.member p.location.exact_toJson .noMembers))))

/-- The entries of an alias map make the map again. -/
theorem reader_imports (m : AliasMap) :
    AliasMap.reader (Tree.ofJson (.object (m.toList.map fun e => (e.1, .string e.2)))) = .ok m := by
  have hentries : Reader.entries Reader.string
      (Tree.ofJson (.object (m.toList.map fun e => (e.1, .string e.2)))) = .ok m.toList :=
    Reader.entries_ofJson fun _ _ => rfl
  rw [AliasMap.reader, hentries, Except.map, AliasMap.ofList_toList]

theorem reader_isDev (k : DepKind) : DepKind.reader (Tree.ofJson (.boolean k.isDev)) = .ok k := by
  cases k <;> rfl

theorem reader_toJson (p : Proxy) : reader (Tree.ofJson p.toJson) = .ok p := by
  apply Reader.record_ofJson (by decide) (List.Sublist.refl _)
  obtain ⟨path, name, kind, imports, location⟩ := p
  refine .seq (.seq (.seq (.seq (.map ?_) ?_) ?_) ?_) ?_
  · exact .required rfl rfl
  · exact .withDefault rfl rfl
  · exact .withDefault rfl (reader_isDev kind)
  · exact .withDefault rfl (reader_imports imports)
  · exact .required rfl location.reader_toJson

end Proxy

namespace Usage

theorem exact_toJson (u : Usage) : Exact u.toJson :=
  .member (.string _) (.member (.string _)
    (.member (Json.exact_map fun p _ => p.exact_toJson) .noMembers))

theorem reader_toJson (u : Usage) : reader (Tree.ofJson u.toJson) = .ok u := by
  apply Reader.record_ofJson (by decide) (List.Sublist.refl _)
  obtain ⟨bzlFile, extensionName, proxies⟩ := u
  refine .seq (.seq (.map ?_) ?_) ?_
  · exact .required rfl rfl
  · exact .required rfl rfl
  · exact .withDefault rfl (Reader.list_ofJson fun p _ => p.reader_toJson)

end Usage

/-- A command is read from its text if the text can be read. -/
theorem Command.reader_text {c : Command} (h : c.Readable) :
    reader (Tree.ofJson (.string c.text)) = .ok c :=
  Reader.checked_eq_ok_iff.mpr ⟨c.text, rfl, parse_text h⟩

theorem Command.readable_of_reader {t : Tree} {c : Command} (h : reader t = .ok c) :
    c.Readable := by
  obtain ⟨text, -, hparse⟩ := Reader.checked_eq_ok_iff.mp h
  exact readable_of_parse hparse

namespace FileEdits

theorem exact_toJson (f : FileEdits) : Exact f.toJson :=
  .member (.string _) (.member (Json.exact_strings _) .noMembers)

theorem reader_toJson {f : FileEdits} (h : ∀ c ∈ f.commands, c.Readable) :
    reader (Tree.ofJson f.toJson) = .ok f := by
  obtain ⟨path, commands⟩ := f
  have hcommands : Reader.list Command.reader
      (Tree.ofJson (.strings (commands.map Command.text))) = .ok commands := by
    rw [Json.strings, List.map_map]
    exact Reader.list_ofJson fun c hc => Command.reader_text (h c hc)
  apply Reader.record_ofJson (by decide) (List.Sublist.refl _)
  refine .seq (.map ?_) ?_
  · exact .required rfl rfl
  · exact .required rfl hcommands

theorem readable_of_reader {t : Tree} {f : FileEdits} (h : reader t = .ok f) :
    ∀ c ∈ f.commands, c.Readable := by
  obtain ⟨find, hbuild⟩ := Reader.exists_build_of_record h
  obtain ⟨g, hpath, cs, hcommands, rfl⟩ := build_seq_eq_ok_iff.mp hbuild
  obtain ⟨path, -, rfl⟩ := build_map_eq_ok_iff.mp hpath
  obtain ⟨t', hlist⟩ := exists_of_build_required hcommands
  intro c hc
  obtain ⟨_, hread⟩ := Reader.exists_of_mem_list hlist hc
  exact Command.readable_of_reader hread

end FileEdits

namespace EditPlan

/-- All commands of a plan can be read off their texts. -/
def Readable (plan : EditPlan) : Prop := ∀ f ∈ plan.files, ∀ c ∈ f.commands, c.Readable

theorem exact_toJson (plan : EditPlan) : Exact plan.toJson :=
  Json.exact_map fun f _ => f.exact_toJson

theorem reader_toJson {plan : EditPlan} (h : plan.Readable) :
    reader (Tree.ofJson plan.toJson) = .ok plan := by
  have hfiles : Reader.list FileEdits.reader (Tree.ofJson plan.toJson) = .ok plan.files :=
    Reader.list_ofJson fun f hf => FileEdits.reader_toJson (h f hf)
  rw [reader, hfiles, Except.map]

theorem readable_of_reader {t : Tree} {plan : EditPlan} (h : reader t = .ok plan) :
    plan.Readable := by
  obtain ⟨files, hlist, rfl⟩ := Except.map_eq_ok_iff.mp h
  intro f hf
  obtain ⟨_, hread⟩ := Reader.exists_of_mem_list hlist hf
  exact FileEdits.readable_of_reader hread

end EditPlan

namespace Diagnostic

theorem exact_toJson (d : Diagnostic) : Exact d.toJson :=
  .member (.string _) (.member d.location.exact_toJson (.member (.string _) .noMembers))

theorem variant_name (s : Severity) :
    Reader.variant Severity.names (Tree.ofJson (.string s.name)) = .ok s := by
  cases s <;> rfl

theorem reader_toJson (d : Diagnostic) : reader (Tree.ofJson d.toJson) = .ok d := by
  apply Reader.record_ofJson (by decide) (List.Sublist.refl _)
  obtain ⟨severity, location, message⟩ := d
  refine .seq (.seq (.map ?_) ?_) ?_
  · exact .required rfl (variant_name severity)
  · exact .required rfl location.reader_toJson
  · exact .required rfl rfl

end Diagnostic

namespace Repair

theorem exact_toJson (r : Repair) : Exact r.toJson :=
  .member (.string _) (.member r.commands.exact_toJson (.member r.usage.exact_toJson
    (.member r.warning.exact_toJson .noMembers)))

theorem reader_toJson {r : Repair} (h : r.commands.Readable) :
    reader (Tree.ofJson r.toJson) = .ok r := by
  apply Reader.record_ofJson (by decide) (List.Sublist.refl _)
  obtain ⟨schema, commands, usage, warning⟩ := r
  refine .seq (.seq (.seq (.map ?_) ?_) ?_) ?_
  · exact .required rfl rfl
  · exact .required rfl (EditPlan.reader_toJson h)
  · exact .required rfl usage.reader_toJson
  · exact .required rfl warning.reader_toJson

theorem readable_of_reader {t : Tree} {r : Repair} (h : reader t = .ok r) :
    r.commands.Readable := by
  obtain ⟨find, hbuild⟩ := Reader.exists_build_of_record h
  obtain ⟨g₃, hthree, warning, -, rfl⟩ := build_seq_eq_ok_iff.mp hbuild
  obtain ⟨g₂, htwo, usage, -, rfl⟩ := build_seq_eq_ok_iff.mp hthree
  obtain ⟨g₁, hone, plan, hplan, rfl⟩ := build_seq_eq_ok_iff.mp htwo
  obtain ⟨schema, -, rfl⟩ := build_map_eq_ok_iff.mp hone
  obtain ⟨_, hread⟩ := exists_of_build_required hplan
  exact EditPlan.readable_of_reader hread

/-- A repair whose commands can be read is loaded from its JSON report as it was, so the report of
the reloaded repair is the same text. Every repair that was loaded is such a repair, whatever text
it was loaded from. -/
theorem load_jsonText :
    (∀ r : Repair, r.commands.Readable →
        load r.jsonText = .ok r ∧ (load r.jsonText).map jsonText = .ok r.jsonText) ∧
      ∀ text r, load text = .ok r → r.commands.Readable := by
  constructor
  · intro r h
    have hload : load r.jsonText = .ok r :=
      r.exact_toJson.readText_line (reader_toJson h)
    refine ⟨hload, ?_⟩
    rw [hload, Except.map]
  · intro text r h
    exact readable_of_reader (Reader.readText_eq_ok_iff.mp h).1

/-- A repair with a control character in the name of an imported repository and a path that is
spelled with an empty component. -/
def sampleRepair : Repair where
  schema := "v0"
  commands := ⟨[⟨⟨"ext//m"⟩, [.ofList .add "p" ["a", "b"]]⟩]⟩
  usage := ⟨"e", "x", [⟨⟨"m"⟩, "", .dev, .ofList [("a", "\x07"), ("k", "v")], ⟨"f", 0, 0⟩⟩]⟩
  warning := ⟨.info, ⟨"f", 7, 0⟩, "\t"⟩

/-- A text of the sample: arrays stand for most records, fields are left out and the members of the
alias map and the words of the command are in other orders. -/
def sampleText : String :=
  "[\"v0\", [[\"ext//m\", [\" use_repo_add  p b a b\"]]], [\"e\", \"x\", " ++
    "[[\"m\", \"\", true, \x7b\"k\": \"v\", \"a\": \"\\u0007\"\x7d, \x7b\"file\": \"f\"\x7d]]], " ++
    "[\"info\", [\"f\", 7], \"\\t\"]]"

/-- The sample is loaded from this text, and so it is loaded from its own report. -/
theorem load_jsonText_of_sampleRepair :
    load sampleText = .ok sampleRepair ∧ sampleRepair.commands.Readable ∧
      load sampleRepair.jsonText = .ok sampleRepair := by
  have hload : load sampleText = .ok sampleRepair := by decide +kernel
  have hreadable : sampleRepair.commands.Readable := load_jsonText.2 _ _ hload
  exact ⟨hload, hreadable, (load_jsonText.1 _ hreadable).1⟩

end Repair

end ImportRepair
