import ImportRepair.Proofs.CheckRuns
import ImportRepair.Proofs.Json.Documents
import ImportRepair.Proofs.Json.Lexemes
import ImportRepair.Proofs.Json.Likeness

/-!
# Spellings of an evaluation

An evaluation can be spelled in many ways: with other space between the lexemes, with the keys of
its records in another order and further keys among them, with the generated repositories in another
order and some of them repeated, and with imports in another order. `check_respelled` says that a
check cannot tell these spellings apart.

## Implementation notes

A record is spelled by the trees of its fields, so the other keys and the order do not come up. The
likeness of two fields depends on the name of the field.
-/

namespace ImportRepair

open Json

theorem RepoSet.reader_respects : RepoSet.reader.Respects Tree.SameItems := by
  intro t t' s s' halike hread hread'
  obtain ⟨names, hnames, rfl⟩ := Except.map_eq_ok_iff.mp hread
  obtain ⟨names', hnames', rfl⟩ := Except.map_eq_ok_iff.mp hread'
  ext n
  rw [RepoSet.mem_ofList, RepoSet.mem_ofList]
  exact Reader.mem_iff_of_sameItems halike hnames hnames'

/-- Entries with aliases of their own make one map in any order. -/
theorem AliasMap.ofList_perm {es es' : List (String × String)} (h : es.Perm es')
    (hkeys : (es.map (·.1)).Nodup) : AliasMap.ofList es = AliasMap.ofList es' := by
  have hdistinct : es.Pairwise fun a b => a.1 ≠ b.1 := List.pairwise_map.mp hkeys
  have hdistinct' : es'.Pairwise fun a b => a.1 ≠ b.1 :=
    List.pairwise_map.mp ((h.map Prod.fst).nodup_iff.mp hkeys)
  ext e
  simp [AliasMap.ofList, AliasMap.mem_foldl_insert_entries, hdistinct, hdistinct', h.mem_iff]

/-- Imports that are the same, or the same in another order if no alias is there twice. -/
def ImportsAlike (t t' : Tree) : Prop := t = t' ∨ t.SameMembers t'

theorem AliasMap.reader_respects : AliasMap.reader.Respects ImportsAlike := by
  rintro t t' m m' (rfl | halike) hread hread'
  · exact AliasMap.reader.respects_eq t t m m' rfl hread hread'
  · obtain ⟨es, hes, rfl⟩ := Except.map_eq_ok_iff.mp hread
    obtain ⟨es', hes', rfl⟩ := Except.map_eq_ok_iff.mp hread'
    obtain ⟨hperm, hkeys⟩ := Reader.entries_perm_of_sameMembers halike hes hes'
    exact AliasMap.ofList_perm hperm hkeys

/-- How the fields of a proxy are alike. -/
def Proxy.FieldAlike (name : String) : Tree → Tree → Prop :=
  if name = "imports" then ImportsAlike
  else if name = "location" then Location.fields.Alike fun _ => Eq
  else Eq

/-- How the fields of an evaluation are alike. -/
def Evaluation.FieldAlike (name : String) : Tree → Tree → Prop :=
  if name = "generated_repos" then Tree.SameItems
  else if name = "proxies" then Tree.ItemsAlike (Proxy.fields.Alike Proxy.FieldAlike)
  else Eq

theorem Location.reader_respects :
    Location.reader.Respects (Location.fields.Alike fun _ => Eq) := by
  apply Reader.Respects.record
  refine .seq (.seq (.map ?file) ?line) ?column
  case file => exact .required (Reader.respects_eq _)
  case line => exact .withDefault (Reader.respects_eq _)
  case column => exact .withDefault (Reader.respects_eq _)

theorem Proxy.reader_respects : Proxy.reader.Respects (Proxy.fields.Alike Proxy.FieldAlike) := by
  apply Reader.Respects.record
  refine .seq (.seq (.seq (.seq (.map ?path) ?proxyName) ?kind) ?imports) ?location
  case path => exact .required (Reader.respects_eq _)
  case proxyName => exact .withDefault (Reader.respects_eq _)
  case kind => exact .withDefault (Reader.respects_eq _)
  case imports => exact .withDefault AliasMap.reader_respects
  case location => exact .required Location.reader_respects

theorem Evaluation.reader_respects :
    Evaluation.reader.Respects (Evaluation.fields.Alike Evaluation.FieldAlike) := by
  apply Reader.Respects.record
  refine .seq (.seq (.seq (.seq (.seq (.seq (.seq (.map ?schema) ?bzlFile) ?extensionName) ?deps)
    ?devDeps) ?reproducible) ?generated) ?proxies
  case schema => exact .withDefault (Reader.respects_eq _)
  case bzlFile => exact .required (Reader.respects_eq _)
  case extensionName => exact .required (Reader.respects_eq _)
  case deps => exact .withDefault (Reader.respects_eq _)
  case devDeps => exact .withDefault (Reader.respects_eq _)
  case reproducible => exact .withDefault (Reader.respects_eq _)
  case generated => exact .withDefault RepoSet.reader_respects
  case proxies => exact .withDefault Proxy.reader_respects.list

/-- Two texts spell an evaluation alike: up to the space between its lexemes the first one is a text
whose fields are like those of the second one. -/
def Respelled (s t : String) : Prop :=
  ∃ r, lexemes s.toList = lexemes r.toList ∧
    Evaluation.fields.Alike Evaluation.FieldAlike (Document.ofText r).root (Document.ofText t).root

theorem Respelled.eq_of_readText {s t : String} {e e' : Evaluation} (h : Respelled s t)
    (hs : Reader.readText Evaluation.reader s = .ok e)
    (ht : Reader.readText Evaluation.reader t = .ok e') : e = e' := by
  obtain ⟨r, hlexemes, halike⟩ := h
  rw [Reader.readText_eq_ok_iff] at hs ht
  rw [Document.ofText_eq_of_lexemes hlexemes] at hs
  exact Evaluation.reader_respects _ _ e e' halike hs.1 ht.1

namespace CommandLine

/-- A check does not tell the spellings of an evaluation apart: it gives the same verdict, which is
a failure or the text of the report in the format of the settings, and so the answers of the program
are the same. -/
theorem check_respelled {s t : String} (h : Respelled s t)
    (hs : ∃ e, Reader.readText Evaluation.reader s = .ok e)
    (ht : ∃ e, Reader.readText Evaluation.reader t = .ok e) :
    (∀ settings path, verdict settings path s = verdict settings path t) ∧
      ∀ (σ τ : Type) (c : CheckRun σ) (c' : CheckRun τ), c.text = s → c'.text = t →
        c.arguments.evaluation = c'.arguments.evaluation → c.arguments.out = c'.arguments.out →
        c.settings = c'.settings → c.outcome = c'.outcome ∧ c.WritesAlike c' := by
  obtain ⟨e, he⟩ := hs
  obtain ⟨e', he'⟩ := ht
  obtain rfl := h.eq_of_readText he he'
  have hload : Evaluation.load s = Evaluation.load t := by
    rw [Evaluation.load, Evaluation.load, he, he']
  have hrepair : ∀ path, repairOfText path s = repairOfText path t := by
    intro path
    rw [repairOfText, repairOfText, hload]
  constructor
  · intro settings path
    rw [verdict, verdict, hrepair]
  · rintro σ τ c c' rfl rfl hpath hout hsettings
    have hsame : repairOfText c.arguments.evaluation c.text =
        repairOfText c'.arguments.evaluation c'.text := by rw [hpath, hrepair]
    have hexit : c.outcome.exit = c'.outcome.exit := by
      rw [CheckRun.exit_eq, CheckRun.exit_eq, hsame, hsettings]
    obtain ⟨houtcome, hwrites⟩ := CheckRun.outcome_eq_of_repairOfText hsame hout
      (congrArg Settings.format hsettings)
    rw [← hexit] at houtcome
    exact ⟨houtcome.symm, hwrites⟩

/-- An evaluation that lists `a`, where `a` and `b` are generated and imported. -/
def plainText : String :=
  "[\"usefix.evaluation.v1\",\"b\",\"x\",[\"a\"],[],false,[\"a\",\"b\"]," ++
    "[[\"M\",\"\",false,\x7b\"a\":\"a\",\"b\":\"b\"\x7d,\x7b\"file\":\"M\",\"line\":1\x7d]]]"

/-- The evaluation with space in it. -/
def spacedText : String :=
  "[\"usefix.evaluation.v1\",\n\"b\",\"x\", [\"a\"],[],false,[\"a\",\t\"b\"]," ++
    "[[\"M\",\"\",false,\x7b\"a\":\"a\",\"b\" :\"b\"\x7d,\x7b\"file\":\"M\",\"line\":1 \x7d]]]\n"

/-- The evaluation in another order, with a repository repeated and a key that is not known. -/
def shuffledText : String :=
  "[\"usefix.evaluation.v1\",\"b\",\"x\",[\"a\"],[],false,[\"b\",\"a\",\"b\"]," ++
    "[[\"M\",\"\",false,\x7b\"b\":\"b\",\"a\":\"a\"\x7d,\x7b\"line\":1,\"note\":[],\"file\":\"M\"\x7d]]]"

/-- The tree of the evaluation but for the parts that come in several spellings. -/
def sharedTree (generated : List Tree) (imports location : List (Option String × Tree)) : Tree :=
  .array [.string "usefix.evaluation.v1", .string "b", .string "x", .array [.string "a"] true,
    .array [] true, .boolean false, .array generated true,
    .array [.array [.string "M", .string "", .boolean false, .object imports true,
      .object location true] true] true] true

/-- The evaluation as a value, but for the parts that come in several spellings. -/
def sharedValue (generated : List String) (imports location : List (String × Json)) : Json :=
  .array [.string "usefix.evaluation.v1", .string "b", .string "x", .strings ["a"], .strings [],
    .boolean false, .strings generated,
    .array [.array [.string "M", .string "", .boolean false, .object imports, .object location]]]

theorem exact_sharedValue {generated : List String} {imports location : List (String × Json)}
    (himports : Exact (.object imports)) (hlocation : Exact (.object location)) :
    (sharedValue generated imports location).Exact := by
  apply Exact.array
  simp only [List.forall_mem_cons, List.not_mem_nil, false_implies, implies_true, and_true]
  refine ⟨.string _, .string _, .string _, exact_strings _, exact_strings _, .boolean _,
    exact_strings _, .array ?_⟩
  simp only [List.forall_mem_singleton]
  apply Exact.array
  simp only [List.forall_mem_cons, List.not_mem_nil, false_implies, implies_true, and_true]
  exact ⟨.string _, .string _, .boolean _, himports, hlocation⟩

/-- The tree of a text that is a spelling of a value. -/
theorem ofText_of_lexemes {text : String} {v : Json} (hv : v.Exact)
    (h : lexemes text.toList = lexemes (v.prettyAt 0)) :
    Document.ofText text = ⟨Tree.ofJson v, true⟩ := by
  have hpretty : lexemes text.toList = lexemes v.prettyText.toList := by
    rw [h, prettyText, String.toList_ofList]
  rw [Document.ofText_eq_of_lexemes hpretty, ← String.append_empty (s := v.prettyText)]
  exact hv.ofText_append (by simp)

theorem lexemes_spacedText : lexemes plainText.toList = lexemes spacedText.toList := by
  decide +kernel

theorem ofText_spacedText :
    Document.ofText spacedText =
      ⟨sharedTree [.string "a", .string "b"] [("a", .string "a"), ("b", .string "b")]
        [("file", .string "M"), ("line", .number (.integer 1))], true⟩ := by
  have hexact : (sharedValue ["a", "b"] [("a", .string "a"), ("b", .string "b")]
      [("file", .string "M"), ("line", .integer 1)]).Exact :=
    exact_sharedValue (.member (.string _) (.member (.string _) .noMembers))
      (.member (.string _) (.member (.integer (by decide) (by decide)) .noMembers))
  exact ofText_of_lexemes hexact (by decide +kernel)

theorem ofText_shuffledText :
    Document.ofText shuffledText =
      ⟨sharedTree [.string "b", .string "a", .string "b"] [("b", .string "b"), ("a", .string "a")]
        [("line", .number (.integer 1)), ("note", .array [] true), ("file", .string "M")],
        true⟩ := by
  have hexact : (sharedValue ["b", "a", "b"] [("b", .string "b"), ("a", .string "a")]
      [("line", .integer 1), ("note", .strings []), ("file", .string "M")]).Exact :=
    exact_sharedValue (.member (.string _) (.member (.string _) .noMembers))
      (.member (.integer (by decide) (by decide))
        (.member (exact_strings []) (.member (.string _) .noMembers)))
  exact ofText_of_lexemes hexact (by decide +kernel)

theorem respelled_shuffledText : Respelled plainText shuffledText := by
  have hlocation : Location.fields.Alike (fun _ => Eq)
      (.object [("file", .string "M"), ("line", .number (.integer 1))] true)
      (.object [("line", .number (.integer 1)), ("note", .array [] true),
        ("file", .string "M")] true) := by
    show ∀ name ∈ ["file", "line", "column"], _
    simp only [List.forall_mem_cons]
    exact ⟨.some rfl, .some rfl, .none, nofun⟩
  have himports : Tree.SameMembers (.object [("a", .string "a"), ("b", .string "b")] true)
      (.object [("b", .string "b"), ("a", .string "a")] true) :=
    ⟨_, _, true, true, rfl, rfl, .swap .., by decide⟩
  have hgenerated : Tree.SameItems (.array [.string "a", .string "b"] true)
      (.array [.string "b", .string "a", .string "b"] true) := by
    refine ⟨_, _, true, true, rfl, rfl, ?_⟩
    intro x
    simp only [List.mem_cons, List.not_mem_nil, or_false]
    tauto
  refine ⟨spacedText, lexemes_spacedText, ?_⟩
  rw [ofText_spacedText, ofText_shuffledText]
  show ∀ name ∈ ["schema", "extension_bzl_file", "extension_name", "root_module_direct_deps",
    "root_module_direct_dev_deps", "reproducible", "generated_repos", "proxies"], _
  simp only [List.forall_mem_cons]
  refine ⟨.some rfl, .some rfl, .some rfl, .some rfl, .some rfl, .some rfl, .some hgenerated,
    .some ⟨_, _, true, true, rfl, rfl, .cons ?_ .nil⟩, nofun⟩
  show ∀ name ∈ ["containing_module_file_path", "proxy_name", "dev_dependency", "imports",
    "location"], _
  simp only [List.forall_mem_cons]
  exact ⟨.some rfl, .some rfl, .some rfl, .some (Or.inr himports), .some hlocation, nofun⟩

/-- Spaced, shuffled and partly repeated, the evaluation gets the same verdict and answer. -/
theorem check_respelled_of_shuffledText :
    Respelled plainText shuffledText ∧
      (∀ settings path, verdict settings path plainText = verdict settings path shuffledText) ∧
      ∀ strict, (CheckRun.alone plainText strict).outcome =
        (CheckRun.alone shuffledText strict).outcome := by
  have hplain : ∃ e, Reader.readText Evaluation.reader plainText = .ok e := by
    simp only [Reader.readText_eq_ok_iff, Document.ofText_eq_of_lexemes lexemes_spacedText,
      ofText_spacedText]
    exact ⟨_, rfl, trivial⟩
  have hshuffled : ∃ e, Reader.readText Evaluation.reader shuffledText = .ok e := by
    simp only [Reader.readText_eq_ok_iff, ofText_shuffledText]
    exact ⟨_, rfl, trivial⟩
  obtain ⟨hverdict, hanswer⟩ := check_respelled respelled_shuffledText hplain hshuffled
  refine ⟨respelled_shuffledText, hverdict, ?_⟩
  intro strict
  have harguments : ∀ text, (CheckRun.alone text strict).arguments =
      { evaluation := "eval.json", format := some .json, strict := strict } := fun _ => rfl
  have hsettings : ∀ text, (CheckRun.alone text strict).settings =
      Settings.override {} (some .json) strict := fun _ => rfl
  exact (hanswer _ _ (.alone plainText strict) (.alone shuffledText strict) rfl rfl
    (by rw [harguments, harguments]) (by rw [harguments, harguments])
    (by rw [hsettings, hsettings])).1

end CommandLine

end ImportRepair
