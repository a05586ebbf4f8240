import ImportRepair.Proofs.Sections
import ImportRepair.Repair.Report

/-!
# What a report lists

A report in plain text or in markdown shows the commands of a repair file by file. What it shows is
the listing of the edit plan: the spellings of the paths in order, each with the texts of its
commands. Reports that agree in their usage and their warning agree just when they list the same
(`report_eq_iff`), so a reader of either format knows every edit and its place.

## Implementation notes

The section for a file is opened by a blank line in plain text, and closed by the end of a block in
markdown. No line of a command is either one: lines are indented in plain text, and a command begins
with its action. In markdown the counts of the summary are read off first, since they are not of one
length.
-/

namespace ImportRepair

/-- What a report shows of a file: its path and the texts of its commands. -/
def FileEdits.shown (f : FileEdits) : String × List String :=
  (f.path.text, f.commands.map Command.text)

namespace EditPlan

/-- What a report shows of a plan, file by file. -/
def listing (plan : EditPlan) : List (String × List String) := plan.files.map FileEdits.shown

/-- Each path and each command takes a line of its own. -/
def OneLined (plan : EditPlan) : Prop :=
  ∀ f ∈ plan.files, OneLine f.path.text ∧ ∀ c ∈ f.commands, OneLine c.text

instance (plan : EditPlan) : Decidable plan.OneLined :=
  inferInstanceAs (Decidable (∀ f ∈ plan.files, _))

theorem listing_eq_nil_iff {plan : EditPlan} : plan.listing = [] ↔ plan.isEmpty = true := by
  simp [listing, isEmpty]

theorem length_listing (plan : EditPlan) : plan.listing.length = plan.files.length := by
  simp [listing]

theorem size_eq (plan : EditPlan) : plan.size = (plan.listing.flatMap (·.2)).length := by
  simp [size, listing, FileEdits.shown, List.flatMap_map, List.length_flatMap]

end EditPlan

/-- The line that closes a block of commands. -/
def fence : String := "```"

/-- What is shown of a file without running into the lines around it. -/
structure Showable (s : String × List String) : Prop where
  path : OneLine s.1
  commands : ∀ c ∈ s.2, OneLine c ∧ c ≠ fence

theorem Command.text_ne_fence (c : Command) : c.text ≠ fence := by
  intro h
  have hchars := congrArg String.toList h
  cases ha : c.action <;> simp [text, ha, Action.keyword, fence] at hchars

theorem EditPlan.OneLined.showable {plan : EditPlan} (h : plan.OneLined) :
    ∀ s ∈ plan.listing, Showable s := by
  intro s hs
  obtain ⟨f, hf, rfl⟩ := List.mem_map.mp hs
  refine ⟨(h f hf).1, ?_⟩
  intro c hc
  obtain ⟨command, hcommand, rfl⟩ := List.mem_map.mp hc
  exact ⟨(h f hf).2 command hcommand, command.text_ne_fence⟩

/-- The lines for a file in plain text. -/
def textLines (s : String × List String) : List String :=
  "" :: ((s.1 ++ ":") :: s.2.map ("  " ++ ·))

/-- The lines for a file in markdown. -/
def markdownLines (s : String × List String) : List String :=
  (("### `" ++ s.1 ++ "`") :: "" :: "```text" :: s.2) ++ [fence, ""]

theorem FileEdits.unlines_textLines (f : FileEdits) :
    unlines (textLines f.shown) = f.textSection := by
  have hcolon : ":\n" = ":" ++ "\n" := by decide
  rw [textSection, hcolon]
  simp only [textLines, shown, unlines_cons, String.append_assoc, String.empty_append]
  simp only [unlines, List.map_map, Function.comp_def, String.append_assoc]

theorem FileEdits.unlines_markdownLines (f : FileEdits) :
    unlines (markdownLines f.shown) = f.markdownSection := by
  have hopen : "`\n\n```text\n" = "`" ++ "\n" ++ "\n" ++ "```text" ++ "\n" := by decide
  have hclose : "```\n\n" = fence ++ "\n" ++ "\n" := by decide
  rw [markdownSection, hopen, hclose]
  simp only [markdownLines, shown, unlines_append, unlines_cons, unlines_nil, String.append_assoc,
    String.empty_append, String.append_empty]
  simp only [unlines, List.map_map, Function.comp_def]

variable {ss ts : List (String × List String)}

theorem textLines_inj (h : ss.flatMap textLines = ts.flatMap textLines) : ss = ts := by
  refine flatMap_opened_inj (P := fun _ => True) ?_ ?_ (by simp) (by simp) h
  · -- No line is blank but the one that opens the section.
    rintro ⟨path, commands⟩ -
    simp [eq_comm (a := "")]
  · rintro ⟨path, commands⟩ ⟨path', commands'⟩ - - hlines
    obtain ⟨hpath, hcommands⟩ := List.cons.inj hlines
    have hindent : Function.Injective ("  " ++ · : String → String) :=
      fun _ _ => (String.append_right_inj _).mp
    rw [Prod.mk.injEq]
    exact ⟨(String.append_left_inj _).mp hpath, List.map_injective_iff.mpr hindent hcommands⟩

theorem markdownLines_inj (hss : ∀ s ∈ ss, Showable s) (hts : ∀ t ∈ ts, Showable t)
    (h : ss.flatMap markdownLines = ts.flatMap markdownLines) : ss = ts := by
  refine flatMap_closed_inj [""] (P := Showable) ?_ ?_ hss hts h
  · -- The block is not closed before its end: a command is no fence.
    rintro ⟨path, commands⟩ hs
    have hcommands : fence ∉ commands := fun hmem => (hs.commands _ hmem).2 rfl
    have hpath : fence ≠ "### `" ++ path ++ "`" := by
      intro hfence
      simpa [fence] using congrArg String.toList hfence
    simp only [List.mem_cons, not_or]
    exact ⟨hpath, by decide, by decide, hcommands⟩
  · rintro ⟨path, commands⟩ ⟨path', commands'⟩ - - hlines
    simp only [List.cons.injEq, true_and] at hlines
    rw [Prod.mk.injEq]
    exact ⟨(String.append_right_inj _).mp ((String.append_left_inj _).mp hlines.1), hlines.2⟩

theorem Showable.oneLine_textLines {s : String × List String} (h : Showable s) :
    ∀ l ∈ textLines s, OneLine l := by
  have hblank : OneLine "" := by decide
  have hcolon : OneLine ":" := by decide
  have hindent : OneLine "  " := by decide
  intro l hl
  simp only [textLines, List.mem_cons, List.mem_map] at hl
  rcases hl with rfl | rfl | ⟨c, hc, rfl⟩
  · exact hblank
  · exact oneLine_append.mpr ⟨h.path, hcolon⟩
  · exact oneLine_append.mpr ⟨hindent, (h.commands c hc).1⟩

theorem Showable.oneLine_markdownLines {s : String × List String} (h : Showable s) :
    ∀ l ∈ markdownLines s, OneLine l := by
  have hfixed : ∀ l ∈ ["", "```text", fence], OneLine l := by decide
  have hopen : OneLine "### `" := by decide
  have hclose : OneLine "`" := by decide
  intro l hl
  simp only [markdownLines, List.mem_append, List.mem_cons, List.not_mem_nil, or_false] at hl
  rcases hl with (rfl | rfl | rfl | hc) | rfl | rfl
  · exact oneLine_append.mpr ⟨oneLine_append.mpr ⟨hopen, h.path⟩, hclose⟩
  · exact hfixed _ (by simp)
  · exact hfixed _ (by simp)
  · exact (h.commands l hc).1
  · exact hfixed _ (by simp)
  · exact hfixed _ (by simp)

/-- The lines for the commands in markdown, which say so if there are no files. -/
def commandLines (ss : List (String × List String)) : List String :=
  if ss = [] then ["_No commands._"] else ss.flatMap markdownLines

theorem Repair.unlines_commandLines (plan : EditPlan) :
    unlines (commandLines plan.listing) = markdownCommands plan := by
  unfold commandLines markdownCommands
  by_cases h : plan.isEmpty = true
  · have hlast : "_No commands._\n" = "_No commands._" ++ "\n" := by decide
    rw [if_pos (EditPlan.listing_eq_nil_iff.mpr h), if_pos h, hlast, unlines_cons, unlines_nil,
      String.append_empty]
  · rw [if_neg (mt EditPlan.listing_eq_nil_iff.mp h), if_neg h, unlines_flatMap]
    simp only [EditPlan.listing, List.map_map, Function.comp_def, FileEdits.unlines_markdownLines]

theorem head?_commandLines_ne {s : String × List String} :
    (commandLines (s :: ss)).head? ≠ some "_No commands._" := by
  intro h
  have hfirst : "### `" ++ s.1 ++ "`" = "_No commands._" := by
    simpa [commandLines, markdownLines] using h
  simpa using congrArg String.toList hfirst

theorem commandLines_inj (hss : ∀ s ∈ ss, Showable s) (hts : ∀ t ∈ ts, Showable t)
    (h : commandLines ss = commandLines ts) : ss = ts := by
  cases ss with
  | nil =>
      cases ts with
      | nil => rfl
      | cons t ts => exact absurd (by rw [← h]; rfl) head?_commandLines_ne
  | cons s ss =>
      cases ts with
      | nil => exact absurd (by rw [h]; rfl) head?_commandLines_ne
      | cons t ts => exact markdownLines_inj hss hts (by simpa [commandLines] using h)

theorem oneLine_commandLines (hss : ∀ s ∈ ss, Showable s) : ∀ l ∈ commandLines ss, OneLine l := by
  intro l hl
  unfold commandLines at hl
  split at hl
  · rw [List.mem_singleton.mp hl]
    decide
  · exact oneLine_flatMap (fun s hs => (hss s hs).oneLine_markdownLines) l hl

theorem oneLine_toString (n : Nat) : OneLine (toString n) := by
  intro h
  have hdigit : '\n'.isDigit = true := by
    apply Nat.isDigit_of_mem_toDigits (b := 10) (n := n) (by decide) (by decide)
    simpa [Nat.toString_eq_repr] using h
  cases hdigit

namespace Repair

variable {r₁ r₂ : Repair}

/-- The part of a plain text before the sections. -/
def textFront (warning : Diagnostic) : String :=
  warning.severity.text ++ ": " ++ warning.location.text ++ ": " ++ warning.message ++ "\n"

theorem text_eq (r : Repair) :
    r.text = textFront r.warning ++ unlines (r.commands.listing.flatMap textLines) := by
  rw [unlines_flatMap, EditPlan.listing, List.map_map]
  simp only [Function.comp_def, FileEdits.unlines_textLines]
  rfl

/-- The part of a markdown text before the counts. -/
def markdownFront (u : Usage) : String :=
  "# usefix fixup\n\n" ++
    "- Extension: `" ++ u.extensionName ++ "` from `" ++ u.bzlFile ++ "`\n" ++
    "- Proxies: " ++ toString u.proxies.length ++ "\n"

/-- The part of a markdown text between the counts and the commands. -/
def markdownMiddle (warning : Diagnostic) : String :=
  "\n" ++ "## Warning\n\n- Location: `" ++ warning.location.text ++ "`\n\n```text\n" ++
    warning.message ++ "\n```\n\n## Commands\n\n"

theorem markdown_eq (r : Repair) :
    r.markdown = markdownFront r.usage ++
      (("- Files touched: " ++ toString r.commands.listing.length) ++ "\n" ++
        (("- Commands: " ++ toString (r.commands.listing.flatMap (·.2)).length) ++ "\n" ++
          (markdownMiddle r.warning ++ unlines (commandLines r.commands.listing)))) := by
  have hblank : "\n\n" = "\n" ++ "\n" := by decide
  rw [unlines_commandLines, EditPlan.length_listing, ← EditPlan.size_eq]
  unfold markdown markdownFront markdownMiddle
  rw [hblank]
  simp only [String.append_assoc]

theorem listing_eq_of_text_eq (hwarning : r₁.warning = r₂.warning) (h₁ : r₁.commands.OneLined)
    (h₂ : r₂.commands.OneLined) (h : r₁.text = r₂.text) :
    r₁.commands.listing = r₂.commands.listing := by
  rw [text_eq, text_eq, hwarning] at h
  have hlines := unlines_inj (oneLine_flatMap fun s hs => (h₁.showable s hs).oneLine_textLines)
    (oneLine_flatMap fun s hs => (h₂.showable s hs).oneLine_textLines)
    ((String.append_right_inj _).mp h)
  exact textLines_inj hlines

theorem listing_eq_of_markdown_eq (husage : r₁.usage = r₂.usage)
    (hwarning : r₁.warning = r₂.warning) (h₁ : r₁.commands.OneLined) (h₂ : r₂.commands.OneLined)
    (h : r₁.markdown = r₂.markdown) : r₁.commands.listing = r₂.commands.listing := by
  have hfiles : OneLine "- Files touched: " := by decide
  have hcommands : OneLine "- Commands: " := by decide
  have hcount : ∀ {s : String} (n : Nat), OneLine s → OneLine (s ++ toString n) :=
    fun n hs => oneLine_append.mpr ⟨hs, oneLine_toString n⟩
  rw [markdown_eq, markdown_eq, husage, hwarning] at h
  obtain ⟨-, hbehind⟩ := line_append_inj (hcount _ hfiles) (hcount _ hfiles)
    ((String.append_right_inj _).mp h)
  obtain ⟨-, hbehindCounts⟩ := line_append_inj (hcount _ hcommands) (hcount _ hcommands) hbehind
  have hlines := unlines_inj (oneLine_commandLines h₁.showable) (oneLine_commandLines h₂.showable)
    ((String.append_right_inj _).mp hbehindCounts)
  exact commandLines_inj h₁.showable h₂.showable hlines

/-- Reports on a usage with the same warning are the same text just when they list the same paths
in the same order and under each the same texts of commands in the same order. This holds of plain
text, and of markdown, if paths and commands have no line feed in them. -/
theorem report_eq_iff (husage : r₁.usage = r₂.usage) (hwarning : r₁.warning = r₂.warning)
    (h₁ : r₁.commands.OneLined) (h₂ : r₂.commands.OneLined) :
    (r₁.text = r₂.text ↔ r₁.commands.listing = r₂.commands.listing) ∧
      (r₁.markdown = r₂.markdown ↔ r₁.commands.listing = r₂.commands.listing) := by
  refine ⟨⟨listing_eq_of_text_eq hwarning h₁ h₂, ?_⟩,
    ⟨listing_eq_of_markdown_eq husage hwarning h₁ h₂, ?_⟩⟩
  · intro h
    rw [text_eq, text_eq, hwarning, h]
  · intro h
    rw [markdown_eq, markdown_eq, husage, hwarning, h]

-- A path with line feeds in it would be shown like two files.
example : FileEdits.textSection ⟨⟨"a:\n\nb"⟩, []⟩ =
    FileEdits.textSection ⟨⟨"a"⟩, []⟩ ++ FileEdits.textSection ⟨⟨"b"⟩, []⟩ := by
  decide

/-- A repair of two files, of which one has a path without a name. The warning looks like a section
for a file. -/
def twoFiles (first second : List Command) : Repair where
  schema := currentSchema
  commands := ⟨[⟨⟨""⟩, first⟩, ⟨⟨"m"⟩, second⟩]⟩
  usage := ⟨"@ext_mod//:extensions.bzl", "ext", []⟩
  warning := ⟨.warning, ⟨"MODULE.bazel", 4, 7⟩, "see\n\nm:\n  use_repo_add ext b\n```\n"⟩

/-- A command stands under the one file or under the other, and nothing under the file that is
left. -/
theorem report_eq_iff_of_twoFiles :
    (twoFiles [] [.ofList .add "ext" ["a"]]).commands.OneLined ∧
      (twoFiles [.ofList .add "ext" ["a"]] []).commands.OneLined ∧
      (twoFiles [] [.ofList .add "ext" ["a"]]).text ≠
        (twoFiles [.ofList .add "ext" ["a"]] []).text ∧
      (twoFiles [] [.ofList .add "ext" ["a"]]).markdown ≠
        (twoFiles [.ofList .add "ext" ["a"]] []).markdown := by
  have h₁ : (twoFiles [] [.ofList .add "ext" ["a"]]).commands.OneLined := by decide
  have h₂ : (twoFiles [.ofList .add "ext" ["a"]] []).commands.OneLined := by decide
  have hne : (twoFiles [] [.ofList .add "ext" ["a"]]).commands.listing ≠
      (twoFiles [.ofList .add "ext" ["a"]] []).commands.listing := by decide
  have husage : (twoFiles [] [.ofList .add "ext" ["a"]]).usage =
      (twoFiles [.ofList .add "ext" ["a"]] []).usage := rfl
  obtain ⟨htext, hmarkdown⟩ := report_eq_iff husage rfl h₁ h₂
  exact ⟨h₁, h₂, fun h => hne (htext.mp h), fun h => hne (hmarkdown.mp h)⟩

end Repair

end ImportRepair
