import Mathlib.Data.List.TakeWhile
import ImportRepair.Toml.Document

/-!
# Plain documents

A document is plain if its keys need no quotes and its values are truth values or strings without
quotes and escapes. Its lines are read one after the other (`Line.parse_documentText`), so sections
with names of their own are read as they are written (`Section.parse_documentText`).

## Implementation notes

Each line takes one step of the fuel, and the fuel that is left is always more than the characters
that are left, so it suffices for the parts of a key too.
-/

namespace ImportRepair.Toml

/-- A key that needs no quotes. -/
def IsBare (key : String) : Prop := key ≠ "" ∧ ∀ c ∈ key.toList, isKeyChar c = true

instance (key : String) : Decidable (IsBare key) :=
  @instDecidableAnd _ _ inferInstance (List.decidableBAll _ key.toList)

/-- A key of parts with dots between them. -/
def keyText : List String → String
  | [] => ""
  | [key] => key
  | key :: path => key ++ "." ++ keyText path

/-- How a truth value or a plain string is written. -/
inductive Writes : Toml → String → Prop
  | true : Writes (.boolean true) "true"
  | false : Writes (.boolean false) "false"
  | string {s : String} (h : ∀ c ∈ s.toList, isPlain c = true ∧ c ≠ '"' ∧ c ≠ '\\') :
      Writes (.string s) ("\"" ++ s ++ "\"")

/-- A line of a document. -/
inductive Line
  | blank
  | comment (text : String)
  /-- The header of a table. -/
  | header (path : List String)
  /-- A value under a key, with its text. -/
  | entry (path : List String) (v : Toml) (text : String)

namespace Line

/-- The text of a line. -/
def text : Line → String
  | .blank => "\n"
  | .comment text => "#" ++ text ++ "\n"
  | .header path => "[" ++ keyText path ++ "]\n"
  | .entry path _ text => keyText path ++ " = " ++ text ++ "\n"

/-- A key without quotes that is not too long. -/
def IsPath (path : List String) : Prop :=
  path ≠ [] ∧ path.length ≤ maxDepth ∧ ∀ key ∈ path, IsBare key

/-- Lines that are written without quotes, escapes and nesting. -/
def IsPlainLine : Line → Prop
  | .blank => True
  | .comment text => ∀ c ∈ text.toList, isPlain c = true
  | .header path => IsPath path
  | .entry path v text => IsPath path ∧ Writes v text

/-- What a line does to a document. -/
def step (d : Draft) : Line → Option Draft
  | .blank => some d
  | .comment _ => some d
  | .header path => d.openTable false path
  | .entry path v _ => d.add path v

end Line

variable {key : String} {path : List String} {cs rest : List Char}

theorem IsBare.exists_cons (h : IsBare key) :
    ∃ c cs, key.toList = c :: cs ∧ isKeyChar c = true := by
  obtain ⟨c, cs, hkey⟩ : ∃ c cs, key.toList = c :: cs := by
    apply List.exists_cons_of_ne_nil
    simpa using h.1
  exact ⟨c, cs, hkey, h.2 c (by simp [hkey])⟩

theorem ne_of_isKeyChar {c d : Char} (hc : isKeyChar c = true) (hd : isKeyChar d = false) :
    c ≠ d := by
  rintro rfl
  rw [hc] at hd
  cases hd

theorem keyPart?_append (h : IsBare key) (hrest : ∀ c ∈ rest.head?, isKeyChar c = false) :
    keyPart? (key.toList ++ rest) = some (key, rest) := by
  obtain ⟨c, cs, hkey, hc⟩ := h.exists_cons
  have htake : (key.toList ++ rest).takeWhile isKeyChar = key.toList := by
    rw [List.takeWhile_append_of_pos h.2]
    cases rest with
    | nil => simp
    | cons d rest => simp [hrest d rfl]
  have hpart : keyPart? (key.toList ++ rest) =
      if (key.toList ++ rest).takeWhile isKeyChar = [] then none
      else some (String.ofList ((key.toList ++ rest).takeWhile isKeyChar),
        (key.toList ++ rest).drop ((key.toList ++ rest).takeWhile isKeyChar).length) := by
    rw [hkey, List.cons_append, keyPart?]
    · exact fun cs h => ne_of_isKeyChar hc (by decide) (List.cons.inj h).1
    · exact fun cs h => ne_of_isKeyChar hc (by decide) (List.cons.inj h).1
  rw [hpart, htake, if_neg (by simp [hkey]), List.drop_left, String.ofList_toList]

theorem skipSpaces_cons {c : Char} (h : isSpace c = false) : skipSpaces (c :: cs) = c :: cs :=
  List.dropWhile_cons_of_neg (by simp [h])

theorem isSpace_of_isKeyChar {c : Char} (h : isKeyChar c = true) : isSpace c = false := by
  rw [isSpace, Bool.or_eq_false_iff, beq_eq_false_iff_ne, beq_eq_false_iff_ne]
  exact ⟨ne_of_isKeyChar h (by decide), ne_of_isKeyChar h (by decide)⟩

theorem exists_cons_keyText (hne : path ≠ []) (hpath : ∀ key ∈ path, IsBare key) :
    ∃ c cs, (keyText path).toList = c :: cs ∧ isKeyChar c = true := by
  cases path with
  | nil => exact absurd rfl hne
  | cons key path =>
      obtain ⟨c, cs, hkey, hc⟩ := (hpath key List.mem_cons_self).exists_cons
      cases path with
      | nil => exact ⟨c, cs, hkey, hc⟩
      | cons key' path =>
          exact ⟨c, cs ++ '.' :: (keyText (key' :: path)).toList, by simp [keyText, hkey], hc⟩

/-- A key is read up to the spaces after it. -/
theorem keyParts?_append {fuel : Nat} (hne : path ≠ []) (hfuel : path.length ≤ fuel)
    (hpath : ∀ key ∈ path, IsBare key) (hrest : ∀ c ∈ rest.head?, isKeyChar c = false)
    (hdot : (skipSpaces rest).head? ≠ some '.') :
    keyParts? fuel ((keyText path).toList ++ rest) = some (path, skipSpaces rest) := by
  induction path generalizing fuel with
  | nil => exact absurd rfl hne
  | cons key path ih =>
      obtain ⟨fuel, rfl⟩ : ∃ n, fuel = n + 1 := Nat.exists_eq_succ_of_ne_zero (by simp at hfuel; omega)
      obtain ⟨hkey, hpath⟩ := List.forall_mem_cons.mp hpath
      rw [keyParts?]
      cases path with
      | nil =>
          rw [keyText, keyPart?_append hkey hrest]
          simp only [Option.bind_eq_bind, Option.bind_some]
          split
          · rename_i h
            rw [h] at hdot
            exact absurd rfl hdot
          · rfl
      | cons key' path =>
          have htext : (keyText (key :: key' :: path)).toList ++ rest =
              key.toList ++ '.' :: ((keyText (key' :: path)).toList ++ rest) := by
            simp [keyText]
          have hsub : keyParts? fuel ((keyText (key' :: path)).toList ++ rest) =
              some (key' :: path, skipSpaces rest) := ih (by simp) (by simpa using hfuel) hpath
          have hfront : skipSpaces ((keyText (key' :: path)).toList ++ rest) =
              (keyText (key' :: path)).toList ++ rest := by
            obtain ⟨c, cs, hcs, hc⟩ := exists_cons_keyText (List.cons_ne_nil key' path) hpath
            rw [hcs, List.cons_append, skipSpaces_cons (isSpace_of_isKeyChar hc)]
          rw [htext, keyPart?_append hkey (by simp; decide)]
          simp only [Option.bind_eq_bind, Option.bind_some, hfront,
            skipSpaces_cons (show isSpace '.' = false by decide), hsub]
          rfl

theorem length_le_keyText (hpath : ∀ key ∈ path, IsBare key) :
    path.length ≤ (keyText path).toList.length := by
  induction path with
  | nil => simp [keyText]
  | cons key path ih =>
      obtain ⟨hkey, hpath⟩ := List.forall_mem_cons.mp hpath
      obtain ⟨c, cs, hcs, -⟩ := hkey.exists_cons
      cases path with
      | nil => simp [keyText, hcs]
      | cons key' path =>
          have := ih hpath
          simp [keyText, hcs] at this ⊢
          omega

theorem key?_append {fuel : Nat} (h : Line.IsPath path) (hfuel : path.length ≤ fuel)
    (hrest : ∀ c ∈ rest.head?, isKeyChar c = false)
    (hdot : (skipSpaces rest).head? ≠ some '.') :
    key? fuel ((keyText path).toList ++ rest) = some (path, skipSpaces rest) := by
  rw [key?, keyParts?_append h.1 hfuel h.2.2 hrest hdot]
  simp only [Option.bind_eq_bind, Option.bind_some, if_pos h.2.1]

theorem basicString_append {s : List Char} (h : ∀ c ∈ s, isPlain c = true ∧ c ≠ '"' ∧ c ≠ '\\') :
    basicString 0 (s ++ '"' :: rest) = some (s, rest) := by
  induction s with
  | nil => rfl
  | cons c s ih =>
      obtain ⟨⟨hplain, hquote, hback⟩, hs⟩ := List.forall_mem_cons.mp h
      rw [List.cons_append, basicString, if_neg hquote, if_neg hback, if_pos hplain, ih hs]
      rfl

theorem spanAtom_append {word : List Char} (h : ∀ c ∈ word, isSpace c = false ∧ endsAtom c = false) :
    spanAtom (word ++ '\n' :: rest) = (word, '\n' :: rest) := by
  induction word with
  | nil =>
      rw [List.nil_append, spanAtom]
      rfl
  | cons c word ih =>
      obtain ⟨⟨hspace, hends⟩, hword⟩ := List.forall_mem_cons.mp h
      rw [List.cons_append, spanAtom, ih hword]
      simp [hspace, hends]

theorem string?_append {s : List Char} (h : ∀ c ∈ s, isPlain c = true ∧ c ≠ '"' ∧ c ≠ '\\') :
    string? ('"' :: (s ++ '"' :: '\n' :: rest)) = some (s, '\n' :: rest) := by
  rw [string?, basicString_append h]
  -- There are no three quotes at the front.
  intro cs hcs
  cases s with
  | nil => simp at hcs
  | cons c s => exact (h c List.mem_cons_self).2.1 (List.cons.inj hcs).1

/-- A value is read up to the end of its line. -/
theorem value?_append {fuel depth : Nat} {v : Toml} {text : String} (h : Writes v text) :
    value? (fuel + 1) depth (text.toList ++ '\n' :: rest) = some (v, '\n' :: rest) := by
  cases h with
  | true =>
      have hvalue : value? (fuel + 1) depth ("true".toList ++ '\n' :: rest) =
          (atom? (spanAtom ("true".toList ++ '\n' :: rest)).1).map
            (·, (spanAtom ("true".toList ++ '\n' :: rest)).2) := rfl
      rw [hvalue, spanAtom_append (by simp [isSpace, endsAtom])]
      rfl
  | false =>
      have hvalue : value? (fuel + 1) depth ("false".toList ++ '\n' :: rest) =
          (atom? (spanAtom ("false".toList ++ '\n' :: rest)).1).map
            (·, (spanAtom ("false".toList ++ '\n' :: rest)).2) := rfl
      rw [hvalue, spanAtom_append (by simp [isSpace, endsAtom])]
      rfl
  | @string s h =>
      have htext : ("\"" ++ s ++ "\"").toList ++ '\n' :: rest =
          '"' :: (s.toList ++ '"' :: '\n' :: rest) := by simp
      have hvalue : value? (fuel + 1) depth ('"' :: (s.toList ++ '"' :: '\n' :: rest)) =
          (string? ('"' :: (s.toList ++ '"' :: '\n' :: rest))).map
            fun r => (.string (String.ofList r.1), r.2) := rfl
      rw [htext, hvalue, string?_append h, Option.map_some, String.ofList_toList]

theorem Writes.skipSpaces_append {v : Toml} {text : String} (h : Writes v text) :
    skipSpaces (' ' :: (text.toList ++ rest)) = text.toList ++ rest := by
  cases h with
  | true | false => rfl
  | string h =>
      rw [String.toList_append, String.toList_append]
      rfl

/-- A header opens its table. -/
theorem line?_header {fuel : Nat} {d : Draft} (h : Line.IsPath path)
    (hfuel : path.length ≤ fuel) :
    line? fuel d ((Line.header path).text.toList ++ rest) =
      (d.openTable false path).map (·, rest) := by
  obtain ⟨c, cs, hcs, hc⟩ := exists_cons_keyText h.1 h.2.2
  have htext : (Line.header path).text.toList ++ rest =
      '[' :: c :: (cs ++ ']' :: '\n' :: rest) := by
    simp [Line.text, hcs]
  have hkey : key? fuel (c :: (cs ++ ']' :: '\n' :: rest)) =
      some (path, ']' :: '\n' :: rest) := by
    rw [← List.cons_append, ← hcs]
    exact key?_append h hfuel (by simp; decide) nofun
  have hend : lineEnd? ('\n' :: rest) = some rest := rfl
  rw [htext, line?, skipSpaces_cons (isSpace_of_isKeyChar hc), hkey]
  · simp only [Option.bind_eq_bind, Option.bind_some, hend]
    cases d.openTable false path <;> rfl
  · exact fun cs h => ne_of_isKeyChar hc (by decide) (List.cons.inj h).1

/-- Any other line adds its value. -/
theorem line?_entry {fuel : Nat} {d : Draft} {v : Toml} {text : String} (h : Line.IsPath path)
    (hfuel : path.length ≤ fuel) (hv : Writes v text) :
    line? fuel d ((Line.entry path v text).text.toList ++ rest) =
      (d.add path v).map (·, rest) := by
  obtain ⟨c, cs, hcs, hc⟩ := exists_cons_keyText h.1 h.2.2
  obtain ⟨fuel, rfl⟩ : ∃ n, fuel = n + 1 := by
    apply Nat.exists_eq_succ_of_ne_zero
    have hlength := List.length_pos_iff.mpr h.1
    omega
  have htext : (Line.entry path v text).text.toList ++ rest =
      c :: (cs ++ ' ' :: '=' :: ' ' :: (text.toList ++ '\n' :: rest)) := by
    simp [Line.text, hcs]
  have hkey : key? (fuel + 1) (c :: (cs ++ ' ' :: '=' :: ' ' :: (text.toList ++ '\n' :: rest))) =
      some (path, '=' :: ' ' :: (text.toList ++ '\n' :: rest)) := by
    rw [← List.cons_append, ← hcs]
    exact key?_append h hfuel (by simp; decide) nofun
  have hend : lineEnd? ('\n' :: rest) = some rest := rfl
  rw [htext, line?, hkey]
  · simp only [Option.bind_eq_bind, Option.bind_some, hv.skipSpaces_append, value?_append hv, hend]
    cases d.add path v <;> rfl
  · exact fun cs h => ne_of_isKeyChar hc (by decide) (List.cons.inj h).1
  · exact fun cs h => ne_of_isKeyChar hc (by decide) (List.cons.inj h).1

theorem skipGaps_cons {c : Char} (hc : isKeyChar c = true ∨ c = '[') :
    skipGaps false (c :: cs) = c :: cs := by
  have hne : ∀ d, isKeyChar d = false → d ≠ '[' → c ≠ d := by
    rintro d hd hbracket rfl
    rcases hc with hc | rfl
    · exact ne_of_isKeyChar hc hd rfl
    · exact hbracket rfl
  have hspace : isSpace c = false := by
    rw [isSpace, Bool.or_eq_false_iff, beq_eq_false_iff_ne, beq_eq_false_iff_ne]
    exact ⟨hne _ (by decide) (by decide), hne _ (by decide) (by decide)⟩
  have hnewline := hne '\n' (by decide) (by decide)
  have hreturn := hne '\r' (by decide) (by decide)
  have hhash := hne '#' (by decide) (by decide)
  simp [skipGaps, hspace, hnewline, hreturn, hhash]

theorem skipGaps_comment {text : List Char} (h : ∀ c ∈ text, isPlain c = true) :
    skipGaps true (text ++ '\n' :: rest) = skipGaps false rest := by
  induction text with
  | nil => simp [skipGaps]
  | cons c text ih =>
      obtain ⟨hc, htext⟩ := List.forall_mem_cons.mp h
      have hnewline : c ≠ '\n' := by
        rintro rfl
        revert hc
        decide
      have hreturn : c ≠ '\r' := by
        rintro rfl
        revert hc
        decide
      rw [List.cons_append, skipGaps]
      simp [hc, hnewline, hreturn, ih htext]

theorem lines?_of_skipGaps {fuel : Nat} {d : Draft} {cs' : List Char}
    (h : skipGaps false cs = skipGaps false cs') : lines? fuel d cs = lines? fuel d cs' := by
  cases fuel with
  | zero => rfl
  | succ fuel => rw [lines?, lines?, h]

theorem lines?_of_line? {fuel : Nat} {d : Draft} {result : Option Draft}
    (hfront : ∃ c ∈ cs.head?, isKeyChar c = true ∨ c = '[')
    (h : line? fuel d cs = result.map (·, rest)) :
    lines? (fuel + 1) d cs = result.bind fun d => lines? fuel d rest := by
  obtain ⟨c, hhead, hc⟩ := hfront
  obtain ⟨cs, rfl⟩ := List.head?_eq_some_iff.mp hhead
  rw [lines?, skipGaps_cons hc]
  simp only [h, Option.bind_eq_bind]
  cases result <;> rfl

namespace Line

/-- The text of lines. -/
def documentText (lines : List Line) : String := String.join (lines.map text)

theorem toList_documentText_cons {l : Line} {lines : List Line} :
    (documentText (l :: lines)).toList = l.text.toList ++ (documentText lines).toList := by
  simp [documentText, String.toList_join]

/-- The lines of a text are read one after the other. -/
theorem lines?_documentText {lines : List Line} {fuel : Nat} {d : Draft}
    (h : ∀ l ∈ lines, l.IsPlainLine) (hfuel : (documentText lines).toList.length < fuel) :
    lines? fuel d (documentText lines).toList = lines.foldlM step d := by
  induction lines generalizing fuel d with
  | nil =>
      obtain ⟨fuel, rfl⟩ := Nat.exists_eq_succ_of_ne_zero (Nat.ne_zero_of_lt hfuel)
      rfl
  | cons l lines ih =>
      obtain ⟨hl, hlines⟩ := List.forall_mem_cons.mp h
      obtain ⟨fuel, rfl⟩ := Nat.exists_eq_succ_of_ne_zero (Nat.ne_zero_of_lt hfuel)
      rw [toList_documentText_cons] at hfuel ⊢
      rw [List.length_append] at hfuel
      rw [List.foldlM_cons]
      cases l with
      | blank =>
          have hgap : skipGaps false (Line.blank.text.toList ++ (documentText lines).toList) =
              skipGaps false (documentText lines).toList := by
            simp [text, skipGaps]
          rw [lines?_of_skipGaps hgap, ih hlines (by omega)]
          rfl
      | comment c =>
          have htext : (Line.comment c).text.toList ++ (documentText lines).toList =
              '#' :: (c.toList ++ '\n' :: (documentText lines).toList) := by
            simp [text]
          have hhash : ∀ cs, skipGaps false ('#' :: cs) = skipGaps true cs := fun _ => rfl
          rw [htext, lines?_of_skipGaps ((hhash _).trans (skipGaps_comment hl)),
            ih hlines (by omega)]
          rfl
      | header path =>
          have hlength := length_le_keyText hl.2.2
          have htext : (Line.header path).text.toList =
              '[' :: ((keyText path).toList ++ "]\n".toList) := by simp [text]
          simp only [htext, List.length_cons, List.length_append] at hfuel
          rw [lines?_of_line? ⟨'[', by simp [htext], Or.inr rfl⟩ (line?_header hl (by omega))]
          exact congrArg _ (funext fun d => ih hlines (by omega))
      | entry path v t =>
          have hlength := length_le_keyText hl.1.2.2
          have htext : (Line.entry path v t).text.toList =
              (keyText path).toList ++ " = ".toList ++ t.toList ++ "\n".toList := by simp [text]
          obtain ⟨c, cs, hcs, hc⟩ := exists_cons_keyText hl.1.1 hl.1.2.2
          simp only [htext, List.length_append] at hfuel
          rw [lines?_of_line? ⟨c, by simp [htext, hcs], Or.inl hc⟩
            (line?_entry hl.1 (by omega) hl.2)]
          exact congrArg _ (funext fun d => ih hlines (by simp at hfuel; omega))

theorem head?_documentText_ne {lines : List Line} (h : ∀ l ∈ lines, l.IsPlainLine) :
    (documentText lines).toList.head? ≠ some '\uFEFF' := by
  cases lines with
  | nil => simp [documentText]
  | cons l lines =>
      rw [toList_documentText_cons]
      cases l with
      | blank | comment | header => simp [text]
      | entry path v t =>
          have hpath : IsPath path := (h _ List.mem_cons_self).1
          obtain ⟨c, cs, hcs, hc⟩ := exists_cons_keyText hpath.1 hpath.2.2
          have hne : c ≠ '\uFEFF' := ne_of_isKeyChar hc (by decide)
          simpa [text, hcs] using hne

/-- A document of plain lines is what its lines do one after the other. -/
theorem parse_documentText {lines : List Line} (h : ∀ l ∈ lines, l.IsPlainLine) :
    parse (documentText lines) =
      (lines.foldlM step ⟨[], []⟩).map fun d => .table (entriesToToml d.root) := by
  have hmark := head?_documentText_ne h
  rw [parse]
  split
  · rename_i hcs
    rw [hcs] at hmark
    exact absurd rfl hmark
  · rw [lines?_documentText h (by omega)]

end Line

namespace Entries

variable {es : Entries} {node node' : Node}

theorem set_of_get?_eq_none (h : es.get? key = none) : es.set key node = es ++ [(key, node)] := by
  induction es with
  | nil => rfl
  | cons e es ih =>
      rw [get?, List.lookup_cons] at h
      split at h
      · cases h
      · rename_i hne
        rw [set, if_neg (beq_eq_false_iff_ne.mp hne).symm, ih h, List.cons_append]

theorem get?_append_singleton (h : es.get? key = none) :
    (es ++ [(key, node)] : Entries).get? key = some node := by
  rw [get?, List.lookup_append]
  rw [get?] at h
  simp [h]

theorem set_append_singleton (h : es.get? key = none) :
    (es ++ [(key, node)] : Entries).set key node' = es ++ [(key, node')] := by
  induction es with
  | nil => simp [set]
  | cons e es ih =>
      rw [get?, List.lookup_cons] at h
      split at h
      · cases h
      · rename_i hne
        rw [List.cons_append, set, if_neg (beq_eq_false_iff_ne.mp hne).symm, ih h, List.cons_append]

theorem get?_eq_none_iff : es.get? key = none ↔ key ∉ es.map Prod.fst := by
  simp only [get?, List.lookup_eq_none_iff, bne_iff_ne, List.mem_map, not_exists, not_and]
  exact ⟨fun h e he heq => h e he heq.symm, fun h e he heq => h e he heq.symm⟩

end Entries

/-- A value with its key and its text. -/
structure Setting where
  key : String
  value : Toml
  text : String

/-- A section of a document. -/
structure Section where
  name : String
  settings : List Setting

namespace Section

/-- The lines of a section. -/
def lines (s : Section) : List Line :=
  .header [s.name] :: s.settings.map fun e => .entry [e.key] e.value e.text

/-- The entry of a section in a document. -/
def node (s : Section) : String × Node :=
  (s.name, .table .header (s.settings.map fun e => (e.key, .value e.value)))

/-- The lines after a header fill its table. -/
theorem foldlM_settings {done sub : Entries} {name : String} {settings : List Setting}
    (hname : done.get? name = none)
    (hkeys : (sub.map Prod.fst ++ settings.map Setting.key).Nodup) :
    (settings.map fun e => Line.entry [e.key] e.value e.text).foldlM Line.step
      ⟨done ++ [(name, .table .header sub)], [name]⟩ =
    some ⟨done ++ [(name, .table .header (sub ++ settings.map fun e => (e.key, .value e.value)))],
      [name]⟩ := by
  induction settings generalizing sub with
  | nil => simp
  | cons e settings ih =>
      have hkey : Entries.get? sub e.key = none := by
        rw [Entries.get?_eq_none_iff]
        intro hmem
        exact (List.nodup_append.mp hkeys).2.2 _ hmem _ List.mem_cons_self rfl
      have hadd : Entries.addValue true e.key [] e.value sub =
          some (sub ++ [(e.key, .value e.value)]) := by
        rw [Entries.addValue, Entries.set_of_get?_eq_none hkey, hkey]
        rfl
      have hstep : Line.step ⟨done ++ [(name, .table .header sub)], [name]⟩
          (.entry [e.key] e.value e.text) =
            some ⟨done ++ [(name, .table .header (sub ++ [(e.key, .value e.value)]))], [name]⟩ := by
        simp only [Line.step, Draft.add, Entries.under, Entries.get?_append_singleton hname, hadd,
          Option.bind_eq_bind, Option.bind_some, Entries.set_append_singleton hname]
        rfl
      have hkeys' : ((sub ++ [(e.key, Node.value e.value)]).map Prod.fst ++
          settings.map Setting.key).Nodup := by
        simpa using hkeys
      rw [List.map_cons, List.foldlM_cons, hstep]
      simp only [Option.bind_eq_bind, Option.bind_some, ih hkeys']
      simp

/-- A header opens its table, which the lines after it fill. -/
theorem foldlM_lines {s : Section} {d : Draft} (hname : d.root.get? s.name = none)
    (hkeys : (s.settings.map Setting.key).Nodup) :
    s.lines.foldlM Line.step d = some ⟨d.root ++ [s.node], [s.name]⟩ := by
  have hopen : Entries.openTable s.name d.root =
      some (d.root ++ [(s.name, .table .header [])]) := by
    rw [Entries.openTable, Entries.set_of_get?_eq_none hname, hname]
  have hstep : Line.step d (.header [s.name]) =
      some ⟨d.root ++ [(s.name, .table .header [])], [s.name]⟩ := by
    simp only [Line.step, Draft.openTable, List.getLast?_singleton, List.dropLast_singleton,
      Option.bind_eq_bind, Option.bind_some, Entries.under]
    simp [hopen]
  rw [lines, List.foldlM_cons, hstep]
  exact foldlM_settings hname hkeys

/-- Sections are opened one after the other. -/
theorem foldlM_flatMap_lines {sections : List Section} {d : Draft}
    (hnames : (d.root.map Prod.fst ++ sections.map Section.name).Nodup)
    (hkeys : ∀ s ∈ sections, (s.settings.map Setting.key).Nodup) :
    ∃ path, (sections.flatMap lines).foldlM Line.step d =
      some ⟨d.root ++ sections.map node, path⟩ := by
  induction sections generalizing d with
  | nil => exact ⟨d.path, by simp⟩
  | cons s sections ih =>
      obtain ⟨hkeys, hkeys'⟩ := List.forall_mem_cons.mp hkeys
      have hname : d.root.get? s.name = none := by
        rw [Entries.get?_eq_none_iff]
        intro hmem
        exact (List.nodup_append.mp hnames).2.2 _ hmem _ List.mem_cons_self rfl
      obtain ⟨path, hpath⟩ := ih (d := ⟨d.root ++ [s.node], [s.name]⟩)
        (by simpa [node] using hnames) hkeys'
      refine ⟨path, ?_⟩
      rw [List.flatMap_cons, List.foldlM_append, foldlM_lines hname hkeys]
      simpa using hpath

theorem entriesToToml_map_value {settings : List Setting} :
    entriesToToml (settings.map fun e => (e.key, .value e.value)) =
      settings.map fun e => (e.key, e.value) := by
  induction settings with
  | nil => rfl
  | cons e settings ih => rw [List.map_cons, entriesToToml, ih]; rfl

/-- The table of a section. -/
def table (s : Section) : Toml := .table (s.settings.map fun e => (e.key, e.value))

theorem entriesToToml_map_node {sections : List Section} :
    entriesToToml (sections.map node) = sections.map fun s => (s.name, s.table) := by
  induction sections with
  | nil => rfl
  | cons s sections ih =>
      rw [List.map_cons, node, entriesToToml, Node.toToml, entriesToToml_map_value, ih]
      rfl

/-- What a plain section must be. -/
structure IsPlainSection (s : Section) : Prop where
  name : IsBare s.name
  keys : (s.settings.map Setting.key).Nodup
  settings : ∀ e ∈ s.settings, IsBare e.key ∧ Writes e.value e.text

/-- A document of plain sections with names of their own is read as it is written. -/
theorem parse_documentText {sections : List Section}
    (hnames : (sections.map Section.name).Nodup) (h : ∀ s ∈ sections, s.IsPlainSection) :
    parse (Line.documentText (sections.flatMap lines)) =
      some (.table (sections.map fun s => (s.name, s.table))) := by
  have hpath : ∀ {key}, IsBare key → Line.IsPath [key] :=
    fun hkey => ⟨List.cons_ne_nil _ _, by simp [maxDepth], List.forall_mem_singleton.mpr hkey⟩
  have hlines : ∀ l ∈ sections.flatMap lines, l.IsPlainLine := by
    intro l hl
    obtain ⟨s, hs, hl⟩ := List.mem_flatMap.mp hl
    rcases List.mem_cons.mp hl with rfl | hl
    · exact hpath (h s hs).name
    · obtain ⟨e, he, rfl⟩ := List.mem_map.mp hl
      obtain ⟨hkey, hvalue⟩ := (h s hs).settings e he
      exact ⟨hpath hkey, hvalue⟩
  obtain ⟨path, hfold⟩ := foldlM_flatMap_lines (d := ⟨[], []⟩) (by simpa using hnames)
    fun s hs => (h s hs).keys
  rw [Line.parse_documentText hlines, hfold, Option.map_some, List.nil_append,
    entriesToToml_map_node]

end Section

end ImportRepair.Toml
