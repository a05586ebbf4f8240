import ImportRepair.Proofs.AcceptedDeclarations
import ImportRepair.Proofs.Json.Documents

/-!
# Persisted declarations

A declaration is loaded from its persisted text as it was (`load_persisted`). The text leaves out
what the declaration does not list and names the kind that claims every repository. Loading puts the
arguments together again and validates them, and every declaration passes.
-/

namespace ImportRepair

open Json (Exact Reader Tree)
open Json.Fields (Reads)

namespace DeclarationRecord

theorem exact_listMember {name : String} {l : Option (List String)} :
    ∀ m ∈ listMember name l, Exact m.2 := by
  cases l with
  | none => simp [listMember]
  | some ns => simpa [listMember] using Json.exact_strings ns

theorem exact_toJson (r : DeclarationRecord) : Exact r.toJson := by
  apply Exact.object
  intro m hm
  simp only [List.mem_append, List.mem_cons, List.not_mem_nil, or_false] at hm
  rcases hm with (hm | hm) | rfl | rfl
  · exact exact_listMember m hm
  · exact exact_listMember m hm
  · exact .string _
  · exact .boolean _

theorem keys_listMember_sublist (name : String) (l : Option (List String)) :
    ((listMember name l).map (·.1)).Sublist [name] := by
  cases l with
  | none => exact List.nil_sublist _
  | some ns => exact List.Sublist.refl _

/-- A list is read where it stands, and is absent where it does not. -/
theorem reads_list {name : String} {l : Option (List String)} {find : String → Option Tree}
    (h : find name = l.map fun ns => Tree.ofJson (.strings ns)) :
    Reads (.withDefault name (Reader.optional (Reader.list Reader.string)) none) find l := by
  cases l with
  | none => exact .absent h
  | some ns =>
      apply Reads.withDefault h
      show (Reader.list Reader.string (Tree.ofJson (.strings ns))).map some = _
      rw [Reader.list_strings, Except.map]

theorem variant_useAllName (useAll : Option DepKind) :
    Reader.variant useAllNames (Tree.ofJson (.string (useAllName useAll))) = .ok useAll := by
  cases useAll with
  | none => rfl
  | some kind => cases kind <;> rfl

/-- A record is read as it was written. -/
theorem reader_toJson (r : DeclarationRecord) : reader (Tree.ofJson r.toJson) = .ok r := by
  apply Reader.record_ofJson (by decide)
  · rw [List.map_append, List.map_append]
    exact ((keys_listMember_sublist _ _).append (keys_listMember_sublist _ _)).append
      (List.Sublist.refl _)
  · obtain ⟨regular, dev, useAll, flag⟩ := r
    -- Each member is found under its name whichever of the lists are there.
    refine .seq (.seq (.seq (.map (reads_list ?_)) (reads_list ?_)) ?_) ?_
    · cases regular <;> cases dev <;> rfl
    · cases regular <;> cases dev <;> rfl
    · refine .withDefault ?_ (variant_useAllName useAll)
      cases regular <;> cases dev <;> rfl
    · refine .withDefault (t := .boolean flag) ?_ rfl
      cases regular <;> cases dev <;> rfl

end DeclarationRecord

namespace Declaration

/-- A declaration passes the validation of its record, which stands for it. -/
theorem ofRecord_toRecord (d : Declaration) : ofRecord d.toRecord = .ok d := by
  rw [ofRecord_eq_ok_iff]
  refine ⟨rfl, ?_⟩
  obtain ⟨o, flag⟩ := d
  cases o with
  | none => exact Or.inl ⟨rfl, rfl, rfl, rfl⟩
  | all kind =>
      cases kind with
      | regular => exact Or.inr (Or.inr (Or.inl ⟨rfl, rfl, Or.inl rfl, rfl⟩))
      | dev => exact Or.inr (Or.inr (Or.inr ⟨rfl, rfl, Or.inl rfl, rfl⟩))
  | listed lists => exact Or.inr (Or.inl ⟨rfl, lists, rfl, rfl, rfl⟩)

/-- A declaration, in whatever way it was obtained, is loaded from its persisted text as it was, and
also if the text is a line. So persisting what was loaded normalizes a text: the text that comes out
comes out again. -/
theorem load_persisted :
    (∀ d : Declaration, load d.persisted = .ok d ∧ load (d.persisted ++ "\n") = .ok d) ∧
      ∀ text saved, (load text).map persisted = .ok saved →
        (load saved).map persisted = .ok saved := by
  have hload : ∀ d : Declaration,
      load d.persisted = .ok d ∧ load (d.persisted ++ "\n") = .ok d := by
    intro d
    have hexact : Exact d.toRecord.toJson := d.toRecord.exact_toJson
    have hread := d.toRecord.reader_toJson
    simp only [load_eq_ok_iff]
    constructor
    · exact ⟨d.toRecord, hexact.readText_prettyText hread, ofRecord_toRecord d⟩
    · exact ⟨d.toRecord, hexact.readText_line hread, ofRecord_toRecord d⟩
  refine ⟨hload, ?_⟩
  intro text saved h
  obtain ⟨d, -, rfl⟩ := Except.map_eq_ok_iff.mp h
  rw [(hload d).1, Except.map]

/-- A record in the form of an array, with an empty list, becomes an object without lists. -/
theorem load_persisted_of_array :
    (load "[null, [], \"regular\", true]").map persisted = .ok (persisted ⟨.all .regular, true⟩) ∧
      (load (persisted ⟨.all .regular, true⟩)).map persisted =
        .ok (persisted ⟨.all .regular, true⟩) := by
  have hload : load "[null, [], \"regular\", true]" = .ok ⟨.all .regular, true⟩ := by
    decide +kernel
  have hsaved : (load "[null, [], \"regular\", true]").map persisted =
      .ok (persisted ⟨.all .regular, true⟩) := by
    rw [hload, Except.map]
  exact ⟨hsaved, load_persisted.2 _ _ hsaved⟩

end Declaration

end ImportRepair
