import ImportRepair.Proofs.Json.Readers
import Mathlib.Data.List.Perm.Basic

/-!
# Trees that are read alike

A reader respects a likeness of trees if like trees are read as one value, once both are read. Lists
and records respect a likeness that their elements and their fields respect
(`Respects.list`, `Respects.record`). The fields of a record are compared by their names, so it does
not matter in which order they stand and what else is in the record.
-/

namespace ImportRepair.Json

variable {α β : Type} {like : Tree → Tree → Prop}

/-- Like trees are read as one value, if both of them are read. -/
def Reader.Respects (reader : Reader α) (like : Tree → Tree → Prop) : Prop :=
  ∀ t t' a a', like t t' → reader t = .ok a → reader t' = .ok a' → a = a'

theorem Reader.respects_eq (reader : Reader α) : reader.Respects Eq := by
  rintro t _ a a' rfl h h'
  exact Except.ok.inj (h.symm.trans h')

namespace Tree

/-- Arrays whose elements are alike, in their order. -/
def ItemsAlike (like : Tree → Tree → Prop) (t t' : Tree) : Prop :=
  ∃ items items' closed closed', t = .array items closed ∧ t' = .array items' closed' ∧
    List.Forall₂ like items items'

/-- Arrays with the same elements, in any order and each any number of times. -/
def SameItems (t t' : Tree) : Prop :=
  ∃ items items' closed closed', t = .array items closed ∧ t' = .array items' closed' ∧
    ∀ x, x ∈ items ↔ x ∈ items'

/-- Objects with the same members in any order, where no key is there twice. -/
def SameMembers (t t' : Tree) : Prop :=
  ∃ members members' closed closed', t = .object members closed ∧ t' = .object members' closed' ∧
    members.Perm members' ∧ (members.map (·.1)).Nodup

end Tree

namespace Reader

theorem Respects.list {item : Reader α} (h : item.Respects like) :
    (list item).Respects (Tree.ItemsAlike like) := by
  rintro _ _ as as' ⟨items, items', closed, closed', rfl, rfl, halike⟩ hread hread'
  obtain ⟨_, heq, has⟩ := list_eq_ok_iff.mp hread
  obtain ⟨_, heq', has'⟩ := list_eq_ok_iff.mp hread'
  cases heq
  cases heq'
  clear hread hread'
  induction halike generalizing as as' with
  | nil =>
      cases has
      cases has'
      rfl
  | cons hfirst _ ih =>
      cases has with
      | cons ha has =>
          cases has' with
          | cons ha' has' => rw [h _ _ _ _ hfirst ha ha', ih _ _ has has']

/-- What is in a list that was read from an array, is what was read from some element. -/
theorem mem_of_list_iff {item : Reader α} {items : List Tree} {closed : Bool} {as : List α}
    (h : list item (.array items closed) = .ok as) {a : α} :
    a ∈ as ↔ ∃ t ∈ items, item t = .ok a := by
  obtain ⟨_, heq, has⟩ := list_eq_ok_iff.mp h
  cases heq
  have hmap : items.map item = as.map .ok := by
    rw [← List.forall₂_eq_eq_eq, List.forall₂_map_left_iff, List.forall₂_map_right_iff]
    exact has
  have hmem : .ok a ∈ items.map item ↔ .ok a ∈ as.map (Except.ok (ε := ReadError)) := by rw [hmap]
  simpa [eq_comm] using hmem.symm

theorem mem_iff_of_sameItems {item : Reader α} {t t' : Tree} {as as' : List α}
    (h : t.SameItems t') (hread : list item t = .ok as) (hread' : list item t' = .ok as') {a : α} :
    a ∈ as ↔ a ∈ as' := by
  obtain ⟨items, items', closed, closed', rfl, rfl, hitems⟩ := h
  simp only [mem_of_list_iff hread, mem_of_list_iff hread', hitems]

/-- Entries are read from an object member by member, each under its key. -/
theorem entries_eq_ok_iff {value : Reader α} {members : List (Option String × Tree)} {closed : Bool}
    {es : List (String × α)} :
    entries value (.object members closed) = .ok es ↔ closed = true ∧
      List.Forall₂ (fun m e => m.1 = some e.1 ∧ value m.2 = .ok e.2) members es := by
  have hmember : ∀ (m : Option String × Tree) (e : String × α),
      (do return (← key m.1, ← value m.2) : Except ReadError (String × α)) = .ok e ↔
        m.1 = some e.1 ∧ value m.2 = .ok e.2 := by
    rintro ⟨_ | k, t⟩ ⟨k', a⟩
    · simp [key, bind, Except.bind]
    · cases value t <;> simp [key, bind, Except.bind, pure, Except.pure]
  simp only [entries, Except.bind_eq_ok_iff, Except.mapM_eq_ok_iff, ← hmember]
  cases closed <;> simp

/-- The same members are read as the same entries in another order. -/
theorem entries_perm_of_sameMembers {value : Reader α} {t t' : Tree} {es es' : List (String × α)}
    (h : t.SameMembers t') (hread : entries value t = .ok es)
    (hread' : entries value t' = .ok es') : es.Perm es' ∧ (es.map (·.1)).Nodup := by
  obtain ⟨members, members', closed, closed', rfl, rfl, hperm, hkeys⟩ := h
  obtain ⟨-, hes⟩ := entries_eq_ok_iff.mp hread
  obtain ⟨-, hes'⟩ := entries_eq_ok_iff.mp hread'
  constructor
  · refine List.rel_perm_imp ?_ hes hes' hperm
    rintro m ⟨k, a⟩ ⟨k', a'⟩ ⟨hkey, hvalue⟩ ⟨hkey', hvalue'⟩
    cases hkey.symm.trans hkey'
    cases hvalue.symm.trans hvalue'
    rfl
  · have hsome : members.map (·.1) = (es.map (·.1)).map some := by
      rw [List.map_map, ← List.forall₂_eq_eq_eq, List.forall₂_map_left_iff,
        List.forall₂_map_right_iff]
      exact hes.imp fun _ _ hm => hm.1
    rw [hsome] at hkeys
    exact hkeys.of_map some

end Reader

namespace Fields

/-- The names of the fields. -/
def names (fields : Fields α) : List String := fields.specs.map (·.name)

/-- Records whose fields are alike, each in its own way. -/
def Alike (fields : Fields α) (like : String → Tree → Tree → Prop) (t t' : Tree) : Prop :=
  ∀ name ∈ fields.names, Option.Rel (like name) (fields.tree? t name) (fields.tree? t' name)

/-- A value that is built from like trees under the names of the fields is the same. -/
def Respects (fields : Fields α) (like : String → Tree → Tree → Prop) : Prop :=
  ∀ find find' a a', (∀ name ∈ fields.names, Option.Rel (like name) (find name) (find' name)) →
    fields.build find = .ok a → fields.build find' = .ok a' → a = a'

variable {like : String → Tree → Tree → Prop}

theorem Respects.required {name : String} {reader : Reader α} (h : reader.Respects (like name)) :
    (required name reader).Respects like := by
  intro find find' a a' halike hbuild hbuild'
  have hname := halike name (List.mem_singleton.mpr rfl)
  simp only [Fields.required] at hbuild hbuild'
  generalize find name = t at hname hbuild
  generalize find' name = t' at hname hbuild'
  cases hname with
  | none => cases hbuild
  | some hlike => exact h _ _ _ _ hlike hbuild hbuild'

theorem Respects.withDefault {name : String} {reader : Reader α} {absent : α}
    (h : reader.Respects (like name)) : (withDefault name reader absent).Respects like := by
  intro find find' a a' halike hbuild hbuild'
  have hname := halike name (List.mem_singleton.mpr rfl)
  simp only [Fields.withDefault] at hbuild hbuild'
  generalize find name = t at hname hbuild
  generalize find' name = t' at hname hbuild'
  cases hname with
  | none =>
      cases hbuild
      cases hbuild'
      rfl
  | some hlike => exact h _ _ _ _ hlike hbuild hbuild'

theorem Respects.map {g : α → β} {fields : Fields α} (h : fields.Respects like) :
    (g <$> fields).Respects like := by
  intro find find' b b' halike hbuild hbuild'
  obtain ⟨a, ha, rfl⟩ := build_map_eq_ok_iff.mp hbuild
  obtain ⟨a', ha', rfl⟩ := build_map_eq_ok_iff.mp hbuild'
  rw [h find find' a a' halike ha ha']

theorem names_seq {f : Fields (α → β)} {x : Fields α} : (f <*> x).names = f.names ++ x.names :=
  List.map_append ..

theorem Respects.seq {f : Fields (α → β)} {x : Fields α} (hf : f.Respects like)
    (hx : x.Respects like) : (f <*> x).Respects like := by
  intro find find' b b' halike hbuild hbuild'
  rw [names_seq] at halike
  obtain ⟨g, hg, a, ha, rfl⟩ := build_seq_eq_ok_iff.mp hbuild
  obtain ⟨g', hg', a', ha', rfl⟩ := build_seq_eq_ok_iff.mp hbuild'
  have hfirst : g = g' :=
    hf find find' g g' (fun name hname => halike name (List.mem_append_left _ hname)) hg hg'
  have hsecond : a = a' :=
    hx find find' a a' (fun name hname => halike name (List.mem_append_right _ hname)) ha ha'
  rw [hfirst, hsecond]

end Fields

theorem Reader.Respects.record {name : String} {fields : Fields α}
    {like : String → Tree → Tree → Prop} (h : fields.Respects like) :
    (Reader.record name fields).Respects (fields.Alike like) := by
  intro t t' a a' halike hread hread'
  exact h _ _ a a' halike (build_of_record hread) (build_of_record hread')

end ImportRepair.Json
