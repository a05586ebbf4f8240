import ImportRepair.Json.Record
import ImportRepair.Proofs.Except
import Mathlib.Data.List.Nodup

/-!
# Readers and what they read

When readers succeed, and with what. A record is read from an object if each of its fields is read
from the member of its name (`record_of_reads`), in whatever order the members stand; and whatever
is read as a record was built from readings of its fields (`build_of_record`).

## Implementation notes

A reader of a record checks the members in the order of the text before it builds the value.
`Fields.Reads` holds what both steps need, and goes along the applicative structure of the fields.
-/

namespace ImportRepair.Json

namespace Reader

variable {α β ε : Type}

theorem readText_eq_ok_iff {reader : Reader α} {text : String} {a : α} :
    readText reader text = .ok a ↔
      reader (Document.ofText text).root = .ok a ∧ (Document.ofText text).ended = true := by
  simp only [readText, Except.bind_eq_ok_iff]
  constructor
  · rintro ⟨b, hb, h⟩
    split at h
    · rename_i hended
      cases h
      exact ⟨hb, hended⟩
    · cases h
  · rintro ⟨ha, hended⟩
    exact ⟨a, ha, if_pos hended⟩

theorem checked_eq_ok_iff {reader : Reader α} {make : α → Except ε β} {message : ε → String}
    {t : Tree} {b : β} :
    checked reader make message t = .ok b ↔ ∃ a, reader t = .ok a ∧ make a = .ok b := by
  simp only [checked, Except.bind_eq_ok_iff]
  apply exists_congr
  intro a
  apply and_congr_right
  intro _
  cases make a with
  | ok b' => simp
  | error e => simp

/-- What a text is read as with a check is read without it, and passes it. -/
theorem readText_checked_eq_ok_iff {reader : Reader α} {make : α → Except ε β}
    {message : ε → String} {text : String} {b : β} :
    readText (checked reader make message) text = .ok b ↔
      ∃ a, readText reader text = .ok a ∧ make a = .ok b := by
  simp only [readText_eq_ok_iff, checked_eq_ok_iff]
  constructor
  · rintro ⟨⟨a, ha, hb⟩, hended⟩
    exact ⟨a, ⟨ha, hended⟩, hb⟩
  · rintro ⟨a, ⟨ha, hended⟩, hb⟩
    exact ⟨⟨a, ha, hb⟩, hended⟩

/-- A list is read from a closed array, element by element. -/
theorem list_eq_ok_iff {item : Reader α} {t : Tree} {as : List α} :
    list item t = .ok as ↔
      ∃ items, t = .array items true ∧ List.Forall₂ (fun t a => item t = .ok a) items as := by
  constructor
  · intro h
    cases t with
    | array items closed =>
        simp only [list, Except.bind_eq_ok_iff, Except.mapM_eq_ok_iff] at h
        obtain ⟨as', has, h⟩ := h
        split at h
        · rename_i hclosed
          cases h
          exact ⟨items, by rw [hclosed], has⟩
        · cases h
    | number n => cases n <;> cases h
    | string s => cases s <;> cases h
    | _ => cases h
  · rintro ⟨items, rfl, has⟩
    simp only [list, Except.bind_eq_ok_iff, Except.mapM_eq_ok_iff]
    exact ⟨as, has, rfl⟩

/-- Whatever is in a list that was read was read from some tree. -/
theorem exists_of_mem_list {item : Reader α} {t : Tree} {as : List α} (h : list item t = .ok as)
    {a : α} (ha : a ∈ as) : ∃ t', item t' = .ok a := by
  obtain ⟨items, -, has⟩ := list_eq_ok_iff.mp h
  clear h
  induction has with
  | nil => cases ha
  | @cons t' a' _ _ hread _ ih =>
      rcases List.mem_cons.mp ha with rfl | ha
      · exact ⟨t', hread⟩
      · exact ih ha

end Reader

namespace Fields

variable {α β : Type} {find : String → Option Tree}

theorem build_map_eq_ok_iff {g : α → β} {fields : Fields α} {b : β} :
    (g <$> fields).build find = .ok b ↔ ∃ a, fields.build find = .ok a ∧ g a = b :=
  Except.map_eq_ok_iff

theorem build_seq_eq_ok_iff {f : Fields (α → β)} {x : Fields α} {b : β} :
    (f <*> x).build find = .ok b ↔
      ∃ g, f.build find = .ok g ∧ ∃ a, x.build find = .ok a ∧ g a = b := by
  show (f.build find >>= fun g => x.build find >>= fun a => Except.ok (g a)) = .ok b ↔ _
  simp only [Except.bind_eq_ok_iff, Except.ok.injEq]

theorem exists_of_build_required {name : String} {reader : Reader α} {a : α}
    (h : (required name reader).build find = .ok a) : ∃ t, reader t = .ok a := by
  simp only [required] at h
  split at h
  · rename_i t _
    exact ⟨t, h⟩
  · cases h

/-- Trees under names are read as a value: the value is built from them, and each of them passes the
check of its field. -/
structure Reads (fields : Fields α) (find : String → Option Tree) (a : α) : Prop where
  build : fields.build find = .ok a
  check : ∀ s ∈ fields.specs, ∀ t, find s.name = some t → s.check t = .ok ()

theorem Reads.required {name : String} {reader : Reader α} {t : Tree} {a : α}
    (hfind : find name = some t) (hread : reader t = .ok a) :
    (Fields.required name reader).Reads find a where
  build := by simp only [Fields.required, hfind, hread]
  check := by
    intro s hs t' ht'
    rw [Fields.required, List.mem_singleton] at hs
    subst hs
    cases hfind.symm.trans ht'
    simp only [hread, Except.map]

theorem Reads.withDefault {name : String} {reader : Reader α} {absent : α} {t : Tree} {a : α}
    (hfind : find name = some t) (hread : reader t = .ok a) :
    (Fields.withDefault name reader absent).Reads find a where
  build := by simp only [Fields.withDefault, hfind, hread]
  check := by
    intro s hs t' ht'
    rw [Fields.withDefault, List.mem_singleton] at hs
    subst hs
    cases hfind.symm.trans ht'
    simp only [hread, Except.map]

theorem Reads.absent {name : String} {reader : Reader α} {absent : α} (hfind : find name = none) :
    (Fields.withDefault name reader absent).Reads find absent where
  build := by simp only [Fields.withDefault, hfind]
  check := by
    intro s hs t ht
    rw [Fields.withDefault, List.mem_singleton] at hs
    subst hs
    cases hfind.symm.trans ht

theorem Reads.map {g : α → β} {fields : Fields α} {a : α} (h : fields.Reads find a) :
    (g <$> fields).Reads find (g a) where
  build := build_map_eq_ok_iff.mpr ⟨a, h.build, rfl⟩
  check := h.check

theorem Reads.seq {f : Fields (α → β)} {x : Fields α} {g : α → β} {a : α} (hf : f.Reads find g)
    (hx : x.Reads find a) : (f <*> x).Reads find (g a) where
  build := build_seq_eq_ok_iff.mpr ⟨g, hf.build, a, hx.build, rfl⟩
  check := by
    intro s hs
    rcases List.mem_append.mp hs with hs | hs
    · exact hf.check s hs
    · exact hx.check s hs

end Fields

namespace Reader

variable {α : Type}

/-- The tree under a key that occurs once. -/
theorem findMember_of_mem {members : List (Option String × Tree)}
    (hkeys : (members.map (·.1)).Nodup) {name : String} {t : Tree}
    (hmem : (some name, t) ∈ members) : findMember members name = some t := by
  induction members with
  | nil => cases hmem
  | cons m ms ih =>
      rw [List.map_cons, List.nodup_cons] at hkeys
      by_cases hm : m.1 = some name
      · rcases List.mem_cons.mp hmem with rfl | hlater
        · simp [findMember]
        · -- A later member with this key would repeat it.
          have hrepeated : m.1 ∈ ms.map (·.1) := by
            rw [hm]
            exact List.mem_map_of_mem hlater
          exact absurd hrepeated hkeys.1
      · have hlater : (some name, t) ∈ ms := by
          rcases List.mem_cons.mp hmem with heq | hlater
          · exact absurd (congrArg Prod.fst heq).symm hm
          · exact hlater
        simpa [findMember, hm] using ih hkeys.2 hlater

/-- Members pass the check of a record if all keys are names of fields, each is there once, and each
member passes the check of its field. -/
theorem checkMembers_eq_ok {specs : List FieldSpec} {members : List (Option String × Tree)}
    {seen : List String}
    (hknown : ∀ m ∈ members, ∃ s ∈ specs, m.1 = some s.name)
    (hcheck : ∀ m ∈ members, ∀ s ∈ specs, m.1 = some s.name → s.check m.2 = .ok ())
    (hkeys : (members.map (·.1)).Nodup) (hseen : ∀ m ∈ members, ∀ name ∈ seen, m.1 ≠ some name) :
    checkMembers specs seen members = .ok () := by
  induction members generalizing seen with
  | nil => rfl
  | cons m ms ih =>
      obtain ⟨k, t⟩ := m
      obtain ⟨s₀, hs₀, rfl⟩ : ∃ s ∈ specs, k = some s.name := hknown _ (List.mem_cons_self ..)
      rw [List.map_cons, List.nodup_cons] at hkeys
      -- The spec that is found has the name, and so it is one that the member passes.
      obtain ⟨s, hfind⟩ : ∃ s, (specs.find? fun s => s.name == s₀.name) = some s := by
        apply Option.isSome_iff_exists.mp
        exact List.find?_isSome.mpr ⟨s₀, hs₀, by simp⟩
      have hname : s.name = s₀.name := by simpa using List.find?_some hfind
      have hpass : s.check t = .ok () := by
        apply hcheck _ (List.mem_cons_self ..) s (List.mem_of_find?_eq_some hfind)
        rw [hname]
      have hnew : s₀.name ∉ seen := fun h => hseen _ (List.mem_cons_self ..) _ h rfl
      have hrest : checkMembers specs (s₀.name :: seen) ms = .ok () := by
        apply ih (fun m hm => hknown m (List.mem_cons_of_mem _ hm))
          (fun m hm => hcheck m (List.mem_cons_of_mem _ hm)) hkeys.2
        intro m hm name hmem heq
        rcases List.mem_cons.mp hmem with rfl | hmem
        · have hrepeated : m.1 ∈ ms.map (·.1) := List.mem_map_of_mem hm
          rw [heq] at hrepeated
          exact hkeys.1 hrepeated
        · exact hseen m (List.mem_cons_of_mem _ hm) name hmem heq
      simp only [checkMembers, key, hfind, if_neg hnew, hpass, hrest, bind, Except.bind]

/-- A record is read from an object whose members are fields, each once, once the fields are read
from the members of their names. -/
theorem record_of_reads {name : String} {fields : Fields α} {members : List (Option String × Tree)}
    {a : α} (hknown : ∀ m ∈ members, ∃ s ∈ fields.specs, m.1 = some s.name)
    (hkeys : (members.map (·.1)).Nodup) (h : fields.Reads (findMember members) a) :
    record name fields (.object members true) = .ok a := by
  have hcheck : checkMembers fields.specs [] members = .ok () := by
    apply checkMembers_eq_ok hknown _ hkeys (by simp)
    rintro ⟨k, t⟩ hm s hs rfl
    exact h.check s hs t (findMember_of_mem hkeys hm)
  simp only [record, hcheck, h.build, bind, Except.bind, if_true]

end Reader

/-- The tree of a field of a record: the member of its name in an object, the element in its place
in an array. -/
def Fields.tree? {α : Type} (fields : Fields α) : Tree → String → Option Tree
  | .object members _ => Reader.findMember members
  | .array items _ => Reader.findMember ((fields.specs.map fun s => some s.name).zip items)
  | _ => fun _ => none

namespace Reader

variable {α : Type}

/-- Whatever is read as a record was built from the trees of its fields. -/
theorem build_of_record {name : String} {fields : Fields α} {t : Tree} {a : α}
    (h : record name fields t = .ok a) : fields.build (fields.tree? t) = .ok a := by
  cases t with
  | object members closed =>
      simp only [record, Except.bind_eq_ok_iff] at h
      obtain ⟨_, -, h⟩ := h
      split at h
      · exact h
      · cases h
  | array items closed =>
      simp only [record, Except.bind_eq_ok_iff] at h
      obtain ⟨_, -, h⟩ := h
      exact h
  | number n => cases n <;> cases h
  | string s => cases s <;> cases h
  | _ => cases h

theorem exists_build_of_record {name : String} {fields : Fields α} {t : Tree} {a : α}
    (h : record name fields t = .ok a) : ∃ find, fields.build find = .ok a :=
  ⟨_, build_of_record h⟩

theorem ofJsonItems_eq (items : List Json) : Tree.ofJsonItems items = items.map Tree.ofJson := by
  induction items with
  | nil => rfl
  | cons v vs ih => rw [Tree.ofJsonItems, ih, List.map_cons]

theorem ofJsonMembers_eq (members : List (String × Json)) :
    Tree.ofJsonMembers members = members.map fun m => (some m.1, Tree.ofJson m.2) := by
  induction members with
  | nil => rfl
  | cons m ms ih => rw [Tree.ofJsonMembers, ih, List.map_cons]

theorem uint32_ofJson (n : UInt32) : uint32 (Tree.ofJson (.integer n.toNat)) = .ok n := by
  have hsize : 0 ≤ (n.toNat : Int) ∧ (n.toNat : Int).toNat < UInt32.size :=
    ⟨Int.natCast_nonneg _, n.toNat_lt⟩
  show (if _ then Except.ok (UInt32.ofNat (n.toNat : Int).toNat) else _) = _
  rw [if_pos hsize, Int.toNat_natCast, UInt32.ofNat_toNat]

/-- A list is read from the array of its elements. -/
theorem list_ofJson {item : Reader α} {toJson : α → Json} {as : List α}
    (h : ∀ a ∈ as, item (Tree.ofJson (toJson a)) = .ok a) :
    list item (Tree.ofJson (.array (as.map toJson))) = .ok as := by
  rw [list_eq_ok_iff]
  refine ⟨_, by rw [Tree.ofJson, ofJsonItems_eq, List.map_map], ?_⟩
  rw [List.forall₂_map_left_iff, List.forall₂_same]
  exact h

theorem list_strings (ss : List String) : list string (Tree.ofJson (.strings ss)) = .ok ss :=
  list_ofJson fun _ _ => rfl

/-- Entries are read from the object that has them as its members. -/
theorem entries_ofJson {value : Reader α} {toJson : α → Json} {es : List (String × α)}
    (h : ∀ e ∈ es, value (Tree.ofJson (toJson e.2)) = .ok e.2) :
    entries value (Tree.ofJson (.object (es.map fun e => (e.1, toJson e.2)))) = .ok es := by
  rw [Tree.ofJson, ofJsonMembers_eq, List.map_map]
  simp only [entries, Except.bind_eq_ok_iff, Except.mapM_eq_ok_iff]
  refine ⟨es, ?_, rfl⟩
  rw [List.forall₂_map_left_iff, List.forall₂_same]
  intro e he
  exact ⟨e.1, rfl, e.2, h e he, rfl⟩

/-- A record is read from an object whose members are fields of it in their order. -/
theorem record_ofJson {name : String} {fields : Fields α} {members : List (String × Json)} {a : α}
    (hnames : (fields.specs.map (·.name)).Nodup)
    (hkeys : (members.map (·.1)).Sublist (fields.specs.map (·.name)))
    (h : fields.Reads (findMember (Tree.ofJsonMembers members)) a) :
    record name fields (Tree.ofJson (.object members)) = .ok a := by
  apply record_of_reads _ _ h
  · intro m hm
    rw [ofJsonMembers_eq] at hm
    obtain ⟨m', hm', rfl⟩ := List.mem_map.mp hm
    obtain ⟨s, hs, hname⟩ := List.mem_map.mp (hkeys.subset (List.mem_map_of_mem hm'))
    exact ⟨s, hs, congrArg some hname.symm⟩
  · have hsome : (Tree.ofJsonMembers members).map (·.1) = (members.map (·.1)).map some := by
      rw [ofJsonMembers_eq, List.map_map, List.map_map]
      rfl
    rw [hsome]
    exact (hnames.sublist hkeys).map fun _ _ h => Option.some.inj h

end Reader

end ImportRepair.Json
