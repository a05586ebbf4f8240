import ImportRepair.Proofs.Json.Readers
import ImportRepair.Proofs.Json.Tokens

/-!
# Documents of written values

The tokens of a value make up its tree (`Exact.parsed`), so the text of a value is a document with
that tree, and reading the text comes down to reading the tree (`readText_prettyText`), also where
the text is a line (`readText_line`).

## Implementation notes

Each nested value and each element takes one unit of fuel. Twice the number of tokens is enough,
since a bracket stands for every level of nesting.
-/

namespace ImportRepair.Json

open Json.Tree

theorem exists_cons_toTokens (v : Json) : ∃ t ts, v.toTokens = t :: ts ∧ t ≠ .closeBracket := by
  cases v with
  | array items => exact ⟨_, _, by rw [toTokens], by simp⟩
  | object members => exact ⟨_, _, by rw [toTokens], by simp⟩
  | _ => exact ⟨_, _, by rw [toTokens], by simp⟩

theorem exists_cons_itemTokens (v : Json) (vs : List Json) :
    ∃ t ts, itemTokens (v :: vs) = t :: ts ∧ t ≠ .closeBracket := by
  obtain ⟨t, ts, htokens, ht⟩ := exists_cons_toTokens v
  cases vs with
  | nil => exact ⟨t, ts, by rw [itemTokens, htokens], ht⟩
  | cons w vs => exact ⟨t, _, by rw [itemTokens, htokens, List.cons_append], ht⟩

theorem exists_cons_memberTokens (m : String × Json) (ms : List (String × Json)) :
    ∃ k ts, memberTokens (m :: ms) = .string k :: ts := by
  obtain ⟨k, v⟩ := m
  cases ms with
  | nil => exact ⟨some k, _, by rw [memberTokens]⟩
  | cons m ms => exact ⟨some k, _, by rw [memberTokens]⟩

theorem exists_fuel {v : Json} {fuel : Nat} (h : 2 * v.toTokens.length ≤ fuel + 1) :
    ∃ f, fuel = f + 1 := by
  obtain ⟨t, ts, htokens, -⟩ := exists_cons_toTokens v
  simp only [htokens, List.length_cons] at h
  exact ⟨fuel - 1, by omega⟩

/-- The tokens of a value make up its tree, whatever follows, if there is fuel for all of them. -/
def Parsed (v : Json) : Prop :=
  ∀ fuel rest, 2 * v.toTokens.length ≤ fuel + 1 →
    ofTokens fuel (v.toTokens ++ rest) = (ofJson v, rest)

theorem itemsOfTokens_itemTokens {v : Json} {vs : List Json} (h : ∀ x ∈ v :: vs, x.Parsed)
    {fuel : Nat} {rest : List Token} (hfuel : 2 * (itemTokens (v :: vs)).length ≤ fuel) :
    itemsOfTokens fuel (itemTokens (v :: vs) ++ .closeBracket :: rest) =
      (ofJsonItems (v :: vs), true, rest) := by
  induction vs generalizing v fuel with
  | nil =>
      have hv := h v (List.mem_cons_self ..)
      rw [itemTokens] at hfuel
      obtain ⟨fuel, rfl⟩ := exists_fuel (Nat.le_succ_of_le hfuel)
      simp only [itemTokens, itemsOfTokens, hv fuel _ hfuel, ofJsonItems]
  | cons w vs ih =>
      have hv := h v (List.mem_cons_self ..)
      simp only [itemTokens, List.length_append, List.length_cons] at hfuel
      obtain ⟨fuel, rfl⟩ : ∃ f, fuel = f + 1 := ⟨fuel - 1, by omega⟩
      have hvs := ih (fun x hx => h x (List.mem_cons_of_mem _ hx))
        (show 2 * (itemTokens (w :: vs)).length ≤ fuel by omega)
      have hfirst := hv fuel (.comma :: (itemTokens (w :: vs) ++ .closeBracket :: rest)) (by omega)
      rw [itemTokens, List.append_assoc, List.cons_append, itemsOfTokens, hfirst]
      simp only [hvs, ofJsonItems]

theorem membersOfTokens_memberTokens {m : String × Json} {ms : List (String × Json)}
    (h : ∀ x ∈ m :: ms, x.2.Parsed) {fuel : Nat} {done : List (Option String × Tree)}
    {rest : List Token} (hfuel : 2 * (memberTokens (m :: ms)).length ≤ fuel) :
    membersOfTokens fuel done (memberTokens (m :: ms) ++ .closeBrace :: rest) =
      (.object (done ++ ofJsonMembers (m :: ms)) true, rest) := by
  induction ms generalizing m fuel done with
  | nil =>
      obtain ⟨k, v⟩ := m
      have hv : v.Parsed := h (k, v) (List.mem_cons_self ..)
      simp only [memberTokens, List.length_cons] at hfuel
      obtain ⟨fuel, rfl⟩ : ∃ f, fuel = f + 1 := ⟨fuel - 1, by omega⟩
      have hvalue := hv fuel (.closeBrace :: rest) (by omega)
      simp only [memberTokens, List.cons_append, membersOfTokens, hvalue, ofJsonMembers]
  | cons m' ms ih =>
      obtain ⟨k, v⟩ := m
      have hv : v.Parsed := h (k, v) (List.mem_cons_self ..)
      simp only [memberTokens, List.length_append, List.length_cons] at hfuel
      obtain ⟨fuel, rfl⟩ : ∃ f, fuel = f + 1 := ⟨fuel - 1, by omega⟩
      have hms : membersOfTokens fuel (done ++ [(some k, ofJson v)])
          (memberTokens (m' :: ms) ++ .closeBrace :: rest) =
            (.object (done ++ [(some k, ofJson v)] ++ ofJsonMembers (m' :: ms)) true, rest) :=
        ih (fun x hx => h x (List.mem_cons_of_mem _ hx)) (by omega)
      have hvalue := hv fuel (.comma :: (memberTokens (m' :: ms) ++ .closeBrace :: rest)) (by omega)
      simp only [memberTokens, List.cons_append, List.append_assoc, membersOfTokens, hvalue, hms,
        ofJsonMembers, List.nil_append]

/-- The tree of an exact value is made up by its tokens. -/
theorem Exact.parsed {v : Json} (h : v.Exact) : v.Parsed := by
  induction h with
  | integer hlow hhigh =>
      intro fuel rest hfuel
      obtain ⟨fuel, rfl⟩ := exists_fuel hfuel
      show (Tree.number (Literal.ofInt _).number, rest) = _
      rw [Literal.number_ofInt hlow hhigh, ofJson]
  | @array items _ ih =>
      intro fuel rest hfuel
      obtain ⟨fuel, rfl⟩ := exists_fuel hfuel
      cases items with
      | nil => rfl
      | cons v vs =>
          -- The token after the bracket begins a value, so the array is not taken for an empty one.
          obtain ⟨t, ts, htokens, ht⟩ := exists_cons_itemTokens v vs
          simp only [toTokens, List.length_cons, List.length_append] at hfuel
          have hitems : itemsOfTokens fuel (itemTokens (v :: vs) ++ .closeBracket :: rest) =
              (ofJsonItems (v :: vs), true, rest) := itemsOfTokens_itemTokens ih (by omega)
          simp only [toTokens, List.cons_append, List.append_assoc, List.nil_append]
          rw [htokens, List.cons_append] at hitems ⊢
          rw [ofTokens]
          · simp only [hitems, ofJson]
          · intro ts' heq
            cases heq
            exact ht rfl
  | @object members _ ih =>
      intro fuel rest hfuel
      obtain ⟨fuel, rfl⟩ := exists_fuel hfuel
      cases members with
      | nil => rfl
      | cons m ms =>
          obtain ⟨k, ts, htokens⟩ := exists_cons_memberTokens m ms
          simp only [toTokens, List.length_cons, List.length_append] at hfuel
          have hmembers : membersOfTokens fuel [] (memberTokens (m :: ms) ++ .closeBrace :: rest) =
              (.object ([] ++ ofJsonMembers (m :: ms)) true, rest) :=
            membersOfTokens_memberTokens ih (by omega)
          simp only [toTokens, List.cons_append, List.append_assoc, List.nil_append]
          rw [htokens, List.cons_append] at hmembers ⊢
          rw [ofTokens]
          · simp only [hmembers, ofJson, List.nil_append]
          · intro ts' heq
            cases heq
  | _ =>
      intro fuel rest hfuel
      obtain ⟨fuel, rfl⟩ := exists_fuel hfuel
      rfl

theorem tokens_of_isSpace {cs : List Char} (h : ∀ c ∈ cs, isSpace c = true) : tokens cs = [] := by
  induction cs with
  | nil => rfl
  | cons c cs ih =>
      rw [tokens_cons_space (h c (List.mem_cons_self ..))]
      exact ih fun d hd => h d (List.mem_cons_of_mem _ hd)

theorem continuesNumber_of_isSpace {cs : List Char} (h : ∀ c ∈ cs, isSpace c = true) :
    continuesNumber cs = false := by
  cases cs with
  | nil => rfl
  | cons c cs =>
      have hc := h c (List.mem_cons_self ..)
      simp only [isSpace, Bool.or_eq_true, beq_iff_eq] at hc
      rcases hc with ((rfl | rfl) | rfl) | rfl
      all_goals rfl

/-- The text of an exact value, with spaces after it, is a document with the tree of the value. -/
theorem Exact.ofText_append {v : Json} (h : v.Exact) {space : String}
    (hspace : ∀ c ∈ space.toList, isSpace c = true) :
    Document.ofText (v.prettyText ++ space) = ⟨ofJson v, true⟩ := by
  have htokens : tokens (v.prettyText ++ space).toList = v.toTokens := by
    rw [String.toList_append, prettyText, String.toList_ofList,
      h.spelled 0 _ (continuesNumber_of_isSpace hspace), tokens_of_isSpace hspace, List.append_nil]
  have htree : ofTokens (2 * v.toTokens.length + 1) v.toTokens = (ofJson v, []) := by
    have hparsed := h.parsed (2 * v.toTokens.length + 1) [] (by omega)
    rwa [List.append_nil] at hparsed
  simp only [Document.ofText, htokens, htree, List.isEmpty_nil]

section Reading

variable {α : Type} {reader : Reader α} {a : α} {v : Json}

/-- A text is read as its value is. -/
theorem Exact.readText_append (h : v.Exact) {space : String}
    (hspace : ∀ c ∈ space.toList, isSpace c = true) (hread : reader (ofJson v) = .ok a) :
    Reader.readText reader (v.prettyText ++ space) = .ok a := by
  rw [Reader.readText_eq_ok_iff, h.ofText_append hspace]
  exact ⟨hread, rfl⟩

theorem Exact.readText_prettyText (h : v.Exact) (hread : reader (ofJson v) = .ok a) :
    Reader.readText reader v.prettyText = .ok a := by
  rw [← String.append_empty (s := v.prettyText)]
  exact h.readText_append (by simp) hread

theorem Exact.readText_line (h : v.Exact) (hread : reader (ofJson v) = .ok a) :
    Reader.readText reader (v.prettyText ++ "\n") = .ok a := by
  apply h.readText_append _ hread
  intro c hc
  have hnewLine : c = '\n' := by simpa using hc
  rw [hnewLine]
  rfl

end Reading

end ImportRepair.Json
