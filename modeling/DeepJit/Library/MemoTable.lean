import Mathlib.Data.List.Basic

/-!
# Tables that are filled on first use

A partial function whose arguments may have keys, and a table that stores the first value for each
key and returns that from then on. A sequence of calls cannot be told from calls without a table
exactly when no two of its arguments have one key and different values.
-/

namespace DeepJit

variable {α κ δ ε : Type} [BEq κ] [LawfulBEq κ] (key : α → Option κ) (value : α → Except ε δ)

/-- One call. An argument without a key bypasses the table, and an error is not stored. -/
def tableCall (a : α) (table : List (κ × δ)) : Except ε δ × List (κ × δ) :=
  match key a with
  | none => (value a, table)
  | some k =>
      match table.lookup k with
      | some d => (.ok d, table)
      | none =>
          match value a with
          | .error e => (.error e, table)
          | .ok d => (.ok d, (k, d) :: table)

/-- The results of a sequence of calls. -/
def tableCalls : List α → List (κ × δ) → List (Except ε δ)
  | [], _ => []
  | a :: rest, table => (tableCall key value a table).1 :: tableCalls rest (tableCall key value a table).2

/-- Two arguments with one key have one value, unless the first has none. -/
def Agree (a b : α) : Prop := ∀ k, key a = some k → key b = some k → ∀ d, value a = .ok d → value b = .ok d

variable {key value}

/-- What a call without an error leaves under its key, every later call finds. -/
theorem lookup_tableCall {a : α} {k : κ} {d : δ} {table : List (κ × δ)} (hkey : key a = some k)
    (h : (tableCall key value a table).1 = .ok d) :
    (tableCall key value a table).2.lookup k = some d := by
  unfold tableCall at h ⊢
  cases hfound : table.lookup k with
  | some found =>
      simp only [hkey, hfound, Except.ok.injEq] at h
      simp [hkey, hfound, h]
  | none =>
      cases hvalue : value a with
      | error e => simp [hkey, hfound, hvalue] at h
      | ok computed =>
          simp only [hkey, hfound, hvalue, Except.ok.injEq] at h
          simp [hkey, hfound, h]

/-- A table never changes an entry. -/
theorem lookup_tableCall_of_lookup {k : κ} {d : δ} (a : α) {table : List (κ × δ)}
    (h : table.lookup k = some d) : (tableCall key value a table).2.lookup k = some d := by
  unfold tableCall
  cases hkey : key a with
  | none => exact h
  | some k' =>
      cases hfound : table.lookup k' with
      | some found => simpa [hfound] using h
      | none =>
          cases hvalue : value a with
          | error e => simpa [hfound] using h
          | ok computed =>
              have hne : k ≠ k' := by
                intro heq
                simp [← heq, h] at hfound
              simp only [hfound, List.lookup_cons, beq_eq_false_iff_ne.mpr hne]
              exact h

omit [LawfulBEq κ] in
theorem tableCall_eq_value {a : α} {table : List (κ × δ)}
    (h : ∀ k, key a = some k → ∀ d, table.lookup k = some d → value a = .ok d) :
    (tableCall key value a table).1 = value a := by
  unfold tableCall
  cases hkey : key a with
  | none => rfl
  | some k =>
      cases hfound : table.lookup k with
      | some found => simp [hfound, h k hkey found hfound]
      | none => cases hvalue : value a <;> simp [hfound]

/-- An entry after a call was there before, or is the value of the argument. -/
theorem lookup_of_lookup_tableCall {a : α} {k : κ} {d : δ} {table : List (κ × δ)}
    (h : (tableCall key value a table).2.lookup k = some d) :
    table.lookup k = some d ∨ (key a = some k ∧ value a = .ok d) := by
  unfold tableCall at h
  cases hkey : key a with
  | none =>
      rw [hkey] at h
      exact .inl h
  | some k' =>
      cases hfound : table.lookup k' with
      | some found =>
          simp only [hkey, hfound] at h
          exact .inl h
      | none =>
          cases hvalue : value a with
          | error e =>
              simp only [hkey, hfound, hvalue] at h
              exact .inl h
          | ok computed =>
              simp only [hkey, hfound, hvalue] at h
              by_cases hk : k = k'
              · subst hk
                simp only [List.lookup_cons, BEq.rfl, Option.some.injEq] at h
                exact .inr ⟨rfl, by rw [h]⟩
              · simp only [List.lookup_cons, beq_eq_false_iff_ne.mpr hk] at h
                exact .inl h

/-- The table is transparent for a sequence of calls exactly if each argument agrees with the table
it starts from and any two arguments agree. -/
theorem tableCalls_eq_map_iff (calls : List α) (table : List (κ × δ)) :
    tableCalls key value calls table = calls.map value ↔
      (∀ a ∈ calls, ∀ k, key a = some k → ∀ d, table.lookup k = some d → value a = .ok d) ∧
        calls.Pairwise (Agree key value) := by
  induction calls generalizing table with
  | nil => simp [tableCalls]
  | cons a rest ih =>
      rw [tableCalls, List.map_cons, List.cons.injEq, ih, List.pairwise_cons]
      constructor
      · rintro ⟨hhead, hrest, hpairs⟩
        refine ⟨?_, ?_, hpairs⟩
        · intro b hb k hk d hd
          rcases List.mem_cons.mp hb with rfl | hb
          · rw [← hhead, tableCall, hk]
            simp [hd]
          · exact hrest b hb k hk d (lookup_tableCall_of_lookup a hd)
        · intro b hb k hka hkb d hd
          exact hrest b hb k hkb d (lookup_tableCall hka (hhead.trans hd))
      · rintro ⟨htable, hagree, hpairs⟩
        refine ⟨tableCall_eq_value (htable a List.mem_cons_self), ?_, hpairs⟩
        intro b hb k hk d hd
        rcases lookup_of_lookup_tableCall hd with hold | ⟨hkey, hvalue⟩
        · exact htable b (List.mem_cons_of_mem _ hb) k hk d hold
        · exact hagree b hb k hkey hk d hvalue

/-- From the empty table. -/
theorem tableCalls_nil_eq_map_iff (calls : List α) :
    tableCalls key value calls [] = calls.map value ↔ calls.Pairwise (Agree key value) := by
  simp [tableCalls_eq_map_iff]

end DeepJit
