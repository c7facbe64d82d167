import Lox.Bindings

/-!
Tables changed value by value, and tables all of whose values have a property. Both go along
with setting a key and with merging.
-/

set_option autoImplicit false

namespace Lox.Bindings

variable {κ α β γ : Type}

/-- The table with `g` applied to every value. -/
def map (g : α → β) (b : Bindings κ α) : Bindings κ β := ⟨b.entries.map fun e ↦ (e.1, g e.2)⟩

/-- Every value of the table has the property. -/
def All (p : α → Prop) (b : Bindings κ α) : Prop := ∀ e ∈ b.entries, p e.2

@[simp] theorem map_empty (g : α → β) : (empty : Bindings κ α).map g = empty := rfl

theorem map_congr {g g' : α → β} {b : Bindings κ α} (h : ∀ e ∈ b.entries, g e.2 = g' e.2) :
    b.map g = b.map g' := by
  unfold map
  congr 1
  exact List.map_congr_left fun e he ↦ by rw [h e he]

theorem map_map (g : β → γ) (g' : α → β) (b : Bindings κ α) :
    (b.map g').map g = b.map fun v ↦ g (g' v) := by
  simp [map]

theorem map_id' (b : Bindings κ α) : b.map (fun v ↦ v) = b := by
  simp [map]

theorem All.imp {p q : α → Prop} {b : Bindings κ α} (h : b.All p) (hpq : ∀ v, p v → q v) :
    b.All q :=
  fun e he ↦ hpq e.2 (h e he)

theorem all_empty (p : α → Prop) : (empty : Bindings κ α).All p := fun _ he ↦ nomatch he

variable [DecidableEq κ]

@[simp] theorem contains_insert (b : Bindings κ α) (key key' : κ) (value : α) :
    (b.insert key value).contains key' = (decide (key = key') || b.contains key') := by
  unfold contains
  rw [find?_insert]
  by_cases h : key = key' <;> simp [h]

theorem merge_cons (b : Bindings κ α) (e : κ × α) (rest : List (κ × α)) :
    b.merge ⟨e :: rest⟩ = (b.insert e.1 e.2).merge ⟨rest⟩ := rfl

theorem merge_append (b : Bindings κ α) (older newer : List (κ × α)) :
    b.merge ⟨older ++ newer⟩ = (b.merge ⟨older⟩).merge ⟨newer⟩ :=
  List.foldl_append

theorem find?_merge_of_ne {key : κ} {entries : List (κ × α)} (h : ∀ e ∈ entries, e.1 ≠ key)
    (b : Bindings κ α) : (b.merge ⟨entries⟩).find? key = b.find? key := by
  induction entries generalizing b with
  | nil => rfl
  | cons e rest ih =>
    rw [merge_cons, ih fun e' he ↦ h e' (List.mem_cons_of_mem _ he), find?_insert,
      if_neg (h e (List.mem_cons_self ..))]

/-! ### Value by value -/

theorem lookup_map (g : α → β) (key : κ) (entries : List (κ × α)) :
    lookup key (entries.map fun e ↦ (e.1, g e.2)) = (lookup key entries).map g := by
  induction entries with
  | nil => rfl
  | cons entry rest ih =>
    by_cases h : entry.1 = key
    · simp [lookup, h]
    · simp [lookup, h, ih]

@[simp] theorem find?_map (g : α → β) (b : Bindings κ α) (key : κ) :
    (b.map g).find? key = (b.find? key).map g :=
  lookup_map g key b.entries

@[simp] theorem contains_map (g : α → β) (b : Bindings κ α) (key : κ) :
    (b.map g).contains key = b.contains key := by
  simp [contains]

theorem put_map (g : α → β) (key : κ) (value : α) (entries : List (κ × α)) :
    put key (g value) (entries.map fun e ↦ (e.1, g e.2)) =
      (put key value entries).map fun e ↦ (e.1, g e.2) := by
  induction entries with
  | nil => rfl
  | cons entry rest ih =>
    by_cases h : entry.1 = key
    · simp [put, h]
    · simp [put, h, ih]

theorem map_insert (g : α → β) (b : Bindings κ α) (key : κ) (value : α) :
    (b.insert key value).map g = (b.map g).insert key (g value) := by
  simp [insert, map, put_map]

theorem map_merge (g : α → β) (b : Bindings κ α) (entries : List (κ × α)) :
    (b.merge ⟨entries⟩).map g = (b.map g).merge ⟨entries.map fun e ↦ (e.1, g e.2)⟩ := by
  induction entries generalizing b with
  | nil => rfl
  | cons entry rest ih => rw [merge_cons, ih, List.map_cons, merge_cons, map_insert]

theorem map_ofList (g : α → β) (entries : List (κ × α)) :
    (ofList entries).map g = ofList (entries.map fun e ↦ (e.1, g e.2)) :=
  map_merge g empty entries

/-! ### Key by key -/

/-- The table with every key changed. -/
def mapKeys {κ' : Type} (ρ : κ → κ') (b : Bindings κ α) : Bindings κ' α :=
  ⟨b.entries.map fun e ↦ (ρ e.1, e.2)⟩

section

variable {κ' : Type} [DecidableEq κ'] {ρ : κ → κ'} (hρ : Function.Injective ρ)

include hρ

theorem find?_mapKeys (b : Bindings κ α) (key : κ) : (b.mapKeys ρ).find? (ρ key) = b.find? key := by
  obtain ⟨entries⟩ := b
  change lookup (ρ key) (entries.map _) = lookup key entries
  induction entries with
  | nil => rfl
  | cons entry rest ih => simp [lookup, hρ.eq_iff, ih]

theorem mapKeys_insert (b : Bindings κ α) (key : κ) (value : α) :
    (b.insert key value).mapKeys ρ = (b.mapKeys ρ).insert (ρ key) value := by
  obtain ⟨entries⟩ := b
  refine congrArg Bindings.mk ?_
  change (put key value entries).map _ = put (ρ key) value (entries.map _)
  induction entries with
  | nil => rfl
  | cons entry rest ih =>
    by_cases h : entry.1 = key
    · simp [put, h]
    · simp [put, h, hρ.eq_iff, ih]

theorem mapKeys_merge (b newer : Bindings κ α) :
    (b.merge newer).mapKeys ρ = (b.mapKeys ρ).merge (newer.mapKeys ρ) := by
  obtain ⟨entries⟩ := newer
  change (b.merge ⟨entries⟩).mapKeys ρ = (b.mapKeys ρ).merge ⟨entries.map _⟩
  induction entries generalizing b with
  | nil => rfl
  | cons entry rest ih => rw [merge_cons, ih, List.map_cons, merge_cons, mapKeys_insert hρ]

end

/-! ### Every value -/

theorem mem_of_lookup {key : κ} {value : α} {entries : List (κ × α)}
    (h : lookup key entries = some value) : (key, value) ∈ entries := by
  induction entries with
  | nil => cases h
  | cons entry rest ih =>
    obtain ⟨k, v⟩ := entry
    by_cases hk : k = key
    · simp only [lookup, hk, if_true, Option.some.injEq] at h
      simp [hk, h]
    · simp only [lookup, hk, if_false] at h
      exact List.mem_cons_of_mem _ (ih h)

theorem All.find? {p : α → Prop} {b : Bindings κ α} {key : κ} {value : α} (h : b.All p)
    (hfind : b.find? key = some value) : p value :=
  h _ (mem_of_lookup hfind)

theorem mem_put {key : κ} {value : α} {entries : List (κ × α)} {e : κ × α}
    (h : e ∈ put key value entries) : e = (key, value) ∨ e ∈ entries := by
  induction entries with
  | nil => exact Or.inl (List.mem_singleton.1 h)
  | cons entry rest ih =>
    obtain ⟨k, v⟩ := entry
    by_cases hk : k = key
    · simp only [put, hk, if_true, List.mem_cons] at h
      rcases h with h | h
      · exact Or.inl h
      · exact Or.inr (List.mem_cons_of_mem _ h)
    · simp only [put, hk, if_false, List.mem_cons] at h
      rcases h with h | h
      · exact Or.inr (List.mem_cons.2 (Or.inl h))
      · rcases ih h with h | h
        · exact Or.inl h
        · exact Or.inr (List.mem_cons_of_mem _ h)

theorem All.insert {p : α → Prop} {b : Bindings κ α} {key : κ} {value : α} (h : b.All p)
    (hvalue : p value) : (b.insert key value).All p := by
  intro e he
  rcases mem_put he with rfl | hmem
  · exact hvalue
  · exact h e hmem

theorem All.merge {p : α → Prop} {b : Bindings κ α} {entries : List (κ × α)} (h : b.All p)
    (hnewer : ∀ e ∈ entries, p e.2) : (b.merge ⟨entries⟩).All p := by
  induction entries generalizing b with
  | nil => exact h
  | cons entry rest ih =>
    rw [merge_cons]
    exact ih (h.insert (hnewer entry (List.mem_cons_self ..)))
      fun e he ↦ hnewer e (List.mem_cons_of_mem _ he)

theorem all_ofList {p : α → Prop} {entries : List (κ × α)} (h : ∀ e ∈ entries, p e.2) :
    (ofList entries).All p :=
  (all_empty p).merge h

/-- Of the entries with one key the last counts. -/
theorem find?_merge_of_last {key : κ} {value : α} {entries : List (κ × α)} {i : Nat}
    (hi : entries[i]? = some (key, value))
    (hlast : ∀ j, i < j → ∀ e, entries[j]? = some e → e.1 ≠ key) (b : Bindings κ α) :
    (b.merge ⟨entries⟩).find? key = some value := by
  induction entries generalizing b i with
  | nil => cases hi
  | cons e rest ih =>
    rw [merge_cons]
    cases i with
    | zero =>
      cases hi
      have hrest : ∀ e ∈ rest, e.1 ≠ key := fun e he ↦
        let ⟨j, hj⟩ := List.getElem?_of_mem he
        hlast (j + 1) (Nat.zero_lt_succ j) e hj
      rw [find?_merge_of_ne hrest, find?_insert, if_pos rfl]
    | succ i => exact ih hi (fun j hj ↦ hlast (j + 1) (Nat.succ_lt_succ hj)) _

theorem mem_merge {b : Bindings κ α} {entries : List (κ × α)} {e : κ × α}
    (h : e ∈ (b.merge ⟨entries⟩).entries) : e ∈ b.entries ∨ e ∈ entries := by
  induction entries generalizing b with
  | nil => exact Or.inl h
  | cons entry rest ih =>
    rw [merge_cons] at h
    rcases ih h with h | h
    · rcases mem_put h with rfl | h
      · exact Or.inr (List.mem_cons_self ..)
      · exact Or.inl h
    · exact Or.inr (List.mem_cons_of_mem _ h)

theorem mem_of_find?_ofList {entries : List (κ × α)} {key : κ} {value : α}
    (h : (ofList entries).find? key = some value) : (key, value) ∈ entries :=
  (mem_merge (mem_of_lookup h)).resolve_left List.not_mem_nil

/-! ### Each key once -/

/-- No key has two entries. -/
def Distinct (b : Bindings κ α) : Prop := (b.entries.map Prod.fst).Nodup

omit [DecidableEq κ] in
theorem distinct_empty : (empty : Bindings κ α).Distinct := List.nodup_nil

theorem mem_keys_put {key key' : κ} {value : α} {entries : List (κ × α)}
    (h : key' ∈ (put key value entries).map Prod.fst) :
    key' = key ∨ key' ∈ entries.map Prod.fst := by
  obtain ⟨e, he, rfl⟩ := List.mem_map.1 h
  rcases mem_put he with rfl | he
  · exact Or.inl rfl
  · exact Or.inr (List.mem_map_of_mem he)

theorem Distinct.insert {b : Bindings κ α} (h : b.Distinct) (key : κ) (value : α) :
    (b.insert key value).Distinct := by
  unfold Distinct at h ⊢
  obtain ⟨entries⟩ := b
  change ((put key value entries).map Prod.fst).Nodup
  induction entries with
  | nil => exact List.nodup_cons.2 ⟨List.not_mem_nil, List.nodup_nil⟩
  | cons entry rest ih =>
    obtain ⟨hfirst, hrest⟩ := List.nodup_cons.1 h
    by_cases hk : entry.1 = key
    · simp only [put, hk, if_true, List.map_cons]
      exact List.nodup_cons.2 ⟨hk ▸ hfirst, hrest⟩
    · simp only [put, hk, if_false, List.map_cons]
      refine List.nodup_cons.2 ⟨fun hmem ↦ ?_, ih hrest⟩
      rcases mem_keys_put hmem with heq | hmem
      · exact hk heq
      · exact hfirst hmem

theorem lookup_eq_none {key : κ} {entries : List (κ × α)}
    (h : key ∉ entries.map Prod.fst) : lookup key entries = none := by
  cases hfind : lookup key entries with
  | none => rfl
  | some value => exact absurd (List.mem_map_of_mem (mem_of_lookup hfind)) h

/-- A merged table has the entries of the newer one, and else those of the older one. -/
theorem Distinct.find?_merge {newer : Bindings κ α} (h : newer.Distinct) (b : Bindings κ α)
    (key : κ) : (b.merge newer).find? key = (newer.find? key).or (b.find? key) := by
  obtain ⟨entries⟩ := newer
  induction entries generalizing b with
  | nil => rfl
  | cons entry rest ih =>
    obtain ⟨hfirst, hrest⟩ := List.nodup_cons.1 h
    rw [merge_cons, ih _ hrest, find?_insert]
    by_cases hk : entry.1 = key
    · have hnone : (⟨rest⟩ : Bindings κ α).find? key = none := lookup_eq_none (hk ▸ hfirst)
      have hsome : (⟨entry :: rest⟩ : Bindings κ α).find? key = some entry.2 := by
        simp [find?, lookup, hk]
      simp [hnone, hsome, hk]
    · have hsame :
          (⟨entry :: rest⟩ : Bindings κ α).find? key = (⟨rest⟩ : Bindings κ α).find? key := by
        simp [find?, lookup, hk]
      rw [if_neg hk, hsame]

end Lox.Bindings
