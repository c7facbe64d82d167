/-!
Finite tables with decidable keys, as lists of entries. Setting a key that is present keeps
its place, so entries stay in the order in which their keys first came.
-/

set_option autoImplicit false

namespace Lox

structure Bindings (κ α : Type) where
  entries : List (κ × α)
deriving DecidableEq

namespace Bindings

variable {κ α : Type} [DecidableEq κ]

def lookup (key : κ) : List (κ × α) → Option α
  | [] => none
  | (k, a) :: rest => if k = key then some a else lookup key rest

def put (key : κ) (value : α) : List (κ × α) → List (κ × α)
  | [] => [(key, value)]
  | (k, a) :: rest => if k = key then (key, value) :: rest else (k, a) :: put key value rest

def empty : Bindings κ α := ⟨[]⟩

def find? (b : Bindings κ α) (key : κ) : Option α := lookup key b.entries

def contains (b : Bindings κ α) (key : κ) : Bool := (b.find? key).isSome

def insert (b : Bindings κ α) (key : κ) (value : α) : Bindings κ α := ⟨put key value b.entries⟩

/-- Entries of `newer` win. -/
def merge (b newer : Bindings κ α) : Bindings κ α :=
  newer.entries.foldl (fun table entry ↦ table.insert entry.1 entry.2) b

/-- Of two entries with one key the later wins. -/
def ofList (entries : List (κ × α)) : Bindings κ α := merge empty ⟨entries⟩

@[simp] theorem find?_empty (key : κ) : (empty : Bindings κ α).find? key = none := rfl

theorem lookup_put (key key' : κ) (value : α) (entries : List (κ × α)) :
    lookup key' (put key value entries) =
      if key = key' then some value else lookup key' entries := by
  induction entries with
  | nil => simp [put, lookup]
  | cons entry rest ih =>
    obtain ⟨k, a⟩ := entry
    by_cases h : k = key
    · by_cases h' : key = key' <;> simp [put, lookup, h, h']
    · by_cases h' : k = key'
      · subst h'
        simp [put, lookup, h, Ne.symm h]
      · simp [put, lookup, h, h', ih]

@[simp] theorem find?_insert (b : Bindings κ α) (key key' : κ) (value : α) :
    (b.insert key value).find? key' = if key = key' then some value else b.find? key' :=
  lookup_put key key' value b.entries

end Bindings

end Lox
