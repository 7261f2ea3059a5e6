/-!
# Association lists

A dictionary is a list of keys and values.  Two disciplines share the type:
`put` keeps the order in which keys first came, as the members of a JSON object
do; `insert` keeps the keys increasing, so that equal contents give equal lists.
Each operation comes with the law of `find?` after it.
-/

namespace ApiDoc

/-- Keys with values, at most one of each key by the discipline of its writer. -/
abbrev Dict (α : Type u) := List (String × α)

namespace Dict

variable {α : Type u} {β : Type v}

/-- The value of the first entry with this key. -/
def find? : Dict α → String → Option α
  | [], _ => none
  | (k, v) :: rest, key => if k = key then some v else find? rest key

def has (d : Dict α) (key : String) : Bool :=
  (find? d key).isSome

def keys (d : Dict α) : List String :=
  d.map (·.1)

/-- Replace the value where the key stands, or add an entry at the end. -/
def put : Dict α → String → α → Dict α
  | [], key, value => [(key, value)]
  | (k, v) :: rest, key, value =>
      if k = key then (k, value) :: rest else (k, v) :: put rest key value

/-- Set a key in a dictionary with increasing keys. -/
def insert : Dict α → String → α → Dict α
  | [], key, value => [(key, value)]
  | (k, v) :: rest, key, value =>
      if key = k then (k, value) :: rest
      else if key < k then (key, value) :: (k, v) :: rest
      else (k, v) :: insert rest key value

/-- Remove every entry with this key. -/
def erase : Dict α → String → Dict α
  | [], _ => []
  | (k, v) :: rest, key => if k = key then erase rest key else (k, v) :: erase rest key

/-- Insert the entries of a list one after another; later ones win. -/
def insertAll (d : Dict α) (entries : List (String × α)) : Dict α :=
  entries.foldl (fun acc (k, v) => insert acc k v) d

/-- The dictionary with increasing keys that holds the last value of each key. -/
def ofList (entries : List (String × α)) : Dict α :=
  insertAll [] entries

/-- The dictionary in order of first occurrence that holds the last value of
each key. -/
def merged (entries : List (String × α)) : Dict α :=
  entries.foldl (fun acc (k, v) => put acc k v) []

/-- Apply a function to every value. -/
def mapValues (f : α → β) (d : Dict α) : Dict β :=
  d.map fun (k, v) => (k, f v)

@[simp] theorem find?_nil (key : String) : find? ([] : Dict α) key = none := rfl

theorem find?_put (d : Dict α) (key other : String) (value : α) :
    find? (put d key value) other = if key = other then some value else find? d other := by
  induction d with
  | nil => rfl
  | cons entry rest ih =>
      obtain ⟨k, v⟩ := entry
      by_cases hk : k = key
      · subst hk
        by_cases ho : k = other <;> simp [put, find?, ho]
      · by_cases ho : k = other
        · subst ho
          simp [put, find?, hk, Ne.symm hk]
        · simp [put, find?, hk, ho, ih]

theorem find?_insert (d : Dict α) (key other : String) (value : α) :
    find? (insert d key value) other = if key = other then some value else find? d other := by
  induction d with
  | nil => rfl
  | cons entry rest ih =>
      obtain ⟨k, v⟩ := entry
      by_cases hk : key = k
      · subst hk
        by_cases ho : key = other <;> simp [insert, find?, ho]
      · by_cases hlt : key < k
        · simp [insert, find?, hk, hlt]
        · by_cases ho : k = other
          · subst ho
            simp [insert, find?, hk, hlt]
          · simp [insert, find?, hk, hlt, ho, ih]

theorem find?_erase (d : Dict α) (key other : String) :
    find? (erase d key) other = if key = other then none else find? d other := by
  induction d with
  | nil => simp [erase]
  | cons entry rest ih =>
      obtain ⟨k, v⟩ := entry
      by_cases hk : k = key
      · subst hk
        by_cases ho : k = other
        · subst ho
          simpa [erase] using ih
        · simpa [erase, find?, ho] using ih
      · by_cases ho : k = other
        · subst ho
          simp [erase, find?, hk, Ne.symm hk]
        · simp [erase, find?, hk, ho, ih]

end Dict

end ApiDoc
