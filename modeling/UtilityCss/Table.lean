/-!
# Tables keyed by texts

Where the order of entries can be seen in the output, it is the ascending order of their keys by
code point, which is also the order of their bytes in UTF-8.  `Table` keeps its entries in that
order; `Names` is the same for plain sets of texts.
-/

namespace UtilityCss

/-! ## Sets of texts -/

namespace Names

/-- Adds a text to an ascending list, once. -/
def insert (name : String) : List String → List String
  | [] => [name]
  | other :: rest =>
    if name < other then name :: other :: rest
    else if other < name then other :: insert name rest
    else other :: rest

/-- The texts of a list in ascending order, each once. -/
def sorted (names : List String) : List String :=
  names.foldl (fun acc name => insert name acc) []

/-- Adds several texts to an ascending list. -/
def insertAll (names : List String) (set : List String) : List String :=
  names.foldl (fun acc name => insert name acc) set

end Names

/-! ## Tables -/

/-- A finite map from texts, its entries in ascending order of their keys. -/
structure Table (α : Type) where
  /-- The entries, the least key first. -/
  entries : List (String × α)
  deriving Repr, Inhabited

namespace Table

variable {α β : Type}

def empty : Table α := ⟨[]⟩

/-- Adds an entry to ascending entries, in place of one with the same key. -/
def insertEntry (key : String) (value : α) : List (String × α) → List (String × α)
  | [] => [(key, value)]
  | (other, old) :: rest =>
    if key < other then (key, value) :: (other, old) :: rest
    else if other < key then (other, old) :: insertEntry key value rest
    else (key, value) :: rest

/-- Adds an entry, in place of one with the same key. -/
def insert (t : Table α) (key : String) (value : α) : Table α :=
  ⟨insertEntry key value t.entries⟩

def get? (t : Table α) (key : String) : Option α :=
  t.entries.lookup key

def contains (t : Table α) (key : String) : Bool :=
  (t.get? key).isSome

def size (t : Table α) : Nat := t.entries.length

def isEmpty (t : Table α) : Bool := t.entries.isEmpty

/-- The table of a list of entries; of two with the same key the later one counts. -/
def ofList (entries : List (String × α)) : Table α :=
  entries.foldl (fun t (key, value) => t.insert key value) empty

end Table

end UtilityCss
