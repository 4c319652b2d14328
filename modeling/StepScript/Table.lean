/-!
# Tables

A mapping from names to things, kept as a list of entries. Setting a name that is there replaces
its entry in place; a new name goes last. What a table holds is what `get?` says: the lemmas give
`get?` after each operation.
-/

set_option autoImplicit false

namespace StepScript

variable {α β : Type}

/-- A mapping from names to things. -/
structure Table (α : Type) where
  entries : List (String × α) := []

namespace Table

/-- The empty table. -/
def empty : Table α :=
  {}

/-! ## Entries -/

/-- The thing under a name. -/
def find? (name : String) : List (String × α) → Option α
  | [] => none
  | e :: es => if e.1 = name then some e.2 else find? name es

/-- The entries with a name set. -/
def put (name : String) (a : α) : List (String × α) → List (String × α)
  | [] => [(name, a)]
  | e :: es => if e.1 = name then (name, a) :: es else e :: put name a es

theorem mem_of_find? {name : String} {a : α} {es : List (String × α)}
    (h : find? name es = some a) : (name, a) ∈ es := by
  induction es with
  | nil => cases h
  | cons e es ih =>
    rw [find?] at h
    split at h
    · next hname =>
      cases h
      exact List.mem_cons.2 (Or.inl (Prod.ext hname.symm rfl))
    · exact List.mem_cons_of_mem e (ih h)

theorem find?_put (name other : String) (a : α) (es : List (String × α)) :
    find? other (put name a es) = if name = other then some a else find? other es := by
  induction es with
  | nil => simp [put, find?]
  | cons e es ih =>
    by_cases h : e.1 = name
    · by_cases ho : name = other <;> simp [put, find?, h, ho]
    · by_cases ho : name = other
      · subst ho
        simp [put, find?, h, ih]
      · simp [put, find?, h, ho, ih]

theorem find?_filter_ne (name other : String) (es : List (String × α)) :
    find? other (es.filter fun e => e.1 ≠ name)
      = if name = other then none else find? other es := by
  induction es with
  | nil => simp [find?]
  | cons e es ih =>
    by_cases h : e.1 = name <;> by_cases ho : name = other <;> simp_all [find?]

/-! What is set is set once: entries that are set again, or set to what they are, are the same
entries, and a name that was new is gone without a trace when it is taken out. -/

theorem put_put (name : String) (a b : α) (es : List (String × α)) :
    put name b (put name a es) = put name b es := by
  induction es with
  | nil => simp [put]
  | cons e es ih => by_cases h : e.1 = name <;> simp [put, h, ih]

theorem put_put_put {name other : String} (h : name ≠ other) (a b c : α)
    (es : List (String × α)) :
    put name c (put other b (put name a es)) = put other b (put name c es) := by
  induction es with
  | nil => simp [put, h]
  | cons e es ih =>
    by_cases hname : e.1 = name
    · simp [put, hname, h]
    · by_cases hother : e.1 = other
      · simp [put, hother, Ne.symm h, put_put]
      · simp [put, hname, hother, ih]

theorem put_of_find? {name : String} {a : α} {es : List (String × α)}
    (h : find? name es = some a) : put name a es = es := by
  induction es with
  | nil => cases h
  | cons e es ih =>
    by_cases hname : e.1 = name
    · simp only [find?, hname, if_true, Option.some.injEq] at h
      simp [put, ← hname, ← h]
    · simp only [find?, hname, if_false] at h
      simp [put, hname, ih h]

theorem filter_ne_put (name : String) (a : α) (es : List (String × α)) :
    (put name a es).filter (fun e => e.1 ≠ name) = es.filter fun e => e.1 ≠ name := by
  induction es with
  | nil => simp [put]
  | cons e es ih => by_cases h : e.1 = name <;> simp_all [put]

theorem filter_ne_put_of_ne {name other : String} (h : other ≠ name) (a : α)
    (es : List (String × α)) :
    (put other a es).filter (fun e => e.1 ≠ name)
      = put other a (es.filter fun e => e.1 ≠ name) := by
  induction es with
  | nil => simp [put, h]
  | cons e es ih =>
    by_cases hother : e.1 = other
    · simp [put, hother, h]
    · by_cases hname : e.1 = name <;> simp_all [put]

theorem filter_ne_of_find? {name : String} {es : List (String × α)} (h : find? name es = none) :
    es.filter (fun e => e.1 ≠ name) = es := by
  induction es with
  | nil => rfl
  | cons e es ih =>
    by_cases hname : e.1 = name
    · simp [find?, hname] at h
    · rw [find?, if_neg hname] at h
      rw [List.filter_cons_of_pos (by simpa using hname), ih h]

/-! ## Operations -/

/-- The thing under a name. -/
def get? (t : Table α) (name : String) : Option α :=
  find? name t.entries

/-- The name has an entry. -/
def contains (t : Table α) (name : String) : Bool :=
  (t.get? name).isSome

/-- The thing stored under a name. -/
def set (t : Table α) (name : String) (a : α) : Table α :=
  ⟨put name a t.entries⟩

/-- The name without an entry. -/
def erase (t : Table α) (name : String) : Table α :=
  ⟨t.entries.filter fun e => e.1 ≠ name⟩

/-- The table of a list of entries, later ones overwriting. -/
def ofList (entries : List (String × α)) : Table α :=
  entries.foldl (fun t e => t.set e.1 e.2) empty

/-- The table with other things under the same names. -/
def map (f : α → β) (t : Table α) : Table β :=
  ⟨t.entries.map fun e => (e.1, f e.2)⟩

/-- The names in the order of their first setting. -/
def names (t : Table α) : List String :=
  t.entries.map Prod.fst

@[simp] theorem get?_empty (name : String) : (empty : Table α).get? name = none :=
  rfl

theorem get?_set (t : Table α) (name other : String) (a : α) :
    (t.set name a).get? other = if name = other then some a else t.get? other :=
  find?_put name other a t.entries

@[simp] theorem get?_set_self (t : Table α) (name : String) (a : α) :
    (t.set name a).get? name = some a := by
  simp [get?_set]

theorem get?_set_of_ne (t : Table α) {name other : String} (a : α) (h : name ≠ other) :
    (t.set name a).get? other = t.get? other := by
  simp [get?_set, h]

theorem find?_map (f : α → β) (name : String) (es : List (String × α)) :
    find? name (es.map fun e => (e.1, f e.2)) = (find? name es).map f := by
  induction es with
  | nil => rfl
  | cons e es ih => by_cases h : e.1 = name <;> simp [find?, h, ih]

theorem get?_map (f : α → β) (t : Table α) (name : String) :
    (t.map f).get? name = (t.get? name).map f :=
  find?_map f name t.entries

theorem get?_erase (t : Table α) (name other : String) :
    (t.erase name).get? other = if name = other then none else t.get? other :=
  find?_filter_ne name other t.entries

end Table

end StepScript
