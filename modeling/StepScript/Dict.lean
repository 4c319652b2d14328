import StepScript.Value.Equality

/-!
# Dictionaries

The entries of a dictionary as a mapping with value keys that keeps the order of insertion. Keys
are found by `Value.looseEq`, so `1` and `1.0` name the same entry. Inserting under a key that is
there keeps the entry's place and its key.
-/

set_option autoImplicit false

namespace StepScript

/-- The entries of a dictionary, in the order of their insertion. -/
abbrev Dict :=
  List (Value × Value)

namespace Dict

/-- The value under a key. -/
def get? (d : Dict) (key : Value) : Option Value :=
  (d.find? fun e => e.1.looseEq key).map Prod.snd

/-- The key has an entry. -/
def contains (d : Dict) (key : Value) : Bool :=
  d.any fun e => e.1.looseEq key

/-- The value stored under a key, the entry keeping its place and its key, and a new key going last;
    first the value that was there before. -/
def put (key value : Value) : Dict → Option Value × Dict
  | [] => (none, [(key, value)])
  | e :: d =>
    if e.1.looseEq key then (some e.2, (e.1, value) :: d)
    else
      let rest := put key value d
      (rest.1, e :: rest.2)

/-- The value stored under a key. -/
def insert (key value : Value) (d : Dict) : Dict :=
  (put key value d).2

/-- The value under a key replaced, when the key is there. -/
def modify (key : Value) (f : Value → Value) : Dict → Dict
  | [] => []
  | e :: d => if e.1.looseEq key then (e.1, f e.2) :: d else e :: modify key f d

/-- The entry of a key taken out; first the value that it had. -/
def take (key : Value) : Dict → Option Value × Dict
  | [] => (none, [])
  | e :: d =>
    if e.1.looseEq key then (some e.2, d)
    else
      let rest := take key d
      (rest.1, e :: rest.2)

/-- The entry of a key removed. -/
def erase (key : Value) (d : Dict) : Dict :=
  (take key d).2

/-- The keys in order. -/
def keys (d : Dict) : List Value :=
  d.map Prod.fst

/-- The values in order. -/
def values (d : Dict) : List Value :=
  d.map Prod.snd

/-- Entries inserted one after the other. -/
def insertAll (d entries : Dict) : Dict :=
  entries.foldl (fun d e => d.insert e.1 e.2) d

/-- The dictionary of a list of entries, later ones overwriting. -/
def ofList (entries : List (Value × Value)) : Dict :=
  insertAll [] entries

end Dict

end StepScript
