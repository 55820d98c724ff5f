/-!
# TOML documents

A document is a table of values and of further tables. Tables arise in several ways, and how one arose
decides who may still add to it.

* `Toml` and `TomlTable`;
* `TomlTable.add?`: a value under a dotted key;
* `TomlTable.open?` and `TomlTable.append?`: what the headers `[a.b]` and `[[a.b]]` do.
-/

namespace Worksheet

/-- How a table came about. -/
inductive TableOrigin
  /-- By a header of its own, or as the document itself. -/
  | declared
  /-- On the way to the table of a header. -/
  | implied
  /-- On the way to the value of a dotted key. -/
  | dotted
  deriving DecidableEq, Inhabited, Repr

/-- A value in a document. -/
inductive Toml
  | text (s : String)
  | integer (n : Int)
  /-- A number with a fraction, a truth value, a date or a time. -/
  | scalar
  | array (items : List Toml)
  /-- A table in braces, which is finished. -/
  | inlined (entries : List (String × Toml))
  | table (origin : TableOrigin) (entries : List (String × Toml))
  /-- Tables under one header, the last one first. -/
  | tables (last : List (String × Toml)) (earlier : List (List (String × Toml)))

instance : Inhabited Toml := ⟨.scalar⟩

/-- A table that is being written. -/
structure TomlTable where
  origin : TableOrigin
  entries : List (String × Toml)
  deriving Inhabited

namespace TomlTable

/-- An empty document. -/
def empty : TomlTable :=
  ⟨.declared, []⟩

/-- The value under a key. -/
def find? (t : TomlTable) (key : String) : Option Toml :=
  (t.entries.find? (·.1 == key)).map (·.2)

/-- Puts a value under a key, in place of the one that was there. -/
def put (t : TomlTable) (key : String) (value : Toml) : TomlTable :=
  if t.entries.any (·.1 == key) then
    { t with entries := t.entries.map fun e => if e.1 == key then (key, value) else e }
  else { t with entries := t.entries ++ [(key, value)] }

/-- Changes the table that a path leads to. Tables that are missing on the way arise as `origin` says;
tables that are there may be entered if `enter` allows it. -/
def descend? (origin : TableOrigin) (enter : TableOrigin → Bool)
    (change : TomlTable → Option TomlTable) (t : TomlTable) : List String → Option TomlTable
  | [] => change t
  | key :: rest =>
    match t.find? key with
    | none => do
      let inner ← descend? origin enter change ⟨origin, []⟩ rest
      some (t.put key (.table inner.origin inner.entries))
    | some (.table o entries) =>
      if enter o then do
        let inner ← descend? origin enter change ⟨o, entries⟩ rest
        some (t.put key (.table inner.origin inner.entries))
      else none
    | some (.tables last earlier) => do
      let inner ← descend? origin enter change ⟨.declared, last⟩ rest
      some (t.put key (.tables inner.entries earlier))
    | some _ => none

/-- Puts a value under a key that is still free. -/
def addNew? (key : String) (value : Toml) (t : TomlTable) : Option TomlTable :=
  if (t.find? key).isSome then none else some (t.put key value)

/-- Puts a value under a dotted key. A table that the key leads through must have arisen from such a key
itself. -/
def add? (t : TomlTable) (path : List String) (key : String) (value : Toml) : Option TomlTable :=
  t.descend? .dotted (· != .declared)
    (fun inner =>
      if (inner.origin == .dotted) == path.isEmpty then none else inner.addNew? key value)
    path

/-- Declares the last table of a path: a new one, or one that was implied. -/
def declare? (key : String) (t : TomlTable) : Option TomlTable :=
  match t.find? key with
  | none => some (t.put key (.table .declared []))
  | some (.table .implied entries) => some (t.put key (.table .declared entries))
  | some _ => none

/-- Opens the table of a header. -/
def open? (t : TomlTable) (path : List String) (key : String) : Option TomlTable :=
  t.descend? .implied (fun _ => true) (declare? key) path

/-- Adds one more table under a key. -/
def appendLast? (key : String) (t : TomlTable) : Option TomlTable :=
  match t.find? key with
  | none => some (t.put key (.tables [] []))
  | some (.tables last earlier) => some (t.put key (.tables [] (last :: earlier)))
  | some _ => none

/-- Adds one more table under a header. -/
def append? (t : TomlTable) (path : List String) (key : String) : Option TomlTable :=
  t.descend? .implied (fun _ => true) (appendLast? key) path

end TomlTable

end Worksheet
