import PostfixRules.Settings.Value

/-!
# Tables of a TOML document

While a document is read, a table remembers how it came to be, because that decides what may still
be added to it. A header may be given to a table only once, a dotted key leads only through tables
that dotted keys have made, and nothing is ever added to a value.
-/

namespace PostfixRules.Toml

/-- How a table came to be. -/
inductive Origin where
  /-- By a header of its own. -/
  | header
  /-- Only as the way to another table with a header. -/
  | passage
  /-- By a dotted key. -/
  | dotted
  deriving DecidableEq, Repr

/-- What stands under a key. -/
inductive Node where
  | value (setting : Setting)
  | table (origin : Origin) (entries : List (String × Node))
  /-- Tables that share a header: the last one, and the others from the last to the first. -/
  | tables (last : List (String × Node)) (others : List (List (String × Node)))

/-- The entries of a table. -/
abbrev Entries := List (String × Node)

namespace Node

mutual

/-- The setting that a node is. -/
def toSetting : Node → Setting
  | .value setting => setting
  | .table _ entries => .table (entriesToLayer entries)
  | .tables last others => .list (tablesToSettings [.table (entriesToLayer last)] others)

/-- The layer that entries are. -/
def entriesToLayer : List (String × Node) → Layer
  | [] => []
  | (key, node) :: rest => (key, toSetting node) :: entriesToLayer rest

/-- Put tables, given from the last to the first, in front of settings. -/
def tablesToSettings (after : List Setting) : List (List (String × Node)) → List Setting
  | [] => after
  | entries :: rest => tablesToSettings (.table (entriesToLayer entries) :: after) rest

end

end Node

namespace Entries

/-- Change the table at the end of a path, which leads into the last one of tables that share a
header. Tables on the way that are not there yet are made. -/
def changeAt? (change : Entries → Option Entries) : List String → Entries → Option Entries
  | [], entries => change entries
  | key :: keys, entries =>
    match entries.lookup key with
    | none => (changeAt? change keys []).map fun inner =>
        Keyed.put key (.table .passage inner) entries
    | some (.table origin inner) => (changeAt? change keys inner).map fun inner =>
        Keyed.put key (.table origin inner) entries
    | some (.tables last others) => (changeAt? change keys last).map fun last =>
        Keyed.put key (.tables last others) entries
    | some (.value _) => none

/-- Give a header to the table under a key. -/
def openTable? (key : String) (entries : Entries) : Option Entries :=
  match entries.lookup key with
  | none => some (Keyed.put key (.table .header []) entries)
  | some (.table .passage inner) => some (Keyed.put key (.table .header inner) entries)
  | some _ => none

/-- Begin one more of the tables that share a header. -/
def openNext? (key : String) (entries : Entries) : Option Entries :=
  match entries.lookup key with
  | none => some (Keyed.put key (.tables [] []) entries)
  | some (.tables last others) => some (Keyed.put key (.tables [] (last :: others)) entries)
  | some _ => none

/-- Define the value of a dotted key, which must not have one yet. -/
def define? (value : Setting) : List String → Entries → Option Entries
  | [], _ => none
  | [key], entries =>
    match entries.lookup key with
    | none => some (Keyed.put key (.value value) entries)
    | some _ => none
  | key :: keys, entries =>
    match entries.lookup key with
    | none => (define? value keys []).map fun inner =>
        Keyed.put key (.table .dotted inner) entries
    | some (.table .dotted inner) => (define? value keys inner).map fun inner =>
        Keyed.put key (.table .dotted inner) entries
    | some _ => none

end Entries

end PostfixRules.Toml
