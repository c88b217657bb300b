import PostfixRules.Settings.Key
import PostfixRules.Toml.Quoted
import PostfixRules.Toml.Scalar
import PostfixRules.Toml.Table

/-!
# TOML documents

A document is a row of headers and definitions, one on a line. It is read into a layer of settings;
a document with an error anywhere, or with a key defined twice, gives none. Every step of reading
takes at least one character, so the number of characters bounds the number of steps.
-/

namespace PostfixRules.Toml

/-- Pass over spaces and tabs. -/
def skipSpace (chars : List Char) : List Char :=
  chars.dropWhile fun c => c == ' ' || c == '\t'

/-- Pass over spaces, tabs, line breaks and comments; a comment ends with its line. -/
def skipLines (inComment : Bool) : List Char → List Char
  | [] => []
  | c :: rest =>
    if c = '\n' then skipLines false rest
    else if inComment then skipLines true rest
    else if c = ' ' ∨ c = '\t' then skipLines false rest
    else if c = '#' then skipLines true rest
    else c :: rest

/-- Nothing but a comment may be left on a line. -/
def endLine? (chars : List Char) : Option (List Char) :=
  match skipSpace chars with
  | [] => some []
  | '\n' :: rest => some rest
  | '#' :: rest => some (rest.dropWhile (· != '\n'))
  | _ => none

/-- Read a key, bare or quoted. -/
def key? (chars : List Char) : Option (String × List Char) :=
  match quotedLine? chars with
  | some found => some found
  | none =>
    let bare := chars.takeWhile Setting.isNameChar
    if bare.isEmpty then none else some (String.ofList bare, chars.drop bare.length)

/-- Read keys with points between them. -/
def keys? : Nat → List Char → Option (List String × List Char)
  | 0, _ => none
  | fuel + 1, chars =>
    (key? (skipSpace chars)).bind fun (key, rest) =>
      match skipSpace rest with
      | '.' :: rest => (keys? fuel rest).map fun (keys, rest) => (key :: keys, rest)
      | rest => some ([key], rest)

mutual

/-- Read a value. -/
def value? : Nat → List Char → Option (Setting × List Char)
  | 0, _ => none
  | fuel + 1, chars =>
    match chars with
    | '[' :: rest => elements? fuel [] rest
    | '\x7b' :: rest => members? fuel [] rest
    | '"' :: _ | '\'' :: _ => (quoted? chars).map fun (text, rest) => (.text text, rest)
    | _ => scalar? chars

/-- Read the rest of a list, given the elements so far, last first. -/
def elements? : Nat → List Setting → List Char → Option (Setting × List Char)
  | 0, _, _ => none
  | fuel + 1, reversed, chars =>
    match skipLines false chars with
    | ']' :: rest => some (.list reversed.reverse, rest)
    | chars =>
      match value? fuel chars with
      | none => none
      | some (value, rest) =>
        match skipLines false rest with
        | ',' :: rest => elements? fuel (value :: reversed) rest
        | ']' :: rest => some (.list (value :: reversed).reverse, rest)
        | _ => none

/-- Read the rest of a table between braces, given the entries so far. -/
def members? : Nat → Entries → List Char → Option (Setting × List Char)
  | 0, _, _ => none
  | fuel + 1, entries, chars =>
    match skipLines false chars with
    | '\x7d' :: rest => some (.table (Node.entriesToLayer entries), rest)
    | chars =>
      match definition? fuel chars with
      | none => none
      | some ((keys, value), rest) =>
        match entries.define? value keys with
        | none => none
        | some entries =>
          match skipLines false rest with
          | ',' :: rest => members? fuel entries rest
          | '\x7d' :: rest => some (.table (Node.entriesToLayer entries), rest)
          | _ => none

/-- Read a definition: keys, an equals sign and a value. -/
def definition? : Nat → List Char → Option ((List String × Setting) × List Char)
  | 0, _ => none
  | fuel + 1, chars =>
    match keys? fuel chars with
    | some (keys, '=' :: rest) =>
      (value? fuel (skipSpace rest)).map fun (value, rest) => ((keys, value), rest)
    | _ => none

end

/-- A document in progress: all tables, and the path of the one that definitions go to. -/
structure Draft where
  root : Entries
  current : List String

namespace Draft

/-- Go to the table of a header. -/
def enter? (draft : Draft) (openAt? : String → Entries → Option Entries) (keys : List String) :
    Option Draft :=
  (keys.getLast?.bind fun last => draft.root.changeAt? (openAt? last) keys.dropLast).map
    fun root => ⟨root, keys⟩

/-- Add a definition to the current table. -/
def define? (draft : Draft) (keys : List String) (value : Setting) : Option Draft :=
  (draft.root.changeAt? (Entries.define? value keys) draft.current).map
    fun root => ⟨root, draft.current⟩

/-- Take a header or a definition. -/
def statement? (draft : Draft) (fuel : Nat) (chars : List Char) : Option (Draft × List Char) :=
  match chars with
  | '[' :: '[' :: rest =>
    match keys? fuel rest with
    | some (keys, ']' :: ']' :: rest) =>
      (draft.enter? Entries.openNext? keys).map fun draft => (draft, rest)
    | _ => none
  | '[' :: rest =>
    match keys? fuel rest with
    | some (keys, ']' :: rest) =>
      (draft.enter? Entries.openTable? keys).map fun draft => (draft, rest)
    | _ => none
  | _ =>
    (definition? fuel chars).bind fun ((keys, value), rest) =>
      (draft.define? keys value).map fun draft => (draft, rest)

/-- Take all lines that are left. -/
def finish? : Nat → Draft → List Char → Option Entries
  | 0, _, _ => none
  | fuel + 1, draft, chars =>
    match skipLines false chars with
    | [] => some draft.root
    | chars =>
      match draft.statement? (fuel + 2) chars with
      | none => none
      | some (draft, rest) => (endLine? rest).bind (finish? fuel draft)

end Draft

/-- Write a line break after a carriage return as a line break alone. -/
def joinBreaks : List Char → List Char
  | '\r' :: '\n' :: rest => '\n' :: joinBreaks rest
  | c :: rest => c :: joinBreaks rest
  | [] => []

/-- Whether a character may stand in a document as it is. -/
def isAllowed (c : Char) : Bool :=
  (0x20 ≤ c.toNat && c.toNat != 0x7F) || c == '\t' || c == '\n'

/-- The layer of settings that a document defines. A byte order mark in front of it does not
count. -/
def read? (document : String) : Option Layer :=
  let chars :=
    match document.toList with
    | '\ufeff' :: rest => rest
    | chars => chars
  let chars := joinBreaks chars
  if chars.all isAllowed then
    (Draft.finish? (chars.length + 1) ⟨[], []⟩ chars).map Node.entriesToLayer
  else none

end PostfixRules.Toml
