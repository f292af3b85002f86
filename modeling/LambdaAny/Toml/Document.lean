import LambdaAny.Toml.Scalar

/-!
# TOML documents

Reads a document of TOML 1.0.  A key has one value: a second value for it, a table that is defined
twice, and a table that is extended where it is already complete are all refused, and so is the
whole document then.
-/

namespace LambdaAny
namespace Toml

/-- How a table came to be. -/
inductive Origin where
  /-- On the way to a table with a longer name. -/
  | passing
  /-- By a dotted key. -/
  | dotted
  /-- By its own header. -/
  | header
deriving DecidableEq, Repr

inductive Node where
  | string (s : String)
  | scalar (s : Scalar)
  | array (items : List Node)
  /-- A table between braces, which is complete. -/
  | inline (entries : List (String × Node))
  | table (origin : Origin) (entries : List (String × Node))
  /-- Tables that share a header in double brackets. -/
  | tables (items : List (List (String × Node)))

abbrev Entries := List (String × Node)

namespace Entries

/-- Gives a name a node, in place of its own if it has one. -/
def put (name : String) (node : Node) : Entries → Entries
  | [] => [(name, node)]
  | (other, old) :: rest =>
    if other = name then (name, node) :: rest else (other, old) :: put name node rest

/-- Gives a name its only value. -/
def assign (name : String) (value : Node) (entries : Entries) : Option Entries :=
  match entries.lookup name with
  | none => some (put name value entries)
  | some _ => none

/-- Gives a dotted key its value, below a table that is `ready` for values or not.  The key may lead
through tables without a header of their own and through the last of several tables, but the table
that gets the value has to be one that dotted keys made. -/
def insertBelow (value : Node) : (ready : Bool) → List String → Entries → Option Entries
  | _, [], _ => none
  | ready, [name], entries => if ready then assign name value entries else none
  | _, name :: path, entries =>
    match entries.lookup name with
    | none =>
      (insertBelow value true path []).map fun inner => put name (.table .dotted inner) entries
    | some (.table .header _) => none
    | some (.table .passing inner) =>
      (insertBelow value false path inner).map fun inner =>
        put name (.table .passing inner) entries
    | some (.table .dotted inner) =>
      (insertBelow value true path inner).map fun inner => put name (.table .dotted inner) entries
    | some (.tables items) =>
      match items.getLast? with
      | none => none
      | some inner =>
        (insertBelow value false path inner).map fun inner =>
          put name (.tables (items.dropLast ++ [inner])) entries
    | some _ => none

/-- Gives a key its value in the table where the assignment stands. -/
def insert (value : Node) (path : List String) (entries : Entries) : Option Entries :=
  insertBelow value true path entries

/-- Changes the table with a given name.  The last of several tables stands for all of them. -/
def modify (change : Entries → Option Entries) : List String → Entries → Option Entries
  | [], entries => change entries
  | name :: path, entries =>
    match entries.lookup name with
    | none => (modify change path []).map fun inner => put name (.table .passing inner) entries
    | some (.table origin inner) =>
      (modify change path inner).map fun inner => put name (.table origin inner) entries
    | some (.tables items) =>
      match items.getLast? with
      | none => none
      | some inner =>
        (modify change path inner).map fun inner =>
          put name (.tables (items.dropLast ++ [inner])) entries
    | some _ => none

/-- Defines a table by its header. -/
def define (name : String) (entries : Entries) : Option Entries :=
  match entries.lookup name with
  | none => some (put name (.table .header []) entries)
  | some (.table .passing inner) => some (put name (.table .header inner) entries)
  | some _ => none

/-- Adds a table to those of a header in double brackets. -/
def append (name : String) (entries : Entries) : Option Entries :=
  match entries.lookup name with
  | none => some (put name (.tables [[]]) entries)
  | some (.tables items) => some (put name (.tables (items ++ [[]])) entries)
  | some _ => none

end Entries

/-- The items of an array, behind its bracket. -/
def items (item : Reader Node) : Reader (List Node) :=
  Reader.iterate (fun (taken : List Node) => do
    skipGap
    if ← Reader.literal [']'] then return .inr taken.reverse
    let node ← item
    skipGap
    if ← Reader.literal [','] then return .inl (node :: taken)
    Reader.char ']'
    return .inr (node :: taken).reverse) []

/-- A key and its value. -/
def assignment (value : Reader Node) : Reader (List String × Node) := do
  let path ← key
  Reader.char '='
  skipBlanks
  return (path, ← value)

/-- The entries of an inline table, behind its brace. -/
def inlineEntries (value : Reader Node) : Reader Entries := do
  skipBlanks
  if ← Reader.literal ['\x7d'] then return []
  Reader.iterate (fun (entries : Entries) => do
    let (path, node) ← assignment value
    match Entries.insert node path entries with
    | none => failure
    | some entries =>
      skipBlanks
      if ← Reader.literal [','] then return .inl entries
      Reader.char '\x7d'
      return .inr entries) []

/-- A string or a scalar. -/
def simpleValue : Reader Node := do
  match ← Reader.peek with
  | none => failure
  | some c =>
    if c = doubleQuote || c = singleQuote then return .string (← string c)
    else return .scalar (← Scalar.read)

/-- A value, in which arrays and inline tables may stand `depth` deep. -/
def value : (depth : Nat) → Reader Node
  | 0 => simpleValue
  | depth + 1 => do
    if ← Reader.literal ['['] then return .array (← items (value depth))
    else if ← Reader.literal ['\x7b'] then return .inline (← inlineEntries (value depth))
    else simpleValue

/-- A document that is being read: what it says so far, and the table that assignments go to. -/
structure Document where
  root : Entries
  current : List String

/-- The name of a header, behind its brackets. -/
def header (change : String → Entries → Option Entries) (document : Document) :
    Reader Document := do
  let path ← key
  match path.getLast? with
  | none => failure
  | some name =>
    match Entries.modify (change name) path.dropLast document.root with
    | none => failure
    | some root => return ⟨root, path⟩

/-- Reads one statement: nothing, a header or an assignment. -/
def statement (document : Document) : Reader Document := do
  skipBlanks
  let document ←
    if ← Reader.literal ['[', '['] then
      let document ← header Entries.append document
      Reader.char ']'
      Reader.char ']'
      pure document
    else if ← Reader.literal ['['] then
      let document ← header Entries.define document
      Reader.char ']'
      pure document
    else
      match ← Reader.peek with
      | none | some '#' | some '\r' | some '\n' => pure document
      | some _ =>
        let (path, node) ← assignment (value maxDepth)
        match Entries.modify (Entries.insert node path) document.current document.root with
        | none => failure
        | some root => pure { document with root := root }
  endStatement
  return document

/-- What a document says, if it is one.  A byte order mark in front is skipped. -/
def parse? (text : List Char) : Option Entries :=
  let text := if text.head? = some '\ufeff' then text.drop 1 else text
  let statements := Reader.iterate (fun (document : Document) => do
    if (← Reader.peek).isNone then return .inr document.root
    else return .inl (← statement document)) ⟨[], []⟩
  (statements text).map Prod.fst

end Toml
end LambdaAny
