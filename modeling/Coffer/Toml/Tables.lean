import Coffer.Toml.Printer
import Coffer.Toml.Value
/-
  Building the tables of a TOML document.

  A table can be defined once.  What counts as its definition depends on how it came about, so while
  a document is read every table remembers two things:

  * IMPLICIT — it was only passed through, on the way to a table or a value inside it;
  * DOTTED   — it was passed through by a dotted key, not by a header.

  `descend` follows a path of names and makes the tables that are missing; `setKey` puts a value at
  the end of such a path.
-/
namespace Coffer.Toml

/-- What a name stands for while a document is read. -/
inductive Item
  | value (v : Value)
  | table (span : Option Span) (implicit dotted : Bool) (items : List (Key × Item))
  /-- The tables of headers in double brackets, the last one first. -/
  | tables (elements : List (Span × List (Key × Item)))

/-- The contents of a table while a document is read. -/
abbrev Items := List (Key × Item)

/-- Where a path of names is written. -/
inductive Path
  | inHeader
  | inLine
  | inInlineTable
  deriving DecidableEq, Repr

namespace Items

/-- What a name stands for. -/
def lookup (name : String) (items : Items) : Option Item :=
  (items.find? (·.1.name = name)).map (·.2)

/-- Put an item in place of the one of its name, or at the end. -/
def set (key : Key) (item : Item) : Items → Items
  | [] => [(key, item)]
  | (k, i) :: rest => if k.name = key.name then (k, item) :: rest else (k, i) :: set key item rest

/-- Take a name away. -/
def erase (name : String) (items : Items) : Items := items.filter (·.1.name ≠ name)

/-- Why a path cannot lead through a value.  In an inline table every inline table inside is
    complete, so that leading through one defines it twice. -/
def blocked (way : Path) (seen : List String) (key : Key) (v : Value) : Cause :=
  match way, v with
  | .inInlineTable, .table _ _ => .duplicate key.name none
  | _, v => .throughValue (seen ++ [key.name]) v.kind

/-- Change the table at the end of a path, given whether it is dotted and what is in it; missing
    tables on the way are made.  A path of dotted keys leads only through tables that have no
    definition of their own.  The names in `seen` lead to `items`. -/
def descend (way : Path) (change : Bool → Items → Except Cause Items) :
    (seen : List String) → (path : List Key) → (dotted : Bool) → Items → Except Cause Items
  | _, [], dotted, items => change dotted items
  | seen, key :: path, _, items =>
    let onward := descend way change (seen ++ [key.name]) path
    let byKey := way ≠ .inHeader
    match lookup key.name items with
    | none => do
      return set key (.table none true byKey (← onward byKey [])) items
    | some (.table span implicit dotted inner) =>
      if byKey && !implicit then .error (.duplicate key.name none)
      else do
        return set key (.table span implicit dotted (← onward dotted inner)) items
    | some (.tables ((span, last) :: others)) => do
      return set key (.tables ((span, ← onward false last) :: others)) items
    | some (.tables []) => .error (.duplicate key.name none)
    | some (.value v) => .error (blocked way seen key v)

/-- Give the last name of a dotted key a value, which it must not have yet.  The names of `home`
    lead to the table, if they are known. -/
def setKey (way : Path) (home : Option (List String)) (key : List Key) (v : Value)
    (items : Items) : Except Cause Items :=
  match key.getLast? with
  | none => .ok items
  | some last =>
    let path := key.dropLast
    descend way (fun dotted inner =>
      if dotted = path.isEmpty then .error (.duplicate last.name none)
      else if (lookup last.name inner).isSome then .error (.duplicate last.name home)
      else .ok (inner ++ [(last, .value v)])) [] path false items

/-! ## Finished tables -/

mutual

/-- The value of an item. -/
def valueOf : Item → Value
  | .value v => v
  | .table span _ _ items => .table span (entriesOf items)
  | .tables elements =>
    .tables (do return ⟨(← elements.getLast?).1.start, (← elements.head?).1.stop⟩)
      (elementsOf elements).reverse

/-- The entries of a table. -/
def entriesOf : List (Key × Item) → List (Key × Value)
  | [] => []
  | (key, item) :: rest => (key, valueOf item) :: entriesOf rest

/-- The tables of an array. -/
def elementsOf : List (Span × List (Key × Item)) → List Value
  | [] => []
  | (span, items) :: rest => .table (some span) (entriesOf items) :: elementsOf rest

end

end Items

/-! ## Headers -/

/-- A document while it is read: the tables before the last header, and the table behind it. -/
structure Draft where
  root : Items
  /-- The path of the last header; empty before the first. -/
  path : List Key
  /-- The last header was one in double brackets. -/
  isElement : Bool
  /-- From the last header to the last value behind it. -/
  span : Span
  current : Items

namespace Draft

/-- Nothing read. -/
def empty : Draft := ⟨[], [], false, ⟨0, 0⟩, []⟩

/-- The cause for which a header is refused whose name is taken. -/
def taken (above : List Key) (key : Key) : Cause :=
  .duplicate (printName key.name) (some (above.map (·.name)))

/-- The document with the table behind the last header in its place. -/
def close (d : Draft) : Except Cause Items :=
  match d.path.getLast? with
  | none => .ok d.current
  | some key =>
    let above := d.path.dropLast
    Items.descend .inHeader (fun _ parent =>
      match Items.lookup key.name parent, d.isElement with
      | none, false | some (.table _ true _ _), false =>
        .ok (Items.set key (.table (some d.span) false false d.current) parent)
      | none, true => .ok (Items.set key (.tables [(d.span, d.current)]) parent)
      | some (.tables elements), true =>
        .ok (Items.set key (.tables ((d.span, d.current) :: elements)) parent)
      | some _, _ => .error (taken above key)) [] above false d.root

/-- The contents of the table at the end of a path of headers, if there is one. -/
def inside : (path : List Key) → Items → Items
  | [], items => items
  | key :: path, items =>
    match Items.lookup key.name items with
    | some (.table _ _ _ inner) => inside path inner
    | some (.tables ((_, last) :: _)) => inside path last
    | _ => []

/-- A header in single brackets.  Its table may be there already if headers only passed through
    it. -/
def header (path : List Key) (span : Span) (d : Draft) : Except Cause Draft := do
  let root ← d.close
  match path.getLast? with
  | none => return d
  | some key =>
    let above := path.dropLast
    let cleared ← Items.descend .inHeader (fun _ parent =>
      match Items.lookup key.name parent with
      | none | some (.table _ true false _) => .ok (Items.erase key.name parent)
      | some _ => .error (taken above key)) [] above false root
    return ⟨cleared, path, false, span, inside path root⟩

/-- A header in double brackets. -/
def elementHeader (path : List Key) (span : Span) (d : Draft) : Except Cause Draft := do
  let root ← d.close
  match path.getLast? with
  | none => return d
  | some key =>
    let above := path.dropLast
    let root ← Items.descend .inHeader (fun _ parent =>
      match Items.lookup key.name parent with
      | none | some (.tables _) => .ok parent
      | some _ => .error (taken above key)) [] above false root
    return ⟨root, path, true, span, []⟩

/-- A key with its value, behind the last header. -/
def setKey (key : List Key) (v : Value) (d : Draft) : Except Cause Draft := do
  let home := d.path.map (·.name)
  let current ← Items.setKey .inLine (some home) key v d.current
  return { d with
    current := current
    span := ⟨d.span.start, (v.span?.getD d.span).stop⟩ }

end Draft

/-- The table that keys with values make up when they stand between braces. -/
def inlineEntries (pairs : List (List Key × Value)) : Except Cause (List (Key × Value)) := do
  let items ← pairs.foldlM (fun items (key, v) => Items.setKey .inInlineTable none key v items) []
  return Items.entriesOf items

end Coffer.Toml
