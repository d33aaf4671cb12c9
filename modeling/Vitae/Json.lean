import Vitae.Text.Quoted

/-!
# Data of documents

The data that documents are exchanged as has texts, lists and records. `Json.layout` writes them,
either without any space or with every entry on a line of its own.
-/

namespace Vitae

/-- A value of the exchange format. Documents need no numbers and no truth values. -/
inductive Json where
  | null
  | text (t : Text)
  | list (items : List Json)
  | record (fields : List (Text × Json))
  deriving BEq

namespace Json

open Text

/-- A character inside a quoted text. Only quotes, backslashes and the controls of ASCII are
escaped. -/
def escapedChar (c : Char) : Text :=
  if c = '"' then ['\\', '"']
  else if c = '\\' then ['\\', '\\']
  else if c = '\x08' then ['\\', 'b']
  else if c = '\t' then ['\\', 't']
  else if c = '\n' then ['\\', 'n']
  else if c = '\x0c' then ['\\', 'f']
  else if c = '\r' then ['\\', 'r']
  else if c.toNat < 0x20 then '\\' :: 'u' :: hex 4 c.toNat
  else [c]

/-- A quoted text. -/
def textLayout (t : Text) : Text :=
  '"' :: t.flatMap escapedChar ++ ['"']

/-- What stands before an entry at a depth: nothing, or a new line with `n` spaces a level. -/
def breakLine (indent : Option Nat) (depth : Nat) : Text :=
  match indent with
  | none => []
  | some n => '\n' :: List.replicate (n * depth) ' '

/-- What stands between the name and the value of a field. -/
def colon (indent : Option Nat) : Text :=
  if indent.isSome then [':', ' '] else [':']

/-- Entries between brackets; no entry leaves the brackets alone. -/
def bracketed (indent : Option Nat) (depth : Nat) (left right : Char) (entries : List Text) :
    Text :=
  if entries.isEmpty then [left, right]
  else
    left :: joinWith [','] (entries.map (breakLine indent (depth + 1) ++ ·)) ++
      breakLine indent depth ++ [right]

mutual

/-- A value at a depth. -/
def layoutAt (indent : Option Nat) (depth : Nat) : Json → Text
  | .null => "null".toList
  | .text t => textLayout t
  | .list items => bracketed indent depth '[' ']' (layoutItems indent (depth + 1) items)
  | .record fields =>
    bracketed indent depth '\x7b' '\x7d' (layoutFields indent (depth + 1) fields)

/-- The items of a list. -/
def layoutItems (indent : Option Nat) (depth : Nat) : List Json → List Text
  | [] => []
  | j :: js => layoutAt indent depth j :: layoutItems indent depth js

/-- The fields of a record. -/
def layoutFields (indent : Option Nat) (depth : Nat) : List (Text × Json) → List Text
  | [] => []
  | (name, j) :: fields =>
    (textLayout name ++ colon indent ++ layoutAt indent depth j) ::
      layoutFields indent depth fields

end

/-- A value as a text: without any space, or with `indent` spaces a level. -/
def layout (indent : Option Nat) (j : Json) : Text :=
  layoutAt indent 0 j

end Json

end Vitae
