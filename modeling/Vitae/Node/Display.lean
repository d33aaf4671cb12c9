import Vitae.Instant.Written
import Vitae.Node.Basic
import Vitae.Text.Quoted

/-!
# Values inside a sentence

A section is expected to have a title. Where it has another value, the title shows that value: the
fields of a payload with their names, each field as a call that would build it.
-/

namespace Vitae

open Text

/-- The arguments of a call, with commas between. -/
def argumentText (args : List (String × Text)) : Text :=
  joinWith [',', ' '] (args.map fun (name, t) => name.toList ++ '=' :: t)

/-- A call with named arguments. -/
def callText (name : String) (args : List (String × Text)) : Text :=
  name.toList ++ '(' :: argumentText args ++ [')']

namespace Instant

/-- The call that builds an offset: whole days, counted down for an offset behind universal time,
and the seconds beyond them. -/
def offsetCall (seconds : Int) : Text :=
  if seconds = 0 then "datetime.timezone.utc".toList
  else
    let days := seconds.fdiv 86400
    let rest := (seconds.fmod 86400).toNat
    let sign : Text := if days < 0 then ['-'] else []
    let args :=
      (if days = 0 then [] else [("days", sign ++ ofNat days.natAbs)]) ++
        (if rest = 0 then [] else [("seconds", ofNat rest)])
    "datetime.timezone(".toList ++ callText "datetime.timedelta" args ++ [')']

/-- The call that builds an instant. Seconds and microseconds are left out where they are zero. -/
def callText (i : Instant) : Text :=
  let c := i.clock
  let fields := [i.day.year, i.day.month, i.day.day, c.hour, c.minute] ++
    (if c.second = 0 ∧ c.micro = 0 then [] else [c.second]) ++
    (if c.micro = 0 then [] else [c.micro])
  "datetime.datetime(".toList ++ joinWith [',', ' '] (fields.map ofNat) ++
    (match i.offset with
    | none => []
    | some s => ", tzinfo=".toList ++ offsetCall s) ++ [')']

end Instant

mutual

/-- A node as a call. -/
def Node.display : Node → Text
  | .mk kind value children =>
    callText "Node" [("type", quoted kind), ("value", value.display),
      ("children", '[' :: joinWith [',', ' '] (Node.displayAll children) ++ [']'])]

/-- The nodes of a forest as calls. -/
def Node.displayAll : List Node → List Text
  | [] => []
  | n :: ns => n.display :: Node.displayAll ns

/-- A value as a call. -/
def Value.display : Value → Text
  | .absent => "None".toList
  | .text t => quoted t
  | .instant i => i.callText
  | .link l => callText "UrlValue" [("alias", quoted l.name), ("link", quoted l.target)]
  | .label id content =>
    callText "LabelValue" [("id", id.display), ("value", content.displayContent)]
  | .block id written rendered =>
    callText "RichTextValue" [("id", id.display), ("original", quoted written),
      ("transformed", quoted rendered)]

/-- An identifier as a call. -/
def Literal.display : Literal → Text
  | .text t => quoted t
  | .node n => n.display

/-- The content of a label as a call. -/
def Literal.displayContent : Literal → Text
  | .text t => callText "TextValue" [("type", quoted "text".toList), ("value", quoted t)]
  | .node n => n.display

end

/-- The fields of a value with blanks between, as they stand inside a sentence. -/
def Value.titleText : Value → Text
  | .absent => "None".toList
  | .text t => t
  | .instant i => i.spacedText
  | .link l => "alias=".toList ++ quoted l.name ++ " link=".toList ++ quoted l.target
  | .label id content =>
    "id=".toList ++ id.display ++ " value=".toList ++ content.displayContent
  | .block id written rendered =>
    "id=".toList ++ id.display ++ " original=".toList ++ quoted written ++
      " transformed=".toList ++ quoted rendered

end Vitae
