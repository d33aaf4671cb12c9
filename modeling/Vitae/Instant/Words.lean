import Vitae.Text.Basic

/-!
# Words of a date

The words that have a meaning in a date: months, days of the week, units of time, the halves of
the day, names of universal time, and the fillers that mean nothing. Case never matters for them.
-/

namespace Vitae.Instant

/-- The position of the first entry that lists the word, whatever its case. -/
def wordIndex? (entries : List (List String)) (word : Text) : Option Nat :=
  let small := String.ofList (word.map Char.toLower)
  entries.findIdx? (·.contains small)

/-- The number of a month from its name: 1 for January. -/
def month? (word : Text) : Option Nat :=
  (wordIndex? [["jan", "january"], ["feb", "february"], ["mar", "march"], ["apr", "april"],
    ["may"], ["jun", "june"], ["jul", "july"], ["aug", "august"], ["sep", "sept", "september"],
    ["oct", "october"], ["nov", "november"], ["dec", "december"]] word).map (· + 1)

/-- The number of a day of the week from its name: 0 for Monday. -/
def weekday? (word : Text) : Option Nat :=
  wordIndex? [["mon", "monday"], ["tue", "tuesday"], ["wed", "wednesday"], ["thu", "thursday"],
    ["fri", "friday"], ["sat", "saturday"], ["sun", "sunday"]] word

/-- The unit that a word names: 0 for hours, 1 for minutes, 2 for seconds. -/
def unit? (word : Text) : Option Nat :=
  wordIndex? [["h", "hour", "hours"], ["m", "minute", "minutes"], ["s", "second", "seconds"]] word

/-- Whether a word names the second half of the day, if it names a half at all. -/
def afternoon? (word : Text) : Option Bool :=
  (wordIndex? [["am", "a"], ["pm", "p"]] word).map (· == 1)

/-- Whether the word names universal time. -/
def isUniversalZone (word : Text) : Bool :=
  (wordIndex? [["utc", "gmt", "z"]] word).isSome

/-- Whether the token may stand anywhere in a date without a meaning. -/
def isFiller (word : Text) : Bool :=
  (wordIndex? [[" ", ".", ",", ";", "-", "/", "'", "at", "on", "and", "ad", "m", "t", "of", "st",
    "nd", "rd", "th"]] word).isSome

/-- Whether the token can be the name of a time zone: up to five capitals of ASCII, or `z`, but
not one of the names `NAN` and `INF` for what is no number. -/
def isZoneName (word : Text) : Bool :=
  word.length ≤ 5 && (word.all Char.isUpper || word == ['z']) &&
    word != ['N', 'A', 'N'] && word != ['I', 'N', 'F']

end Vitae.Instant
