import Vitae.Json

/-!
# Reading data

Data is read back in two passes. The first goes through the characters and makes tokens of them: the
marks, the word `null` and the quoted texts with their escapes (`Json.tokensFrom?`). Between tokens
any gap is allowed. The second goes through the tokens with a stack of the lists and records that
are not complete (`Json.ofTokens?`).

This is the whole exchange format but for numbers and truth values, which documents do not have:
every escape is known, surrogates are joined in pairs, a control of ASCII must be escaped, and no
comma can be left out or stand behind the last entry.
-/

namespace Vitae.Json

open Text

/-! ### Quoted texts -/

/-- The value of a hexadecimal digit. -/
def hexValue? (c : Char) : Option Nat :=
  if '0' ≤ c ∧ c ≤ '9' then some (c.toNat - 48)
  else if 'a' ≤ c ∧ c ≤ 'f' then some (c.toNat - 87)
  else if 'A' ≤ c ∧ c ≤ 'F' then some (c.toNat - 55)
  else none

/-- The character that a backslash and the given character stand for. -/
def escaped? : Char → Option Char
  | '"' => some '"'
  | '\\' => some '\\'
  | '/' => some '/'
  | 'b' => some '\x08'
  | 't' => some '\t'
  | 'n' => some '\n'
  | 'f' => some '\x0c'
  | 'r' => some '\r'
  | _ => none

/-- The first half of a surrogate pair. -/
def IsLeading (n : Nat) : Prop :=
  0xD800 ≤ n ∧ n < 0xDC00

instance : DecidablePred IsLeading :=
  fun _ => inferInstanceAs (Decidable (_ ∧ _))

/-- The second half of a surrogate pair. -/
def IsTrailing (n : Nat) : Prop :=
  0xDC00 ≤ n ∧ n < 0xE000

instance : DecidablePred IsTrailing :=
  fun _ => inferInstanceAs (Decidable (_ ∧ _))

/-- The text that is given by the numbers of its characters, where a pair of surrogates stands for
one character and a single surrogate for none. -/
def ofUnits? : List Nat → Option Text
  | [] => some []
  | [n] => if n.isValidChar then some [Char.ofNat n] else none
  | n :: m :: units =>
    if IsLeading n ∧ IsTrailing m then do
      let c := Char.ofNat (0x10000 + 0x400 * (n - 0xD800) + (m - 0xDC00))
      return c :: (← ofUnits? units)
    else if n.isValidChar then do return Char.ofNat n :: (← ofUnits? (m :: units))
    else none

/-! ### Tokens -/

/-- What data is made of. -/
inductive Token
  | null
  | text (t : Text)
  | comma
  | colon
  | listStart
  | listEnd
  | recordStart
  | recordEnd
  deriving DecidableEq

/-- The token that a mark stands for. -/
def Token.ofMark? : Char → Option Token
  | ',' => some .comma
  | ':' => some .colon
  | '[' => some .listStart
  | ']' => some .listEnd
  | '\x7b' => some .recordStart
  | '\x7d' => some .recordEnd
  | _ => none

/-- Whether the character may stand between tokens. -/
def isGap (c : Char) : Bool :=
  c = ' ' || c = '\t' || c = '\n' || c = '\r'

/-- Where the characters so far have led to. -/
inductive Scan
  /-- Between two tokens. -/
  | between
  /-- Behind a part of a word. -/
  | word (w : Text)
  /-- Inside a quoted text, with the numbers of its characters so far. -/
  | quoted (units : List Nat)
  /-- Behind a backslash in a quoted text. -/
  | escape (units : List Nat)
  /-- Behind some digits of a numbered character in a quoted text. -/
  | code (units digits : List Nat)
  deriving DecidableEq

/-- One more character: the tokens that it completes, and where it leads to. -/
def Scan.step? : Scan → Char → Option (List Token × Scan)
  | .between, c =>
    if isGap c then some ([], .between)
    else if c = '"' then some ([], .quoted [])
    else if c = 'n' then some ([], .word [c])
    else (Token.ofMark? c).map fun mark => ([mark], .between)
  | .word w, c =>
    if w ++ [c] = "null".toList then some ([.null], .between)
    else if w ++ [c] <+: "null".toList then some ([], .word (w ++ [c]))
    else none
  | .quoted units, c =>
    if c = '"' then (ofUnits? units).map fun t => ([.text t], .between)
    else if c = '\\' then some ([], .escape units)
    else if c.toNat < 0x20 then none
    else some ([], .quoted (units ++ [c.toNat]))
  | .escape units, c =>
    if c = 'u' then some ([], .code units [])
    else (escaped? c).map fun e => ([], .quoted (units ++ [e.toNat]))
  | .code units digits, c => do
    let digits := digits ++ [← hexValue? c]
    if digits.length < 4 then return ([], .code units digits)
    else return ([], .quoted (units ++ [digits.foldl (16 * · + ·) 0]))

/-- The tokens that the characters behind a place complete. Only between tokens may they end. -/
def tokensFrom? : Scan → Text → Option (List Token)
  | .between, [] => some []
  | _, [] => none
  | s, c :: t => do
    let (ts, s) ← s.step? c
    return ts ++ (← tokensFrom? s t)

/-! ### Values -/

/-- An entry that is being read, in a list or a record that has the given entries before it. -/
inductive Frame
  | item (before : List Json)
  | field (before : List (Text × Json)) (name : Text)

/-- What the tokens so far ask for. -/
inductive Awaited
  | value
  /-- An item, or the end of the list. -/
  | firstItem
  /-- The name of a field, or the end of the record. -/
  | firstName
  | name (before : List (Text × Json))
  | colon (before : List (Text × Json)) (name : Text)
  /-- What may stand behind a value. -/
  | behind (j : Json)

/-- A value that starts with the given token. -/
def start? (stack : List Frame) : Token → Option (Awaited × List Frame)
  | .null => some (.behind .null, stack)
  | .text t => some (.behind (.text t), stack)
  | .listStart => some (.firstItem, stack)
  | .recordStart => some (.firstName, stack)
  | _ => none

/-- One more token. -/
def next? : Awaited × List Frame → Token → Option (Awaited × List Frame)
  | (.value, stack), token => start? stack token
  | (.firstItem, stack), .listEnd => some (.behind (.list []), stack)
  | (.firstItem, stack), token => start? (.item [] :: stack) token
  | (.firstName, stack), .recordEnd => some (.behind (.record []), stack)
  | (.firstName, stack), .text name => some (.colon [] name, stack)
  | (.name before, stack), .text name => some (.colon before name, stack)
  | (.colon before name, stack), .colon => some (.value, .field before name :: stack)
  | (.behind j, .item before :: stack), .comma => some (.value, .item (before ++ [j]) :: stack)
  | (.behind j, .item before :: stack), .listEnd =>
    some (.behind (.list (before ++ [j])), stack)
  | (.behind j, .field before name :: stack), .comma =>
    some (.name (before ++ [(name, j)]), stack)
  | (.behind j, .field before name :: stack), .recordEnd =>
    some (.behind (.record (before ++ [(name, j)])), stack)
  | _, _ => none

/-- The value that some tokens stand for. -/
def ofTokens? (ts : List Token) : Option Json :=
  match ts.foldlM next? (.value, []) with
  | some (.behind j, []) => some j
  | _ => none

/-- The value that a text stands for. -/
def decode? (t : Text) : Option Json :=
  (tokensFrom? .between t).bind ofTokens?

end Vitae.Json
