import Vitae.Text.Basic

/-!
# UTF-8

The text of a row of bytes. A character takes one to four bytes; the first byte tells how many, and
narrows the range of the second where a shorter form or no character would result. The whole row is
refused as soon as one byte does not fit.
-/

namespace Vitae.Utf8

/-- A continuation byte gives its low six bits. -/
def tail? (low high : Nat) (b : UInt8) : Option Nat :=
  if low ≤ b.toNat ∧ b.toNat ≤ high then some (b.toNat - 0x80) else none

/-- The character of two bytes. -/
def two? (a b : UInt8) : Option Char := do
  return Char.ofNat ((a.toNat - 0xC0) * 0x40 + (← tail? 0x80 0xBF b))

/-- The character of three bytes: no short form, and no half of a surrogate pair. -/
def three? (a b c : UInt8) : Option Char := do
  let low := if a.toNat = 0xE0 then 0xA0 else 0x80
  let high := if a.toNat = 0xED then 0x9F else 0xBF
  return Char.ofNat
    (((a.toNat - 0xE0) * 0x40 + (← tail? low high b)) * 0x40 + (← tail? 0x80 0xBF c))

/-- The character of four bytes: no short form, and nothing beyond the last code point. -/
def four? (a b c d : UInt8) : Option Char := do
  let low := if a.toNat = 0xF0 then 0x90 else 0x80
  let high := if a.toNat = 0xF4 then 0x8F else 0xBF
  return Char.ofNat
    ((((a.toNat - 0xF0) * 0x40 + (← tail? low high b)) * 0x40 + (← tail? 0x80 0xBF c)) * 0x40 +
      (← tail? 0x80 0xBF d))

/-- The text of a row of bytes, if every byte fits. -/
def decode? : List UInt8 → Option Text
  | [] => some []
  | a :: rest =>
    let n := a.toNat
    if n < 0x80 then (decode? rest).map (Char.ofNat n :: ·)
    else if 0xC2 ≤ n ∧ n ≤ 0xDF then
      match rest with
      | b :: rest => do return (← two? a b) :: (← decode? rest)
      | _ => none
    else if 0xE0 ≤ n ∧ n ≤ 0xEF then
      match rest with
      | b :: c :: rest => do return (← three? a b c) :: (← decode? rest)
      | _ => none
    else if 0xF0 ≤ n ∧ n ≤ 0xF4 then
      match rest with
      | b :: c :: d :: rest => do return (← four? a b c d) :: (← decode? rest)
      | _ => none
    else none

end Vitae.Utf8
