import Mathlib.Tactic.SplitIfs
import Vitae.Library.Utf8

/-!
# Texts as bytes

Every text is the text of some row of bytes: `Utf8.encode` gives them, and decoding gives the text
back (`Utf8.decode?_encode`). So a file can hold any text.
-/

namespace Vitae.Utf8

/-- The byte after the first one that carries six bits. -/
def tailByte (bits : Nat) : UInt8 :=
  .ofNat (0x80 + bits % 0x40)

/-- The bytes of a character. -/
def encodeChar (c : Char) : List UInt8 :=
  let n := c.toNat
  if n < 0x80 then [.ofNat n]
  else if n < 0x800 then [.ofNat (0xC0 + n / 0x40), tailByte n]
  else if n < 0x10000 then [.ofNat (0xE0 + n / 0x1000), tailByte (n / 0x40), tailByte n]
  else [.ofNat (0xF0 + n / 0x40000), tailByte (n / 0x1000), tailByte (n / 0x40), tailByte n]

/-- The bytes of a text. -/
def encode (t : List Char) : List UInt8 :=
  t.flatMap encodeChar

theorem tail?_tailByte {low high bits : Nat} (hlow : low ≤ 0x80 + bits % 0x40)
    (hhigh : 0x80 + bits % 0x40 ≤ high) : tail? low high (tailByte bits) = some (bits % 0x40) := by
  have hbyte : (tailByte bits).toNat = 0x80 + bits % 0x40 := UInt8.toNat_ofNat_of_lt' (by
    change 0x80 + bits % 0x40 < 256
    omega)
  rw [tail?, hbyte, if_pos ⟨hlow, hhigh⟩, Nat.add_sub_cancel_left]

theorem toNat_first {n : Nat} (h : n < 256) : (UInt8.ofNat n).toNat = n :=
  UInt8.toNat_ofNat_of_lt' h

/-- The code points of characters leave out the halves of surrogate pairs. -/
theorem toNat_valid (c : Char) : c.toNat < 0xD800 ∨ 0xDFFF < c.toNat ∧ c.toNat < 0x110000 :=
  c.valid

theorem two?_encoded {n : Nat} (h : n < 0x800) :
    two? (.ofNat (0xC0 + n / 0x40)) (tailByte n) = some (Char.ofNat n) := by
  have hsum : (0xC0 + n / 0x40 - 0xC0) * 0x40 + n % 0x40 = n := by omega
  rw [two?, toNat_first (by omega), tail?_tailByte (by omega) (by omega)]
  simp only [Option.bind_eq_bind, Option.bind_some, Option.pure_def, hsum]

theorem three?_encoded {n : Nat} (hlow : 0x800 ≤ n) (h : n < 0xD800 ∨ 0xDFFF < n)
    (hhigh : n < 0x10000) :
    three? (.ofNat (0xE0 + n / 0x1000)) (tailByte (n / 0x40)) (tailByte n) =
      some (Char.ofNat n) := by
  have hsum : ((0xE0 + n / 0x1000 - 0xE0) * 0x40 + n / 0x40 % 0x40) * 0x40 + n % 0x40 = n := by
    omega
  -- no short form and no half of a surrogate pair:
  have hsecond : (if 0xE0 + n / 0x1000 = 0xE0 then 0xA0 else 0x80) ≤ 0x80 + n / 0x40 % 0x40 ∧
      0x80 + n / 0x40 % 0x40 ≤ if 0xE0 + n / 0x1000 = 0xED then 0x9F else 0xBF := by
    split_ifs <;> omega
  simp only [three?, toNat_first (by omega : 0xE0 + n / 0x1000 < 256)]
  rw [tail?_tailByte hsecond.1 hsecond.2, tail?_tailByte (by omega) (by omega)]
  simp only [Option.bind_eq_bind, Option.bind_some, Option.pure_def, hsum]

theorem four?_encoded {n : Nat} (hlow : 0x10000 ≤ n) (hhigh : n < 0x110000) :
    four? (.ofNat (0xF0 + n / 0x40000)) (tailByte (n / 0x1000)) (tailByte (n / 0x40))
      (tailByte n) = some (Char.ofNat n) := by
  have hsum : (((0xF0 + n / 0x40000 - 0xF0) * 0x40 + n / 0x1000 % 0x40) * 0x40 +
      n / 0x40 % 0x40) * 0x40 + n % 0x40 = n := by
    omega
  have hsecond : (if 0xF0 + n / 0x40000 = 0xF0 then 0x90 else 0x80) ≤ 0x80 + n / 0x1000 % 0x40 ∧
      0x80 + n / 0x1000 % 0x40 ≤ if 0xF0 + n / 0x40000 = 0xF4 then 0x8F else 0xBF := by
    split_ifs <;> omega
  simp only [four?, toNat_first (by omega : 0xF0 + n / 0x40000 < 256)]
  rw [tail?_tailByte hsecond.1 hsecond.2, tail?_tailByte (by omega) (by omega),
    tail?_tailByte (by omega) (by omega)]
  simp only [Option.bind_eq_bind, Option.bind_some, Option.pure_def, hsum]

/-- **The bytes of a character are read as this character**, whatever follows them. -/
theorem decode?_encodeChar_append (c : Char) (bytes : List UInt8) :
    decode? (encodeChar c ++ bytes) = (decode? bytes).map (c :: ·) := by
  have hvalid := toNat_valid c
  have hc : Char.ofNat c.toNat = c := Char.ofNat_toNat c
  unfold encodeChar
  generalize c.toNat = n at *
  have hbind (x : Option (List Char)) : (do return c :: (← x)) = x.map (c :: ·) := by
    cases x <;> rfl
  dsimp only
  split_ifs with h1 h2 h3
  · rw [List.singleton_append, decode?.eq_def]
    simp only [toNat_first (by omega : n < 256), if_pos h1, hc]
  · have hfirst : ¬0xC0 + n / 0x40 < 0x80 ∧ 0xC2 ≤ 0xC0 + n / 0x40 ∧ 0xC0 + n / 0x40 ≤ 0xDF := by
      omega
    simp only [List.cons_append, List.nil_append, decode?,
      toNat_first (by omega : 0xC0 + n / 0x40 < 256), if_neg hfirst.1, if_pos hfirst.2,
      two?_encoded h2, hc]
    exact hbind _
  · have hfirst : ¬0xE0 + n / 0x1000 < 0x80 ∧ ¬0xE0 + n / 0x1000 ≤ 0xDF ∧
        0xE0 ≤ 0xE0 + n / 0x1000 ∧ 0xE0 + n / 0x1000 ≤ 0xEF := by
      omega
    simp only [List.cons_append, List.nil_append, decode?,
      toNat_first (by omega : 0xE0 + n / 0x1000 < 256), if_neg hfirst.1, hfirst.2.1, and_false,
      ↓reduceIte, if_pos hfirst.2.2, three?_encoded (by omega) (by omega) h3, hc]
    exact hbind _
  · have hfirst : ¬0xF0 + n / 0x40000 < 0x80 ∧ ¬0xF0 + n / 0x40000 ≤ 0xDF ∧
        ¬0xF0 + n / 0x40000 ≤ 0xEF ∧ 0xF0 ≤ 0xF0 + n / 0x40000 ∧ 0xF0 + n / 0x40000 ≤ 0xF4 := by
      omega
    have hfour := four?_encoded (n := n) (by omega) (by omega)
    simp only [List.cons_append, List.nil_append, decode?,
      toNat_first (by omega : 0xF0 + n / 0x40000 < 256), if_neg hfirst.1, hfirst.2.1, hfirst.2.2.1,
      and_false, ↓reduceIte, if_pos hfirst.2.2.2, hfour, hc]
    exact hbind _

/-- **What has been encoded is read back.** -/
theorem decode?_encode (t : List Char) : decode? (encode t) = some t := by
  induction t with
  | nil => rfl
  | cons c t ih =>
    rw [encode, List.flatMap_cons, decode?_encodeChar_append, ← encode, ih]
    rfl

end Vitae.Utf8
