/-
Decimal digits of every script. Each script has its ten digits in a row, so the table holds the
zeros only.
-/
namespace EquityScreen.Text

/-- The zeros of the scripts beyond the first 128 code points. -/
def digitZeros : List Nat := [
    0x660, 0x6f0, 0x7c0, 0x966, 0x9e6, 0xa66, 0xae6, 0xb66, 0xbe6, 0xc66, 0xce6, 0xd66, 0xde6,
    0xe50, 0xed0, 0xf20, 0x1040, 0x1090, 0x17e0, 0x1810, 0x1946, 0x19d0, 0x1a80, 0x1a90, 0x1b50,
    0x1bb0, 0x1c40, 0x1c50, 0xa620, 0xa8d0, 0xa900, 0xa9d0, 0xa9f0, 0xaa50, 0xabf0, 0xff10,
    0x104a0, 0x10d30, 0x11066, 0x110f0, 0x11136, 0x111d0, 0x112f0, 0x11450, 0x114d0, 0x11650,
    0x116c0, 0x11730, 0x118e0, 0x11950, 0x11c50, 0x11d50, 0x11da0, 0x16a60, 0x16ac0, 0x16b50,
    0x1d7ce, 0x1d7d8, 0x1d7e2, 0x1d7ec, 0x1d7f6, 0x1e140, 0x1e2f0, 0x1e950, 0x1fbf0]

/-- The value of a decimal digit of any script. -/
def digitValue? (c : Char) : Option Nat :=
  if c.toNat < 128 then
    if c.isDigit then some (c.toNat - 48) else none
  else
    (digitZeros.find? fun z => z ≤ c.toNat && c.toNat < z + 10).map (c.toNat - ·)

/-- A decimal digit of any script. -/
def isDigit (c : Char) : Bool := (digitValue? c).isSome

/-- The number that a row of digits writes after `n`, most significant first; other characters count
as zero. -/
def appendDigits (n : Nat) (cs : List Char) : Nat :=
  cs.foldl (fun n c => 10 * n + (digitValue? c).getD 0) n

/-- The same from nothing, where the row is halved so many times. -/
def halvedValue : Nat → List Char → Nat
  | 0, cs => appendDigits 0 cs
  | halvings + 1, cs =>
    let half := cs.length / 2
    let low := cs.drop half
    halvedValue halvings (cs.take half) * 10 ^ low.length + halvedValue halvings low

/-- The number that a row of digits writes. Rows of a few hundred digits are read digit by digit,
longer ones are halved down to these. -/
def digitsValue (cs : List Char) : Nat := halvedValue (Nat.log2 (cs.length / 256)) cs

theorem appendDigits_eq (n : Nat) (cs : List Char) :
    appendDigits n cs = n * 10 ^ cs.length + appendDigits 0 cs := by
  induction cs generalizing n with
  | nil => simp [appendDigits]
  | cons c cs ih =>
    have hstep : ∀ n, appendDigits n (c :: cs) = appendDigits (10 * n + (digitValue? c).getD 0) cs := fun _ => rfl
    rw [hstep, hstep, ih, ih (10 * 0 + _), List.length_cons, Nat.pow_succ]
    grind

theorem halvedValue_eq (halvings : Nat) (cs : List Char) : halvedValue halvings cs = appendDigits 0 cs := by
  induction halvings generalizing cs with
  | zero => rfl
  | succ halvings ih =>
    have hwhole : appendDigits 0 cs = appendDigits (appendDigits 0 (cs.take (cs.length / 2))) (cs.drop (cs.length / 2)) := by
      unfold appendDigits
      rw [← List.foldl_append, List.take_append_drop]
    simp only [halvedValue, ih]
    rw [hwhole, ← appendDigits_eq]

/-- A row of digits is read digit by digit. -/
theorem digitsValue_eq (cs : List Char) : digitsValue cs = appendDigits 0 cs := halvedValue_eq _ cs

end EquityScreen.Text
