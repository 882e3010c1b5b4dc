import Mathlib.Data.Nat.Digits.Lemmas
import Mathlib.Data.List.TakeWhile

/-!
# Numbers and byte strings as text

Two ways to write data in ASCII, and how to read it back.

* `decimal` writes a number with its decimal digits. `readDecimal` reads it back, the first digit is
  not a zero (`head_decimal_ne`), and in a longer text the digits end where something follows that
  is not a digit (`takeWhile_decimal`).
* `hex` writes a byte string with two hexadecimal digits for every byte. `unhex` reads it back.
-/

namespace Ascii

/-! ### Decimal digits -/

/-- The digit with the given value. -/
def digit (d : ℕ) : UInt8 := UInt8.ofNat (0x30 + d)

/-- The decimal digits of a number, the most significant one first. There are none for zero. -/
def decimal (n : ℕ) : List UInt8 := ((Nat.digits 10 n).map digit).reverse

/-- Whether a byte is a decimal digit. -/
def isDigit (b : UInt8) : Bool := 0x30 ≤ b.toNat && b.toNat ≤ 0x39

/-- The number with the given digits, the most significant one first. -/
def readDecimal (ds : List UInt8) : ℕ := ds.foldl (fun n b => 10 * n + (b.toNat - 0x30)) 0

theorem toNat_digit {d : ℕ} (h : d < 10) : (digit d).toNat = 0x30 + d := by
  have hsmall : 0x30 + d < 2 ^ 8 := by omega
  rw [digit, UInt8.toNat_ofNat', Nat.mod_eq_of_lt hsmall]

theorem isDigit_digit {d : ℕ} (h : d < 10) : isDigit (digit d) = true := by
  unfold isDigit
  rw [toNat_digit h, Bool.and_eq_true, decide_eq_true_eq, decide_eq_true_eq]
  omega

/-- A positive number has the digits of its tenth part, and then its last digit. -/
theorem decimal_of_pos {n : ℕ} (h : 0 < n) : decimal n = decimal (n / 10) ++ [digit (n % 10)] := by
  unfold decimal
  rw [Nat.digits_def' (by decide) h, List.map_cons, List.reverse_cons]

theorem isDigit_of_mem_decimal {n : ℕ} {b : UInt8} (h : b ∈ decimal n) : isDigit b = true := by
  obtain ⟨d, hd, rfl⟩ := List.mem_map.mp (List.mem_reverse.mp h)
  exact isDigit_digit (Nat.digits_lt_base (by decide) hd)

/-- **Reading undoes writing.** -/
theorem readDecimal_decimal (n : ℕ) : readDecimal (decimal n) = n := by
  induction n using Nat.strong_induction_on with
  | h n ih =>
    rcases Nat.eq_zero_or_pos n with rfl | hpos
    · rfl
    · have hlast : (digit (n % 10)).toNat - 0x30 = n % 10 := by
        rw [toNat_digit (Nat.mod_lt n (by decide)), Nat.add_sub_cancel_left]
      have hrest : readDecimal (decimal (n / 10)) = n / 10 :=
        ih (n / 10) (Nat.div_lt_self hpos (by decide))
      unfold readDecimal at hrest ⊢
      rw [decimal_of_pos hpos, List.foldl_append, hrest]
      change 10 * (n / 10) + ((digit (n % 10)).toNat - 0x30) = n
      rw [hlast]
      exact Nat.div_add_mod n 10

/-- **No leading zeros.** -/
theorem head_decimal_ne (n : ℕ) : (decimal n).head? ≠ some 0x30 := by
  intro hzero
  rw [decimal, List.head?_reverse, List.getLast?_map, Option.map_eq_some_iff] at hzero
  obtain ⟨d, hlast, hd⟩ := hzero
  have hmem : d ∈ Nat.digits 10 n := List.mem_of_getLast? hlast
  have hvalue := toNat_digit (Nat.digits_lt_base (by decide) hmem)
  rw [hd] at hvalue
  have hne := Nat.getLast_digit_ne_zero 10 (m := n) (by rintro rfl; cases hlast)
  rw [List.getLast_of_getLast?_eq_some hlast] at hne
  exact hne (Nat.add_left_cancel hvalue.symm)

/-- **The digits end** where something follows that is not a digit. -/
theorem takeWhile_decimal (n : ℕ) {c : UInt8} (hc : isDigit c = false) (rest : List UInt8) :
    (decimal n ++ c :: rest).takeWhile isDigit = decimal n := by
  rw [List.takeWhile_append_of_pos fun b hb => isDigit_of_mem_decimal hb,
    List.takeWhile_cons_of_neg (by simp [hc]), List.append_nil]

/-! ### Hexadecimal digits -/

/-- The hexadecimal digit with the given value, in lower case. -/
def hexDigit (d : ℕ) : UInt8 := UInt8.ofNat (if d < 10 then 0x30 + d else 0x57 + d)

/-- The value of a hexadecimal digit. -/
def hexValue (c : UInt8) : ℕ := if c.toNat < 0x61 then c.toNat - 0x30 else c.toNat - 0x57

/-- Two hexadecimal digits for every byte. -/
def hex : List UInt8 → List UInt8
  | [] => []
  | b :: bs => hexDigit (b.toNat / 16) :: hexDigit (b.toNat % 16) :: hex bs

/-- The bytes with the given hexadecimal digits. -/
def unhex : List UInt8 → List UInt8
  | c :: d :: ds => UInt8.ofNat (16 * hexValue c + hexValue d) :: unhex ds
  | _ => []

@[simp] theorem length_hex (bs : List UInt8) : (hex bs).length = 2 * bs.length := by
  induction bs with
  | nil => rfl
  | cons b bs ih =>
    rw [hex, List.length_cons, List.length_cons, ih, List.length_cons]
    omega

theorem hexValue_hexDigit : ∀ d < 16, hexValue (hexDigit d) = d := by decide

/-- **Round trip.** -/
theorem unhex_hex (bs : List UInt8) : unhex (hex bs) = bs := by
  induction bs with
  | nil => rfl
  | cons b bs ih =>
    have hbyte : b.toNat < 256 := b.toNat_lt
    have hhigh := hexValue_hexDigit (b.toNat / 16) (by omega)
    have hlow := hexValue_hexDigit (b.toNat % 16) (by omega)
    rw [hex, unhex, hhigh, hlow, ih, Nat.div_add_mod, UInt8.ofNat_toNat]

theorem hex_injective : Function.Injective hex := Function.LeftInverse.injective unhex_hex

end Ascii
