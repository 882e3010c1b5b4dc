import Mathlib.Data.Nat.Log
import Mathlib.Data.List.Basic
import Mathlib.Tactic.Ring

/-!
# Byte strings

Numbers as byte strings, and codecs that can be read back in sequence.

* `leNat` and `leBytes` convert between numbers and little endian byte strings of a fixed length,
  `beNat` and `beBytes` between numbers and big endian ones.
* A `Codec` writes a value as a byte string and reads it back from the front of a longer one. It
  carries the round trip as a field, so a codec composed from others has it by construction.
* `Codec.compact` is the variable length encoding of `SCALE`: the two lowest bits of the first byte
  say how long it is. Reading refuses encodings that are longer than necessary.
-/

namespace Scale

/-- A byte string. -/
abbrev Bytes := List UInt8

/-! ### Numbers of a fixed length -/

/-- The number with the given bytes, least significant first. -/
def leNat : Bytes → ℕ
  | [] => 0
  | b :: bs => b.toNat + 256 * leNat bs

/-- The lowest `k` bytes of a number, least significant first. -/
def leBytes : ℕ → ℕ → Bytes
  | 0, _ => []
  | k + 1, n => UInt8.ofNat n :: leBytes k (n / 256)

/-- The number with the given bytes, most significant first. -/
def beNat (bs : Bytes) : ℕ := leNat bs.reverse

/-- The lowest `k` bytes of a number, most significant first. -/
def beBytes (k n : ℕ) : Bytes := (leBytes k n).reverse

/-- A number in one word of 32 bytes. -/
def word (n : ℕ) : Bytes := beBytes 32 n

@[simp] theorem length_leBytes (k n : ℕ) : (leBytes k n).length = k := by
  induction k generalizing n with
  | zero => rfl
  | succ k ih => rw [leBytes, List.length_cons, ih]

@[simp] theorem length_beBytes (k n : ℕ) : (beBytes k n).length = k := by
  rw [beBytes, List.length_reverse, length_leBytes]

/-- Reading undoes writing, up to the length. -/
theorem leNat_leBytes (k n : ℕ) : leNat (leBytes k n) = n % 256 ^ k := by
  induction k generalizing n with
  | zero =>
    rw [Nat.pow_zero, Nat.mod_one]
    rfl
  | succ k ih =>
    have hbyte : (UInt8.ofNat n).toNat = n % 256 := UInt8.toNat_ofNat'
    rw [leBytes, leNat, ih, hbyte, Nat.pow_succ, Nat.mul_comm, Nat.mul_comm (256 ^ k),
      Nat.mod_mul, Nat.mul_comm]

theorem beNat_beBytes (k n : ℕ) : beNat (beBytes k n) = n % 256 ^ k := by
  rw [beNat, beBytes, List.reverse_reverse, leNat_leBytes]

theorem leNat_lt (bs : Bytes) : leNat bs < 256 ^ bs.length := by
  induction bs with
  | nil => exact Nat.one_pos
  | cons b bs ih =>
    have hb : b.toNat < 256 := b.toNat_lt
    rw [leNat, List.length_cons, Nat.pow_succ]
    omega

/-- Byte strings of one length are told apart by their numbers. -/
theorem leNat_inj {xs ys : Bytes} (hlength : xs.length = ys.length) (h : leNat xs = leNat ys) :
    xs = ys := by
  induction xs generalizing ys with
  | nil => exact (List.length_eq_zero_iff.mp hlength.symm).symm
  | cons x xs ih =>
    cases ys with
    | nil => cases hlength
    | cons y ys =>
      have hx : x.toNat < 256 := x.toNat_lt
      have hy : y.toNat < 256 := y.toNat_lt
      have hsum : x.toNat + 256 * leNat xs = y.toNat + 256 * leNat ys := h
      have hhead : x = y := UInt8.toNat_inj.mp (by omega)
      rw [hhead, ih (Nat.succ.inj hlength) (by omega)]

/-- A number is below the range of its bytes. -/
theorem beNat_lt (bs : Bytes) : beNat bs < 256 ^ bs.length := by
  rw [← List.length_reverse]
  exact leNat_lt bs.reverse

theorem leNat_append (xs ys : Bytes) :
    leNat (xs ++ ys) = leNat xs + 256 ^ xs.length * leNat ys := by
  induction xs with
  | nil => rw [List.nil_append, List.length_nil, Nat.pow_zero, Nat.one_mul, leNat, Nat.zero_add]
  | cons x xs ih =>
    rw [List.cons_append, leNat, leNat, ih, List.length_cons, Nat.pow_succ]
    ring

/-- The bytes in front are the more significant ones. -/
theorem beNat_append (xs ys : Bytes) :
    beNat (xs ++ ys) = beNat xs * 256 ^ ys.length + beNat ys := by
  rw [beNat, List.reverse_append, leNat_append, List.length_reverse, Nat.add_comm, Nat.mul_comm]
  rfl

theorem leNat_eq_zero {bs : Bytes} : leNat bs = 0 ↔ bs = List.replicate bs.length 0 := by
  induction bs with
  | nil => exact iff_of_true rfl rfl
  | cons b bs ih =>
    have hbyte : b.toNat = 0 ↔ b = 0 := UInt8.toNat_inj (b := 0)
    rw [leNat, List.length_cons, List.replicate_succ, List.cons.injEq, ← ih, ← hbyte]
    omega

/-- Only zeros make the number zero. -/
theorem beNat_eq_zero {bs : Bytes} : beNat bs = 0 ↔ bs = List.replicate bs.length 0 := by
  rw [beNat, leNat_eq_zero, List.length_reverse, List.reverse_eq_iff, List.reverse_replicate]

theorem beNat_word {n : ℕ} (h : n < 256 ^ 32) : beNat (word n) = n :=
  (beNat_beBytes 32 n).trans (Nat.mod_eq_of_lt h)

@[simp] theorem length_word (n : ℕ) : (word n).length = 32 := length_beBytes 32 n

/-- The zeros that fill a byte string up to whole words. -/
def padding (s : Bytes) : Bytes := List.replicate ((32 - s.length % 32) % 32) 0

/-- The encoding of a byte string as the only argument or result of a contract: its offset, its
length, and its bytes in whole words. -/
def abiString (s : Bytes) : Bytes := word 32 ++ (word s.length ++ (s ++ padding s))

theorem length_abiString (s : Bytes) :
    (abiString s).length = 64 + s.length + (32 - s.length % 32) % 32 := by
  simp only [abiString, padding, List.length_append, length_word, List.length_replicate]
  omega

/-- Take a number of `k` bytes from the front. -/
def takeNat (k : ℕ) (bs : Bytes) : Option (ℕ × Bytes) :=
  if k ≤ bs.length then some (leNat (bs.take k), bs.drop k) else none

theorem takeNat_leBytes {k n : ℕ} (h : n < 256 ^ k) (rest : Bytes) :
    takeNat k (leBytes k n ++ rest) = some (n, rest) := by
  have hlen : k ≤ (leBytes k n ++ rest).length := by
    rw [List.length_append, length_leBytes]
    exact Nat.le_add_right k _
  rw [takeNat, if_pos hlen, List.take_left' (length_leBytes k n),
    List.drop_left' (length_leBytes k n), leNat_leBytes, Nat.mod_eq_of_lt h]

/-! ### Codecs -/

/-- A way to write values as byte strings that can be read back from the front of any string. -/
structure Codec (α : Type) where
  encode : α → Bytes
  decode : Bytes → Option (α × Bytes)
  decode_encode : ∀ a rest, decode (encode a ++ rest) = some (a, rest)

namespace Codec

variable {α β : Type}

/-- One value after the other. -/
def prod (c : Codec α) (d : Codec β) : Codec (α × β) where
  encode p := c.encode p.1 ++ d.encode p.2
  decode bs := (c.decode bs).bind fun x => (d.decode x.2).map fun y => ((x.1, y.1), y.2)
  decode_encode p rest := by
    rw [List.append_assoc, c.decode_encode, Option.bind_some, d.decode_encode, Option.map_some]

/-- Values written through other values. -/
def along (c : Codec β) (f : α → β) (g : β → α) (h : ∀ a, g (f a) = a) : Codec α where
  encode a := c.encode (f a)
  decode bs := (c.decode bs).map fun x => (g x.1, x.2)
  decode_encode a rest := by
    rw [c.decode_encode, Option.map_some, h]

/-- Numbers of `k` bytes, little endian. -/
def le (k : ℕ) : Codec (Fin (256 ^ k)) where
  encode n := leBytes k n
  decode bs := (takeNat k bs).bind fun x =>
    if h : x.1 < 256 ^ k then some (⟨x.1, h⟩, x.2) else none
  decode_encode n rest := by
    rw [takeNat_leBytes n.isLt, Option.bind_some, dif_pos n.isLt]

/-- Numbers of `k` bytes, big endian. -/
def be (k : ℕ) : Codec (Fin (256 ^ k)) where
  encode n := beBytes k n
  decode bs :=
    if k ≤ bs.length then
      let n := beNat (bs.take k)
      if h : n < 256 ^ k then some (⟨n, h⟩, bs.drop k) else none
    else none
  decode_encode n rest := by
    have hlen : k ≤ (beBytes k n ++ rest).length := by
      rw [List.length_append, length_beBytes]
      exact Nat.le_add_right k _
    have hread : beNat (beBytes k n) = n := by
      rw [beNat_beBytes, Nat.mod_eq_of_lt n.isLt]
    simp only [if_pos hlen, List.take_left' (length_beBytes k n),
      List.drop_left' (length_beBytes k n), hread, dif_pos n.isLt]

/-! ### Compact numbers -/

/-- The number of bytes of a number. -/
def byteLength (n : ℕ) : ℕ := Nat.log 256 n + 1

theorem lt_pow_byteLength (n : ℕ) : n < 256 ^ byteLength n := Nat.lt_pow_succ_log_self (by decide) n

theorem pow_le_of_byteLength {n : ℕ} (h : n ≠ 0) : 256 ^ (byteLength n - 1) ≤ n :=
  Nat.pow_log_le_self 256 h

/-- The encoding of a compact number: in one, two or four bytes with a quarter of their range, or
with its length in front. -/
def compactEncode (n : ℕ) : Bytes :=
  if n < 2 ^ 6 then leBytes 1 (4 * n)
  else if n < 2 ^ 14 then leBytes 2 (4 * n + 1)
  else if n < 2 ^ 30 then leBytes 4 (4 * n + 2)
  else UInt8.ofNat (4 * (byteLength n - 4) + 3) :: leBytes (byteLength n) n

/-- A compact number of `k` bytes has at most one byte in front. -/
theorem length_compactEncode_le {k n : ℕ} (hk : 3 ≤ k) (hn : n < 256 ^ k) :
    (compactEncode n).length ≤ k + 1 := by
  unfold compactEncode
  split_ifs with h₁ h₂ h₃
  · rw [length_leBytes]
    omega
  · rw [length_leBytes]
    omega
  · rw [length_leBytes]
    omega
  · have hpos : n ≠ 0 := by omega
    have hlen : byteLength n ≤ k := Nat.log_lt_of_lt_pow hpos hn
    rw [List.length_cons, length_leBytes]
    omega

/-- Read a number from a quarter of the range of `len` bytes, refusing those below `lo`. -/
def takeQuarter (lo len : ℕ) (bs : Bytes) : Option (ℕ × Bytes) :=
  (takeNat len bs).bind fun x => if lo ≤ x.1 / 4 then some (x.1 / 4, x.2) else none

/-- Read a number of `len` bytes, refusing those below `lo`. -/
def takeFrom (lo len : ℕ) (bs : Bytes) : Option (ℕ × Bytes) :=
  (takeNat len bs).bind fun x => if lo ≤ x.1 then some x else none

/-- Read a compact number of at most `k` bytes. -/
def compactDecode (k : ℕ) (bs : Bytes) : Option (ℕ × Bytes) :=
  match bs with
  | [] => none
  | b :: tail =>
    if b.toNat % 4 = 0 then takeQuarter 0 1 bs
    else if b.toNat % 4 = 1 then takeQuarter (2 ^ 6) 2 bs
    else if b.toNat % 4 = 2 then takeQuarter (2 ^ 14) 4 bs
    else
      let len := b.toNat / 4 + 4
      if len ≤ k then takeFrom (max (2 ^ 30) (256 ^ (len - 1))) len tail else none

theorem takeQuarter_leBytes {lo len n r : ℕ} (hr : r < 4) (hlo : lo ≤ n)
    (hlt : 4 * n + r < 256 ^ len) (rest : Bytes) :
    takeQuarter lo len (leBytes len (4 * n + r) ++ rest) = some (n, rest) := by
  have hquarter : (4 * n + r) / 4 = n := by omega
  rw [takeQuarter, takeNat_leBytes hlt, Option.bind_some]
  simp only [hquarter, if_pos hlo]

theorem takeFrom_leBytes {lo len n : ℕ} (hlo : lo ≤ n) (hlt : n < 256 ^ len) (rest : Bytes) :
    takeFrom lo len (leBytes len n ++ rest) = some (n, rest) := by
  rw [takeFrom, takeNat_leBytes hlt, Option.bind_some]
  simp only [if_pos hlo]

/-- The two lowest bits of the first byte choose how a number is read. -/
theorem compactDecode_leBytes (k : ℕ) {m x : ℕ} (rest : Bytes) :
    compactDecode k (leBytes (m + 1) x ++ rest) =
      if x % 4 = 0 then takeQuarter 0 1 (leBytes (m + 1) x ++ rest)
      else if x % 4 = 1 then takeQuarter (2 ^ 6) 2 (leBytes (m + 1) x ++ rest)
      else if x % 4 = 2 then takeQuarter (2 ^ 14) 4 (leBytes (m + 1) x ++ rest)
      else compactDecode k (leBytes (m + 1) x ++ rest) := by
  have hfirst : leBytes (m + 1) x ++ rest = UInt8.ofNat x :: (leBytes m (x / 256) ++ rest) := rfl
  have hbyte : (UInt8.ofNat x).toNat = x % 256 := UInt8.toNat_ofNat'
  have hmod : x % 256 % 4 = x % 4 := Nat.mod_mod_of_dvd x (by decide)
  rw [hfirst]
  unfold compactDecode
  simp only [hbyte, hmod]
  split_ifs <;> rfl

theorem compactDecode_compactEncode {k n : ℕ} (hk : k < 64) (hn : n < 256 ^ k) (rest : Bytes) :
    compactDecode k (compactEncode n ++ rest) = some (n, rest) := by
  unfold compactEncode
  split_ifs with h₁ h₂ h₃
  · rw [compactDecode_leBytes, if_pos (by omega)]
    exact takeQuarter_leBytes (r := 0) (by decide) (Nat.zero_le n) (by omega) rest
  · rw [compactDecode_leBytes, if_neg (by omega), if_pos (by omega)]
    exact takeQuarter_leBytes (by decide) (not_lt.mp h₁) (by omega) rest
  · rw [compactDecode_leBytes, if_neg (by omega), if_neg (by omega), if_pos (by omega)]
    exact takeQuarter_leBytes (by decide) (not_lt.mp h₂) (by omega) rest
  · -- the length stands in front
    have hpos : n ≠ 0 := by omega
    have hlen : byteLength n ≤ k := Nat.log_lt_of_lt_pow hpos hn
    have hfour : 4 ≤ byteLength n := by
      have hlog : 3 ≤ Nat.log 256 n := Nat.le_log_of_pow_le (by decide) (by omega)
      exact Nat.succ_le_succ hlog
    have hbyte : (UInt8.ofNat (4 * (byteLength n - 4) + 3)).toNat =
        4 * (byteLength n - 4) + 3 := by
      rw [UInt8.toNat_ofNat', Nat.mod_eq_of_lt (by omega)]
    have hquarter : (4 * (byteLength n - 4) + 3) / 4 + 4 = byteLength n := by omega
    rw [List.cons_append]
    unfold compactDecode
    simp only [hbyte, hquarter, if_pos hlen]
    rw [if_neg (by omega), if_neg (by omega), if_neg (by omega)]
    refine takeFrom_leBytes (max_le (not_lt.mp h₃) ?_) (lt_pow_byteLength n) rest
    exact pow_le_of_byteLength hpos

/-- Compact numbers of at most `k` bytes. -/
def compact (k : ℕ) (hk : k < 64) : Codec (Fin (256 ^ k)) where
  encode n := compactEncode n
  decode bs := (compactDecode k bs).bind fun x =>
    if h : x.1 < 256 ^ k then some (⟨x.1, h⟩, x.2) else none
  decode_encode n rest := by
    rw [compactDecode_compactEncode hk n.isLt, Option.bind_some, dif_pos n.isLt]

/-- The encoding of a byte string: its length and then its bytes. -/
def bytes : Codec { bs : Bytes // bs.length < 256 ^ 4 } where
  encode bs := compactEncode bs.1.length ++ bs.1
  decode bs := (compactDecode 4 bs).bind fun x =>
    if h : x.1 ≤ x.2.length ∧ x.1 < 256 ^ 4 then
      some (⟨x.2.take x.1, by rw [List.length_take, min_eq_left h.1]; exact h.2⟩, x.2.drop x.1)
    else none
  decode_encode bs rest := by
    rw [List.append_assoc, compactDecode_compactEncode (by decide) bs.2, Option.bind_some]
    have hlen : bs.1.length ≤ (bs.1 ++ rest).length ∧ bs.1.length < 256 ^ 4 :=
      ⟨by rw [List.length_append]; exact Nat.le_add_right _ _, bs.2⟩
    simp only [dif_pos hlen, List.take_left, List.drop_left]

end Codec

end Scale
