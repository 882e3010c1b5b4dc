import ReefChain.EvmAccounts.Pallet
import ReefChain.Lib.Ascii
import ReefChain.Lib.Scale

/-!
# The message of a claim

An account claims an address with a signature of the owner of the address. What is signed is a text
with the account in it: a fixed header, the length of what follows in decimal digits, the word
`reef evm:` and the account in hexadecimal digits. The signature is of the hash of this text.

The text determines the account (`claimMessage_injective`). There is no separator between the length
and what follows, but the digits of the length end at the `r` of the word, so they can be told
apart, and the hexadecimal digits can be read back.

Different accounts thus have different texts and, if these do not collide, different hashes. A
signature that is accepted for two accounts is one of two different hashes by the same owner. The
message cannot exclude that there is such a signature: an address has 160 bits and an account 256,
so among enough accounts two share one (`exists_shared_signature`), even if neither the hash nor the
recovery of keys ever collides. To find it is a matter of the signature scheme.
-/

namespace Reef
namespace EvmAccounts

open Fallible

/-! ### What the functions compute -/

/-- The loop over the digits computes the decimal representation, as there is enough fuel. -/
theorem reversedDigits_eq {fuel l : ℕ} (h : l ≤ fuel) :
    (reversedDigits fuel l).reverse = Ascii.decimal l := by
  induction fuel generalizing l with
  | zero =>
    obtain rfl := Nat.le_zero.mp h
    rfl
  | succ fuel ih =>
    rw [reversedDigits]
    rcases Nat.eq_zero_or_pos l with rfl | hpos
    · rfl
    · rw [if_pos hpos, List.reverse_cons, ih (by omega), Ascii.decimal_of_pos hpos]
      rfl

/-- A nibble is written without overflow. -/
theorem pushNibble_eq {nibble : UInt8} (h : nibble.toNat < 16) (r : Bytes) :
    pushNibble nibble r = .ok (r ++ [Ascii.hexDigit nibble.toNat]) := by
  have hvalue : ∀ n < 16, (if UInt8.ofNat n < 10 then checkedAdd 0x30 (UInt8.ofNat n)
      else checkedAdd (0x61 - 10) (UInt8.ofNat n)) = some (Ascii.hexDigit n) := by decide
  have hnibble := hvalue nibble.toNat h
  rw [UInt8.ofNat_toNat] at hnibble
  unfold pushNibble
  rw [hnibble]
  rfl

/-- One round of the loop over the bytes. -/
theorem pushByte_eq (b : UInt8) (r : Bytes) :
    (do pushNibble (b % 16) (← pushNibble (b / 16) r) : Except Error Bytes) =
      .ok (r ++ [Ascii.hexDigit (b.toNat / 16), Ascii.hexDigit (b.toNat % 16)]) := by
  have hbyte : b.toNat < 256 := b.toNat_lt
  have hhigh : (b / 16).toNat = b.toNat / 16 := UInt8.toNat_div b 16
  have hlow : (b % 16).toNat = b.toNat % 16 := UInt8.toNat_mod b 16
  rw [pushNibble_eq (by omega), hhigh]
  change pushNibble (b % 16) (r ++ [Ascii.hexDigit (b.toNat / 16)]) = _
  rw [pushNibble_eq (by omega), hlow, List.append_assoc]
  rfl

/-- The loop over the bytes appends their hexadecimal digits. -/
theorem foldlM_pushByte (data r : Bytes) :
    data.foldlM (fun r b => do pushNibble (b % 16) (← pushNibble (b / 16) r)) r =
      (.ok (r ++ Ascii.hex data) : Except Error Bytes) := by
  induction data generalizing r with
  | nil =>
    rw [Ascii.hex, List.append_nil]
    rfl
  | cons b data ih =>
    rw [List.foldlM_cons, pushByte_eq]
    change data.foldlM _ _ = _
    rw [ih, List.append_assoc]
    rfl

theorem convertToAsciiHex_eq_ok {data r : Bytes} :
    convertToAsciiHex data = .ok r ↔ data.length < 2 ^ 30 ∧ r = Ascii.hex data := by
  unfold convertToAsciiHex
  simp only [foldlM_pushByte, List.nil_append, exists_ensure_eq_ok, bind_eq_ok, Except.ok.injEq]
  have hcapacity : data.length * 2 < 2 ^ usizeBits ∧
      data.length * 2 < 2 ^ (usizeBits - 1) - 1 ↔ data.length < 2 ^ 30 := by
    unfold usizeBits
    omega
  rw [← and_assoc, hcapacity, eq_comm]

theorem ethereumSignableMessage_eq_ok {what extra m : Bytes} :
    ethereumSignableMessage what extra = .ok m ↔
      (reefEvm ++ what ++ extra).length < 2 ^ usizeBits ∧
      m = signedMessage ++ Ascii.decimal (reefEvm ++ what ++ extra).length ++
        (reefEvm ++ what ++ extra) := by
  unfold ethereumSignableMessage
  simp only [exists_ensure_eq_ok, bind_eq_ok, pure, Except.pure, Except.ok.injEq]
  rw [reversedDigits_eq le_rfl, List.length_append, List.length_append]
  simp only [List.append_assoc]
  rw [eq_comm]

/-! ### The message determines the account -/

/-- What the owner of an address signs for an account with the encoding `w`. -/
def claimMessage (w : Bytes) : Except Error Bytes := do
  ethereumSignableMessage (← convertToAsciiHex w) []

/-- What stands in the message. It exists if the hexadecimal digits fit the memory. -/
theorem claimMessage_eq_ok {w m : Bytes} :
    claimMessage w = .ok m ↔ w.length < 2 ^ 30 ∧
      m = signedMessage ++ Ascii.decimal (reefEvm ++ Ascii.hex w).length ++
        (reefEvm ++ Ascii.hex w) := by
  unfold claimMessage
  simp only [bind_eq_ok, convertToAsciiHex_eq_ok, ethereumSignableMessage_eq_ok, List.append_nil]
  constructor
  · rintro ⟨_, ⟨hlength, rfl⟩, -, hm⟩
    exact ⟨hlength, hm⟩
  · rintro ⟨hlength, hm⟩
    refine ⟨Ascii.hex w, ⟨hlength, rfl⟩, ?_, hm⟩
    have hword : reefEvm.length = 9 := rfl
    rw [List.length_append, Ascii.length_hex, hword, usizeBits]
    omega

/-- **The message determines the account.** -/
theorem claimMessage_injective {w w' m : Bytes} (h : claimMessage w = .ok m)
    (h' : claimMessage w' = .ok m) : w = w' := by
  obtain ⟨-, hm⟩ := claimMessage_eq_ok.mp h
  obtain ⟨-, hm'⟩ := claimMessage_eq_ok.mp h'
  have hsame := hm.symm.trans hm'
  rw [List.append_assoc, List.append_assoc] at hsame
  have hbody := List.append_cancel_left hsame
  -- the digits of the length end at the letter `r`
  have hfield : ∀ n v, (Ascii.decimal n ++ (reefEvm ++ v)).takeWhile Ascii.isDigit =
      Ascii.decimal n := by
    intro n v
    exact Ascii.takeWhile_decimal n (c := 0x72) (by decide) _
  have hlength := congrArg (List.takeWhile Ascii.isDigit) hbody
  rw [hfield, hfield] at hlength
  rw [hlength] at hbody
  have hhex := List.append_cancel_left (List.append_cancel_left hbody)
  exact Ascii.hex_injective hhex

/-- Accounts have different encodings. -/
theorem encodeAccount_injective : Function.Injective encodeAccount := by
  intro who who' h
  have hbyte : ∀ i < 32, who.extractLsb' (8 * (31 - i)) 8 = who'.extractLsb' (8 * (31 - i)) 8 := by
    intro i hi
    have hmap := List.map_inj_left.mp h i (List.mem_range.mpr hi)
    exact UInt8.ofBitVec.inj hmap
  apply BitVec.eq_of_getLsbD_eq
  intro j hj
  -- the bit `j` stands in the byte `31 - j / 8`
  have hbit := congrArg (BitVec.getLsbD · (j % 8)) (hbyte (31 - j / 8) (by omega))
  have hindex : 8 * (31 - (31 - j / 8)) + j % 8 = j := by omega
  have hsmall : j % 8 < 8 := Nat.mod_lt j (by decide)
  simp only [BitVec.getLsbD_extractLsb', hsmall, decide_true, Bool.true_and, hindex] at hbit
  exact hbit

theorem length_encodeAccount (who : AccountId) : (encodeAccount who).length = 32 := by
  rw [encodeAccount, List.length_map, List.length_range]

/-! ### Signatures -/

/-- The signature `sig` of the hash `digest` is one by the owner of the address `a`. -/
def Signs (K : Crypto) (sig : EcdsaSignature) (digest : H256) (a : EvmAddress) : Prop :=
  ∃ key, K.secp256k1EcdsaRecover sig digest = some key ∧
    (K.keccak256 key).extractLsb' 0 160 = a

/-- A signature is accepted for an account if it is one of the hash of the account's message. -/
theorem recoverFor_eq_ok {K : Crypto} {sig : EcdsaSignature} {who : AccountId} {a : EvmAddress} :
    recoverFor K sig who = .ok a ↔
      ∃ m, claimMessage (encodeAccount who) = .ok m ∧ Signs K sig (K.keccak256 m) a := by
  unfold recoverFor ethRecover claimMessage Signs
  simp only [bind_eq_ok, okOr_eq_ok, pure, Except.pure, Except.ok.injEq]
  constructor
  · rintro ⟨digits, hdigits, m, hm, hkey⟩
    exact ⟨m, ⟨digits, hdigits, hm⟩, hkey⟩
  · rintro ⟨m, ⟨digits, hdigits, hm⟩, hkey⟩
    exact ⟨digits, hdigits, m, hm, hkey⟩

/-- The messages that are signed for accounts. -/
def claimMessages : Set Bytes := {m | ∃ who, claimMessage (encodeAccount who) = .ok m}

/-- **Some signature is shared.** There are more accounts than addresses, so a signature from which
an address is recovered for more than `2 ^ 160` accounts gives two of them the same address,
whatever the hash is. -/
theorem exists_shared_signature {K : Crypto} {sig : EcdsaSignature} {S : Finset AccountId}
    (hcard : 2 ^ 160 < S.card) (hrecovers : ∀ who ∈ S, ∃ a, recoverFor K sig who = .ok a) :
    ∃ who ∈ S, ∃ who' ∈ S, who ≠ who' ∧
      ∃ a, recoverFor K sig who = .ok a ∧ recoverFor K sig who' = .ok a := by
  choose! a ha using hrecovers
  have hfew : (Finset.univ : Finset (Fin (2 ^ 160))).card < S.card := by
    rw [Finset.card_univ, Fintype.card_fin]
    exact hcard
  obtain ⟨who, hwho, who', hwho', hne, heq⟩ :=
    Finset.exists_ne_map_eq_of_card_lt_of_maps_to hfew (f := fun who => (a who).toFin)
      fun _ _ => Finset.mem_coe.mpr (Finset.mem_univ _)
  have hsame : a who = a who' := BitVec.eq_of_toFin_eq heq
  refine ⟨who, hwho, who', hwho', hne, a who, ha who hwho, ?_⟩
  rw [hsame]
  exact ha who' hwho'

/-- Functions for a small example: the hash of a text is the number in its last 64 hexadecimal
digits, and the key recovered from a hash consists of the 64 hexadecimal digits of the hash. -/
def readableCrypto : Crypto where
  keccak256 m := BitVec.ofNat 256 (Scale.leNat (Ascii.unhex (m.drop (m.length - 64))))
  secp256k1EcdsaRecover _ digest := some (Ascii.hex (encodeAccount digest))
  defaultAddress x := x.setWidth 160

theorem readableCrypto_keccak256 (text : Bytes) (x : BitVec 256) :
    readableCrypto.keccak256 (text ++ Ascii.hex (encodeAccount x)) =
      BitVec.ofNat 256 (Scale.leNat (encodeAccount x)) := by
  have hdigits : (Ascii.hex (encodeAccount x)).length = 64 := by
    rw [Ascii.length_hex, length_encodeAccount]
  unfold readableCrypto
  simp only []
  rw [List.length_append, hdigits, Nat.add_sub_cancel, List.drop_left', Ascii.unhex_hex]
  rfl

/-- The hash tells all texts apart that end in different digits. -/
theorem readableCrypto_inj {text text' : Bytes} {x x' : BitVec 256}
    (h : readableCrypto.keccak256 (text ++ Ascii.hex (encodeAccount x)) =
      readableCrypto.keccak256 (text' ++ Ascii.hex (encodeAccount x'))) : x = x' := by
  have hlength : (encodeAccount x).length = (encodeAccount x').length := by
    rw [length_encodeAccount, length_encodeAccount]
  have hlt : ∀ y : BitVec 256, Scale.leNat (encodeAccount y) < 2 ^ 256 := by
    intro y
    have hbound := Scale.leNat_lt (encodeAccount y)
    rw [length_encodeAccount] at hbound
    exact hbound
  rw [readableCrypto_keccak256, readableCrypto_keccak256] at h
  have hnumber := congrArg BitVec.toNat h
  rw [BitVec.toNat_ofNat, BitVec.toNat_ofNat, Nat.mod_eq_of_lt (hlt x),
    Nat.mod_eq_of_lt (hlt x')] at hnumber
  exact encodeAccount_injective (Scale.leNat_inj hlength hnumber)

theorem readableCrypto_injOn : Set.InjOn readableCrypto.keccak256 claimMessages := by
  rintro m ⟨who, hm⟩ m' ⟨who', hm'⟩ h
  obtain ⟨-, rfl⟩ := claimMessage_eq_ok.mp hm
  obtain ⟨-, rfl⟩ := claimMessage_eq_ok.mp hm'
  rw [← List.append_assoc, ← List.append_assoc] at h
  rw [readableCrypto_inj h]

/-- An account claims the address that is read off the hash of the hash of its message. -/
theorem readableCrypto_claim (who : AccountId) (sig : EcdsaSignature) {hash : H256}
    {a : EvmAddress} (hhash : BitVec.ofNat 256 (Scale.leNat (encodeAccount who)) = hash)
    (ha : (BitVec.ofNat 256 (Scale.leNat (encodeAccount hash))).extractLsb' 0 160 = a) :
    ∃ t, claimAccount readableCrypto silent who genesis a sig = .ok t := by
  have hlength : (encodeAccount who).length < 2 ^ 30 := by
    rw [length_encodeAccount]
    decide
  have hrecover : recoverFor readableCrypto sig who = .ok a := by
    refine recoverFor_eq_ok.mpr ⟨_, claimMessage_eq_ok.mpr ⟨hlength, rfl⟩, _, rfl, ?_⟩
    rw [← List.append_assoc, readableCrypto_keccak256, hhash, ← ha]
    exact congrArg (BitVec.extractLsb' 0 160) (readableCrypto_keccak256 [] hash)
  exact ⟨_, claimAccount_eq_ok.mpr ⟨Finmap.notMem_empty, Finmap.notMem_empty, hrecover, _, rfl,
    rfl, rfl⟩⟩

/-- A signature for the example. -/
def sampleSignature : EcdsaSignature := List.replicate 65 0

/-- An account that agrees with account `1` in its last 160 bits. -/
def longAccount : AccountId := BitVec.ofNat 256 (2 ^ 160 + 1)

theorem readableCrypto_claim_one :
    ∃ t, claimAccount readableCrypto silent 1 genesis 1 sampleSignature = .ok t :=
  readableCrypto_claim 1 sampleSignature rfl (by decide +kernel)

theorem readableCrypto_claim_longAccount :
    ∃ t, claimAccount readableCrypto silent longAccount genesis 1 sampleSignature = .ok t :=
  readableCrypto_claim longAccount sampleSignature rfl (by decide +kernel)

/-- **Claim messages are unambiguous.** A message belongs to one byte string only, and every byte
string has one whose hexadecimal digits fit the memory. If the hash tells the messages of accounts
apart, a signature with which two accounts have claimed an address is one by its owner of two
different hashes. Between the header, which ends in a newline, and the word `reef evm:` stand the
decimal digits of the number of bytes that follow them, and the first one is not a zero. -/
theorem claim_messages_unambiguous :
    (∀ w w' m, claimMessage w = .ok m → claimMessage w' = .ok m → w = w') ∧
    (∀ w, (∃ m, claimMessage w = .ok m) ↔ w.length < 2 ^ 30) ∧
    (∀ K : Crypto, Set.InjOn K.keccak256 claimMessages →
      ∀ o o' who who' s s' t t' a sig, claimAccount K o who s a sig = .ok t →
        claimAccount K o' who' s' a sig = .ok t' → who ≠ who' →
          ∃ digest digest', digest ≠ digest' ∧ Signs K sig digest a ∧ Signs K sig digest' a) ∧
    (∀ what extra m, ethereumSignableMessage what extra = .ok m →
      ∃ digits, m = signedMessage ++ digits ++ (reefEvm ++ what ++ extra) ∧
        digits = Ascii.decimal (reefEvm ++ what ++ extra).length ∧
        digits.head? ≠ some 0x30 ∧ (∀ b ∈ digits, Ascii.isDigit b = true) ∧
        Ascii.readDecimal digits = (reefEvm ++ what ++ extra).length) := by
  refine ⟨fun w w' m => claimMessage_injective, ?_, ?_, ?_⟩
  · intro w
    constructor
    · rintro ⟨m, hm⟩
      exact (claimMessage_eq_ok.mp hm).1
    · intro hlength
      exact ⟨_, claimMessage_eq_ok.mpr ⟨hlength, rfl⟩⟩
  · intro K hhash o o' who who' s s' t t' a sig hclaim hclaim' hne
    -- each claim was signed for the message of its own account
    obtain ⟨-, -, hrecover, -⟩ := claimAccount_eq_ok.mp hclaim
    obtain ⟨-, -, hrecover', -⟩ := claimAccount_eq_ok.mp hclaim'
    obtain ⟨m, hm, hsigns⟩ := recoverFor_eq_ok.mp hrecover
    obtain ⟨m', hm', hsigns'⟩ := recoverFor_eq_ok.mp hrecover'
    refine ⟨K.keccak256 m, K.keccak256 m', ?_, hsigns, hsigns'⟩
    -- one hash would mean one message, and one account
    intro hcollides
    have hmessages : m = m' := hhash ⟨who, hm⟩ ⟨who', hm'⟩ hcollides
    rw [← hmessages] at hm'
    exact hne (encodeAccount_injective (claimMessage_injective hm hm'))
  · intro what extra m hm
    obtain ⟨-, rfl⟩ := ethereumSignableMessage_eq_ok.mp hm
    exact ⟨_, rfl, rfl, Ascii.head_decimal_ne _, fun b => Ascii.isDigit_of_mem_decimal,
      Ascii.readDecimal_decimal _⟩

/-- Two accounts claim address `1` with one signature. It is a signature of two hashes then. -/
theorem claim_messages_unambiguous_readable :
    (∃ t, claimAccount readableCrypto silent 1 genesis 1 sampleSignature = .ok t) ∧
    (∃ t, claimAccount readableCrypto silent longAccount genesis 1 sampleSignature = .ok t) ∧
    ∃ digest digest', digest ≠ digest' ∧ Signs readableCrypto sampleSignature digest 1 ∧
      Signs readableCrypto sampleSignature digest' 1 := by
  obtain ⟨t, ht⟩ := readableCrypto_claim_one
  obtain ⟨t', ht'⟩ := readableCrypto_claim_longAccount
  exact ⟨⟨t, ht⟩, ⟨t', ht'⟩, claim_messages_unambiguous.2.2.1 readableCrypto readableCrypto_injOn
    silent silent 1 longAccount genesis genesis t t' 1 sampleSignature ht ht' (by decide +kernel)⟩

/-- **A signature can be valid for two accounts.** The hash collides neither on the messages nor on
the keys, and different hashes give different keys. The address keeps 160 bits of the hash of the
key, and the accounts differ in the others. -/
theorem signature_valid_for_two_accounts :
    Set.InjOn readableCrypto.keccak256 claimMessages ∧
    Function.Injective (readableCrypto.secp256k1EcdsaRecover sampleSignature) ∧
    Set.InjOn readableCrypto.keccak256
      {key | ∃ digest, readableCrypto.secp256k1EcdsaRecover sampleSignature digest = some key} ∧
    (1 : AccountId) ≠ longAccount ∧
    (∃ t, claimAccount readableCrypto silent 1 genesis 1 sampleSignature = .ok t) ∧
    ∃ t, claimAccount readableCrypto silent longAccount genesis 1 sampleSignature = .ok t := by
  refine ⟨readableCrypto_injOn, ?_, ?_, by decide +kernel, readableCrypto_claim_one,
    readableCrypto_claim_longAccount⟩
  · intro digest digest' h
    exact encodeAccount_injective (Ascii.hex_injective (Option.some.inj h))
  · rintro key ⟨digest, hkey⟩ key' ⟨digest', hkey'⟩ h
    obtain rfl := Option.some.inj hkey
    obtain rfl := Option.some.inj hkey'
    have hdigest : digest = digest' := @readableCrypto_inj [] [] digest digest' h
    rw [hdigest]

end EvmAccounts
end Reef
