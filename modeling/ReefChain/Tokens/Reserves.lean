import ReefChain.Tokens.Locks

/-!
# Named reserves

A named reserve is a part of the reserved balance of an account that is booked under an identifier.
The names of an account are kept in a vector that is sorted by identifier and searched by bisection.
The operations on named reserves take out of the vector and out of the reserved balance at the same
time, and the source notes at several places that the reserved balance "should always" be enough.

* Every operation keeps the vector sorted, without repetitions, and not longer than allowed, so that
  the bisection finds what is there (`KeepsNames.sound`).
* The reserved balance covers the named reserves, as long as it is only taken from through names
  (`named_le_reserved`). The operations without names do not look at the vector: unreserving or
  slashing through them uncovers the names.

What the operations on names move, where the reserved balance covers them, is the subject of
`ReefChain.Tokens.Exact`.
-/

namespace Reef.Tokens

open Bounded Fallible

variable {α κ ι : Type} [DecidableEq α] [DecidableEq κ] {cfg : Config α κ} {s s' : State α κ ι}
  {who w : α} {c d : κ} {rs rs' : List (ReserveData ι)}

/-! ### The reserved balance after the operations without names -/

/-- Unreserving takes from the reserved balance of the account what it does not return. -/
theorem unreserve_reserved (cfg : Config α κ) (s : State α κ ι) (c : κ) (who : α) (value : ℕ) :
    (unreserve cfg s c who value).2 ≤ value ∧
      ((unreserve cfg s c who value).1.account who c).reserved +
        (value - (unreserve cfg s c who value).2) = (s.account who c).reserved := by
  unfold unreserve
  split
  · exact ⟨Nat.le_refl _, by simp⟩
  · refine ⟨Nat.sub_le _ _, ?_⟩
    have hreserved : ((mutateAccount cfg (handler cfg) s who c fun a =>
        { a with
          reserved := a.reserved - min (s.account who c).reserved value
          free := satAdd balanceBits a.free (min (s.account who c).reserved value) }).account
        who c).reserved = (s.account who c).reserved - min (s.account who c).reserved value :=
      finish_reserved_self
    simp only [hreserved]
    omega

/-- Slashing the reserved balance takes from it what it does not return. -/
theorem slashReserved_reserved (cfg : Config α κ) (s : State α κ ι) (c : κ) (who : α) (value : ℕ) :
    (slashReserved cfg s c who value).2 ≤ value ∧
      ((slashReserved cfg s c who value).1.account who c).reserved +
        (value - (slashReserved cfg s c who value).2) = (s.account who c).reserved := by
  unfold slashReserved
  split
  · exact ⟨Nat.le_refl _, by simp⟩
  · refine ⟨Nat.sub_le _ _, ?_⟩
    have hreserved : ((mutateAccount cfg (handler cfg) s who c fun a =>
        { a with reserved := (s.account who c).reserved - min (s.account who c).reserved value
          }).account who c).reserved =
        (s.account who c).reserved - min (s.account who c).reserved value :=
      finish_reserved_self
    simp only [account_setIssuance, hreserved]
    omega

/-- A repatriation between different accounts takes from one reserved balance what it does not
return, and adds it to the other one if it stays reserved. -/
theorem repatriateReserved_reserved (cfg : Config α κ) (hb : Covered s) {slashed beneficiary : α}
    (hne : slashed ≠ beneficiary) (value : ℕ) (status : BalanceStatus) :
    (repatriateReserved cfg s c slashed beneficiary value status).2 ≤ value ∧
      ((repatriateReserved cfg s c slashed beneficiary value status).1.account slashed c).reserved +
        (value - (repatriateReserved cfg s c slashed beneficiary value status).2) =
        (s.account slashed c).reserved ∧
      (status = .reserved →
        ((repatriateReserved cfg s c slashed beneficiary value status).1.account
          beneficiary c).reserved = (s.account beneficiary c).reserved +
          (value - (repatriateReserved cfg s c slashed beneficiary value status).2)) := by
  unfold repatriateReserved
  by_cases hvalue : value = 0
  · rw [if_pos hvalue]
    exact ⟨Nat.le_refl _, by simp, fun _ => by simp⟩
  rw [if_neg hvalue, if_neg hne]
  simp only []
  set actual := min (s.account slashed c).reserved value with hactual
  have hpair : (beneficiary, c) ≠ (slashed, c) := fun heq => hne (congrArg Prod.fst heq).symm
  -- the slashed account is written last, from what was read before
  have hfirst : ((setReservedBalance cfg
      (creditStatus cfg s c beneficiary (s.account beneficiary c) actual status) c slashed
      ((s.account slashed c).reserved - actual)).account slashed c).reserved =
      (s.account slashed c).reserved - actual := finish_reserved_self
  have hsecond : ((setReservedBalance cfg
      (creditStatus cfg s c beneficiary (s.account beneficiary c) actual status) c slashed
      ((s.account slashed c).reserved - actual)).account beneficiary c).reserved =
      ((creditStatus cfg s c beneficiary (s.account beneficiary c) actual status).account
        beneficiary c).reserved := finish_reserved_of_ne hpair
  refine ⟨Nat.sub_le _ _, by rw [hfirst]; omega, ?_⟩
  rintro rfl
  have hcredited : ((creditStatus cfg s c beneficiary (s.account beneficiary c) actual
      .reserved).account beneficiary c).reserved =
      satAdd balanceBits (s.account beneficiary c).reserved actual := finish_reserved_self
  -- both balances are part of the issuance, so nothing is clipped
  have hboth : (s.account slashed c).sum + (s.account beneficiary c).sum ≤ s.totalIssuance c :=
    hb.sum_add_sum_le hne
  have hfits := (hb c).2
  unfold AccountData.sum at hboth
  rw [hsecond, hcredited, satAdd_of_lt (by omega)]
  omega

theorem reservesOf_setReserves_self (s : State α κ ι) (who : α) (c : κ)
    (rs : List (ReserveData ι)) :
    (s.setReserves who c rs).reservesOf who c = rs := by
  unfold State.setReserves State.reservesOf
  simp

theorem lookup_setReserves_of_ne (hne : (w, d) ≠ (who, c)) :
    (s.setReserves who c rs).reserves.lookup (w, d) = s.reserves.lookup (w, d) :=
  Finmap.lookup_insert_of_ne _ hne

theorem reserve_eq_ok {value : ℕ} (hvalue : value ≠ 0) (h : reserve cfg s c who value = .ok s') :
    value ≤ (s.account who c).free ∧
      s' = mutateAccount cfg (handler cfg) s who c fun a =>
        { a with free := a.free - value, reserved := satAdd balanceBits a.reserved value } := by
  unfold reserve at h
  rw [if_neg hvalue] at h
  simp only [bind_eq_ok, ensureCanWithdraw_eq_ok hvalue, Except.ok.injEq] at h
  obtain ⟨-, ⟨hle, -⟩, rfl⟩ := h
  exact ⟨hle, rfl⟩

/-- Reserving adds to the reserved balance and leaves the names. -/
theorem reserve_reserved {value : ℕ} (hb : Covered s) (hvalue : value ≠ 0)
    (h : reserve cfg s c who value = .ok s') :
    (s'.account who c).reserved = (s.account who c).reserved + value ∧
      s'.reserves = s.reserves := by
  obtain ⟨hle, rfl⟩ := reserve_eq_ok hvalue h
  have hfits := hb.account_fits who c
  unfold AccountData.Fits at hfits
  refine ⟨?_, finish_reserves⟩
  have hwritten : ((mutateAccount cfg (handler cfg) s who c fun a =>
      { a with free := a.free - value, reserved := satAdd balanceBits a.reserved value }).account
      who c).reserved = satAdd balanceBits (s.account who c).reserved value := finish_reserved_self
  rw [hwritten, satAdd_of_lt (by omega)]

theorem reservesOf_writeOrRemove (s : State α κ ι) (who : α) (c : κ) (rs : List (ReserveData ι))
    (i amount : ℕ) : (writeOrRemove s who c rs i amount).reservesOf who c =
      if amount = 0 then if rs.length = 1 then [] else rs.eraseIdx i
      else setAmountAt rs i amount := by
  unfold writeOrRemove
  split
  · split
    · unfold State.reservesOf
      simp
    · exact reservesOf_setReserves_self _ _ _ _
  · exact reservesOf_setReserves_self _ _ _ _

variable {amount : ℕ}

theorem lookup_writeOrRemove_of_ne {i : ℕ} (hne : (w, d) ≠ (who, c)) :
    (writeOrRemove s who c rs i amount).reserves.lookup (w, d) = s.reserves.lookup (w, d) := by
  unfold writeOrRemove
  split
  · split
    · exact Finmap.lookup_erase_ne hne
    · exact lookup_setReserves_of_ne hne
  · exact lookup_setReserves_of_ne hne

/-- Changing locks leaves the names and the reserved balances. -/
theorem LockChange.make_names (cfg : Config α κ) (s : State α κ ι) (c : κ) (who : α)
    (change : LockChange) (w : α) (d : κ) :
    (change.make cfg s c who).1.reserves = s.reserves ∧
      ((change.make cfg s c who).1.account w d).reserved = (s.account w d).reserved := by
  rcases change.make_cases cfg s c who with ⟨-, hmake⟩ | ⟨locks, -, hmake⟩
  · rw [hmake]
    exact ⟨rfl, rfl⟩
  · obtain ⟨-, stored, system, hwritten⟩ := updateLocks_eq cfg s c who locks
    rw [hmake, hwritten]
    refine ⟨finish_reserves, ?_⟩
    by_cases hkey : (w, d) = (who, c)
    · obtain ⟨rfl, rfl⟩ := Prod.mk.inj hkey
      exact finish_reserved_self
    · exact finish_reserved_of_ne hkey

section Vector

variable [LinearOrder ι] {id : ι} {i amount : ℕ}

/-! ### The vector -/

/-- What is booked in a vector of named reserves. -/
def booked (rs : List (ReserveData ι)) : ℕ := (rs.map (·.amount)).sum

/-- The entry that a search finds splits the vector. -/
theorem findReserve_split (hsorted : SortedVec.Sorted ReserveData.id rs)
    (h : findReserve rs id = .ok i) : ∃ before data behind,
      rs = before ++ data :: behind ∧ before.length = i ∧ data.id = id ∧
        amountAt rs i = data.amount ∧ booked rs = booked before + data.amount + booked behind := by
  obtain ⟨before, data, behind, rfl, rfl, hid⟩ := SortedVec.search_eq_ok hsorted h
  refine ⟨before, data, behind, rfl, rfl, hid, ?_, ?_⟩
  · unfold amountAt
    rw [SortedVec.getElem?_append_length]
    rfl
  · simp [booked, Nat.add_assoc]

/-- Overwriting an amount that was found. -/
theorem setAmountAt_sound (hsorted : SortedVec.Sorted ReserveData.id rs)
    (h : findReserve rs id = .ok i) (v : ℕ) :
    SortedVec.Sorted ReserveData.id (setAmountAt rs i v) ∧
      (setAmountAt rs i v).length = rs.length ∧
      booked (setAmountAt rs i v) + amountAt rs i = booked rs + v := by
  obtain ⟨before, data, behind, rfl, rfl, -, hamount, hbooked⟩ := findReserve_split hsorted h
  rw [hamount, hbooked]
  unfold setAmountAt
  rw [SortedVec.modify_append_length]
  refine ⟨hsorted.replace rfl, by simp, ?_⟩
  simp only [booked, List.map_append, List.map_cons, List.sum_append, List.sum_cons]
  omega

/-- Removing an entry that was found. -/
theorem eraseIdx_sound (hsorted : SortedVec.Sorted ReserveData.id rs)
    (h : findReserve rs id = .ok i) :
    SortedVec.Sorted ReserveData.id (rs.eraseIdx i) ∧ (rs.eraseIdx i).length ≤ rs.length ∧
      booked (rs.eraseIdx i) + amountAt rs i = booked rs := by
  obtain ⟨before, data, behind, rfl, rfl, -, hamount, hbooked⟩ := findReserve_split hsorted h
  rw [hamount, hbooked]
  refine ⟨hsorted.sublist (List.eraseIdx_sublist _ _), (List.eraseIdx_sublist _ _).length_le, ?_⟩
  rw [SortedVec.eraseIdx_append_length]
  simp only [booked, List.map_append, List.sum_append]
  omega

theorem amountAt_le_booked (hsorted : SortedVec.Sorted ReserveData.id rs)
    (h : findReserve rs id = .ok i) : amountAt rs i ≤ booked rs := by
  obtain ⟨_, _, _, -, -, -, hamount, hbooked⟩ := findReserve_split hsorted h
  omega

omit [DecidableEq α] [DecidableEq κ] in
/-- Booking an amount keeps the order, and books no more than the amount. -/
theorem bookNamed_sound (hsorted : SortedVec.Sorted ReserveData.id rs)
    (h : bookNamed cfg rs id amount = .ok rs') :
    SortedVec.Sorted ReserveData.id rs' ∧
      (rs.length ≤ cfg.maxReserves → rs'.length ≤ cfg.maxReserves) ∧
      booked rs' ≤ booked rs + amount := by
  unfold bookNamed at h
  split at h
  · next i hi =>
    cases h
    obtain ⟨hsorted', hlength, hbooked⟩ := setAmountAt_sound hsorted hi
      (satAdd balanceBits (amountAt rs i) amount)
    refine ⟨hsorted', fun hle => hlength.trans_le hle, ?_⟩
    have hadd := satAdd_le_add balanceBits (amountAt rs i) amount
    omega
  · next i hi =>
    unfold tryInsert at h
    split at h
    · next hlt =>
      cases h
      have hnew : SortedVec.search ReserveData.id rs (ReserveData.id ⟨id, amount⟩) = .error i := hi
      refine ⟨hsorted.insertIdx hnew, fun _ => ?_, ?_⟩
      · exact List.length_insertIdx_le_succ.trans hlt
      · obtain ⟨before, behind, rfl, rfl, -, -⟩ := SortedVec.search_eq_error hsorted hi
        rw [SortedVec.insertIdx_append_length]
        simp only [booked, List.map_append, List.map_cons, List.sum_append, List.sum_cons]
        omega
    · cases h

/-! ### What covers the names -/

/-- What is booked under names of an account. -/
def named (s : State α κ ι) (w : α) (d : κ) : ℕ := booked (s.reservesOf w d)

/-- The vector of an account is sorted and not too long. -/
structure ReservesSound (cfg : Config α κ) (w : α) (d : κ) (s : State α κ ι) : Prop where
  sorted : SortedVec.Sorted ReserveData.id (s.reservesOf w d)
  bounded : (s.reservesOf w d).length ≤ cfg.maxReserves

/-- What a step makes of the names of an account: they stay sorted and not too many, and what the
reserved balance exceeds them by does not shrink. -/
structure KeepsNames (cfg : Config α κ) (R : Prop) (w : α) (d : κ) (s s' : State α κ ι) :
    Prop where
  sound : ReservesSound cfg w d s → ReservesSound cfg w d s'
  slack : ReservesSound cfg w d s → R →
    named s' w d + (s.account w d).reserved ≤ named s w d + (s'.account w d).reserved

variable {R : Prop}

/-- An operation that leaves the vector and does not take from the reserved balance. -/
theorem KeepsNames.of_same (hreserves : s'.reserves.lookup (w, d) = s.reserves.lookup (w, d))
    (hreserved : R → (s.account w d).reserved ≤ (s'.account w d).reserved) :
    KeepsNames cfg R w d s s' := by
  have hsame : s'.reservesOf w d = s.reservesOf w d := congrArg (Option.getD · []) hreserves
  refine ⟨fun h => ?_, fun _ hR => ?_⟩
  · refine ⟨?_, ?_⟩
    · rw [hsame]
      exact h.sorted
    · rw [hsame]
      exact h.bounded
  · unfold named
    rw [hsame]
    exact Nat.add_le_add_left (hreserved hR) _

theorem KeepsNames.congr {s₁ : State α κ ι} (h : KeepsNames cfg R w d s s₁)
    (hreserves : s'.reserves.lookup (w, d) = s₁.reserves.lookup (w, d))
    (haccount : s'.account w d = s₁.account w d) : KeepsNames cfg R w d s s' := by
  have hsame : s'.reservesOf w d = s₁.reservesOf w d := congrArg (Option.getD · []) hreserves
  refine ⟨fun hsound => ?_, fun hsound hR => ?_⟩
  · obtain ⟨hsorted, hbounded⟩ := h.sound hsound
    refine ⟨?_, ?_⟩
    · rw [hsame]
      exact hsorted
    · rw [hsame]
      exact hbounded
  · have hslack := h.slack hsound hR
    unfold named at hslack ⊢
    rw [hsame, haccount]
    exact hslack

/-- An operation that writes the vector of the account. -/
theorem KeepsNames.of_vector (hvector : s'.reservesOf w d = rs')
    (hsound : ReservesSound cfg w d s → SortedVec.Sorted ReserveData.id rs' ∧
      rs'.length ≤ cfg.maxReserves ∧
        booked rs' + (s.account w d).reserved ≤ named s w d + (s'.account w d).reserved) :
    KeepsNames cfg R w d s s' := by
  refine ⟨fun h => ?_, fun h _ => ?_⟩
  · obtain ⟨hsorted, hlength, -⟩ := hsound h
    refine ⟨?_, ?_⟩
    · rw [hvector]
      exact hsorted
    · rw [hvector]
      exact hlength
  · unfold named at *
    rw [hvector]
    exact (hsound h).2.2

theorem reserveNamed_keepsNames {value : ℕ} (hb : Covered s)
    (h : reserveNamed cfg s id c who value = .ok s') : KeepsNames cfg R w d s s' := by
  unfold reserveNamed at h
  by_cases hvalue : value = 0
  · rw [if_pos hvalue] at h
    cases h
    exact .of_same rfl fun _ => Nat.le_refl _
  rw [if_neg hvalue] at h
  simp only [bind_eq_ok, Except.ok.injEq] at h
  obtain ⟨rs, hrs, s₁, hs₁, rfl⟩ := h
  obtain ⟨hreserved, hreserves⟩ := reserve_reserved hb hvalue hs₁
  by_cases hkey : (w, d) = (who, c)
  · obtain ⟨rfl, rfl⟩ := Prod.mk.inj hkey
    refine .of_vector (reservesOf_setReserves_self _ _ _ _) fun hsound => ?_
    obtain ⟨hsorted, hlength, hbooked⟩ := bookNamed_sound hsound.sorted hrs
    refine ⟨hsorted, hlength hsound.bounded, ?_⟩
    rw [account_setReserves, hreserved]
    unfold named
    omega
  · refine .of_same ?_ fun _ => ?_
    · rw [lookup_setReserves_of_ne hkey, hreserves]
    · exact (reserve_kept (F := True) (R := True) hb hs₁).reserved trivial

/-- Taking `actual` from an entry and from the reserved balance. -/
theorem KeepsNames.of_taken {actual : ℕ} (hfind : findReserve (s.reservesOf w d) id = .ok i)
    (hactual : actual ≤ amountAt (s.reservesOf w d) i)
    (hvector : s'.reservesOf w d =
      setAmountAt (s.reservesOf w d) i (amountAt (s.reservesOf w d) i - actual))
    (hreserved : (s'.account w d).reserved + actual = (s.account w d).reserved) :
    KeepsNames cfg R w d s s' := by
  refine .of_vector hvector fun hsound => ?_
  obtain ⟨hsorted, hlength, hbooked⟩ := setAmountAt_sound hsound.sorted hfind
    (amountAt (s.reservesOf w d) i - actual)
  refine ⟨hsorted, hlength.trans_le hsound.bounded, ?_⟩
  unfold named
  omega

/-- Releasing `actual` of a named reserve that is found, from the vector and from the reserved
balance: an entry that is used up goes, and with the last one the whole vector. -/
theorem KeepsNames.of_released {actual : ℕ} {s₁ : State α κ ι}
    (hfind : findReserve (s.reservesOf w d) id = .ok i)
    (hactual : actual ≤ amountAt (s.reservesOf w d) i)
    (hreserved : (s₁.account w d).reserved + actual = (s.account w d).reserved) :
    KeepsNames cfg R w d s (writeOrRemove s₁ w d (s.reservesOf w d) i
      (amountAt (s.reservesOf w d) i - actual)) := by
  have haccount : (writeOrRemove s₁ w d (s.reservesOf w d) i
      (amountAt (s.reservesOf w d) i - actual)).account = s₁.account := by
    obtain ⟨reserves, hwritten⟩ := writeOrRemove_eq s₁ w d (s.reservesOf w d) i
      (amountAt (s.reservesOf w d) i - actual)
    rw [hwritten]
    rfl
  refine .of_vector (reservesOf_writeOrRemove _ _ _ _ _ _) fun hsound => ?_
  have hle := amountAt_le_booked hsound.sorted hfind
  rw [haccount]
  unfold named
  split_ifs with hzero hlast
  · refine ⟨List.Pairwise.nil, Nat.zero_le _, ?_⟩
    simp only [booked, List.map_nil, List.sum_nil] at *
    omega
  · obtain ⟨hsorted, hlength, hbooked⟩ := eraseIdx_sound hsound.sorted hfind
    exact ⟨hsorted, hlength.trans hsound.bounded, by omega⟩
  · obtain ⟨hsorted, hlength, hbooked⟩ := setAmountAt_sound hsound.sorted hfind
      (amountAt (s.reservesOf w d) i - actual)
    exact ⟨hsorted, hlength.trans_le hsound.bounded, by omega⟩

theorem unreserveNamed_keepsNames (hb : Covered s) (id : ι) (value : ℕ) :
    KeepsNames cfg R w d s (unreserveNamed cfg s id c who value).1 := by
  have hsame : KeepsNames cfg R w d s s := .of_same rfl fun _ => Nat.le_refl _
  unfold unreserveNamed
  split
  · exact hsame
  split
  · exact hsame
  · next rs hrs =>
    have hvector : s.reservesOf who c = rs := congrArg (Option.getD · []) hrs
    split
    · exact hsame
    · next i hfind =>
      simp only []
      obtain ⟨hrest, hreserved⟩ :=
        unreserve_reserved cfg s c who (min (amountAt rs i) value)
      -- the entry loses what the reserved balance loses
      by_cases hkey : (w, d) = (who, c)
      · obtain ⟨rfl, rfl⟩ := Prod.mk.inj hkey
        subst hvector
        exact .of_released hfind ((Nat.sub_le _ _).trans (Nat.min_le_left _ _)) hreserved
      · have hkept : Leaves cfg True ((w, d) ≠ (who, c)) w d s
            (unreserve cfg s c who (min (amountAt rs i) value)).1 := unreserve_kept hb _
        refine .of_same ?_ fun _ => ?_
        · rw [lookup_writeOrRemove_of_ne hkey, hkept.reserves]
        · obtain ⟨reserves, hwritten⟩ := writeOrRemove_eq
            (unreserve cfg s c who (min (amountAt rs i) value)).1 who c rs i
            (amountAt rs i - (min (amountAt rs i) value -
              (unreserve cfg s c who (min (amountAt rs i) value)).2))
          rw [hwritten]
          exact hkept.reserved hkey

theorem slashReservedNamed_keepsNames (id : ι) (value : ℕ) :
    KeepsNames cfg R w d s (slashReservedNamed cfg s id c who value).1 := by
  unfold slashReservedNamed
  split
  · exact .of_same rfl fun _ => Nat.le_refl _
  simp only []
  split
  · -- nothing is found, and the vector is written back
    by_cases hkey : (w, d) = (who, c)
    · obtain ⟨rfl, rfl⟩ := Prod.mk.inj hkey
      refine .of_vector (reservesOf_setReserves_self _ _ _ _) fun hsound => ?_
      exact ⟨hsound.sorted, hsound.bounded, Nat.le_refl _⟩
    · exact .of_same (lookup_setReserves_of_ne hkey) fun _ => Nat.le_refl _
  · next i hfind =>
    set toChange := min (amountAt (s.reservesOf who c) i) value with htoChange
    obtain ⟨hrest, hreserved⟩ := slashReserved_reserved cfg s c who toChange
    by_cases hkey : (w, d) = (who, c)
    · obtain ⟨rfl, rfl⟩ := Prod.mk.inj hkey
      exact .of_taken hfind ((Nat.sub_le _ _).trans (Nat.min_le_left _ _))
        (reservesOf_setReserves_self _ _ _ _) hreserved
    · have hkept : Leaves cfg True ((w, d) ≠ (who, c)) w d s
          (slashReserved cfg s c who toChange).1 := slashReserved_kept toChange
      refine .of_same ?_ fun _ => hkept.reserved hkey
      rw [lookup_setReserves_of_ne hkey, hkept.reserves]

/-- What moving a named reserve does: it takes from the reserved balance of the slashed account, and
keeps the names of the others. -/
theorem moveNamed_eq_ok {slashed beneficiary : α} {toChange actual : ℕ} {status : BalanceStatus}
    (hb : Covered s) (hne : slashed ≠ beneficiary)
    (h : moveNamed cfg s id c slashed beneficiary toChange status = (s', .ok actual)) :
    actual ≤ toChange ∧
      (s'.account slashed c).reserved + actual = (s.account slashed c).reserved ∧
      (∀ {R : Prop} {w : α} {d : κ}, (w, d) ≠ (slashed, c) → KeepsNames cfg R w d s s') := by
  obtain ⟨hrest, htaken, hcredited⟩ :=
    repatriateReserved_reserved cfg hb hne toChange status (c := c)
  have hkept : ∀ (w : α) (d : κ), Leaves cfg True ((w, d) ≠ (slashed, c)) w d s
      (repatriateReserved cfg s c slashed beneficiary toChange status).1 :=
    fun w d => repatriateReserved_kept hb slashed beneficiary toChange status
  have hreserves := (hkept slashed c).reserves
  cases status with
  | free =>
    simp only [moveNamed, Prod.mk.injEq, Except.ok.injEq] at h
    obtain ⟨rfl, rfl⟩ := h
    refine ⟨Nat.sub_le _ _, htaken, fun hkey => .of_same ?_ fun _ => (hkept _ _).reserved hkey⟩
    rw [hreserves]
  | reserved =>
    unfold moveNamed at h
    simp only [] at h
    split at h
    · next rs hrs =>
      simp only [Prod.mk.injEq, Except.ok.injEq] at h
      obtain ⟨rfl, rfl⟩ := h
      refine ⟨Nat.sub_le _ _, htaken, fun {R w d} hkey => ?_⟩
      by_cases hbeneficiary : (w, d) = (beneficiary, c)
      · -- the amount is added to the vector and to the reserved balance
        obtain ⟨rfl, rfl⟩ := Prod.mk.inj hbeneficiary
        refine .of_vector (reservesOf_setReserves_self _ _ _ _) fun hsound => ?_
        obtain ⟨hsorted, hlength, hbooked⟩ := bookNamed_sound hsound.sorted hrs
        refine ⟨hsorted, hlength hsound.bounded, ?_⟩
        rw [account_setReserves, hcredited rfl]
        unfold named
        omega
      · refine .of_same ?_ fun _ => (hkept w d).reserved hkey
        rw [lookup_setReserves_of_ne hbeneficiary, hreserves]
    · cases h

theorem repatriateReservedNamed_keepsNames {slashed beneficiary : α} {value : ℕ}
    {status : BalanceStatus} (hb : Covered s)
    (h : committed (repatriateReservedNamed cfg s id c slashed beneficiary value status) = .ok s') :
    KeepsNames cfg R w d s s' := by
  have hsame : KeepsNames cfg R w d s s := .of_same rfl fun _ => Nat.le_refl _
  unfold repatriateReservedNamed at h
  split at h
  · cases h
    exact hsame
  split at h
  · split at h
    · cases h
      exact unreserveNamed_keepsNames hb id value
    · cases h
      exact hsame
  · -- to another account; the vector is written back even if the name is missing
    next hne =>
    simp only [] at h
    split at h
    · cases h
      by_cases hkey : (w, d) = (slashed, c)
      · obtain ⟨rfl, rfl⟩ := Prod.mk.inj hkey
        refine .of_vector (reservesOf_setReserves_self _ _ _ _) fun hsound => ?_
        exact ⟨hsound.sorted, hsound.bounded, Nat.le_refl _⟩
      · exact .of_same (lookup_setReserves_of_ne hkey) fun _ => Nat.le_refl _
    · next i hfind =>
      split at h
      · cases h
      · next s₁ actual hmove =>
        cases h
        -- the slashed account gives up as much as its entry
        obtain ⟨hle, htaken, hothers⟩ := moveNamed_eq_ok hb hne hmove
        by_cases hkey : (w, d) = (slashed, c)
        · obtain ⟨rfl, rfl⟩ := Prod.mk.inj hkey
          exact .of_taken hfind (hle.trans (Nat.min_le_left _ _))
            (reservesOf_setReserves_self _ _ _ _) htaken
        · exact (hothers hkey).congr (lookup_setReserves_of_ne hkey) rfl

/-- The operation may take from the reserved balance of the account without regard to names. -/
def TakesUnnamed (w : α) (d : κ) : Operation α κ ι → Prop
  | .unreserveNamed _ _ _ _ => False
  | .slashReservedNamed _ _ _ _ => False
  | .repatriateReservedNamed _ _ _ _ _ _ => False
  | op => TakesReserved w d op

omit [DecidableEq α] [DecidableEq κ] [LinearOrder ι] in
theorem takesUnnamed_iff {op : Operation α κ ι} (hnamed : ¬ NamesReserve op) :
    TakesUnnamed w d op ↔ TakesReserved w d op := by
  cases op with
  | unreserveNamed | slashReservedNamed | repatriateReservedNamed => exact absurd trivial hnamed
  | _ => exact Iff.rfl

/-- **What an operation makes of the names of an account.** -/
theorem apply_keepsNames {op : Operation α κ ι} (hb : Covered s) (h : apply cfg s op = .ok s') :
    KeepsNames cfg (¬ TakesUnnamed w d op) w d s s' := by
  by_cases hnamed : NamesReserve op
  · cases op with
    | reserveNamed id who c value => exact reserveNamed_keepsNames hb h
    | unreserveNamed id who c value =>
      cases h
      exact unreserveNamed_keepsNames hb id value
    | slashReservedNamed id who c value =>
      cases h
      exact slashReservedNamed_keepsNames id value
    | repatriateReservedNamed id slashed beneficiary c value status =>
      exact repatriateReservedNamed_keepsNames hb h
    | _ => cases hnamed
  · cases hlock : lockRequest op with
    | some r =>
      rw [(apply_of_lockRequest hlock h).1]
      have hnames := r.change.make_names cfg s r.c r.who w d
      exact .of_same (by rw [hnames.1]) fun _ => hnames.2.ge
    | none =>
      -- the other operations leave all vectors
      have hleaves : Leaves cfg (¬ TakesFree w d op) (¬ TakesReserved w d op) w d s s' :=
        apply_leaves hb hlock hnamed h
      refine .of_same (by rw [hleaves.reserves]) fun hR => ?_
      exact hleaves.reserved ((takesUnnamed_iff hnamed).not.mp hR)

theorem step_keepsNames (op : Operation α κ ι) (hb : Covered s) :
    KeepsNames cfg (¬ TakesUnnamed w d op) w d s (step cfg s op) := by
  rcases commitOrKeep_cases (apply cfg s op) s with ⟨s', hs', hcommit⟩ | ⟨-, hkeep⟩
  · rw [step, hcommit]
    exact apply_keepsNames hb hs'
  · rw [step, hkeep]
    exact .of_same rfl fun _ => Nat.le_refl _

/-! ### Whole runs -/

omit [LinearOrder ι] in
theorem genesisBuild_reserves {balances : List ((α × κ) × ℕ)}
    (h : genesisBuild cfg balances = some s) : s.reserves = ∅ := by
  unfold genesisBuild at h
  split at h
  · next hnodup =>
    clear hnodup
    have hempty : (emptyState : State α κ ι).reserves = ∅ := rfl
    generalize (emptyState : State α κ ι) = s₀ at h hempty
    induction balances generalizing s₀ with
    | nil =>
      cases h
      exact hempty
    | cons entry balances ih =>
      rw [List.foldlM_cons] at h
      obtain ⟨s₁, hs₁, hrest⟩ := Option.bind_eq_some_iff.mp h
      refine ih s₁ hrest ?_
      unfold endow at hs₁
      split at hs₁
      · cases hs₁
      · obtain ⟨v, -, rfl⟩ := Option.map_eq_some_iff.mp hs₁
        exact finish_reserves.trans hempty
  · cases h

/-- The names of an account are sound and covered. -/
structure NamesCovered (cfg : Config α κ) (w : α) (d : κ) (s : State α κ ι) : Prop where
  sound : ReservesSound cfg w d s
  covered : named s w d ≤ (s.account w d).reserved

theorem genesisBuild_namesCovered {balances : List ((α × κ) × ℕ)}
    (h : genesisBuild cfg balances = some s) : NamesCovered cfg w d s := by
  have hempty : s.reservesOf w d = [] := by
    unfold State.reservesOf
    rw [genesisBuild_reserves h]
    rfl
  refine ⟨⟨?_, ?_⟩, ?_⟩
  · rw [hempty]
    exact List.Pairwise.nil
  · rw [hempty]
    exact Nat.zero_le _
  · unfold named
    rw [hempty]
    exact Nat.zero_le _

theorem NamesCovered.step (op : Operation α κ ι) (h : NamesCovered cfg w d s) (hb : Covered s)
    (htakes : ¬ TakesUnnamed w d op) : NamesCovered cfg w d (step cfg s op) := by
  have hkeeps : KeepsNames cfg (¬ TakesUnnamed w d op) w d s (Tokens.step cfg s op) :=
    step_keepsNames op hb
  refine ⟨hkeeps.sound h.sound, ?_⟩
  have hslack := hkeeps.slack h.sound htakes
  have hcovered := h.covered
  omega

/-- Names stay covered over whole runs. -/
theorem namesCovered_run {balances : List ((α × κ) × ℕ)} {ops : List (Operation α κ ι)}
    (hwords : ∀ entry ∈ balances, entry.2 < 2 ^ balanceBits)
    (hgenesis : genesisBuild cfg balances = some s)
    (hops : ∀ op ∈ ops, ¬ TakesUnnamed w d op) :
    Covered (Run.run (step cfg) s ops) ∧ NamesCovered cfg w d (Run.run (step cfg) s ops) := by
  have hrun : Run.Along (step cfg) (fun _ op => ¬ TakesUnnamed w d op) s ops :=
    Run.Along.of_mem fun op hop _ => hops op hop
  refine Run.invariant (fun s => Covered s ∧ NamesCovered cfg w d s) ?_ ?_ hrun
  · intro s op h htakes
    exact ⟨step_covered op h.1, h.2.step op h.1 htakes⟩
  · exact ⟨(genesisBuild_balanced hwords hgenesis).covered, genesisBuild_namesCovered hgenesis⟩

/-- **The reserved balance covers the named reserves** of an account, in every state that is reached
from genesis while the reserved balance of the account is taken from through names only. The names
are sorted and not more than allowed. -/
theorem named_le_reserved {balances : List ((α × κ) × ℕ)} {ops : List (Operation α κ ι)}
    (hwords : ∀ entry ∈ balances, entry.2 < 2 ^ balanceBits)
    (hgenesis : genesisBuild cfg balances = some s)
    (hops : ∀ op ∈ ops, ¬ TakesUnnamed w d op) :
    NamesCovered cfg w d (Run.run (step cfg) s ops) :=
  (namesCovered_run hwords hgenesis hops).2

/-- Two names are booked, and one of them is slashed and the other one repatriated. -/
def namedRun : List (Operation ℕ Unit ℕ) :=
  [.reserveNamed 3 0 () 40, .reserveNamed 2 0 () 20, .slashReservedNamed 3 0 () 10,
    .repatriateReservedNamed 2 0 1 () 15 .reserved]

/-- That run takes from reserved balances through names only. -/
theorem namedRun_named (w : ℕ) : ∀ op ∈ namedRun, ¬ TakesUnnamed w () op := by
  simp [namedRun, TakesUnnamed, TakesReserved]

theorem named_le_reserved_pair :
    NamesCovered (runtimeConfig ℕ Unit) 0 ()
      (Run.run (step (runtimeConfig ℕ Unit)) pairGenesis namedRun) :=
  named_le_reserved (by decide) genesisBuild_pair (namedRun_named 0)

end Vector

end Reef.Tokens
