import ReefChain.Tokens.Reserves

/-!
# Named reserves are moved exactly

Where the reserved balance covers the named reserves, the operations on a name move the smaller of
the value that is asked for and what is booked under the name. This module says what that means for
the whole account:

* what is booked under the name falls by the amount, and so does the reserved balance, while the
  other names stay (`TakenNamed`);
* the amount arrives in the free balance (`unreserve_named`), leaves the issuance
  (`slash_reserved_named`), or arrives at the beneficiary in the balance that is asked for, and
  under the same name if it stays reserved (`repatriate_reserved_named`);
* what is returned is the part of the value that was not booked.

The balances that are not reserved are compared in a currency without existential deposit, as in the
runtime; with one, the dust that an operation leaves may be swept.
-/

namespace Reef.Tokens

open Bounded Fallible

variable {α κ ι : Type} [DecidableEq α] [DecidableEq κ] {cfg : Config α κ} {s s' : State α κ ι}
  {who w : α} {c d : κ} {rs rs' : List (ReserveData ι)} {id : ι} {i m amount value : ℕ}
  {status : BalanceStatus}

/-! ### The balances after the operations without names -/

/-- The account with more in one of its balances. -/
def AccountData.creditAs (a : AccountData) (amount : ℕ) : BalanceStatus → AccountData
  | .free => a.credit amount
  | .reserved => { a with reserved := a.reserved + amount }

/-- What stays reserved of an amount that arrives with a status. -/
def staysReserved (amount : ℕ) : BalanceStatus → ℕ
  | .free => 0
  | .reserved => amount

/-- Without an existential deposit the mutation of an account writes it and sweeps nothing. -/
theorem finish_of_noDeposit (hd : cfg.existentialDeposits c = 0) (existed : Bool)
    (a : AccountData) :
    finish cfg (handler cfg) s who c existed a = settle cfg s who c existed a :=
  finish_of_dustOf_none (dustOf_of_noDeposit hd)

theorem unreserve_account (hs : Covered s) (hd : cfg.existentialDeposits c = 0)
    (hle : value ≤ (s.account who c).reserved) :
    ((unreserve cfg s c who value).1.account who c).free = (s.account who c).free + value ∧
      (unreserve cfg s c who value).1.totalIssuance = s.totalIssuance := by
  unfold unreserve
  split
  · next hzero =>
    rw [hzero]
    exact ⟨rfl, rfl⟩
  · have hfits := hs.account_fits who c
    unfold AccountData.Fits at hfits
    simp only [mutateAccount]
    rw [finish_of_noDeposit hd, settle_free, settle_totalIssuance, Nat.min_eq_right hle,
      satAdd_of_lt (by omega)]
    exact ⟨rfl, rfl⟩

theorem slashReserved_account (hs : Covered s) (hd : cfg.existentialDeposits c = 0)
    (hle : value ≤ (s.account who c).reserved) :
    ((slashReserved cfg s c who value).1.account who c).free = (s.account who c).free ∧
      (slashReserved cfg s c who value).1.totalIssuance c + value = s.totalIssuance c := by
  unfold slashReserved
  split
  · next hzero =>
    rw [hzero]
    exact ⟨rfl, rfl⟩
  · have hissued := (hs.balanced.backed c).sum_le (Int.le_refl 0) who
    unfold AccountData.sum at hissued
    simp only [mutateAccount]
    rw [finish_of_noDeposit hd, account_setIssuance, settle_free,
      totalIssuance_setIssuance_self, settle_totalIssuance, Nat.min_eq_right hle]
    exact ⟨rfl, by omega⟩

/-- The balances of both accounts after a repatriation between different accounts. -/
theorem repatriateReserved_accounts {slashed beneficiary : α} (hs : Covered s)
    (hd : cfg.existentialDeposits c = 0) (hne : slashed ≠ beneficiary)
    (hle : value ≤ (s.account slashed c).reserved) (status : BalanceStatus) :
    let s' := (repatriateReserved cfg s c slashed beneficiary value status).1
    (s'.account slashed c).free = (s.account slashed c).free ∧
      s'.account beneficiary c = (s.account beneficiary c).creditAs value status ∧
      s'.totalIssuance = s.totalIssuance := by
  have hboth := hs.sum_add_sum_le (c := c) hne
  have hfits := (hs c).2
  unfold AccountData.sum at hboth
  unfold repatriateReserved
  by_cases hvalue : value = 0
  · rw [if_pos hvalue, hvalue]
    cases status with
    | free => exact ⟨rfl, rfl, rfl⟩
    | reserved => exact ⟨rfl, rfl, rfl⟩
  rw [if_neg hvalue, if_neg hne]
  simp only [Nat.min_eq_right hle]
  have hpair : (beneficiary, c) ≠ (slashed, c) := fun heq => hne (congrArg Prod.fst heq).symm
  -- both writes are plain ones, of different accounts
  cases status with
  | free =>
    simp only [creditStatus, setFreeBalance, setReservedBalance, mutateAccount,
      finish_of_noDeposit hd, settle_totalIssuance, settle_free]
    rw [account_settle_of_ne hpair, account_settle_of_ne (Ne.symm hpair),
      account_settle_of_noDeposit hd, satAdd_of_lt (by omega)]
    exact ⟨rfl, rfl, trivial⟩
  | reserved =>
    simp only [creditStatus, setReservedBalance, mutateAccount,
      finish_of_noDeposit hd, settle_totalIssuance, settle_free]
    rw [account_settle_of_ne hpair, account_settle_of_ne (Ne.symm hpair),
      account_settle_of_noDeposit hd, satAdd_of_lt (by omega)]
    exact ⟨rfl, rfl, trivial⟩

variable [LinearOrder ι]

/-! ### What is booked under a name -/

/-- What a vector books under a name. -/
def amountOf (rs : List (ReserveData ι)) (id : ι) : ℕ :=
  match findReserve rs id with
  | .ok i => amountAt rs i
  | .error _ => 0

theorem reservedBalanceNamed_eq (s : State α κ ι) (id : ι) (c : κ) (who : α) :
    reservedBalanceNamed s id c who = amountOf (s.reservesOf who c) id := rfl

theorem amountOf_of_find (hfind : findReserve rs id = .ok i) : amountOf rs id = amountAt rs i := by
  unfold amountOf
  rw [hfind]

theorem amountOf_of_missing (hfind : findReserve rs id = .error i) : amountOf rs id = 0 := by
  unfold amountOf
  rw [hfind]

/-- An entry is booked under its name. -/
theorem amountOf_of_mem {data : ReserveData ι} (hsorted : SortedVec.Sorted ReserveData.id rs)
    (hmem : data ∈ rs) : amountOf rs data.id = data.amount := by
  obtain ⟨i, hi⟩ := SortedVec.exists_search_of_mem hsorted hmem
  obtain ⟨before, found, behind, hsplit, -, hid, hamount, -⟩ := findReserve_split hsorted hi
  have hfound : found ∈ rs := by
    rw [hsplit]
    exact List.mem_append_right _ List.mem_cons_self
  rw [amountOf_of_find hi, hamount, hsorted.eq_of_key_eq hfound hmem hid]

/-- Nothing is booked under a name that no entry has. -/
theorem amountOf_of_notMem (hsorted : SortedVec.Sorted ReserveData.id rs)
    (hnone : ∀ data ∈ rs, data.id ≠ id) : amountOf rs id = 0 := by
  cases hfind : findReserve rs id with
  | error i => exact amountOf_of_missing hfind
  | ok i =>
    obtain ⟨before, found, behind, hsplit, -, hid, -⟩ := findReserve_split hsorted hfind
    refine absurd hid (hnone found ?_)
    rw [hsplit]
    exact List.mem_append_right _ List.mem_cons_self

/-- Two vectors with the same entries of a name book the same under it. -/
theorem amountOf_congr (hsorted : SortedVec.Sorted ReserveData.id rs)
    (hsorted' : SortedVec.Sorted ReserveData.id rs')
    (hmem : ∀ data : ReserveData ι, data.id = id → (data ∈ rs' ↔ data ∈ rs)) :
    amountOf rs' id = amountOf rs id := by
  by_cases hsome : ∃ data ∈ rs, data.id = id
  · obtain ⟨data, hdata, rfl⟩ := hsome
    rw [amountOf_of_mem hsorted hdata, amountOf_of_mem hsorted' ((hmem data rfl).mpr hdata)]
  · have hnone : ∀ data ∈ rs, data.id ≠ id := fun data hdata hid => hsome ⟨data, hdata, hid⟩
    rw [amountOf_of_notMem hsorted hnone, amountOf_of_notMem hsorted']
    exact fun data hdata hid => hnone data ((hmem data hid).mp hdata) hid

/-- Overwriting the amount of an entry that was found. -/
theorem amountOf_setAmountAt (hsorted : SortedVec.Sorted ReserveData.id rs)
    (hfind : findReserve rs id = .ok i) (v : ℕ) (id' : ι) :
    amountOf (setAmountAt rs i v) id' = if id' = id then v else amountOf rs id' := by
  have hwritten := (setAmountAt_sound hsorted hfind v).1
  obtain ⟨before, data, behind, rfl, rfl, hid, -⟩ := findReserve_split hsorted hfind
  unfold setAmountAt at hwritten ⊢
  rw [SortedVec.modify_append_length] at hwritten ⊢
  split
  · next heq =>
    rw [heq, ← hid]
    have hentry : { data with amount := v } ∈ before ++ { data with amount := v } :: behind :=
      List.mem_append_right _ List.mem_cons_self
    exact amountOf_of_mem hwritten hentry
  · next hne =>
    refine amountOf_congr hsorted hwritten fun x hx => ?_
    -- neither the old nor the new entry has the other name
    have hold : x ≠ data := fun heq => hne (by rw [← hx, heq, hid])
    have hnew : x ≠ { data with amount := v } := fun heq => hne (by rw [← hx, heq, ← hid])
    simp [hold, hnew]

/-- Removing an entry that was found. -/
theorem amountOf_eraseIdx (hsorted : SortedVec.Sorted ReserveData.id rs)
    (hfind : findReserve rs id = .ok i) (id' : ι) :
    amountOf (rs.eraseIdx i) id' = if id' = id then 0 else amountOf rs id' := by
  have herased := (eraseIdx_sound hsorted hfind).1
  obtain ⟨before, data, behind, rfl, rfl, hid, -⟩ := findReserve_split hsorted hfind
  rw [SortedVec.eraseIdx_append_length] at herased ⊢
  split
  · next heq =>
    subst heq
    refine amountOf_of_notMem herased fun x hx hxid => ?_
    obtain ⟨-, hbehind, hcross⟩ := List.pairwise_append.mp hsorted
    rcases List.mem_append.mp hx with hx | hx
    · exact (hcross x hx data List.mem_cons_self).ne (hxid.trans hid.symm)
    · exact ((List.pairwise_cons.mp hbehind).1 x hx).ne (hid.trans hxid.symm)
  · next hne =>
    refine amountOf_congr hsorted herased fun x hx => ?_
    have hold : x ≠ data := fun heq => hne (by rw [← hx, heq, hid])
    simp [hold]

/-- Writing or removing an entry that was found. -/
theorem amountOf_writeOrRemove (hsorted : SortedVec.Sorted ReserveData.id rs)
    (hfind : findReserve rs id = .ok i) (s : State α κ ι) (who : α) (c : κ) (v : ℕ) (id' : ι) :
    amountOf ((writeOrRemove s who c rs i v).reservesOf who c) id' =
      if id' = id then v else amountOf rs id' := by
  rw [reservesOf_writeOrRemove]
  split_ifs with hzero hone heq heq
  · rw [hzero]
    exact amountOf_of_notMem List.Pairwise.nil (by simp)
  · -- the only entry goes, and with it the vector
    obtain ⟨data, rfl⟩ := List.length_eq_one_iff.mp hone
    obtain ⟨before, found, behind, hsplit, -, hid, -⟩ := findReserve_split hsorted hfind
    have hfound : found = data := by
      have hmem : found ∈ [data] := by
        rw [hsplit]
        exact List.mem_append_right _ List.mem_cons_self
      exact List.mem_singleton.mp hmem
    rw [amountOf_of_notMem List.Pairwise.nil (by simp), amountOf_of_notMem hsorted]
    intro x hx hxid
    rw [List.mem_singleton.mp hx, ← hfound, hid] at hxid
    exact heq hxid.symm
  · rw [amountOf_eraseIdx hsorted hfind, if_pos heq, hzero]
  · rw [amountOf_eraseIdx hsorted hfind, if_neg heq]
  · rw [amountOf_setAmountAt hsorted hfind, if_pos ‹_›]
  · rw [amountOf_setAmountAt hsorted hfind, if_neg ‹_›]

omit [DecidableEq α] [DecidableEq κ] in
/-- Booking an amount that fits adds it under the name. -/
theorem amountOf_bookNamed (hsorted : SortedVec.Sorted ReserveData.id rs)
    (h : bookNamed cfg rs id amount = .ok rs')
    (hfits : amountOf rs id + amount < 2 ^ balanceBits) (id' : ι) :
    amountOf rs' id' = if id' = id then amountOf rs id + amount else amountOf rs id' := by
  have hbooked := (bookNamed_sound hsorted h).1
  unfold bookNamed at h
  split at h
  · next i hi =>
    cases h
    -- the name is there: its amount grows
    rw [amountOf_of_find hi] at hfits
    rw [amountOf_setAmountAt hsorted hi, satAdd_of_lt hfits, amountOf_of_find hi]
  · next i hi =>
    -- it is not: an entry is inserted, and the vector stays sorted
    rw [amountOf_of_missing hi, Nat.zero_add]
    unfold tryInsert at h
    split at h
    · cases h
      have hmissing : ∀ data ∈ rs, data.id ≠ id := fun _ hdata =>
        SortedVec.not_mem_of_search hsorted hi hdata
      obtain ⟨before, behind, rfl, rfl, -, -⟩ := SortedVec.search_eq_error hsorted hi
      rw [SortedVec.insertIdx_append_length] at hbooked ⊢
      split
      · next heq =>
        rw [heq]
        have hentry : (⟨id, amount⟩ : ReserveData ι) ∈ before ++ ⟨id, amount⟩ :: behind :=
          List.mem_append_right _ List.mem_cons_self
        exact amountOf_of_mem hbooked hentry
      · next hne =>
        refine amountOf_congr hsorted hbooked fun x hx => ?_
        have hnew : x ≠ ⟨id, amount⟩ := fun heq => hne (by rw [← hx, heq])
        simp [hnew]
    · cases h

omit [DecidableEq α] [DecidableEq κ] in
/-- Booking fails if the name is new and there are as many names as allowed. -/
theorem bookNamed_eq_error {e : Failure} (h : bookNamed cfg rs id amount = .error e) :
    cfg.maxReserves ≤ rs.length := by
  unfold bookNamed at h
  split at h
  · cases h
  · unfold tryInsert at h
    split at h
    · cases h
    · next hfull => exact Nat.not_lt.mp hfull

/-! ### What the operations on names move -/

/-- An amount is taken out of what an account has reserved under a name: from the vector, where the
other names stay, and from the reserved balance. -/
structure TakenNamed (s s' : State α κ ι) (id : ι) (w : α) (d : κ) (m : ℕ) : Prop where
  booked : reservedBalanceNamed s' id d w + m = reservedBalanceNamed s id d w
  others : ∀ id', id' ≠ id → reservedBalanceNamed s' id' d w = reservedBalanceNamed s id' d w
  reserved : (s'.account w d).reserved + m = (s.account w d).reserved

/-- Taking nothing: the vector may be written back. -/
theorem TakenNamed.zero (hvector : s'.reservesOf w d = s.reservesOf w d)
    (hreserved : (s'.account w d).reserved = (s.account w d).reserved) :
    TakenNamed s s' id w d 0 := by
  have hsame : ∀ id', reservedBalanceNamed s' id' d w = reservedBalanceNamed s id' d w := by
    intro id'
    rw [reservedBalanceNamed_eq, hvector, reservedBalanceNamed_eq]
  exact ⟨hsame id, fun id' _ => hsame id', hreserved⟩

/-- Taking from an entry that is found. -/
theorem TakenNamed.of_found (hfind : findReserve (s.reservesOf w d) id = .ok i)
    (hm : m ≤ amountAt (s.reservesOf w d) i)
    (hvector : ∀ id', amountOf (s'.reservesOf w d) id' =
      if id' = id then amountAt (s.reservesOf w d) i - m else amountOf (s.reservesOf w d) id')
    (hreserved : (s'.account w d).reserved + m = (s.account w d).reserved) :
    TakenNamed s s' id w d m := by
  refine ⟨?_, fun id' hid => ?_, hreserved⟩
  · rw [reservedBalanceNamed_eq, hvector, if_pos rfl, reservedBalanceNamed_eq,
      amountOf_of_find hfind]
    omega
  · rw [reservedBalanceNamed_eq, hvector, if_neg hid, reservedBalanceNamed_eq]

/-- What is found under a name is reserved. -/
theorem NamesCovered.amountAt_le (h : NamesCovered cfg who c s)
    (hfind : findReserve (s.reservesOf who c) id = .ok i) :
    amountAt (s.reservesOf who c) i ≤ (s.account who c).reserved :=
  (amountAt_le_booked h.sound.sorted hfind).trans h.covered

/-- The amount goes to the free balance of the account. -/
structure Unreserves (cfg : Config α κ) (s s' : State α κ ι) (id : ι) (w : α) (d : κ) (m : ℕ) :
    Prop extends TakenNamed s s' id w d m where
  free : cfg.existentialDeposits d = 0 → (s'.account w d).free = (s.account w d).free + m
  issuance : cfg.existentialDeposits d = 0 → s'.totalIssuance = s.totalIssuance

/-- The amount goes out of the issuance. -/
structure Slashes (cfg : Config α κ) (s s' : State α κ ι) (id : ι) (w : α) (d : κ) (m : ℕ) :
    Prop extends TakenNamed s s' id w d m where
  free : cfg.existentialDeposits d = 0 → (s'.account w d).free = (s.account w d).free
  issuance : cfg.existentialDeposits d = 0 → s'.totalIssuance d + m = s.totalIssuance d

/-- The amount goes to another account, to its free balance or to what it has reserved under the
same name. -/
structure Repatriates (cfg : Config α κ) (s s' : State α κ ι) (id : ι) (w beneficiary : α) (d : κ)
    (m : ℕ) (status : BalanceStatus) : Prop extends TakenNamed s s' id w d m where
  free : cfg.existentialDeposits d = 0 → (s'.account w d).free = (s.account w d).free
  credited : cfg.existentialDeposits d = 0 →
    s'.account beneficiary d = (s.account beneficiary d).creditAs m status
  named : reservedBalanceNamed s' id d beneficiary =
    reservedBalanceNamed s id d beneficiary + staysReserved m status
  issuance : cfg.existentialDeposits d = 0 → s'.totalIssuance = s.totalIssuance

omit [LinearOrder ι] in
theorem unreserve_rest_of_le (h : value ≤ (s.account who c).reserved) :
    (unreserve cfg s c who value).2 = 0 := by
  unfold unreserve
  split
  · next hzero => exact hzero
  · simp only []
    omega

omit [LinearOrder ι] in
theorem slashReserved_rest_of_le (h : value ≤ (s.account who c).reserved) :
    (slashReserved cfg s c who value).2 = 0 := by
  unfold slashReserved
  split
  · next hzero => exact hzero
  · simp only []
    omega

omit [LinearOrder ι] in
theorem repatriateReserved_rest_of_le {slashed beneficiary : α}
    (h : value ≤ (s.account slashed c).reserved) (hne : slashed ≠ beneficiary) :
    (repatriateReserved cfg s c slashed beneficiary value status).2 = 0 := by
  unfold repatriateReserved
  split
  · next hzero => exact hzero
  · simp only []
    omega

/-- `unreserve_named` moves the smaller of the value and what is booked to the free balance. -/
theorem unreserveNamed_exact (hs : Covered s) (h : NamesCovered cfg who c s) (id : ι) (value : ℕ) :
    (unreserveNamed cfg s id c who value).2 =
        value - min (reservedBalanceNamed s id c who) value ∧
      Unreserves cfg s (unreserveNamed cfg s id c who value).1 id who c
        (min (reservedBalanceNamed s id c who) value) := by
  -- where nothing is booked or asked for, nothing moves
  have hnothing : Unreserves cfg s s id who c 0 :=
    ⟨.zero rfl rfl, fun _ => rfl, fun _ => rfl⟩
  unfold unreserveNamed
  split
  · next hzero =>
    rw [hzero, Nat.min_zero]
    exact ⟨rfl, hnothing⟩
  split
  · next hnone =>
    have hempty : s.reservesOf who c = [] := congrArg (Option.getD · []) hnone
    have hmissing : reservedBalanceNamed s id c who = 0 := by
      rw [reservedBalanceNamed_eq, hempty]
      rfl
    rw [hmissing, Nat.zero_min]
    exact ⟨rfl, hnothing⟩
  · next rs hrs =>
    have hvector : s.reservesOf who c = rs := congrArg (Option.getD · []) hrs
    subst hvector
    split
    · next hfind =>
      rw [reservedBalanceNamed_eq, amountOf_of_missing hfind, Nat.zero_min]
      exact ⟨rfl, hnothing⟩
    · next i hfind =>
      rw [reservedBalanceNamed_eq, amountOf_of_find hfind]
      set toChange := min (amountAt (s.reservesOf who c) i) value with htoChange
      have hle : toChange ≤ amountAt (s.reservesOf who c) i := Nat.min_le_left _ _
      have hcovered := hle.trans (h.amountAt_le hfind)
      have hrest : (unreserve cfg s c who toChange).2 = 0 := unreserve_rest_of_le hcovered
      have hreserved := (unreserve_reserved cfg s c who toChange).2
      simp only [hrest, Nat.sub_zero] at hreserved ⊢
      -- only the vector is written after the balances
      obtain ⟨reserves, hwritten⟩ := writeOrRemove_eq (unreserve cfg s c who toChange).1 who c
        (s.reservesOf who c) i (amountAt (s.reservesOf who c) i - toChange)
      have hamounts := amountOf_writeOrRemove h.sound.sorted hfind
        (unreserve cfg s c who toChange).1 who c (amountAt (s.reservesOf who c) i - toChange)
      rw [hwritten] at hamounts ⊢
      refine ⟨trivial, .of_found hfind hle hamounts hreserved, fun hd => ?_, fun hd => ?_⟩
      · exact (unreserve_account hs hd hcovered).1
      · exact (unreserve_account hs hd hcovered).2

/-- `slash_reserved_named` moves the smaller of the value and what is booked out of the
issuance. -/
theorem slashReservedNamed_exact (hs : Covered s) (h : NamesCovered cfg who c s) (id : ι)
    (value : ℕ) :
    (slashReservedNamed cfg s id c who value).2 =
        value - min (reservedBalanceNamed s id c who) value ∧
      Slashes cfg s (slashReservedNamed cfg s id c who value).1 id who c
        (min (reservedBalanceNamed s id c who) value) := by
  unfold slashReservedNamed
  split
  · next hzero =>
    rw [hzero, Nat.min_zero]
    exact ⟨rfl, .zero rfl rfl, fun _ => rfl, fun _ => rfl⟩
  simp only []
  split
  · next hfind =>
    rw [reservedBalanceNamed_eq, amountOf_of_missing hfind, Nat.zero_min]
    exact ⟨rfl, .zero (reservesOf_setReserves_self _ _ _ _) rfl, fun _ => rfl, fun _ => rfl⟩
  · next i hfind =>
    rw [reservedBalanceNamed_eq, amountOf_of_find hfind]
    set toChange := min (amountAt (s.reservesOf who c) i) value with htoChange
    have hle : toChange ≤ amountAt (s.reservesOf who c) i := Nat.min_le_left _ _
    have hcovered := hle.trans (h.amountAt_le hfind)
    have hrest : (slashReserved cfg s c who toChange).2 = 0 := slashReserved_rest_of_le hcovered
    have hreserved := (slashReserved_reserved cfg s c who toChange).2
    simp only [hrest, Nat.sub_zero] at hreserved ⊢
    refine ⟨trivial, .of_found hfind hle (fun id' => ?_) hreserved, fun hd => ?_, fun hd => ?_⟩
    · rw [reservesOf_setReserves_self, amountOf_setAmountAt h.sound.sorted hfind]
    · exact (slashReserved_account hs hd hcovered).1
    · exact (slashReserved_account hs hd hcovered).2

/-- What is booked under a name and an amount that another account has reserved fit together. -/
theorem amountOf_add_lt {beneficiary : α} (hs : Covered s) (hne : w ≠ beneficiary)
    (h : NamesCovered cfg beneficiary d s) (hm : m ≤ (s.account w d).reserved) :
    amountOf (s.reservesOf beneficiary d) id + m < 2 ^ balanceBits := by
  have hboth := hs.sum_add_sum_le (c := d) hne
  have hfits := (hs d).2
  unfold AccountData.sum at hboth
  have hbooked : amountOf (s.reservesOf beneficiary d) id ≤
      (s.account beneficiary d).reserved := by
    cases hfind : findReserve (s.reservesOf beneficiary d) id with
    | ok i =>
      rw [amountOf_of_find hfind]
      exact h.amountAt_le hfind
    | error i =>
      rw [amountOf_of_missing hfind]
      exact Nat.zero_le _
  omega

/-- Moving an amount to another account fails only if that account has too many names. -/
theorem moveNamed_eq_error {beneficiary : α} {e : Failure}
    (h : moveNamed cfg s id d w beneficiary m status = (s', .error e)) :
    status = .reserved ∧ cfg.maxReserves ≤ (s.reservesOf beneficiary d).length := by
  cases status with
  | free => cases h
  | reserved =>
    simp only [moveNamed] at h
    split at h
    · cases h
    · next he => exact ⟨rfl, bookNamed_eq_error he⟩

/-- Moving an amount that is reserved: the balances are those of the repatriation without names, and
the beneficiary has the amount under the name if it stays reserved. -/
theorem moveNamed_exact {beneficiary : α} {actual : ℕ} (hs : Covered s) (hne : w ≠ beneficiary)
    (hnames : NamesCovered cfg beneficiary d s) (hm : m ≤ (s.account w d).reserved)
    (h : moveNamed cfg s id d w beneficiary m status = (s', .ok actual)) :
    actual = m ∧ s'.account = (repatriateReserved cfg s d w beneficiary m status).1.account ∧
      s'.totalIssuance = (repatriateReserved cfg s d w beneficiary m status).1.totalIssuance ∧
      reservedBalanceNamed s' id d beneficiary =
        reservedBalanceNamed s id d beneficiary + staysReserved m status := by
  have hrest : (repatriateReserved cfg s d w beneficiary m status).2 = 0 :=
    repatriateReserved_rest_of_le hm hne
  cases status with
  | free =>
    simp only [moveNamed, hrest, Nat.sub_zero, Prod.mk.injEq, Except.ok.injEq] at h
    obtain ⟨rfl, rfl⟩ := h
    refine ⟨rfl, rfl, rfl, ?_⟩
    have hleaves : Leaves cfg True ((w, d) ≠ (w, d)) w d s
        (repatriateReserved cfg s d w beneficiary m .free).1 :=
      repatriateReserved_kept hs w beneficiary m .free
    simp only [reservedBalanceNamed_eq, State.reservesOf, hleaves.reserves]
    rfl
  | reserved =>
    simp only [moveNamed, hrest, Nat.sub_zero] at h
    split at h
    · next rs hrs =>
      simp only [Prod.mk.injEq, Except.ok.injEq] at h
      obtain ⟨rfl, rfl⟩ := h
      refine ⟨rfl, rfl, rfl, ?_⟩
      rw [reservedBalanceNamed_eq, reservesOf_setReserves_self,
        amountOf_bookNamed hnames.sound.sorted hrs (amountOf_add_lt hs hne hnames hm), if_pos rfl]
      rfl
    · cases h

/-- `repatriate_reserved_named` fails only if the beneficiary has too many names. -/
theorem repatriateReservedNamed_eq_error {beneficiary : α} {e : Failure}
    (h : repatriateReservedNamed cfg s id d w beneficiary value status = (s', .error e)) :
    status = .reserved ∧ cfg.maxReserves ≤ (s.reservesOf beneficiary d).length := by
  unfold repatriateReservedNamed at h
  split at h
  · cases h
  split at h
  · cases status with
    | free => cases h
    | reserved => cases h
  · simp only [] at h
    split at h
    · cases h
    · split at h
      · next heq =>
        cases h
        exact moveNamed_eq_error heq
      · cases h

/-- `repatriate_reserved_named` moves the smaller of the value and what is booked to another
account. -/
theorem repatriateReservedNamed_exact {beneficiary : α} {rest : ℕ} (hs : Covered s)
    (hne : w ≠ beneficiary) (hnames : NamesCovered cfg w d s)
    (hother : NamesCovered cfg beneficiary d s)
    (h : repatriateReservedNamed cfg s id d w beneficiary value status = (s', .ok rest)) :
    rest = value - min (reservedBalanceNamed s id d w) value ∧
      Repatriates cfg s s' id w beneficiary d (min (reservedBalanceNamed s id d w) value)
        status := by
  have hpair : (beneficiary, d) ≠ (w, d) := fun heq => hne (congrArg Prod.fst heq).symm
  -- where nothing is booked or asked for, nothing moves
  have hnothing : ∀ {s' : State α κ ι}, s'.reservesOf w d = s.reservesOf w d →
      s'.reservesOf beneficiary d = s.reservesOf beneficiary d → s'.account = s.account →
      s'.totalIssuance = s.totalIssuance → Repatriates cfg s s' id w beneficiary d 0 status := by
    intro s' hvector hvector' haccount hissuance
    refine ⟨.zero hvector (by rw [haccount]), fun _ => by rw [haccount], fun _ => ?_, ?_,
      fun _ => hissuance⟩
    · rw [haccount]
      cases status with
      | free => rfl
      | reserved => rfl
    · rw [reservedBalanceNamed_eq, hvector']
      cases status with
      | free => rfl
      | reserved => rfl
  unfold repatriateReservedNamed at h
  split at h
  · next hzero =>
    cases h
    rw [hzero, Nat.min_zero]
    exact ⟨rfl, hnothing rfl rfl rfl rfl⟩
  simp only [] at h
  split at h
  · next hfind =>
    cases h
    rw [reservedBalanceNamed_eq, amountOf_of_missing hfind, Nat.zero_min]
    refine ⟨rfl, hnothing (reservesOf_setReserves_self _ _ _ _) ?_ rfl rfl⟩
    exact congrArg (Option.getD · []) (lookup_setReserves_of_ne hpair)
  · next i hfind =>
    rw [reservedBalanceNamed_eq, amountOf_of_find hfind]
    generalize htoChange : min (amountAt (s.reservesOf w d) i) value = toChange at h
    have hle : toChange ≤ amountAt (s.reservesOf w d) i := htoChange ▸ Nat.min_le_left _ _
    have hcovered := hle.trans (hnames.amountAt_le hfind)
    split at h
    · cases h
    · next s₁ actual heq =>
      cases h
      obtain ⟨rfl, haccount, hissuance, hnamed⟩ := moveNamed_exact hs hne hother hcovered heq
      -- the balances are those of the repatriation
      have hreserved := (repatriateReserved_reserved cfg hs (c := d) hne actual status).2.1
      rw [repatriateReserved_rest_of_le hcovered hne, Nat.sub_zero] at hreserved
      have hbalances := fun hd : cfg.existentialDeposits d = 0 =>
        repatriateReserved_accounts hs hd hne hcovered status
      refine ⟨rfl, .of_found hfind hle (fun id' => ?_) ?_, fun hd => ?_, fun hd => ?_, ?_,
        fun hd => ?_⟩
      · rw [reservesOf_setReserves_self, amountOf_setAmountAt hnames.sound.sorted hfind]
      · rw [account_setReserves, haccount]
        exact hreserved
      · rw [account_setReserves, haccount]
        exact (hbalances hd).1
      · rw [account_setReserves, haccount]
        exact (hbalances hd).2.1
      · refine Eq.trans ?_ hnamed
        exact congrArg (amountOf · id)
          (congrArg (Option.getD · []) (lookup_setReserves_of_ne hpair))
      · exact hissuance.trans (hbalances hd).2.2

/-- A repatriation from an account to itself releases the reserve or does nothing. -/
theorem repatriateReservedNamed_self (cfg : Config α κ) (s : State α κ ι) (id : ι) (c : κ)
    (who : α) (value : ℕ) :
    repatriateReservedNamed cfg s id c who who value .free =
        ((unreserveNamed cfg s id c who value).1, .ok (unreserveNamed cfg s id c who value).2) ∧
      repatriateReservedNamed cfg s id c who who value .reserved =
        (s, .ok (value - min (reservedBalanceNamed s id c who) value)) := by
  unfold repatriateReservedNamed
  by_cases hzero : value = 0
  · subst hzero
    exact ⟨rfl, by simp⟩
  · have hrest : value - min (reservedBalanceNamed s id c who) value =
        value - reservedBalanceNamed s id c who := by omega
    rw [if_neg hzero, if_neg hzero, if_pos rfl, if_pos rfl, hrest]
    exact ⟨rfl, rfl⟩

/-- **The operations on named reserves are exact**: in a state that is reached from genesis while
the reserved balances of the accounts in question are taken from through names only, releasing,
slashing or repatriating a value under a name moves the smaller of the value and what is booked
under the name. They return the rest of the value. A repatriation fails only if the beneficiary
would have too many names. What the source guards against, that less is reserved than booked, does
not happen. -/
theorem named_operations_exact {balances : List ((α × κ) × ℕ)} {ops : List (Operation α κ ι)}
    (hwords : ∀ entry ∈ balances, entry.2 < 2 ^ balanceBits)
    (hgenesis : genesisBuild cfg balances = some s)
    (hops : ∀ op ∈ ops, ¬ TakesUnnamed w d op) (id : ι) (value : ℕ) :
    let s₁ := Run.run (step cfg) s ops
    let m := min (reservedBalanceNamed s₁ id d w) value
    ((unreserveNamed cfg s₁ id d w value).2 = value - m ∧
        Unreserves cfg s₁ (unreserveNamed cfg s₁ id d w value).1 id w d m) ∧
      ((slashReservedNamed cfg s₁ id d w value).2 = value - m ∧
        Slashes cfg s₁ (slashReservedNamed cfg s₁ id d w value).1 id w d m) ∧
      (∀ beneficiary status, w ≠ beneficiary →
        (∀ op ∈ ops, ¬ TakesUnnamed beneficiary d op) →
        match repatriateReservedNamed cfg s₁ id d w beneficiary value status with
        | (_, .error _) =>
          status = .reserved ∧ cfg.maxReserves ≤ (s₁.reservesOf beneficiary d).length
        | (s₂, .ok rest) => rest = value - m ∧
          Repatriates cfg s₁ s₂ id w beneficiary d m status) ∧
      repatriateReservedNamed cfg s₁ id d w w value .free =
        ((unreserveNamed cfg s₁ id d w value).1, .ok (unreserveNamed cfg s₁ id d w value).2) ∧
      repatriateReservedNamed cfg s₁ id d w w value .reserved = (s₁, .ok (value - m)) := by
  obtain ⟨hs, hnames⟩ := namesCovered_run hwords hgenesis hops
  refine ⟨unreserveNamed_exact hs hnames id value, slashReservedNamed_exact hs hnames id value, ?_,
    repatriateReservedNamed_self cfg _ id d w value⟩
  intro beneficiary status hne hother
  have hbeneficiary := (namesCovered_run hwords hgenesis hother).2
  split
  · next heq => exact repatriateReservedNamed_eq_error heq
  · next heq => exact repatriateReservedNamed_exact hs hne hnames hbeneficiary heq

/-- The states of `namedRun`, where thirty are booked under the name: asking for fifty moves them,
and returns twenty. -/
theorem named_operations_exact_pair :
    let s₁ := Run.run (step (runtimeConfig ℕ Unit)) pairGenesis namedRun
    reservedBalanceNamed s₁ 3 () 0 = 30 ∧
      (unreserveNamed (runtimeConfig ℕ Unit) s₁ 3 () 0 50).2 = 20 ∧
      Unreserves (runtimeConfig ℕ Unit) s₁
        (unreserveNamed (runtimeConfig ℕ Unit) s₁ 3 () 0 50).1 3 0 () 30 ∧
      ∃ s₂, repatriateReservedNamed (runtimeConfig ℕ Unit) s₁ 3 () 0 1 50 .reserved =
          (s₂, .ok 20) ∧
        Repatriates (runtimeConfig ℕ Unit) s₁ s₂ 3 0 1 () 30 .reserved := by
  have hbooked : reservedBalanceNamed
      (Run.run (step (runtimeConfig ℕ Unit)) pairGenesis namedRun) 3 () 0 = 30 := by decide
  have hresult : (repatriateReservedNamed (runtimeConfig ℕ Unit)
      (Run.run (step (runtimeConfig ℕ Unit)) pairGenesis namedRun) 3 () 0 1 50 .reserved).2 =
      .ok 20 := rfl
  obtain ⟨hunreserve, -, hrepatriate, -⟩ := named_operations_exact (by decide) genesisBuild_pair
    (namedRun_named 0) 3 50
  have hmoved := hrepatriate 1 .reserved (by decide) (namedRun_named 1)
  rw [hbooked] at hunreserve hmoved
  refine ⟨hbooked, hunreserve.1, hunreserve.2, ?_⟩
  generalize repatriateReservedNamed (runtimeConfig ℕ Unit)
    (Run.run (step (runtimeConfig ℕ Unit)) pairGenesis namedRun) 3 () 0 1 50 .reserved = x
    at hmoved hresult
  obtain ⟨s₂, result⟩ := x
  cases hresult
  exact ⟨s₂, rfl, hmoved.2⟩

end Reef.Tokens
