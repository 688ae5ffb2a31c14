import Arki.Math.FinanceExact
import Mathlib.Data.List.GetD

/-! An amortization schedule pays off the loan: each row follows from the balance before it, and the last takes what is left. -/

set_option autoImplicit false

namespace Arki.Math.Finance

open Outcome (bind_ok bind_error)
open Decimal (ScaleOptions from_ Rounded)
open Compounding (due annuity)

variable {scaled : ScaleOptions} {level r loan : Decimal} {begins : Bool} {rows : List AmortizationRow} {left period n : Nat}
  {principal rate : DecimalInput} {timing : Option PaymentTiming}

def before (loan : Decimal) (rows : List AmortizationRow) (i : Nat) : ℚ := ((loan :: rows.map (·.balance)).getD i ⟨0, 0⟩).value

def RoundsTo (scaled : ScaleOptions) (exact result : ℚ) : Prop :=
  ∃ places : Nat, scaled.scale = .whole places ∧ Rounded (resolveRounding scaled) exact (10 ^ places)⁻¹ result

theorem RoundsTo.nonneg {exact result : ℚ} (rounds : RoundsTo scaled exact result) (isPos : 0 ≤ exact) : 0 ≤ result := by
  obtain ⟨places, -, n, rounded, rfl⟩ := rounds
  have near := abs_lt.mp rounded.near
  have scaledPos : 0 ≤ exact / (10 ^ places)⁻¹ := div_nonneg isPos (by positivity)
  have above : (-1 : ℚ) < n := by linarith
  have whole : 0 ≤ n := by
    have cast : (-1 : ℤ) < n := by exact_mod_cast above
    omega
  exact mul_nonneg (by exact_mod_cast whole) (by positivity)

theorem roundsTo_of {x : Checked Decimal} {exact : ℚ} {d : Decimal}
    (once : RoundedOnce x (resolveRounding scaled) scaled.scale exact) (built : x = .ok d) : RoundsTo scaled exact d.value :=
  ⟨d.scale, (once.value d built).1, (once.value d built).2⟩

structure Settles (scaled : ScaleOptions) (level rate : ℚ) (begins : Bool) (period : Nat) (isLast : Bool) (balance : ℚ)
    (row : AmortizationRow) : Prop where
  numbered : row.period = period
  paid : row.payment.value = row.interest.value + row.principal.value
  noInterest : begins = true → period = 1 → row.interest.value = 0
  interest : ¬ (begins = true ∧ period = 1) → RoundsTo scaled (balance * rate) row.interest.value
  principal : row.principal.value = if isLast then balance else level - row.interest.value
  balance : row.balance.value = balance - row.principal.value

theorem interestOf_ok {balance interest : Decimal} (built : interestOf r begins scaled period balance = .ok interest) :
    (begins = true → period = 1 → interest.value = 0) ∧
      (¬ (begins = true ∧ period = 1) → RoundsTo scaled (balance.value * r.value) interest.value) := by
  unfold interestOf at built
  by_cases first : (begins && period == 1) = true
  · rw [if_pos first] at built
    have both : begins = true ∧ period = 1 := by simpa using first
    rw [whole_read (by decide)] at built
    have once : RoundedOnce (Decimal.toScale ⟨0, 0⟩ scaled.scale .unnecessary) .unnecessary scaled.scale (Decimal.value ⟨0, 0⟩) :=
      rounded_toScale
    obtain ⟨-, n, rounded, is⟩ := once.value interest built
    refine ⟨fun _ _ => ?_, fun apart => absurd both apart⟩
    rw [whole_value, Int.cast_zero, zero_div] at rounded
    have whole := Rounding.rounds_int (K := ℚ) .unnecessary 0
    rw [Int.cast_zero] at whole
    have none_ : n = 0 := rounded.unique whole
    rw [is, none_, Int.cast_zero, zero_mul]
  · rw [if_neg first] at built
    have apart : ¬ (begins = true ∧ period = 1) := by simpa using first
    obtain ⟨product, isProduct, built⟩ := bind_ok.mp built
    refine ⟨fun begins_ first_ => absurd ⟨begins_, first_⟩ apart, fun _ => ?_⟩
    rw [← (exactly_times balance rfl).value product isProduct]
    exact roundsTo_of rounded_toScale built

theorem rowsFrom_succ {balance : Decimal} (built : rowsFrom level r begins scaled (left + 1) period balance = .ok rows) :
    ∃ row rest, rows = row :: rest ∧ Settles scaled level.value r.value begins period (left = 0) balance.value row ∧
      rowsFrom level r begins scaled left (period + 1) row.balance = .ok rest := by
  rw [rowsFrom] at built
  obtain ⟨interest, isInterest, built⟩ := bind_ok.mp built
  obtain ⟨part, isPart, built⟩ := bind_ok.mp built
  obtain ⟨after, isAfter, built⟩ := bind_ok.mp built
  obtain ⟨paid, isPaid, built⟩ := bind_ok.mp built
  obtain ⟨rest, isRest, done⟩ := bind_ok.mp built
  cases done
  obtain ⟨noInterest, accrued⟩ := interestOf_ok isInterest
  refine ⟨_, rest, rfl, ⟨rfl, ?_, noInterest, accrued, ?_, (exactly_minus balance rfl).value after isAfter⟩, isRest⟩
  · rw [add_comm]
    exact (exactly_plus part rfl).value paid isPaid
  · unfold principalPartOf at isPart
    split at isPart
    · next isLast =>
      rw [if_pos isLast, Except.ok.inj isPart]
    · next isLast =>
      rw [if_neg isLast]
      exact (exactly_minus level rfl).value part isPart

/-- What the rows of a schedule are: one for each period, each settled from the balance before it, and nothing is left. -/
structure Schedules (scaled : ScaleOptions) (level rate : ℚ) (begins : Bool) (period left : Nat) (loan : Decimal)
    (rows : List AmortizationRow) : Prop where
  length : rows.length = left
  each : ∀ i row, rows[i]? = some row → Settles scaled level rate begins (period + i) (i + 1 = left) (before loan rows i) row
  sum : 0 < left → (rows.map (·.principal.value)).sum = loan.value
  last : ∀ row, rows.getLast? = some row → row.balance.value = 0

theorem before_succ (loan : Decimal) (row : AmortizationRow) (rest : List AmortizationRow) (i : Nat) :
    before loan (row :: rest) (i + 1) = before row.balance rest i := rfl

theorem rowsFrom_ok (left : Nat) : ∀ {period : Nat} {balance : Decimal} {rows : List AmortizationRow},
    rowsFrom level r begins scaled left period balance = .ok rows →
    Schedules scaled level.value r.value begins period left balance rows := by
  induction left with
  | zero =>
    intro period balance rows built
    cases built
    exact ⟨rfl, fun i row found => absurd found (by simp), fun none_ => absurd none_ (by decide), fun row found => absurd found (by simp)⟩
  | succ left ih =>
    intro period balance rows built
    obtain ⟨row, rest, rfl, settles, isRest⟩ := rowsFrom_succ built
    have schedules := ih isRest
    refine ⟨by rw [List.length_cons, schedules.length], ?_, ?_, ?_⟩
    · intro i other found
      cases i with
      | zero =>
        obtain rfl : row = other := by simpa using found
        have isLast : decide (left = 0) = decide (0 + 1 = left + 1) := decide_eq_decide.mpr (by omega)
        rw [isLast] at settles
        exact settles
      | succ i =>
        have later := schedules.each i other (by simpa using found)
        rw [before_succ]
        have isLast : decide (i + 1 = left) = decide (i + 1 + 1 = left + 1) := decide_eq_decide.mpr (by omega)
        rw [isLast, Nat.add_assoc, Nat.add_comm 1 i] at later
        exact later
    · intro _
      rw [List.map_cons, List.sum_cons]
      rcases Nat.eq_zero_or_pos left with none_ | some_
      · have empty : rest = [] := List.length_eq_zero_iff.mp (schedules.length.trans none_)
        rw [empty, List.map_nil, List.sum_nil, add_zero, settles.principal, if_pos (decide_eq_true none_)]
      · rw [schedules.sum some_, settles.balance]
        ring
    · intro other found
      cases rest with
      | nil =>
        obtain rfl : row = other := by simpa using found
        have none_ : left = 0 := schedules.length.symm
        rw [settles.balance, settles.principal, if_pos (decide_eq_true none_), sub_self]
      | cons second rest => exact schedules.last other (by simpa using found)

def Sound (balance : ℚ) (row : AmortizationRow) : Prop :=
  0 ≤ row.payment.value ∧ 0 ≤ row.principal.value ∧ 0 ≤ row.balance.value ∧ row.balance.value ≤ balance

def Fits (level balance : ℚ) (row : AmortizationRow) : Prop :=
  row.interest.value ≤ level ∧ level ≤ row.interest.value + balance

/-- Signs go wrong exactly where the level payment does not fit a row before the last. -/
theorem sound_iff {level rate : ℚ} (schedules : Schedules scaled level rate begins 1 n loan rows) (isPos : 0 ≤ loan.value)
    (ratePos : 0 ≤ rate) : (∀ i row, rows[i]? = some row → Sound (before loan rows i) row) ↔
      ∀ i row, rows[i]? = some row → i + 1 < n → Fits level (before loan rows i) row := by
  constructor
  · intro sound i row found more
    obtain ⟨-, principalPos, balancePos, -⟩ := sound i row found
    have settles := schedules.each i row found
    have part := settles.principal
    rw [if_neg (by simp; omega)] at part
    rw [part] at principalPos
    rw [settles.balance, part] at balancePos
    exact ⟨by linarith, by linarith⟩
  · intro fits
    -- by induction along the rows: what is left is not negative
    have beforePos (i : Nat) (within : i < rows.length) : 0 ≤ before loan rows i := by
      induction i with
      | zero => exact isPos
      | succ i ih =>
        have inside : i < rows.length := by omega
        have found : rows[i]? = some rows[i] := List.getElem?_eq_getElem inside
        have bound := fits i rows[i] found (by rw [← schedules.length]; exact within)
        have settles := schedules.each i rows[i] found
        have part := settles.principal
        have size := schedules.length
        rw [if_neg (by simp; omega)] at part
        have same : before loan rows (i + 1) = rows[i].balance.value := by
          rw [before, List.getD_cons_succ, List.getD_eq_getElem _ _ (by simpa using inside), List.getElem_map]
        rw [same, settles.balance, part]
        linarith [bound.2]
    intro i row found
    have inside : i < rows.length := (List.getElem?_eq_some_iff.mp found).1
    have settles := schedules.each i row found
    have beforePos_ := beforePos i inside
    have interestPos : 0 ≤ row.interest.value := by
      by_cases first : begins = true ∧ 1 + i = 1
      · exact (settles.noInterest first.1 first.2).ge
      · exact (settles.interest first).nonneg (mul_nonneg beforePos_ ratePos)
    have part := settles.principal
    have rest := settles.balance
    have paid := settles.paid
    by_cases isLast : i + 1 = n
    · rw [if_pos (decide_eq_true isLast)] at part
      exact ⟨by linarith, by linarith, by linarith, by linarith⟩
    · rw [if_neg (by simpa using isLast)] at part
      have size := schedules.length
      obtain ⟨covers, within⟩ := fits i row found (by omega)
      exact ⟨by linarith, by linarith, by linarith, by linarith⟩

theorem periods_ok {periods : JsNumber} (passed : assertPositivePeriods periods = .ok ()) :
    ∃ n : Nat, periods = .whole n ∧ 0 < n ∧ isSafeInteger n = true := by
  unfold assertPositivePeriods at passed
  obtain ⟨_, checked, passed⟩ := bind_ok.mp passed
  unfold assertPeriods at checked
  obtain ⟨_, -, checked⟩ := bind_ok.mp checked
  by_cases negative : isNegative periods = true
  · rw [if_pos negative] at checked
    cases checked
  rw [if_neg negative] at checked
  cases periods with
  | fraction spelling => cases checked
  | notFinite spelling => cases checked
  | whole number =>
    by_cases safe : isSafeInteger number = true
    · have above : 0 ≤ number := by simpa [isNegative] using negative
      obtain ⟨n, rfl⟩ := Int.eq_ofNat_of_zero_le above
      refine ⟨n, rfl, Nat.pos_of_ne_zero fun none_ => ?_, safe⟩
      subst none_
      cases passed
    · simp only [if_neg safe] at checked
      cases checked

/-- A schedule that is built pays off the loan. Signs go wrong exactly where the level payment, before the last row, is less than
the interest or more than the interest and the whole balance. -/
theorem schedule_pays_off {p : Decimal} {periods : JsNumber} (isPrincipal : from_ principal = .ok p) (isRate : from_ rate = .ok r)
    (principalPos : 0 ≤ p.value) (ratePos : 0 ≤ r.value) (built : amortizationSchedule principal rate periods timing scaled = .ok rows) :
    ∃ (n : Nat) (level loan : Decimal), periods = .whole n ∧ 0 < n ∧ n ≤ maxSchedulePeriods ∧
      payment principal rate periods timing scaled = .ok level ∧ 0 ≤ level.value ∧ RoundsTo scaled p.value loan.value ∧
      rows.length = n ∧ (rows.map (·.principal.value)).sum = loan.value ∧
      (∀ row, rows.getLast? = some row → row.balance.value = 0) ∧
      (∀ i row, rows[i]? = some row → row.period = i + 1 ∧ row.payment.value = row.interest.value + row.principal.value ∧
        row.balance.value = before loan rows i - row.principal.value ∧
        (if isBegin timing ∧ i = 0 then row.interest.value = 0 else RoundsTo scaled (before loan rows i * r.value) row.interest.value) ∧
        (i + 1 < n → row.payment.value = level.value)) ∧
      ((∀ i row, rows[i]? = some row → Sound (before loan rows i) row) ↔
        ∀ i row, rows[i]? = some row → i + 1 < n → Fits level.value (before loan rows i) row) := by
  unfold amortizationSchedule at built
  by_cases past : isPastSchedule periods = true
  · rw [if_pos past] at built
    cases built
  rw [if_neg past] at built
  obtain ⟨level, isLevel, built⟩ := bind_ok.mp built
  obtain ⟨n, rfl, some_, safe⟩ : ∃ n : Nat, periods = .whole n ∧ 0 < n ∧ isSafeInteger n = true := by
    unfold payment at isLevel
    obtain ⟨_, passed, -⟩ := bind_ok.mp isLevel
    exact periods_ok passed
  rw [isRate, isPrincipal] at built
  have steps : (p.toScale scaled.scale (resolveRounding scaled) >>= rowsFrom level r (isBegin timing) scaled n 1) = .ok rows := built
  obtain ⟨loan, isLoan, built⟩ := bind_ok.mp steps
  have grows : 0 < 1 + r.value := by linarith
  have levelRounds := roundsTo_of (payment_rounded isRate (by linarith) safe some_ isPrincipal) isLevel
  have loanRounds := roundsTo_of rounded_toScale isLoan
  have levelPos : 0 ≤ level.value := levelRounds.nonneg
    (div_nonneg (mul_nonneg principalPos (pow_pos grows n).le)
      (mul_pos (Compounding.due_pos _ grows) (Compounding.annuity_pos grows some_)).le)
  have schedules := rowsFrom_ok n built
  have within : n ≤ maxSchedulePeriods := by
    simp only [isPastSchedule, decide_eq_true_eq, not_lt] at past
    exact_mod_cast past
  refine ⟨n, level, loan, rfl, some_, within, isLevel, levelPos, loanRounds, schedules.length, schedules.sum some_, schedules.last,
    fun i row found => ?_, sound_iff schedules (loanRounds.nonneg principalPos) ratePos⟩
  have settles := schedules.each i row found
  refine ⟨by rw [settles.numbered, Nat.add_comm], settles.paid, settles.balance, ?_, fun more => ?_⟩
  · split
    · next first => exact settles.noInterest first.1 (by rw [first.2])
    · next later => exact settles.interest fun both => later ⟨both.1, by omega⟩
  · have part := settles.principal
    rw [if_neg (by simp; omega)] at part
    rw [settles.paid, part]
    ring

/-- A hundred without interest in three payments. -/
theorem schedule_pays_off_three : ∃ rows level loan, amortizationSchedule (.string "100") (.string "0") (.whole 3) none ⟨.whole 2, none⟩ = .ok rows ∧
    payment (.string "100") (.string "0") (.whole 3) none ⟨.whole 2, none⟩ = .ok level ∧ rows.length = 3 ∧
    (rows.map (·.principal.value)).sum = loan ∧ RoundsTo ⟨.whole 2, none⟩ 100 loan := by
  have built : amortizationSchedule (.string "100") (.string "0") (.whole 3) none ⟨.whole 2, none⟩ =
      .ok [⟨1, ⟨3333, 2⟩, ⟨0, 2⟩, ⟨3333, 2⟩, ⟨6667, 2⟩⟩, ⟨2, ⟨3333, 2⟩, ⟨0, 2⟩, ⟨3333, 2⟩, ⟨3334, 2⟩⟩,
        ⟨3, ⟨3334, 2⟩, ⟨0, 2⟩, ⟨3334, 2⟩, ⟨0, 2⟩⟩] := by decide +kernel
  have isPrincipal : from_ (.string "100") = .ok ⟨100, 0⟩ := by decide +kernel
  have isRate : from_ (.string "0") = .ok ⟨0, 0⟩ := by decide +kernel
  obtain ⟨n, level, loan, same, -, -, isLevel, -, loanRounds, length, sum, -⟩ := schedule_pays_off isPrincipal isRate
    (by rw [whole_value]; norm_num) (by rw [whole_value]; norm_num) built
  rw [whole_value] at loanRounds
  exact ⟨_, level, loan.value, built, isLevel, rfl, sum, by exact_mod_cast loanRounds⟩

/-- A hundred in sixty whole payments without interest: the level payment is 2, the balance is below zero from the fifty-first
row, and the last payment is negative. -/
theorem overpaid : ((amortizationSchedule (.string "100") (.string "0") (.whole 60) none ⟨.whole 0, none⟩).toOption.getD []).any
      (fun row => decide (row.balance.value < 0)) = true ∧
    ((amortizationSchedule (.string "100") (.string "0") (.whole 60) none ⟨.whole 0, none⟩).toOption.getD []).any
      (fun row => decide (row.payment.value < 0) && decide (row.principal.value < 0)) = true := by
  constructor <;> decide +kernel

end Arki.Math.Finance
