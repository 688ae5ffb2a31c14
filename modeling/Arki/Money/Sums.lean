import Arki.Money.Allocate
import Arki.Money.UnitsExact

/-! Amounts from minor units, their differences and their order. -/

set_option autoImplicit false
set_option linter.dupNamespace false

namespace Arki.Money

open Arki (Double)
open Arki.Math (MathError Checked)

inductive Raised where
  | math (error : MathError)
  | currencyMismatch (left right : String) (message : String)
  | unknownCurrency (code : String)
  deriving DecidableEq

abbrev Raising := Except Raised

def mismatchMessage (left right : String) : String :=
  if left = right then "Cannot combine two different definitions of " ++ left ++ "; they disagree on the number of decimals"
  else "Cannot combine " ++ left ++ " with " ++ right

def assertSameCurrency (a b : Currency) : Raising Unit :=
  if a.code ≠ b.code ∨ a.scale ≠ b.scale then throw (.currencyMismatch a.code b.code (mismatchMessage a.code b.code))
  else return ()

abbrev Iso4217 := String → Option Currency

def toCurrency (table : Iso4217) (code : String) : Raising Currency :=
  match table code with
  | some currency => return currency
  | none => throw (.unknownCurrency code)

def Money.fromMinor (table : Iso4217) (units : Int) (code : String) : Raising Money := do
  let currency ← toCurrency table code
  if Math.isSafeInteger units then return ⟨.number (.of units), currency.scale, currency⟩
  else throw (.math (failureToError .outOfRange))

def Money.zero (currency : Currency) : Money := ⟨.number (.of 0), currency.scale, currency⟩

def combine (a b : Money) (subtract : Bool) : Checked Money := do
  let scale := max a.scale b.scale
  let left ← mulUnits a.units (pow10 (scale - a.scale))
  let right ← mulUnits b.units (pow10 (scale - b.scale))
  return ⟨← addUnits left (if subtract then negUnits right else right), scale, a.currency⟩

def Money.minus (this other : Money) : Raising Money := do
  assertSameCurrency this.currency other.currency
  if this.scale ≠ other.scale then (combine this other true).mapError .math
  else
    let big := ((addUnits this.units (negUnits other.units)).map fun units => ⟨units, this.scale, this.currency⟩).mapError .math
    match this.units, other.units with
    | .number a, .number b =>
      let difference := a.sub b
      if readsSafe difference then return ⟨.number difference, this.scale, this.currency⟩ else big
    | _, _ => big

def Money.compareTo (this other : Money) : Raising Ordering := do
  assertSameCurrency this.currency other.currency
  if this.scale = other.scale then return compareUnits this.units other.units
  else
    let scale := max this.scale other.scale
    let left ← (mulUnits this.units (pow10 (scale - this.scale))).mapError .math
    let right ← (mulUnits other.units (pow10 (scale - other.scale))).mapError .math
    return compareUnits left right

def Money.gt (this other : Money) : Raising Bool := return (← this.compareTo other) = .gt

def Money.max (first : Money) (rest : List Money) : Raising Money :=
  rest.foldlM (fun best item => return if ← item.gt best then item else best) first

variable {a b : Int} {scale : Nat} {currency : Currency}

theorem assertSameCurrency_self : assertSameCurrency currency currency = .ok () := by simp [assertSameCurrency, pure, Except.pure]

theorem fromMinor_ok {table : Iso4217} {units : Int} {code : String} {built : Money}
    (passed : Money.fromMinor table units code = .ok built) : ∃ currency, table code = some currency ∧ IsSafe units ∧
      built = ⟨canon units, currency.scale, currency⟩ := by
  unfold Money.fromMinor toCurrency at passed
  cases found : table code with
  | none =>
    rw [found] at passed
    cases passed
  | some currency =>
    rw [found] at passed
    by_cases safe : Math.isSafeInteger units = true
    · have within : IsSafe units := by
        rw [Math.isSafeInteger, decide_eq_true_eq] at safe
        unfold IsSafe maxSafe
        omega
      simp only [bind, Except.bind, pure, Except.pure, if_pos safe] at passed
      exact ⟨currency, rfl, within, by rw [canon_safe within, ← Except.ok.inj passed]⟩
    · simp only [bind, Except.bind, pure, Except.pure, if_neg safe] at passed
      cases passed

theorem minus_eq (safe : IsSafe (a - b)) : Money.minus ⟨canon a, scale, currency⟩ ⟨canon b, scale, currency⟩ =
    .ok ⟨canon (a - b), scale, currency⟩ := by
  have added : addUnits (canon a) (negUnits (canon b)) = .ok (canon (a - b)) := by
    rw [negUnits_canon, addUnits_canon, ← Int.sub_eq_add_neg, safe.limitDigits]
    rfl
  unfold Money.minus
  simp only [assertSameCurrency_self, ne_eq, not_true_eq_false, if_false, added, bind, Except.bind]
  by_cases safeA : IsSafe a
  · by_cases safeB : IsSafe b
    · simp only [canon_safe safeA, canon_safe safeB, sub_eq, Double.round_int safe.small]
      rw [if_pos (readsSafe_of safe (Double.is_of _)), canon_safe safe]
      rfl
    · simp only [canon_safe safeA, canon_big safeB]
      rfl
  · simp only [canon_big safeA]
    rfl

theorem gt_eq (a b : Int) : Money.gt ⟨canon a, scale, currency⟩ ⟨canon b, scale, currency⟩ = .ok (decide (b < a)) := by
  unfold Money.gt Money.compareTo
  simp only [assertSameCurrency_self, bind, Except.bind, if_true, compareUnits_canon, pure, Except.pure]
  congr 1
  exact decide_eq_decide.mpr compare_gt_iff_gt

theorem zero_eq : Money.zero currency = ⟨canon 0, currency.scale, currency⟩ := by
  rw [canon_safe (by decide)]
  rfl

theorem max_eq (a b : Int) : Money.max ⟨canon a, scale, currency⟩ [⟨canon b, scale, currency⟩] =
    .ok ⟨canon (Max.max a b), scale, currency⟩ := by
  unfold Money.max
  rw [List.foldlM_cons, gt_eq]
  simp only [bind, Except.bind, pure, Except.pure, List.foldlM_nil, decide_eq_true_eq]
  rcases lt_or_ge a b with less | more
  · rw [if_pos less, max_eq_right less.le]
  · rw [if_neg (not_lt.mpr more), max_eq_left more]

end Arki.Money
