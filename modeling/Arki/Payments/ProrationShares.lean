import Arki.Library.Variation
import Arki.Money.Pairs
import Arki.Payments.Proration

/-! The share of a price for the time left is exact to half a unit, and what moves are charged follows from the shares. -/

set_option autoImplicit false

namespace Arki.Proration

open Arki (Double)
open Arki.Money
open Arki.Variation (climb peak Peaked)

variable {host : Host} {subscription : Subscription} {date later : Instant} {plan current next dearest : Plan} {moves : List Plan}
  {price : Money} {left : RemainingTime} {p q r s t : Nat} {currency : Currency}

theorem minusMs_eq {a b : Int} (small : |a - b| < 2 ^ 53) : minusMs a b = a - b := by
  rw [minusMs, Double.round_int small, Rat.num_intCast]

theorem toMillis_mono (before : date.epochNanoseconds ≤ later.epochNanoseconds) : toMillis date ≤ toMillis later :=
  Int.ediv_le_ediv (by decide) before

def Inside (subscription : Subscription) (date : Instant) : Prop :=
  subscription.currentPeriodStart.epochNanoseconds ≤ date.epochNanoseconds ∧
    date.epochNanoseconds ≤ subscription.currentPeriodEnd.epochNanoseconds

structure Divides (subscription : Subscription) : Prop where
  apart : toMillis subscription.currentPeriodStart < toMillis subscription.currentPeriodEnd
  short : toMillis subscription.currentPeriodEnd - toMillis subscription.currentPeriodStart ≤ maxSafe

def periodMs (subscription : Subscription) : Nat :=
  (toMillis subscription.currentPeriodEnd - toMillis subscription.currentPeriodStart).toNat

def leftMs (subscription : Subscription) (date : Instant) : Nat :=
  (toMillis subscription.currentPeriodEnd - toMillis date).toNat

structure TimeLeft (left : RemainingTime) (r t : Nat) : Prop where
  remaining : left.remainingMs = r
  total : left.totalPeriodMs = t
  within : r ≤ t
  positive : 0 < t
  safe : IsSafe t

theorem remaining_ok (host : Host) (divides : Divides subscription) (inside : Inside subscription date) :
    ∃ left, calculateRemainingTime host subscription date = .ok left ∧
      TimeLeft left (leftMs subscription date) (periodMs subscription) := by
  have apart := divides.apart
  have short := divides.short
  have afterStart := toMillis_mono inside.1
  have beforeEnd := toMillis_mono inside.2
  have nonempty : subscription.currentPeriodStart.epochNanoseconds < subscription.currentPeriodEnd.epochNanoseconds := by
    by_contra empty
    exact absurd (toMillis_mono (not_lt.mp empty)) (not_le.mpr apart)
  have smallTotal : |toMillis subscription.currentPeriodEnd - toMillis subscription.currentPeriodStart| < 2 ^ 53 := by
    rw [abs_lt]
    unfold maxSafe at short
    omega
  have smallLeft : |toMillis subscription.currentPeriodEnd - toMillis date| < 2 ^ 53 := by
    rw [abs_lt]
    unfold maxSafe at short
    omega
  have passes : (!isBefore subscription.currentPeriodStart subscription.currentPeriodEnd ||
      isBefore date subscription.currentPeriodStart || isAfter date subscription.currentPeriodEnd) = false := by
    simp [isBefore, isAfter, nonempty, inside.1, inside.2]
  unfold calculateRemainingTime
  simp only [passes, Bool.false_eq_true, if_false]
  refine ⟨_, rfl, ?_, ?_, ?_, ?_, ?_⟩
  · show minusMs _ _ = _
    rw [minusMs_eq smallLeft, leftMs]
    omega
  · show minusMs _ _ = _
    rw [minusMs_eq smallTotal, periodMs]
    omega
  · unfold leftMs periodMs
    omega
  · unfold periodMs
    omega
  · unfold IsSafe periodMs
    unfold maxSafe at short ⊢
    omega

theorem timeLeft_of (divides : Divides subscription) (inside : Inside subscription date)
    (returned : calculateRemainingTime host subscription date = .ok left) :
    TimeLeft left (leftMs subscription date) (periodMs subscription) := by
  obtain ⟨left_, found, time⟩ := remaining_ok host divides inside
  rw [found] at returned
  rwa [← Except.ok.inj returned]

theorem planPrice_ok (priced : planPrice host plan = .ok price) : ∃ currency,
    host.table (host.toUpperCase plan.currency) = some currency ∧ IsSafe plan.priceMinor ∧
      price = ⟨canon plan.priceMinor, currency.scale, currency⟩ := by
  unfold planPrice at priced
  cases built : Money.fromMinor host.table plan.priceMinor (host.toUpperCase plan.currency) with
  | error error =>
    rw [built] at priced
    cases priced
  | ok amount =>
    rw [built] at priced
    obtain ⟨currency, found, safe, rfl⟩ := fromMinor_ok built
    exact ⟨currency, found, safe, (Except.ok.inj priced).symm⟩

def weights (left : RemainingTime) : List Ratio :=
  [.number (.whole left.remainingMs), .number (.whole (minusMs left.totalPeriodMs left.remainingMs))]

theorem allocate_weights (scale : Nat) (currency : Currency) (time : TimeLeft left r t) (safe : IsSafe p) :
    Money.allocate ⟨canon p, scale, currency⟩ (weights left) none =
      .ok [⟨canon (firstOfTwo p r t), scale, currency⟩, ⟨canon (p - firstOfTwo p r t), scale, currency⟩] := by
  have within := time.within
  have split : r + (t - r) = t := by omega
  have safeT := time.safe
  have used : minusMs left.totalPeriodMs left.remainingMs = (t - r : Nat) := by
    have small : |(t : Int) - r| < 2 ^ 53 := by
      rw [abs_lt]
      unfold IsSafe maxSafe at safeT
      omega
    rw [time.total, time.remaining, minusMs_eq small]
    omega
  have allocated := @allocate_pair p r (t - r) scale currency safe (by rwa [split]) (by rw [split]; exact time.positive)
  rw [split] at allocated
  rw [weights, used, time.remaining]
  exact allocated

theorem remainingShare_eq {scale : Nat} (time : TimeLeft left r t) (safe : IsSafe p) :
    remainingShare ⟨canon p, scale, currency⟩ left = .ok ⟨canon (firstOfTwo p r t), scale, currency⟩ := by
  have allocated := allocate_weights scale currency time safe
  unfold weights at allocated
  rw [remainingShare, allocated]
  rfl

theorem share_safe (time : TimeLeft left r t) (safe : IsSafe p) (safeQ : IsSafe q) :
    IsSafe (firstOfTwo p r t - firstOfTwo q r t) := by
  have lowP := firstOfTwo_nonneg p r t
  have lowQ := firstOfTwo_nonneg q r t
  have highP := @firstOfTwo_le p r t time.within time.positive
  have highQ := @firstOfTwo_le q r t time.within time.positive
  unfold IsSafe at safe safeQ ⊢
  omega

def shareOf (r t : Nat) (plan : Plan) : ℚ := firstOfTwo plan.priceMinor r t

theorem costs_eq (time : TimeLeft left r t) (found : host.table (host.toUpperCase current.currency) = some currency)
    (same : next.currency = current.currency) (safe : IsSafe current.priceMinor) (safeNext : IsSafe next.priceMinor) :
    ∃ costs, calculateProrationCosts host current next left .createProrations = .ok costs ∧
      costs.immediateCharge = ⟨canon (max 0 (firstOfTwo next.priceMinor r t - firstOfTwo current.priceMinor r t)),
        currency.scale, currency⟩ := by
  have price (plan : Plan) (isOf : plan.currency = current.currency) (safe : IsSafe plan.priceMinor) :
      planPrice host plan = .ok ⟨canon plan.priceMinor, currency.scale, currency⟩ := by
    have reads : Math.isSafeInteger plan.priceMinor = true := by
      unfold IsSafe maxSafe at safe
      rw [Math.isSafeInteger, decide_eq_true_eq]
      omega
    rw [planPrice, isOf, Money.fromMinor, toCurrency, found, canon_safe safe]
    simp only [pure, Except.pure, bind, Except.bind, reads, if_true]
    rfl
  have difference := @minus_eq _ _ currency.scale currency (share_safe time safeNext safe)
  have larger := @max_eq currency.scale currency 0 (firstOfTwo next.priceMinor r t - firstOfTwo current.priceMinor r t)
  let amount (units : Int) : Money := ⟨canon units, currency.scale, currency⟩
  refine ⟨⟨amount (firstOfTwo current.priceMinor r t), amount (firstOfTwo next.priceMinor r t),
    amount (max 0 (firstOfTwo next.priceMinor r t - firstOfTwo current.priceMinor r t)), amount next.priceMinor⟩, ?_, rfl⟩
  unfold calculateProrationCosts
  simp only [price current rfl safe, price next same safeNext, bind, Except.bind, remainingShare_eq time safe,
    remainingShare_eq time safeNext, difference, zero_eq, Except.mapError, larger]
  rfl

theorem chargeMoves_eq (time : TimeLeft left r t) (found : host.table (host.toUpperCase current.currency) = some currency)
    (same : ∀ plan ∈ current :: moves, plan.currency = current.currency) (safe : ∀ plan ∈ current :: moves, IsSafe plan.priceMinor) :
    chargeMoves host left current moves = .ok (climb (shareOf r t current) (moves.map (shareOf r t))) := by
  induction moves generalizing current with
  | nil => rfl
  | cons next moves ih =>
    have sameNext := same next (by simp)
    obtain ⟨costs, charged, charge⟩ := costs_eq time found sameNext (safe current (by simp)) (safe next (by simp))
    have isNext : host.table (host.toUpperCase next.currency) = some currency := by rwa [sameNext]
    have rest := ih isNext
      (fun plan member => (same plan (List.mem_cons_of_mem _ member)).trans sameNext.symm)
      fun plan member => safe plan (List.mem_cons_of_mem _ member)
    have value : costs.immediateCharge.units.value = max 0 (shareOf r t next - shareOf r t current) := by
      rw [charge, canon_value, shareOf, shareOf]
      push_cast
      rfl
    rw [chargeMoves, charged]
    simp only [bind, Except.bind, rest, pure, Except.pure, value, List.map_cons, climb]

structure Splits (subscription : Subscription) (date : Instant) (left : RemainingTime) (price share used : Money) : Prop where
  parts : price.allocate (weights left) none = .ok [share, used]
  given : remainingShare price left = .ok share
  scales : share.scale = price.scale ∧ used.scale = price.scale
  currencies : share.currency = price.currency ∧ used.currency = price.currency
  exact : share.units.value + used.units.value = price.units.value
  nonneg : 0 ≤ share.units.value
  within : share.units.value ≤ price.units.value
  atStart : date = subscription.currentPeriodStart → share = price
  atEnd : date = subscription.currentPeriodEnd → share.units.value = 0

theorem splits (divides : Divides subscription) (inside : Inside subscription date)
    (returned : calculateRemainingTime host subscription date = .ok left) (priced : planPrice host plan = .ok price) :
    ∃ share used, Splits subscription date left price share used := by
  have time := timeLeft_of divides inside returned
  obtain ⟨currency, -, safe, rfl⟩ := planPrice_ok priced
  refine ⟨_, _, allocate_weights currency.scale currency time safe, remainingShare_eq time safe, ⟨rfl, rfl⟩, ⟨rfl, rfl⟩, ?_, ?_, ?_, ?_, ?_⟩
  · simp only [canon_value]
    push_cast
    ring
  · simp only [canon_value]
    exact_mod_cast firstOfTwo_nonneg ..
  · simp only [canon_value]
    exact_mod_cast firstOfTwo_le time.within time.positive
  · rintro rfl
    rw [show leftMs subscription subscription.currentPeriodStart = periodMs subscription from rfl, firstOfTwo_all time.positive]
  · rintro rfl
    have none_ : leftMs subscription subscription.currentPeriodEnd = 0 := by
      unfold leftMs
      omega
    rw [canon_value, none_, firstOfTwo_none, Int.cast_zero]

def ShareIs (host : Host) (left : RemainingTime) (plan : Plan) (value : ℚ) : Prop :=
  ∃ price share, planPrice host plan = .ok price ∧ remainingShare price left = .ok share ∧ share.units.value = value

theorem ShareIs.priced {value : ℚ} (is : ShareIs host left plan value) : ∃ price, planPrice host plan = .ok price := by
  obtain ⟨price, -, priced, -⟩ := is
  exact ⟨price, priced⟩

theorem ShareIs.eq {value : ℚ} (is : ShareIs host left plan value) (time : TimeLeft left r t) : value = shareOf r t plan := by
  obtain ⟨price, share, priced, given, rfl⟩ := is
  obtain ⟨currency, -, safe, rfl⟩ := planPrice_ok priced
  rw [remainingShare_eq time safe] at given
  rw [← Except.ok.inj given, canon_value, shareOf]

theorem shareIs_of (time : TimeLeft left r t) (priced : planPrice host plan = .ok price) : ShareIs host left plan (shareOf r t plan) := by
  obtain ⟨currency, -, safe, rfl⟩ := planPrice_ok priced
  exact ⟨_, _, priced, remainingShare_eq time safe, by rw [canon_value, shareOf]⟩

structure Priced (host : Host) (current : Plan) (moves : List Plan) : Prop where
  currencies : ∀ plan ∈ current :: moves, plan.currency = current.currency
  prices : ∀ plan ∈ current :: moves, ∃ price, planPrice host plan = .ok price

theorem Priced.found (priced : Priced host current moves) : ∃ currency, host.table (host.toUpperCase current.currency) = some currency := by
  obtain ⟨price, isPrice⟩ := priced.prices current (by simp)
  obtain ⟨currency, found, -⟩ := planPrice_ok isPrice
  exact ⟨currency, found⟩

theorem Priced.safe (priced : Priced host current moves) : ∀ plan ∈ current :: moves, IsSafe plan.priceMinor := by
  intro plan member
  obtain ⟨price, isPrice⟩ := priced.prices plan member
  obtain ⟨-, -, safe, -⟩ := planPrice_ok isPrice
  exact safe

theorem shareOf_mono (dearer : plan.priceMinor ≤ next.priceMinor) : shareOf r t plan ≤ shareOf r t next := by
  unfold shareOf
  exact_mod_cast firstOfTwo_mono dearer le_rfl

/-- A sequence of moves is never charged less than the direct move to the dearest plan, and no more exactly where no share
rises after one has fallen. -/
theorem moves_climb (time : TimeLeft left r t) (priced : Priced host current moves) (member : dearest ∈ current :: moves)
    (most : ∀ plan ∈ current :: moves, plan.priceMinor ≤ dearest.priceMinor) : ∃ total direct shares,
    chargeMoves host left current moves = .ok total ∧
      calculateProrationCosts host current dearest left .createProrations = .ok direct ∧
      List.Forall₂ (ShareIs host left) (current :: moves) shares ∧ direct.immediateCharge.units.value ≤ total ∧
      (total ≤ direct.immediateCharge.units.value ↔ Peaked shares) := by
  obtain ⟨currency, found⟩ := priced.found
  have safe := priced.safe
  obtain ⟨direct, charged, charge⟩ := costs_eq time found (priced.currencies dearest member) (safe current (by simp)) (safe dearest member)
  have highest : peak (shareOf r t current) (moves.map (shareOf r t)) = shareOf r t dearest := by
    have same : shareOf r t current :: moves.map (shareOf r t) = (current :: moves).map (shareOf r t) := rfl
    refine Variation.peak_eq ?_ ?_
    · rw [same]
      exact List.mem_map_of_mem member
    · rw [same]
      intro value inside
      obtain ⟨plan, isPlan, rfl⟩ := List.mem_map.mp inside
      exact shareOf_mono (most plan isPlan)
  have value : direct.immediateCharge.units.value = peak (shareOf r t current) (moves.map (shareOf r t)) - shareOf r t current := by
    have rises : firstOfTwo current.priceMinor r t ≤ firstOfTwo dearest.priceMinor r t := firstOfTwo_mono (most current (by simp)) le_rfl
    rw [charge, canon_value, max_eq_right (sub_nonneg.mpr rises), highest, shareOf, shareOf, Int.cast_sub]
  refine ⟨_, direct, (current :: moves).map (shareOf r t), chargeMoves_eq time found priced.currencies safe, charged, ?_, ?_, ?_⟩
  · rw [List.forall₂_map_right_iff, List.forall₂_same]
    intro plan isPlan
    obtain ⟨price, isPrice⟩ := priced.prices plan isPlan
    exact shareIs_of time isPrice
  · rw [value]
    exact Variation.peak_le_climb _ _
  · rw [value]
    exact Variation.climb_le_iff _ _

/-- What the split of a period comes to at a date: each price is split exactly, a later date leaves no more of it, a dearer
price leaves no less, a move is charged the rise of the share, and a sequence of moves the sum of its rises. -/
theorem prorates (divides : Divides subscription) (inside : Inside subscription date) :
    ∃ left, calculateRemainingTime host subscription date = .ok left ∧
      (∀ plan price, planPrice host plan = .ok price → ∃ share used, Splits subscription date left price share used) ∧
      (∀ later laterLeft plan value laterValue, Inside subscription later →
        date.epochNanoseconds ≤ later.epochNanoseconds → calculateRemainingTime host subscription later = .ok laterLeft →
        ShareIs host left plan value → ShareIs host laterLeft plan laterValue → laterValue ≤ value) ∧
      (∀ plan dearer value dearerValue, plan.priceMinor ≤ dearer.priceMinor → ShareIs host left plan value →
        ShareIs host left dearer dearerValue → value ≤ dearerValue) ∧
      (∀ current next value nextValue, next.currency = current.currency → ShareIs host left current value →
        ShareIs host left next nextValue → ∃ costs, calculateProrationCosts host current next left .createProrations = .ok costs ∧
          costs.immediateCharge.units.value = (if 0 < nextValue - value then nextValue - value else 0) ∧ (next.priceMinor = current.priceMinor → costs.immediateCharge.units.value = 0)) ∧
      ∀ current moves dearest, Priced host current moves → dearest ∈ current :: moves →
        (∀ plan ∈ current :: moves, plan.priceMinor ≤ dearest.priceMinor) → ∃ total direct shares,
          chargeMoves host left current moves = .ok total ∧
            calculateProrationCosts host current dearest left .createProrations = .ok direct ∧
            List.Forall₂ (ShareIs host left) (current :: moves) shares ∧ direct.immediateCharge.units.value ≤ total ∧
            (total ≤ direct.immediateCharge.units.value ↔ Peaked shares) := by
  obtain ⟨left, returned, time⟩ := remaining_ok host divides inside
  refine ⟨left, returned, fun plan price => splits divides inside returned, ?_, ?_, ?_, ?_⟩
  · intro later laterLeft plan value laterValue insideLater after returnedLater isValue isLater
    have timeLater := timeLeft_of divides insideLater returnedLater
    rw [isValue.eq time, isLater.eq timeLater]
    have less : leftMs subscription later ≤ leftMs subscription date := by
      have millis := toMillis_mono after
      unfold leftMs
      omega
    unfold shareOf
    exact_mod_cast firstOfTwo_mono le_rfl less
  · intro plan dearer value dearerValue more isValue isDearer
    rw [isValue.eq time, isDearer.eq time]
    exact shareOf_mono more
  · intro current next value nextValue same isValue isNext
    obtain ⟨price, priced⟩ := isValue.priced
    obtain ⟨priceNext, pricedNext⟩ := isNext.priced
    obtain ⟨currency, found, safe, -⟩ := planPrice_ok priced
    obtain ⟨-, -, safeNext, -⟩ := planPrice_ok pricedNext
    obtain ⟨costs, charged, charge⟩ := costs_eq time found same safe safeNext
    refine ⟨costs, charged, ?_, ?_⟩
    · rw [isValue.eq time, isNext.eq time, charge, canon_value, shareOf, shareOf,
        Int.cast_max, Int.cast_sub, Int.cast_zero]
      split
      · next rise => exact max_eq_right rise.le
      · next fall => exact max_eq_left (not_lt.mp fall)
    · intro equal
      rw [charge, canon_value, equal, sub_self, max_self, Int.cast_zero]
  · exact fun current moves dearest priced member most => moves_climb time priced member most

def at_ (nanoseconds : Int) (inRange : nanoseconds.natAbs ≤ 8640000000000000000000) : Instant := ⟨nanoseconds, inRange⟩

def euroHost : Host :=
  ⟨at_ 0 (by decide), fun _ => "1970-01-01T00:00:00Z", id, fun code => if code = "EUR" then some ⟨"EUR", some "978", 2, true⟩ else none⟩

def thirtyDays : Subscription := ⟨"sub", at_ 0 (by decide), at_ 2592000000000000 (by decide)⟩

def free : Plan := ⟨"free", 0, "EUR", true⟩

def pro : Plan := ⟨"pro", 1000, "EUR", true⟩

theorem prorates_thirtyDays : ∃ left, calculateRemainingTime euroHost thirtyDays (at_ 864000000000000 (by decide)) = .ok left ∧
    (∃ share used, Splits thirtyDays (at_ 864000000000000 (by decide)) left ⟨canon 1000, 2, ⟨"EUR", some "978", 2, true⟩⟩ share used) ∧
    ∃ total direct shares, chargeMoves euroHost left free [pro, free] = .ok total ∧
      calculateProrationCosts euroHost free pro left .createProrations = .ok direct ∧
      List.Forall₂ (ShareIs euroHost left) [free, pro, free] shares ∧ direct.immediateCharge.units.value ≤ total ∧
      (total ≤ direct.immediateCharge.units.value ↔ Peaked shares) := by
  have proration := @prorates euroHost thirtyDays (at_ 864000000000000 (by decide)) ⟨by decide, by decide⟩ ⟨by decide, by decide⟩
  obtain ⟨left, returned, split, -, -, -, moves⟩ := proration
  have priceFree : planPrice euroHost free = .ok ⟨canon 0, 2, ⟨"EUR", some "978", 2, true⟩⟩ := by decide +kernel
  have pricePro : planPrice euroHost pro = .ok ⟨canon 1000, 2, ⟨"EUR", some "978", 2, true⟩⟩ := by decide +kernel
  exact ⟨left, returned, split pro _ pricePro, moves free [pro, free] pro
    ⟨by simp [free, pro], by simp [priceFree, pricePro]⟩ (by simp) (by simp [free, pro])⟩

/-- Up, down and up again at a period's start is charged twice the direct move. A period inside one millisecond has no share at
all, and neither has one whose milliseconds are past the safe numbers. -/
theorem charged_twice :
    (calculateRemainingTime euroHost thirtyDays (at_ 0 (by decide)) >>= fun left =>
      chargeMoves euroHost left free [pro, free, pro]) = .ok 2000 ∧
    (calculateRemainingTime euroHost thirtyDays (at_ 0 (by decide)) >>= fun left =>
      (calculateProrationCosts euroHost free pro left .createProrations).map (·.immediateCharge.units.value)) = .ok 1000 ∧
    (calculateRemainingTime euroHost ⟨"sub", at_ 0 (by decide), at_ 999999 (by decide)⟩ (at_ 0 (by decide)) >>= fun left =>
      planPrice euroHost pro >>= fun price => remainingShare price left) =
        .error (.thrown (.math (.invalidArgument "Ratios must not all be zero"))) ∧
    (calculateRemainingTime euroHost ⟨"sub", at_ (-8640000000000000000000) (by decide), at_ 8640000000000000000000 (by decide)⟩
        (at_ (-8640000000000000000000) (by decide)) >>= fun left =>
      planPrice euroHost pro >>= fun price => remainingShare price left) =
        .error (.thrown (.math (.numericRange "The number is not a safe whole number of minor units."))) := by
  refine ⟨?_, ?_, ?_, ?_⟩ <;> decide +kernel

end Arki.Proration
