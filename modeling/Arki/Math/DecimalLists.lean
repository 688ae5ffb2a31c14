import Arki.Math.DecimalExact

/-! Sums and extremes over the arguments: what they answer with does not depend on the order. -/

set_option autoImplicit false

namespace Arki.Math

open Outcome (bind_ok)

namespace Decimal

variable {values others : List DecimalInput} {r : Decimal}

def read (values : List DecimalInput) : List Decimal := values.filterMap fun value => (from_ value).toOption

def Readable (values : List DecimalInput) : Prop := ∀ value ∈ values, ∃ d, from_ value = .ok d

def largestScale (ds : List Decimal) : Nat := ds.foldr (fun d scale => max d.scale scale) 0

def total (ds : List Decimal) : ℚ := (ds.map Decimal.value).sum

theorem read_cons {input : DecimalInput} {d : Decimal} (isRead : from_ input = .ok d) : read (input :: values) = d :: read values :=
  List.filterMap_cons_some (by rw [isRead]; rfl)

theorem readable_cons {input : DecimalInput} {d : Decimal} (isRead : from_ input = .ok d) (rest : Readable values) :
    Readable (input :: values) := by
  intro value inside
  rcases List.mem_cons.mp inside with rfl | later
  · exact ⟨d, isRead⟩
  · exact rest value later

theorem eq_of_value {a b : Decimal} (same : a.value = b.value) (scale : a.scale = b.scale) : a = b := by
  obtain ⟨x, xScale⟩ := a
  obtain ⟨y, yScale⟩ := b
  subst scale
  rw [value, value, div_left_inj' (by positivity)] at same
  have whole : x = y := by exact_mod_cast same
  rw [whole]

theorem sumStep_added {d : Decimal} {scale s_ : Nat} {sofar c_ : Int}
    (built : (if d.scale = scale then (pure d.coefficient : Checked Int) >>= fun scaled => pure (sofar + scaled, scale)
      else timesPow10 d.coefficient (scale - d.scale) "The sum" >>= fun scaled => pure (sofar + scaled, scale)) = .ok (c_, s_)) :
    s_ = scale ∧ c_ = sofar + d.coefficient * 10 ^ (scale - d.scale) := by
  by_cases same : d.scale = scale
  · rw [if_pos same] at built
    cases built
    simp [same]
  · rw [if_neg same] at built
    obtain ⟨scaled, multiplied, done⟩ := bind_ok.mp built
    cases done
    exact ⟨rfl, by rw [timesPow10_ok multiplied]⟩

theorem sumStep_spec {c c_ : Int} {s s_ : Nat} {input : DecimalInput} (stepped : sumStep (c, s) input = .ok (c_, s_)) :
    ∃ d, from_ input = .ok d ∧ s_ = max s d.scale ∧ (c_ : ℚ) / 10 ^ s_ = c / 10 ^ s + d.value := by
  unfold sumStep at stepped
  obtain ⟨d, isRead, stepped⟩ := bind_ok.mp stepped
  have added : s_ = max s d.scale ∧ c_ = c * 10 ^ (s_ - s) + d.coefficient * 10 ^ (s_ - d.scale) := by
    by_cases less : s < d.scale
    · simp only [if_pos less] at stepped
      obtain ⟨lifted, built, stepped⟩ := bind_ok.mp stepped
      obtain ⟨rfl, rfl⟩ := sumStep_added stepped
      exact ⟨(max_eq_right less.le).symm, by rw [timesPow10_ok built]⟩
    · simp only [if_neg less] at stepped
      obtain ⟨rfl, rfl⟩ := sumStep_added stepped
      exact ⟨(max_eq_left (Nat.le_of_not_lt less)).symm, by simp⟩
  obtain ⟨larger, rfl⟩ := added
  refine ⟨d, isRead, larger, ?_⟩
  have first := @value_scaled c s s_ (by rw [larger]; exact le_max_left _ _)
  have second := @value_scaled d.coefficient d.scale s_ (by rw [larger]; exact le_max_right _ _)
  rw [value, ← first, ← second, ← add_div]
  push_cast
  rfl

theorem sumSteps_spec : ∀ {values : List DecimalInput} {c c_ : Int} {s s_ : Nat},
    values.foldlM sumStep (c, s) = .ok (c_, s_) → Readable values ∧ s_ = max s (largestScale (read values)) ∧
      (c_ : ℚ) / 10 ^ s_ = c / 10 ^ s + total (read values) := by
  intro values
  induction values with
  | nil =>
    intro c c_ s s_ ran
    cases ran
    exact ⟨fun _ inside => (List.not_mem_nil inside).elim, (Nat.max_zero _).symm, (add_zero _).symm⟩
  | cons input values ih =>
    intro c c_ s s_ ran
    rw [List.foldlM_cons] at ran
    obtain ⟨⟨middle, scale⟩, stepped, ran⟩ := bind_ok.mp ran
    obtain ⟨d, isRead, larger, added⟩ := sumStep_spec stepped
    obtain ⟨rest, largest, sum_⟩ := ih ran
    refine ⟨readable_cons isRead rest, ?_, ?_⟩
    · rw [read_cons isRead, largest, larger, Nat.max_assoc]
      rfl
    · rw [read_cons isRead, sum_, added, add_assoc]
      rfl

theorem sum_spec (built : sum values = .ok r) : Readable values ∧ r.value = total (read values) ∧
    r.scale = largestScale (read values) ∧ r.coefficient.natAbs < 10 ^ maxDigits := by
  unfold sum at built
  obtain ⟨⟨sofar, scale⟩, ran, built⟩ := bind_ok.mp built
  obtain ⟨coefficient, checked, done⟩ := bind_ok.mp built
  cases done
  obtain ⟨rfl, small⟩ := assertResultDigits_ok checked
  obtain ⟨readable, largest, added⟩ := sumSteps_spec ran
  refine ⟨readable, ?_, ?_, small⟩
  · rw [value, added, Int.cast_zero, zero_div, zero_add]
  · rw [largest, Nat.zero_max]

theorem total_perm {ds es : List Decimal} (same : ds.Perm es) : total ds = total es := (same.map _).sum_eq

theorem largestScale_perm {ds es : List Decimal} (same : ds.Perm es) : largestScale ds = largestScale es := by
  have swaps : ∀ a ∈ ds, ∀ b ∈ ds, ∀ scale : Nat, max b.scale (max a.scale scale) = max a.scale (max b.scale scale) := by
    intro a _ b _ scale
    omega
  exact same.foldr_eq' swaps 0

theorem sum_perm {left right : Decimal} (same : values.Perm others) (first : sum values = .ok left)
    (second : sum others = .ok right) : left = right := by
  have reads : (read values).Perm (read others) := same.filterMap _
  obtain ⟨-, leftValue, leftScale, -⟩ := sum_spec first
  obtain ⟨-, rightValue, rightScale, -⟩ := sum_spec second
  apply eq_of_value
  · rw [leftValue, rightValue, total_perm reads]
  · rw [leftScale, rightScale, largestScale_perm reads]

theorem compareTo_spec {this : Decimal} {other : DecimalInput} {order : Int} (built : this.compareTo other = .ok order) :
    ∃ that, from_ other = .ok that ∧
      order = if this.value < that.value then -1 else if that.value < this.value then 1 else 0 := by
  unfold compareTo at built
  obtain ⟨that, isRead, built⟩ := bind_ok.mp built
  obtain ⟨⟨x, y, scale⟩, aligned, done⟩ := bind_ok.mp built
  cases done
  obtain ⟨left, right⟩ := align_values aligned
  have less (p q : Int) : (p : ℚ) / 10 ^ scale < q / 10 ^ scale ↔ p < q := by
    rw [div_lt_div_iff_of_pos_right (by positivity), Int.cast_lt]
  refine ⟨that, isRead, ?_⟩
  simp only [← left, ← right, less]

section Pick

variable {prefer : Decimal → Decimal → Prop} {better : Int → Bool}

theorem pick_loop (refl : ∀ d, prefer d d) (trans_ : ∀ {a b c}, prefer a b → prefer b c → prefer a c)
    (decides : ∀ {d best : Decimal} {order : Int}, d.compareTo (.decimal best) = .ok order →
      if better order then prefer best d else prefer d best) :
    ∀ {values : List DecimalInput} {best : Decimal}, values.foldlM (fun best value => do
      let d ← from_ value
      return if better (← d.compareTo (.decimal best)) then d else best) best = (Except.ok r : Checked Decimal) →
        Readable values ∧ r ∈ best :: read values ∧ ∀ d ∈ best :: read values, prefer d r := by
  intro values
  induction values with
  | nil =>
    intro best ran
    cases ran
    refine ⟨fun _ inside => (List.not_mem_nil inside).elim, List.mem_singleton.mpr rfl, fun d inside => ?_⟩
    rw [List.mem_singleton.mp inside]
    exact refl r
  | cons input values ih =>
    intro best ran
    rw [List.foldlM_cons] at ran
    obtain ⟨next, stepped, ran⟩ := bind_ok.mp ran
    obtain ⟨d, isRead, stepped⟩ := bind_ok.mp stepped
    obtain ⟨order, compared, done⟩ := bind_ok.mp stepped
    cases done
    obtain ⟨rest, among, all⟩ := ih ran
    have decided := decides compared
    rw [read_cons isRead]
    refine ⟨readable_cons isRead rest, ?_, fun e inside => ?_⟩
    · by_cases up : better order = true
      · rw [if_pos up] at among
        exact List.mem_cons_of_mem _ among
      · rw [if_neg up] at among
        rcases List.mem_cons.mp among with rfl | later
        · exact List.mem_cons_self
        · exact List.mem_cons_of_mem _ (List.mem_cons_of_mem _ later)
    · have ofNext := all _ List.mem_cons_self
      by_cases up : better order = true
      · rw [if_pos up] at ofNext decided all
        rcases List.mem_cons.mp inside with rfl | later
        · exact trans_ decided ofNext
        · exact all e later
      · rw [if_neg up] at ofNext decided all
        rcases List.mem_cons.mp inside with rfl | later
        · exact ofNext
        · rcases List.mem_cons.mp later with rfl | last
          · exact trans_ decided ofNext
          · exact all e (List.mem_cons_of_mem _ last)

theorem pick_spec {first : DecimalInput} (refl : ∀ d, prefer d d) (trans_ : ∀ {a b c}, prefer a b → prefer b c → prefer a c)
    (decides : ∀ {d best : Decimal} {order : Int}, d.compareTo (.decimal best) = .ok order →
      if better order then prefer best d else prefer d best) (built : pick better first values = .ok r) :
    Readable (first :: values) ∧ r ∈ read (first :: values) ∧ ∀ d ∈ read (first :: values), prefer d r := by
  unfold pick at built
  obtain ⟨best, isRead, ran⟩ := bind_ok.mp built
  obtain ⟨rest, among, all⟩ := pick_loop refl trans_ decides ran
  rw [read_cons isRead]
  exact ⟨readable_cons isRead rest, among, all⟩

end Pick

theorem max_spec {first : DecimalInput} (built : max_ first values = .ok r) :
    Readable (first :: values) ∧ r ∈ read (first :: values) ∧ ∀ d ∈ read (first :: values), d.value ≤ r.value := by
  apply @pick_spec _ r (fun a b => a.value ≤ b.value) _ first (fun _ => le_rfl) le_trans _ built
  intro d best order compared
  obtain ⟨that, given, is⟩ := compareTo_spec compared
  cases given
  subst is
  rcases lt_trichotomy d.value best.value with less | same | more
  · simp [less, less.le]
  · simp [same]
  · simp [more, more.le, not_lt.mpr more.le]

theorem min_spec {first : DecimalInput} (built : min_ first values = .ok r) :
    Readable (first :: values) ∧ r ∈ read (first :: values) ∧ ∀ d ∈ read (first :: values), r.value ≤ d.value := by
  apply @pick_spec _ r (fun a b => b.value ≤ a.value) _ first (fun _ => le_rfl) (fun first_ second => le_trans second first_) _ built
  intro d best order compared
  obtain ⟨that, given, is⟩ := compareTo_spec compared
  cases given
  subst is
  rcases lt_trichotomy d.value best.value with less | same | more
  · simp [less, less.le]
  · simp [same]
  · simp [more, more.le, not_lt.mpr more.le]

end Decimal

end Arki.Math
