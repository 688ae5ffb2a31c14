import Arki.Math.DecimalExact
import Arki.Math.WordsEnglish
import Arki.Math.WordsRomanian

/-! Number words lose nothing: what is spelled is heard as the number. -/

set_option autoImplicit false

namespace Arki.Math.Words

open Spoken

inductive Language where
  | english
  | british
  | romanian

namespace Language

def locale : Language → NumberWordsLocale
  | english => en
  | british => enGB
  | romanian => ro

def meaning : Language → String → Option Meaning
  | english | british => enMeaning
  | romanian => roMeaning

def composition (language : Language) (gender : Option Gender) (n : Nat) : List String :=
  match language with
  | english => enComposition false n
  | british => enComposition true n
  | romanian => roComposition (gender.getD .masculine) n

def wordsOf (language : Language) (gender : Option Gender) (n : Int) : List String :=
  if n < 0 then language.locale.negative :: language.composition gender n.natAbs else language.composition gender n.natAbs

def read (language : Language) (text : String) : Option Int :=
  Spoken.signed language.meaning language.locale.negative (Spoken.wordsOf text)

def limit (language : Language) : Nat := 1000 ^ language.locale.maxGroups

end Language

variable {language : Language} {gender : Option Gender} {n : Nat}

theorem Language.spell_eq (within : n < language.limit) (gender : Option Gender) :
    language.locale.spell n gender = .ok (" ".intercalate (language.composition gender n)) := by
  cases language with
  | english => exact enSpell_eq within false
  | british => exact enSpell_eq within true
  | romanian => exact roSpell_eq within gender

theorem Language.number_eq (within : n < language.limit) (gender : Option Gender) :
    number language.meaning (language.composition gender n) = some n := by
  cases language with
  | english => exact number_enComposition within
  | british => exact number_enComposition within
  | romanian => exact number_roComposition within

theorem Language.plain (language : Language) {word : String} (known : (language.meaning word).isSome) : ' ' ∉ word.toList := by
  cases language with
  | english => exact enMeaning_plain known
  | british => exact enMeaning_plain known
  | romanian => exact roMeaning_plain known

theorem Language.negative_apart (language : Language) :
    language.meaning language.locale.negative = none ∧ ' ' ∉ language.locale.negative.toList := by
  cases language <;> decide +kernel

theorem Language.composition_some (within : n < language.limit) (gender : Option Gender) : language.composition gender n ≠ [] := by
  intro silent
  have is := language.number_eq within gender
  rw [silent] at is
  have zero : n = 0 := (Option.some.inj is).symm
  subst zero
  cases language <;> cases silent

theorem Language.read_words {n : Int} (within : n.natAbs < language.limit) (gender : Option Gender) :
    language.read (" ".intercalate (language.wordsOf gender n)) = some n := by
  have tells := language.number_eq within gender
  have apart := language.negative_apart
  unfold Language.read Language.wordsOf
  split
  · next negative =>
    rw [signed_negative (fun word => language.plain) apart.2 tells]
    exact congrArg some (by omega)
  · next positive =>
    rw [signed_words (fun word => language.plain) apart.1 tells (language.composition_some within gender)]
    exact congrArg some (by omega)

/-- A number without its trailing zeros is an integer with no fraction digits. -/
theorem trim_whole {d : Decimal} {n : Int} (is : d.value = n) : d.trim = ⟨n, 0⟩ := by
  obtain ⟨same, _, _, shortest⟩ := @Decimal.trim_spec d
  have scale : d.trim.scale = 0 := Nat.le_zero.mp (shortest 0 ⟨n, by rw [same, is]; simp⟩)
  have coefficient : d.trim.coefficient = n := by
    rw [is, Decimal.value, scale, pow_zero, div_one] at same
    exact_mod_cast same
  rw [← scale, ← coefficient]

theorem assertFits_eq (language : Language) (n : Nat) :
    if n < language.limit then assertFits n language.locale = .ok ()
    else ∃ message, assertFits n language.locale = .error (.numericRange message) := by
  have power : 10 ^ (language.locale.maxGroups * 3) = language.limit := by
    rw [Language.limit, mul_comm, pow_mul]
    norm_num
  unfold assertFits
  simp only [power]
  by_cases within : n < language.limit
  · rw [if_pos within, if_neg (not_le.mpr within)]
  · rw [if_neg within, if_pos (not_lt.mp within)]
    exact ⟨_, rfl⟩

variable {digitsOf : Decimal → NumberWordsLocale → String} {value : DecimalInput} {d : Decimal}

theorem spellNumber_integer {n : Int} (isRead : Decimal.from_ value = .ok d) (is : d.value = n) :
    spellNumber digitsOf value { locale := language.locale, gender := gender } = (do
      assertFits n.natAbs language.locale
      let whole ← language.locale.spell n.natAbs gender
      return " ".intercalate (if n < 0 then [language.locale.negative, whole] else [whole])) := by
  have magnitude : (Decimal.abs ⟨n, 0⟩) = ⟨(n.natAbs : Int), 0⟩ := by
    unfold Decimal.abs Decimal.negated
    split
    · next negative =>
      have size : -n = (n.natAbs : Int) := by
        have less : n < 0 := negative
        omega
      exact congrArg (Decimal.mk · 0) size
    · next positive =>
      have size : n = (n.natAbs : Int) := by
        have more : ¬ n < 0 := positive
        omega
      exact congrArg (Decimal.mk · 0) size
  have scaled : Decimal.toScale ⟨(n.natAbs : Int), 0⟩ (.whole 0) .down = .ok ⟨(n.natAbs : Int), 0⟩ := rfl
  have whole : toBigInt ⟨(n.natAbs : Int), 0⟩ = .ok (n.natAbs : Int) := by
    simp [toBigInt, isInteger]
  unfold spellNumber
  simp only [isRead, bind, Except.bind, trim_whole is, magnitude, outside, pure, Except.pure, Bool.false_eq_true, if_false, scaled,
    whole, Int.toNat_natCast, fractionWords, if_true]

/-- What spelling an integer ends with: in the range its words, which are heard as the integer, and past it a refusal. -/
def Language.Spells (language : Language) (gender : Option Gender) (n : Int) (ending : Checked String) : Prop :=
  if n.natAbs < language.limit then
    ∃ text, ending = .ok text ∧ text = " ".intercalate (language.wordsOf gender n) ∧ language.read text = some n
  else ∃ message, ending = .error (.numericRange message)

theorem spellNumber_spells (digitsOf : Decimal → NumberWordsLocale → String) (language : Language) {n : Int} (isRead : Decimal.from_ value = .ok d) (is : d.value = n) (gender : Option Gender) :
    language.Spells gender n (spellNumber digitsOf value { locale := language.locale, gender := gender }) := by
  have fits := assertFits_eq language n.natAbs
  rw [spellNumber_integer isRead is]
  unfold Language.Spells
  by_cases within : n.natAbs < language.limit
  · have some_ := language.composition_some within gender
    rw [if_pos within] at fits ⊢
    refine ⟨_, ?_, rfl, language.read_words within gender⟩
    simp only [fits, language.spell_eq within, bind, Except.bind, pure, Except.pure, Language.wordsOf]
    split
    · rw [String.intercalate_cons_of_ne_nil some_, String.intercalate_cons_of_ne_nil (by simp), String.intercalate_singleton]
    · rw [String.intercalate_singleton]
  · rw [if_neg within] at fits ⊢
    obtain ⟨message, refused⟩ := fits
    exact ⟨message, by rw [refused]; rfl⟩

theorem Language.Spells.heard {n : Int} {text : String} (spells : language.Spells gender n (.ok text)) : language.read text = some n := by
  unfold Language.Spells at spells
  split at spells
  · obtain ⟨spelled, same, _, heard⟩ := spells
    rwa [← Except.ok.inj same] at heard
  · obtain ⟨message, refused⟩ := spells
    cases refused

/-- Number words lose nothing: an integer is spelled exactly when it is in the range, as its groups from the highest scale down
after its sign, hearing the words gives the integer back, and different integers are spelled differently. -/
theorem words_lose_nothing (digitsOf : Decimal → NumberWordsLocale → String) (language : Language) (gender : Option Gender) :
    (∀ (value : DecimalInput) (d : Decimal) (n : Int), Decimal.from_ value = .ok d → d.value = n →
      language.Spells gender n (spellNumber digitsOf value { locale := language.locale, gender := gender })) ∧
    (∀ (one other : DecimalInput) (d e : Decimal) (n m : Int) (text : String),
      Decimal.from_ one = .ok d → Decimal.from_ other = .ok e → d.value = n → e.value = m →
      spellNumber digitsOf one { locale := language.locale, gender := gender } = .ok text →
      spellNumber digitsOf other { locale := language.locale, gender := gender } = .ok text → n = m) := by
  refine ⟨fun value d n isRead is => spellNumber_spells digitsOf language isRead is gender, ?_⟩
  intro one other d e n m text isOne isOther isN isM first second
  have spellsOne := spellNumber_spells digitsOf language isOne isN gender
  have spellsOther := spellNumber_spells digitsOf language isOther isM gender
  rw [first] at spellsOne
  rw [second] at spellsOther
  exact Option.some.inj (spellsOne.heard.symm.trans spellsOther.heard)

theorem words_lose_nothing_romanian :
    Language.romanian.Spells (some .feminine) (-101001)
      (spellNumber (fun _ _ => "") (.bigint (-101001)) { locale := ro, gender := some .feminine }) ∧
    " ".intercalate (Language.romanian.wordsOf (some .feminine) (-101001)) = "minus o sută una mii una" :=
  ⟨(words_lose_nothing (fun _ _ => "") .romanian (some .feminine)).1 (.bigint (-101001)) ⟨-101001, 0⟩ (-101001) rfl
    (by simp [Decimal.value]), by decide +kernel⟩

end Arki.Math.Words
