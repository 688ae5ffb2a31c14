import Arki.Lock.RedisSets

/-! Semaphores: the weights of the holders stay within the stored limit, and each holder keeps its weight and its fence. -/

set_option autoImplicit false

namespace Arki.Lock.Redis

open Expiring (Cell Fields)

variable {now : Nat} {keys : PermitKeys} {token : LockToken} {ttl limit weight : Nat}

structure PermitsOk (keys : PermitKeys) : Prop where
  weights : ∀ token, keys.meta_.get (.weight token) = none ↔ keys.holders.get token = none
  fences : ∀ token, keys.meta_.get (.fence token) = none ↔ keys.holders.get token = none
  limited : ∀ token, keys.holders.get token ≠ none → keys.meta_.get .limit ≠ none
  bare : keys.holders.isEmpty = true → keys.meta_.isEmpty = true
  timed : Timed keys.holders keys.meta_
  within : ∀ limit, keys.meta_.get .limit = some limit → keys.meta_.total weighs ≤ limit

theorem PermitsOk.empty (counter : Option Nat) : PermitsOk ⟨Fields.empty, Fields.empty, counter⟩ where
  weights _ := Iff.rfl
  fences _ := Iff.rfl
  limited _ some_ := absurd rfl some_
  bare _ := rfl
  timed := .empty
  within _ is := by cases is

def ofTokens (tokens : List LockToken) : List Field := tokens.flatMap fun token => [.weight token, .fence token]

theorem drops_holders (tokens : List LockToken) : ∀ keys : PermitKeys,
    (tokens.foldl PermitKeys.drop keys).holders = keys.holders.removeAll tokens := by
  induction tokens with
  | nil => exact fun _ => rfl
  | cons token tokens ih => exact fun keys => ih (keys.drop token)

theorem drops_meta (tokens : List LockToken) : ∀ keys : PermitKeys,
    (tokens.foldl PermitKeys.drop keys).meta_ = keys.meta_.removeAll (ofTokens tokens) := by
  induction tokens with
  | nil => exact fun _ => rfl
  | cons token tokens ih => exact fun keys => ih (keys.drop token)

theorem drops_fence (tokens : List LockToken) : ∀ keys : PermitKeys, (tokens.foldl PermitKeys.drop keys).fence = keys.fence := by
  induction tokens with
  | nil => exact fun _ => rfl
  | cons token tokens ih => exact fun keys => ih (keys.drop token)

def PermitKeys.without (keys : PermitKeys) (tokens : List LockToken) : PermitKeys := (tokens.foldl PermitKeys.drop keys).cleared

variable {tokens : List LockToken}

theorem without_fence : (keys.without tokens).fence = keys.fence := drops_fence tokens keys

theorem without_holders : (keys.without tokens).holders.get token = if token ∈ tokens then none else keys.holders.get token := by
  show (tokens.foldl PermitKeys.drop keys).holders.get token = _
  rw [drops_holders, Fields.get_removeAll]

theorem without_meta : ((keys.without tokens).holders.isEmpty = true ∧ (keys.without tokens).meta_ = Fields.empty) ∨
    ¬ (keys.without tokens).holders.isEmpty = true ∧ (keys.without tokens).meta_ = keys.meta_.removeAll (ofTokens tokens) := by
  by_cases none_ : (keys.without tokens).holders.isEmpty = true
  · exact .inl ⟨none_, if_pos none_⟩
  · exact .inr ⟨none_, (if_neg none_).trans (drops_meta tokens keys)⟩

theorem weight_mem_ofTokens : Field.weight token ∈ ofTokens tokens ↔ token ∈ tokens := by
  simp [ofTokens]

theorem fence_mem_ofTokens : Field.fence token ∈ ofTokens tokens ↔ token ∈ tokens := by
  simp [ofTokens]

theorem limit_mem_ofTokens : ¬ Field.limit ∈ ofTokens tokens := by
  simp [ofTokens]

theorem without_left (left : (keys.without tokens).holders.get token ≠ none) :
    (keys.without tokens).meta_.get (.weight token) = keys.meta_.get (.weight token) ∧
      (keys.without tokens).meta_.get (.fence token) = keys.meta_.get (.fence token) ∧
        (keys.without tokens).meta_.get .limit = keys.meta_.get .limit := by
  have apart : token ∉ tokens := by
    intro inside
    rw [without_holders, if_pos inside] at left
    exact left rfl
  rcases @without_meta keys tokens with ⟨none_, -⟩ | ⟨-, is⟩
  · exact absurd (Fields.isEmpty_iff.mp none_ token) left
  · rw [is, Fields.get_removeAll, Fields.get_removeAll, Fields.get_removeAll, if_neg (fun inside => apart (weight_mem_ofTokens.mp inside)),
      if_neg (fun inside => apart (fence_mem_ofTokens.mp inside)), if_neg limit_mem_ofTokens]
    exact ⟨rfl, rfl, rfl⟩

theorem PermitsOk.without (ok : PermitsOk keys) (tokens : List LockToken) : PermitsOk (keys.without tokens) := by
  have holders (token : LockToken) := @without_holders keys token tokens
  rcases @without_meta keys tokens with ⟨none_, is⟩ | ⟨some_, is⟩
  · have gone (token : LockToken) := Fields.isEmpty_iff.mp none_ token
    refine ⟨fun token => ?_, fun token => ?_, fun token some_ => absurd (gone token) some_, fun _ => by rw [is]; rfl, ?_, ?_⟩
    · rw [is, gone]
      exact Iff.rfl
    · rw [is, gone]
      exact Iff.rfl
    · refine ⟨?_, fun token score has => ?_⟩
      · rw [is, Fields.expiry_of_isEmpty none_]
        rfl
      · rw [gone] at has
        cases has
    · intro limit has
      rw [is] at has
      cases has
  · -- a holder is left
    have weight (token : LockToken) : (keys.without tokens).meta_.get (.weight token) =
        if token ∈ tokens then none else keys.meta_.get (.weight token) := by
      rw [is, Fields.get_removeAll]
      simp only [weight_mem_ofTokens]
    have fence (token : LockToken) : (keys.without tokens).meta_.get (.fence token) =
        if token ∈ tokens then none else keys.meta_.get (.fence token) := by
      rw [is, Fields.get_removeAll]
      simp only [fence_mem_ofTokens]
    have limit : (keys.without tokens).meta_.get .limit = keys.meta_.get .limit := by
      rw [is, Fields.get_removeAll, if_neg limit_mem_ofTokens]
    refine ⟨fun token => ?_, fun token => ?_, fun token left => ?_, fun none_ => absurd none_ some_, ?_, ?_⟩
    · rw [weight, holders]
      split
      · exact Iff.rfl
      · exact ok.weights token
    · rw [fence, holders]
      split
      · exact Iff.rfl
      · exact ok.fences token
    · rw [limit]
      rw [holders] at left
      split at left
      · exact absurd rfl left
      · exact ok.limited token left
    · have left : ∃ token, (keys.without tokens).holders.get token ≠ none := by
        by_contra all
        simp only [not_exists, ne_eq, not_not] at all
        exact some_ (Fields.isEmpty_iff.mpr all)
      obtain ⟨token, left⟩ := left
      have setExpiry : (keys.without tokens).holders.expiry = keys.holders.expiry := by
        have same : (keys.without tokens).holders = keys.holders.removeAll tokens := drops_holders tokens keys
        rw [same] at left ⊢
        exact Fields.expiry_removeAll tokens keys.holders left
      have hashExpiry : (keys.without tokens).meta_.expiry = keys.meta_.expiry := by
        have has : (keys.without tokens).meta_.get .limit ≠ none := by
          rw [limit]
          apply ok.limited token
          rw [holders] at left
          split at left
          · exact absurd rfl left
          · exact left
        rw [is] at has ⊢
        exact Fields.expiry_removeAll _ keys.meta_ has
      refine ⟨by rw [setExpiry, hashExpiry, ok.timed.together], fun token score has => ?_⟩
      rw [holders] at has
      split at has
      · cases has
      · rw [setExpiry]
        exact ok.timed.covered token score has
    · intro most has
      rw [limit] at has
      rw [is]
      exact (Fields.total_removeAll_le _ _).trans (ok.within most has)

theorem PermitsOk.seen_cases (ok : PermitsOk keys) (now : Nat) :
    keys.seen now = keys ∨ keys.seen now = ⟨Fields.empty, Fields.empty, keys.fence⟩ := by
  rcases ok.timed.seen now with ⟨set, hash⟩ | ⟨set, hash⟩
  · left
    unfold PermitKeys.seen
    rw [set, hash]
  · right
    unfold PermitKeys.seen
    rw [set, hash]

theorem PermitsOk.seen (ok : PermitsOk keys) (now : Nat) : PermitsOk (keys.seen now) := by
  rcases ok.seen_cases now with same | gone
  · rw [same]
    exact ok
  · rw [gone]
    exact .empty _

/-- The keys that `permitAcquire` counts. -/
def PermitKeys.counted (now : Nat) (keys : PermitKeys) : PermitKeys := (keys.seen now).pruned now

theorem PermitsOk.counted (ok : PermitsOk keys) (now : Nat) : PermitsOk (keys.counted now) := (ok.seen now).without _

theorem counted_fence : (keys.counted now).fence = keys.fence := without_fence

theorem counted_holders {score : Nat} : (keys.counted now).holders.get token = some score ↔
    (keys.holders.seen now).get token = some score ∧ now < score := by
  show ((keys.seen now).without (upTo now (keys.seen now).holders)).holders.get token = _ ↔ _
  rw [without_holders]
  simp only [mem_upTo]
  constructor
  · intro is
    split at is
    · cases is
    · next apart =>
      refine ⟨is, ?_⟩
      by_contra past
      exact apart ⟨score, is, not_lt.mp past⟩
  · rintro ⟨is, ahead⟩
    rw [if_neg]
    · exact is
    · rintro ⟨other, same, past⟩
      have both : (keys.holders.seen now).get token = some other := same
      rw [is] at both
      cases both
      omega

theorem counted_ahead : (keys.counted now).holders.get token ≠ none ↔ Ahead now keys.holders token := by
  rw [← Option.isSome_iff_ne_none, Option.isSome_iff_exists]
  constructor
  · rintro ⟨score, is⟩
    exact ⟨score, counted_holders.mp is⟩
  · rintro ⟨score, is⟩
    exact ⟨score, counted_holders.mpr is⟩

theorem counted_fields (ahead : Ahead now keys.holders token) :
    (keys.counted now).meta_.get (.weight token) = (keys.seen now).meta_.get (.weight token) ∧
      (keys.counted now).meta_.get (.fence token) = (keys.seen now).meta_.get (.fence token) ∧
        (keys.counted now).meta_.get .limit = (keys.seen now).meta_.get .limit :=
  without_left (counted_ahead.mpr ahead)

theorem PermitsOk.kept {given : PermitKeys} (weights : ∀ token, given.meta_.get (.weight token) = none ↔ given.holders.get token = none)
    (fences : ∀ token, given.meta_.get (.fence token) = none ↔ given.holders.get token = none)
    (limited : given.meta_.get .limit ≠ none) (holder : given.holders.get token ≠ none)
    (within : ∀ limit, given.meta_.get .limit = some limit → given.meta_.total weighs ≤ limit) : PermitsOk (given.kept now) where
  weights other := by
    show (keep now given.holders given.meta_).2.get _ = none ↔ (keep now given.holders given.meta_).1.get _ = none
    rw [keep_get_left, keep_get_right]
    exact weights other
  fences other := by
    show (keep now given.holders given.meta_).2.get _ = none ↔ (keep now given.holders given.meta_).1.get _ = none
    rw [keep_get_left, keep_get_right]
    exact fences other
  limited _ _ := by
    show (keep now given.holders given.meta_).2.get _ ≠ none
    rw [keep_get_right]
    exact limited
  bare none_ := by
    have missing := Fields.isEmpty_iff.mp none_ token
    have there : (keep now given.holders given.meta_).1.get token ≠ none := by
      rw [keep_get_left]
      exact holder
    exact absurd missing there
  timed := keep_timed holder limited
  within limit is := by
    have is : (keep now given.holders given.meta_).2.get .limit = some limit := is
    rw [keep_get_right] at is
    show (keep now given.holders given.meta_).2.total weighs ≤ limit
    rw [keep_total]
    exact within limit is

theorem PermitsOk.renewed (ok : PermitsOk keys) (holder : keys.holders.get token ≠ none) (score : Nat) :
    PermitsOk (PermitKeys.kept now { keys with holders := keys.holders.put token score }) := by
  have same (other : LockToken) : (keys.holders.put token score).get other = none ↔ keys.holders.get other = none := by
    rw [Fields.get_put]
    by_cases is : other = token
    · rw [if_pos is, is]
      exact ⟨nofun, fun none_ => absurd none_ holder⟩
    · rw [if_neg is]
  apply @PermitsOk.kept now token { keys with holders := keys.holders.put token score }
  · exact fun other => (ok.weights other).trans (same other).symm
  · exact fun other => (ok.fences other).trans (same other).symm
  · exact ok.limited token holder
  · show (keys.holders.put token score).get token ≠ none
    rw [Fields.get_put_self]
    nofun
  · exact ok.within

def PermitKeys.admitted (keys : PermitKeys) (token : LockToken) (score limit weight : Nat) : PermitKeys :=
  ⟨keys.holders.put token score, ((keys.meta_.put .limit limit).put (.weight token) weight).put (.fence token) (incr keys.fence),
    some (incr keys.fence)⟩

variable {score : Nat}

theorem admitted_weight (other : LockToken) : (keys.admitted token score limit weight).meta_.get (.weight other) =
    if other = token then some weight else keys.meta_.get (.weight other) := by
  unfold PermitKeys.admitted
  by_cases same : other = token
  · simp [Fields.get_put, same]
  · simp [Fields.get_put, same]

theorem admitted_fence (other : LockToken) : (keys.admitted token score limit weight).meta_.get (.fence other) =
    if other = token then some (incr keys.fence) else keys.meta_.get (.fence other) := by
  unfold PermitKeys.admitted
  by_cases same : other = token
  · simp [same]
  · simp [Fields.get_put, same]

theorem admitted_limit : (keys.admitted token score limit weight).meta_.get .limit = some limit := by
  simp [PermitKeys.admitted, Fields.get_put]

theorem admitted_holder (other : LockToken) : (keys.admitted token score limit weight).holders.get other =
    if other = token then some score else keys.holders.get other := Fields.get_put

theorem admitted_total : (keys.admitted token score limit weight).meta_.total weighs ≤ weight + keys.meta_.total weighs := by
  have limits : (keys.meta_.put .limit limit).total weighs ≤ 0 + keys.meta_.total weighs := Fields.total_put_le
  have weights : ((keys.meta_.put .limit limit).put (.weight token) weight).total weighs ≤
      weight + (keys.meta_.put .limit limit).total weighs := Fields.total_put_le
  have fences : (keys.admitted token score limit weight).meta_.total weighs ≤
      0 + ((keys.meta_.put .limit limit).put (.weight token) weight).total weighs := Fields.total_put_le
  omega

theorem PermitsOk.admitted (ok : PermitsOk keys) (fits : keys.meta_.total weighs + weight ≤ limit) :
    PermitsOk ((keys.admitted token score limit weight).kept now) := by
  apply @PermitsOk.kept now token (keys.admitted token score limit weight)
  · intro other
    rw [admitted_weight, admitted_holder]
    split
    · exact ⟨nofun, nofun⟩
    · exact ok.weights other
  · intro other
    rw [admitted_fence, admitted_holder]
    split
    · exact ⟨nofun, nofun⟩
    · exact ok.fences other
  · rw [admitted_limit]
    nofun
  · rw [admitted_holder, if_pos rfl]
    nofun
  · intro stored is
    rw [admitted_limit] at is
    cases is
    have most := @admitted_total keys token limit weight score
    omega

/-- What `permitAcquire` does, by what it finds. -/
inductive PermitOutcome (now : Nat) (keys : PermitKeys) (token : LockToken) (ttl limit weight : Nat) : PermitKeys × Reply → Prop
  | other : (∃ stored, (keys.counted now).meta_.get .limit = some stored ∧ stored ≠ limit) →
      PermitOutcome now keys token ttl limit weight (keys.counted now, (-1, 0))
  | resent {fence : Nat} : Ahead now keys.holders token → (keys.counted now).meta_.get (.fence token) = some fence →
      PermitOutcome now keys token ttl limit weight
        (PermitKeys.kept now { keys.counted now with holders := (keys.counted now).holders.put token (now + ttl) }, (fence, now))
  | full : ¬ Ahead now keys.holders token → limit < (keys.counted now).meta_.total weighs + weight →
      PermitOutcome now keys token ttl limit weight (keys.counted now, (0, 0))
  | granted : ¬ Ahead now keys.holders token → (∀ stored, (keys.counted now).meta_.get .limit = some stored → stored = limit) →
      (keys.counted now).meta_.total weighs + weight ≤ limit →
      PermitOutcome now keys token ttl limit weight
        (((keys.counted now).admitted token (now + ttl) limit weight).kept now, (incr keys.fence, now))

theorem permitAcquire_eq : permitAcquire now keys token ttl limit weight =
    if ((keys.counted now).meta_.get .limit).any (· ≠ limit) then (keys.counted now, ((-1 : Int), 0))
    else if ((keys.counted now).holders.get token).isSome then
      (PermitKeys.kept now ⟨(keys.counted now).holders.put token (now + ttl), (keys.counted now).meta_,
        if ((keys.counted now).meta_.get (.fence token)).isSome then (keys.counted now).fence else some (incr (keys.counted now).fence)⟩,
        (((((keys.counted now).meta_.get (.fence token)).getD (incr (keys.counted now).fence) : Nat) : Int), now))
    else if limit < (keys.counted now).meta_.total weighs + weight then (keys.counted now, (0, 0))
    else (((keys.counted now).admitted token (now + ttl) limit weight).kept now, ((incr (keys.counted now).fence : Int), now)) := rfl

theorem permitAcquire_outcome (ok : PermitsOk keys) (now : Nat) (token : LockToken) (ttl limit weight : Nat) :
    PermitOutcome now keys token ttl limit weight (permitAcquire now keys token ttl limit weight) := by
  have counted := ok.counted now
  have holder : ((keys.counted now).holders.get token).isSome = true ↔ Ahead now keys.holders token := by
    rw [Option.isSome_iff_ne_none]
    exact counted_ahead
  rw [permitAcquire_eq]
  by_cases apart : ((keys.counted now).meta_.get .limit).any (· ≠ limit) = true
  · rw [if_pos apart]
    obtain ⟨stored, is, differs⟩ := (Option.any_eq_true _ _).mp apart
    exact .other ⟨stored, is, by simpa using differs⟩
  rw [if_neg apart]
  by_cases held : ((keys.counted now).holders.get token).isSome = true
  · have has : (keys.counted now).meta_.get (.fence token) ≠ none := by
      rw [Ne, counted.fences token]
      exact Option.isSome_iff_ne_none.mp held
    obtain ⟨fence, is⟩ := Option.ne_none_iff_exists'.mp has
    rw [if_pos held, is]
    exact .resent (holder.mp held) is
  rw [if_neg held]
  have fresh : ¬ Ahead now keys.holders token := fun ahead => held (holder.mpr ahead)
  by_cases full : limit < (keys.counted now).meta_.total weighs + weight
  · rw [if_pos full]
    exact .full fresh full
  · rw [if_neg full, counted_fence]
    refine .granted fresh (fun stored is => ?_) (not_lt.mp full)
    rw [is] at apart
    simpa using apart

/-- Each holder has the fence of its last grant, and the limit of that grant is stored. -/
structure PermitsGranted (lock : Granted PermitKeys) : Prop where
  ok : PermitsOk lock.keys
  recorded : Recorded lock.grants lock.keys.fence
  given : ∀ token fence, lock.keys.meta_.get (.fence token) = some fence → ∃ ttl limit weight,
    lock.grants.last token = some (.permitAcquire token ttl limit weight, fence) ∧ lock.keys.meta_.get .limit = some limit

variable {lock : Granted PermitKeys}

theorem PermitsGranted.initial : PermitsGranted ⟨⟨Fields.empty, Fields.empty, none⟩, []⟩ where
  ok := .empty none
  recorded := ⟨.nil, nofun⟩
  given _ _ is := by cases is

theorem PermitsGranted.fewer (granted : PermitsGranted lock) {keys : PermitKeys} (ok : PermitsOk keys) (counter : keys.fence = lock.keys.fence)
    (left : ∀ token, keys.holders.get token ≠ none → keys.meta_.get (.fence token) = lock.keys.meta_.get (.fence token) ∧
      keys.meta_.get .limit = lock.keys.meta_.get .limit) : PermitsGranted ⟨keys, lock.grants⟩ where
  ok := ok
  recorded := by
    show Recorded lock.grants keys.fence
    rw [counter]
    exact granted.recorded
  given token fence is := by
    have is : keys.meta_.get (.fence token) = some fence := is
    have holder : keys.holders.get token ≠ none := by
      rw [Ne, ← ok.fences token, is]
      nofun
    obtain ⟨sameFence, sameLimit⟩ := left token holder
    rw [sameFence] at is
    show ∃ ttl limit weight, lock.grants.last token = _ ∧ keys.meta_.get .limit = some limit
    rw [sameLimit]
    exact granted.given token fence is

theorem PermitsGranted.without (granted : PermitsGranted lock) (tokens : List LockToken) :
    PermitsGranted ⟨lock.keys.without tokens, lock.grants⟩ :=
  granted.fewer (granted.ok.without tokens) without_fence fun _ left => (without_left left).2

theorem PermitsGranted.seen (granted : PermitsGranted lock) (now : Nat) : PermitsGranted ⟨lock.keys.seen now, lock.grants⟩ := by
  apply granted.fewer (granted.ok.seen now) rfl
  intro token left
  rcases granted.ok.seen_cases now with same | gone
  · rw [same]
    exact ⟨rfl, rfl⟩
  · rw [gone] at left
    exact absurd rfl left

theorem PermitsGranted.counted (granted : PermitsGranted lock) (now : Nat) : PermitsGranted ⟨lock.keys.counted now, lock.grants⟩ :=
  (granted.seen now).without _

theorem PermitsGranted.renewed (granted : PermitsGranted lock) (holder : lock.keys.holders.get token ≠ none) (score : Nat) :
    PermitsGranted ⟨PermitKeys.kept now { lock.keys with holders := lock.keys.holders.put token score }, lock.grants⟩ :=
  granted.fewer (granted.ok.renewed holder score) rfl fun _ _ => ⟨keep_get_right, keep_get_right⟩

theorem PermitsGranted.admitted (granted : PermitsGranted lock) (now score : Nat) (token : LockToken) (ttl : Nat)
    (agrees : ∀ stored, lock.keys.meta_.get .limit = some stored → stored = limit)
    (fits : lock.keys.meta_.total weighs + weight ≤ limit) :
    PermitsGranted ⟨(lock.keys.admitted token score limit weight).kept now,
      (.permitAcquire token ttl limit weight, incr lock.keys.fence) :: lock.grants⟩ where
  ok := granted.ok.admitted fits
  recorded := granted.recorded.next _
  given other fence is := by
    have is : (keep now _ (lock.keys.admitted token score limit weight).meta_).2.get (.fence other) = some fence := is
    show ∃ ttl' limit' weight', Grants.last _ other = _ ∧
      (keep now _ (lock.keys.admitted token score limit weight).meta_).2.get .limit = some limit'
    rw [keep_get_right, admitted_fence] at is
    rw [keep_get_right, admitted_limit]
    by_cases same : other = token
    · rw [if_pos same] at is
      cases is
      exact ⟨ttl, limit, weight, by rw [same]; exact last_cons_self, rfl⟩
    · rw [if_neg same] at is
      obtain ⟨ttl', limit', weight', last, stored⟩ := granted.given other fence is
      cases agrees limit' stored
      exact ⟨ttl', limit, weight', (last_cons_of_ne fun is => same is.symm).trans last, rfl⟩

theorem runPermit_granted (granted : PermitsGranted lock) (now : Nat) (script : Script) : PermitsGranted (runPermit now lock script) := by
  have counted := granted.counted now
  have seen := granted.seen now
  cases script with
  | permitAcquire token ttl limit weight =>
    show PermitsGranted ⟨(permitAcquire now lock.keys token ttl limit weight).1,
      noted lock.grants _ _ (permitAcquire now lock.keys token ttl limit weight).2⟩
    generalize outcome : permitAcquire now lock.keys token ttl limit weight = result
    have found := permitAcquire_outcome granted.ok now token ttl limit weight
    rw [outcome] at found
    cases found with
    | other differs =>
      rw [noted_refused (show (-1 : Int) ≤ 0 by decide)]
      exact counted
    | resent ahead is =>
      rw [show decide (Ahead now lock.keys.holders token) = true from decide_eq_true ahead, noted_held]
      exact counted.renewed (counted_ahead.mpr ahead) _
    | full fresh full =>
      rw [noted_refused (le_refl (0 : Int))]
      exact counted
    | granted fresh agrees fits =>
      rw [show decide (Ahead now lock.keys.holders token) = false from decide_eq_false fresh, noted_new]
      have next := counted.admitted now (now + ttl) token ttl agrees fits
      have counter : incr (lock.keys.counted now).fence = incr lock.keys.fence := by rw [counted_fence]
      rw [counter] at next
      exact next
  | permitRelease token =>
    show PermitsGranted ⟨(permitRelease now lock.keys token).1, lock.grants⟩
    unfold permitRelease
    cases is : (lock.keys.seen now).holders.get token with
    | none =>
      simp only [is]
      exact seen
    | some score =>
      simp only [is]
      exact seen.without [token]
  | permitExtend token ttl =>
    show PermitsGranted ⟨(permitExtend now lock.keys token ttl).1, lock.grants⟩
    unfold permitExtend
    cases is : (lock.keys.seen now).holders.get token with
    | none =>
      simp only [is]
      exact seen
    | some score =>
      simp only [is]
      split
      · exact seen
      · apply seen.renewed
        show (lock.keys.seen now).holders.get token ≠ none
        rw [is]
        nofun
  | _ => exact granted

def PermitKeys.held (now : Nat) (keys : PermitKeys) (token : LockToken) : Nat := ((keys.meta_.seen now).get (.weight token)).getD 0

def PermitKeys.Apart (now : Nat) (before after : PermitKeys) (token : LockToken) : Prop :=
  ∀ later other, now ≤ later → other ≠ token → (after.seen later).holders.get other = (before.seen later).holders.get other ∧
    (after.seen later).meta_.get (.weight other) = (before.seen later).meta_.get (.weight other) ∧
      (after.seen later).meta_.get (.fence other) = (before.seen later).meta_.get (.fence other)

theorem PermitKeys.Apart.seen (now : Nat) (keys : PermitKeys) (token : LockToken) : PermitKeys.Apart now keys (keys.seen now) token := by
  intro later other le _
  have same : (keys.seen now).seen later = keys.seen later := by
    unfold PermitKeys.seen
    rw [Fields.seen_seen le, Fields.seen_seen le]
  rw [same]
  exact ⟨rfl, rfl, rfl⟩

theorem PermitsOk.apart_without (ok : PermitsOk keys) (now : Nat) (token : LockToken) :
    PermitKeys.Apart now keys (keys.without [token]) token := by
  intro later other le apart
  have fresh : other ∉ [token] := by simpa using apart
  have set : ((keys.without [token]).holders.seen later).get other = (keys.holders.seen later).get other := by
    rw [show (keys.without [token]).holders = keys.holders.removeAll [token] from drops_holders [token] keys]
    exact Fields.get_seen_removeAll fresh
  refine ⟨set, ?_⟩
  rcases @without_meta keys [token] with ⟨none_, is⟩ | ⟨some_, is⟩
  · -- no holder is left, and the others were none
    have missing : keys.holders.get other = none := by
      have gone := Fields.isEmpty_iff.mp none_ other
      rw [without_holders, if_neg fresh] at gone
      exact gone
    show ((keys.without [token]).meta_.seen later).get _ = (keys.meta_.seen later).get _ ∧
      ((keys.without [token]).meta_.seen later).get _ = (keys.meta_.seen later).get _
    rw [is, Fields.get_seen, Fields.get_seen, Fields.get_seen, Fields.get_seen, (ok.weights other).mpr missing,
      (ok.fences other).mpr missing, Fields.get_empty, Fields.get_empty, ite_self, ite_self]
    exact ⟨rfl, rfl⟩
  · show ((keys.without [token]).meta_.seen later).get _ = (keys.meta_.seen later).get _ ∧
      ((keys.without [token]).meta_.seen later).get _ = (keys.meta_.seen later).get _
    rw [is]
    exact ⟨Fields.get_seen_removeAll fun inside => fresh (weight_mem_ofTokens.mp inside),
      Fields.get_seen_removeAll fun inside => fresh (fence_mem_ofTokens.mp inside)⟩

theorem PermitKeys.Apart.trans {between after : PermitKeys} (first : PermitKeys.Apart now keys between token)
    (second : PermitKeys.Apart now between after token) : PermitKeys.Apart now keys after token := by
  intro later other le apart
  obtain ⟨holder, weight, fence⟩ := first later other le apart
  obtain ⟨holder', weight', fence'⟩ := second later other le apart
  exact ⟨holder'.trans holder, weight'.trans weight, fence'.trans fence⟩

theorem permitRelease_lapsed (ok : PermitsOk keys) (lapsed : ¬ Ahead now keys.holders token) :
    (permitRelease now keys token).2 = 0 ∧ PermitKeys.Apart now keys (permitRelease now keys token).1 token := by
  unfold permitRelease
  cases is : (keys.seen now).holders.get token with
  | none =>
    simp only [is]
    exact ⟨trivial, .seen now keys token⟩
  | some score =>
    simp only [is]
    have past : score ≤ now := by
      by_contra ahead
      exact lapsed ⟨score, is, not_le.mp ahead⟩
    exact ⟨if_pos past, (PermitKeys.Apart.seen now keys token).trans ((ok.seen now).apart_without now token)⟩

theorem permitExtend_lapsed (lapsed : ¬ Ahead now keys.holders token) (ttl : Nat) :
    (permitExtend now keys token ttl).2 = 0 ∧ PermitKeys.Apart now keys (permitExtend now keys token ttl).1 token := by
  unfold permitExtend
  cases is : (keys.seen now).holders.get token with
  | none =>
    simp only [is]
    exact ⟨trivial, .seen now keys token⟩
  | some score =>
    have past : score ≤ now := by
      by_contra ahead
      exact lapsed ⟨score, is, not_le.mp ahead⟩
    simp only [is, if_pos past]
    exact ⟨trivial, .seen now keys token⟩

def PermitKeys.used (now : Nat) (keys : PermitKeys) : Nat := ((above now (keys.holders.seen now)).map (keys.held now)).sum

theorem used_le_total (now : Nat) (keys : PermitKeys) : keys.used now ≤ (keys.counted now).meta_.total weighs := by
  have fields : (above now (keys.holders.seen now)).map (keys.held now) =
      ((above now (keys.holders.seen now)).map Field.weight).map fun name =>
        (((keys.counted now).meta_.get name).map (weighs name)).getD 0 := by
    rw [List.map_map]
    apply List.map_congr_left
    intro token inside
    have same := (counted_fields (mem_above_seen.mp inside)).1
    show ((keys.seen now).meta_.get (.weight token)).getD 0 = (((keys.counted now).meta_.get (.weight token)).map id).getD 0
    rw [same, Option.map_id]
    rfl
  unfold PermitKeys.used
  rw [fields]
  apply Fields.sum_le_total
  apply nodup_above.map
  intro token other same
  cases same
  rfl

theorem PermitKeys.used_eq_zero (nobody : ∀ token, ¬ Ahead now keys.holders token) : keys.used now = 0 := by
  have none_ : above now (keys.holders.seen now) = [] :=
    List.eq_nil_iff_forall_not_mem.mpr fun token inside => nobody token (mem_above_seen.mp inside)
  unfold PermitKeys.used
  rw [none_]
  rfl

/-- The live weights are within the limit that is stored, and it is stored while anyone holds. -/
theorem PermitsOk.used_le (ok : PermitsOk keys) (now : Nat) (ahead : Ahead now keys.holders token) :
    ∃ limit, (keys.seen now).meta_.get .limit = some limit ∧ keys.used now ≤ limit := by
  obtain ⟨score, is, -⟩ := ahead.get
  have some_ : (keys.seen now).holders.get token ≠ none := by
    show (keys.holders.seen now).get token ≠ none
    rw [is]
    nofun
  obtain ⟨limit, stored⟩ := Option.ne_none_iff_exists'.mp ((ok.seen now).limited token some_)
  have same := (counted_fields ahead).2.2
  rw [stored] at same
  exact ⟨limit, stored, (used_le_total now keys).trans ((ok.counted now).within limit same)⟩

theorem permitAcquire_again (granted : PermitsGranted lock) (ahead : Ahead now lock.keys.holders token) : ∃ ttl limit weight fence,
    lock.grants.last token = some (.permitAcquire token ttl limit weight, fence) ∧
      (permitAcquire now lock.keys token ttl limit weight).2 = ((fence : Int), now) := by
  have counted := granted.counted now
  have has : (lock.keys.counted now).meta_.get (.fence token) ≠ none := by
    rw [Ne, counted.ok.fences token]
    exact counted_ahead.mpr ahead
  obtain ⟨fence, is⟩ := Option.ne_none_iff_exists'.mp has
  obtain ⟨ttl, limit, weight, last, stored⟩ := counted.given token fence is
  refine ⟨ttl, limit, weight, fence, last, ?_⟩
  generalize outcome : permitAcquire now lock.keys token ttl limit weight = result
  have found := permitAcquire_outcome granted.ok now token ttl limit weight
  rw [outcome] at found
  cases found with
  | other differs =>
    obtain ⟨other, is, apart⟩ := differs
    have same := is.symm.trans stored
    cases same
    exact absurd rfl apart
  | resent _ other =>
    have same := other.symm.trans is
    cases same
    rfl
  | full fresh | granted fresh => exact absurd ahead fresh

/-- The semaphore of the condition: someone holds, or no limit is stored, or the permits are within it. -/
def PermitKeys.Settled (now : Nat) (keys : PermitKeys) (weight : Nat) : Prop :=
  (∃ token, Ahead now keys.holders token) ∨ ∀ limit, (keys.seen now).meta_.get .limit = some limit → weight ≤ limit

theorem permitFits_eq : permitFits now keys weight = match (keys.seen now).meta_.get .limit with
    | none => 1
    | some limit => if limit < keys.used now + weight then 0 else 1 := rfl

theorem permitAcquire_fresh (ok : PermitsOk keys) (fresh : ¬ Ahead now keys.holders token) :
    0 < (permitAcquire now keys token ttl limit weight).2.1 ↔
      (∀ stored, (keys.counted now).meta_.get .limit = some stored → stored = limit) ∧
        (keys.counted now).meta_.total weighs + weight ≤ limit := by
  generalize outcome : permitAcquire now keys token ttl limit weight = result
  have found := permitAcquire_outcome ok now token ttl limit weight
  rw [outcome] at found
  cases found with
  | other differs =>
    obtain ⟨stored, is, apart⟩ := differs
    exact ⟨fun positive => absurd positive (show ¬ (0 : Int) < -1 by decide), fun both => absurd (both.1 stored is) apart⟩
  | resent ahead => exact absurd ahead fresh
  | full _ full => exact ⟨fun positive => absurd positive (lt_irrefl _), fun both => absurd both.2 (not_le.mpr full)⟩
  | granted _ agrees fits => exact ⟨fun _ => ⟨agrees, fits⟩, fun _ => Int.natCast_pos.mpr (Nat.succ_pos _)⟩

def PermitKeys.Grantable (now : Nat) (keys : PermitKeys) (weight : Nat) : Prop :=
  ∃ token ttl limit, ¬ Ahead now keys.holders token ∧ 0 < ttl ∧ 0 < (permitAcquire now keys token ttl limit weight).2.1

theorem permitFits_iff (ok : PermitsOk keys) (now weight : Nat) :
    (keys.Grantable now weight → permitFits now keys weight = 1) ↔ keys.Settled now weight := by
  constructor
  · intro fits
    by_contra unsettled
    unfold PermitKeys.Settled at unsettled
    simp only [not_or, not_exists, not_forall, not_le] at unsettled
    obtain ⟨nobody, limit, stored, more⟩ := unsettled
    -- the dead are pruned and the hash goes with them, so a new limit is taken
    have none_ : (keys.counted now).holders.isEmpty = true := Fields.isEmpty_iff.mpr fun token => by
      by_contra some_
      exact nobody token (counted_ahead.mp some_)
    have bare := Fields.isEmpty_iff.mp ((ok.counted now).bare none_)
    have total : (keys.counted now).meta_.total weighs = 0 := Fields.total_of_isEmpty ((ok.counted now).bare none_)
    have answer := fits ⟨default, 1, weight, nobody _, Nat.one_pos, (permitAcquire_fresh ok (nobody _)).mpr
      ⟨fun stored is => (by rw [bare] at is; cases is), (by omega)⟩⟩
    rw [permitFits_eq, stored] at answer
    have over_ : limit < keys.used now + weight := by omega
    simp only [if_pos over_] at answer
    cases answer
  · rintro settled ⟨token, ttl, limit, fresh, -, positive⟩
    obtain ⟨agrees, within⟩ := (permitAcquire_fresh ok fresh).mp positive
    have most := used_le_total now keys
    rw [permitFits_eq]
    cases stored : (keys.seen now).meta_.get .limit with
    | none => rfl
    | some most_ =>
      refine if_neg (not_lt.mpr ?_)
      rcases settled with ⟨holder, ahead⟩ | within_
      · have same := (counted_fields ahead).2.2
        rw [stored] at same
        cases agrees most_ same
        omega
      · by_cases someone : ∃ holder, Ahead now keys.holders holder
        · obtain ⟨holder, ahead⟩ := someone
          have same := (counted_fields ahead).2.2
          rw [stored] at same
          cases agrees most_ same
          omega
        · have zero := PermitKeys.used_eq_zero fun holder ahead => someone ⟨holder, ahead⟩
          have enough := within_ most_ stored
          omega

end Arki.Lock.Redis
