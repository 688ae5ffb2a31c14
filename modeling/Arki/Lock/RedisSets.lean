import Arki.Lock.Redis

/-! A sorted set of holders and its companion hash: they expire together, and not before their last member. -/

set_option autoImplicit false

namespace Arki.Lock.Redis

open Expiring (Cell Fields)

variable {now : Nat} {zset : Fields LockToken} {token : LockToken} {score : Nat} {Name : Type} [DecidableEq Name]
  {other : Fields Name}

theorem mem_entries {number : Nat} : (⟨token, number⟩ : Sigma fun _ : LockToken => Nat) ∈ zset.entries.entries ↔
    zset.get token = some number := (List.mem_dlookup_iff zset.entries.nodupKeys).symm

theorem mem_upTo : token ∈ upTo now zset ↔ ∃ score, zset.get token = some score ∧ score ≤ now := by
  rw [upTo, List.mem_map]
  constructor
  · rintro ⟨⟨_, score⟩, inside, rfl⟩
    obtain ⟨listed, past⟩ := List.mem_filter.mp inside
    exact ⟨score, mem_entries.mp listed, by simpa using past⟩
  · rintro ⟨score, is, past⟩
    exact ⟨⟨token, score⟩, List.mem_filter.mpr ⟨mem_entries.mpr is, by simpa using past⟩, rfl⟩

theorem mem_above : token ∈ above now zset ↔ ∃ score, zset.get token = some score ∧ now < score := by
  rw [above, List.mem_map]
  constructor
  · rintro ⟨⟨_, score⟩, inside, rfl⟩
    obtain ⟨listed, ahead⟩ := List.mem_filter.mp inside
    exact ⟨score, mem_entries.mp listed, by simpa using ahead⟩
  · rintro ⟨score, is, ahead⟩
    exact ⟨⟨token, score⟩, List.mem_filter.mpr ⟨mem_entries.mpr is, by simpa using ahead⟩, rfl⟩

theorem nodup_above : (above now zset).Nodup :=
  zset.entries.keys_nodup.sublist (List.filter_sublist.map Sigma.fst)

theorem mem_above_seen : token ∈ above now (zset.seen now) ↔ Ahead now zset token := by
  rw [mem_above, Ahead]
  exact Iff.rfl

theorem le_foldr_max {scores : List Nat} (inside : score ∈ scores) : score ≤ scores.foldr max 0 := by
  induction scores with
  | nil => cases inside
  | cons head scores ih =>
    rcases List.mem_cons.mp inside with rfl | later
    · exact le_max_left _ _
    · exact (ih later).trans (le_max_right _ _)

theorem le_top (is : zset.get token = some score) : score ≤ top zset :=
  le_foldr_max (List.mem_map.mpr ⟨_, mem_entries.mpr is, rfl⟩)

structure Timed (zset : Fields LockToken) (other : Fields Name) : Prop where
  together : zset.expiry = other.expiry
  covered : ∀ token score, zset.get token = some score → ∃ at_, zset.expiry = some at_ ∧ score ≤ at_

omit [DecidableEq Name] in
theorem Timed.empty : Timed (Fields.empty : Fields LockToken) (Fields.empty : Fields Name) := ⟨rfl, nofun⟩

omit [DecidableEq Name] in
theorem Timed.seen (timed : Timed zset other) (now : Nat) : (zset.seen now = zset ∧ other.seen now = other) ∨
    zset.seen now = Fields.empty ∧ other.seen now = Fields.empty := by
  by_cases late : Expiring.gone zset.expiry now = true
  · right
    refine ⟨if_pos late, if_pos ?_⟩
    rw [← timed.together]
    exact late
  · left
    refine ⟨if_neg late, if_neg ?_⟩
    rw [← timed.together]
    exact late

@[simp] theorem keep_get_left : (keep now zset other).1.get token = zset.get token := by
  unfold keep
  split
  · rfl
  · exact Fields.get_expireAt _

@[simp] theorem keep_get_right {name : Name} : (keep now zset other).2.get name = other.get name := by
  unfold keep
  split
  · rfl
  · exact Fields.get_expireAt _

@[simp] theorem keep_total {count : Name → Nat → Nat} : (keep now zset other).2.total count = other.total count := by
  unfold keep
  split
  · rfl
  · exact Fields.total_expireAt _

theorem not_isEmpty (some_ : zset.get token ≠ none) : ¬ zset.isEmpty = true :=
  fun none_ => some_ (Fields.isEmpty_iff.mp none_ token)

theorem keep_timed {name : Name} (some_ : zset.get token ≠ none) (companion : other.get name ≠ none) :
    Timed (keep now zset other).1 (keep now zset other).2 := by
  unfold keep
  rw [if_neg (not_isEmpty some_)]
  have left : (zset.expireAt (now + max (top zset - now) 1)).expiry = some (now + max (top zset - now) 1) :=
    Fields.expiry_expireAt _ some_
  have right : (other.expireAt (now + max (top zset - now) 1)).expiry = some (now + max (top zset - now) 1) :=
    Fields.expiry_expireAt _ companion
  constructor
  · exact left.trans right.symm
  · intro member score is
    rw [Fields.get_expireAt] at is
    have most := le_top is
    exact ⟨_, left, by omega⟩

theorem Ahead.get (ahead : Ahead now zset token) : ∃ score, (zset.seen now).get token = some score ∧ now < score := ahead

theorem Ahead.raw (ahead : Ahead now zset token) : ∃ score, zset.get token = some score ∧ now < score := by
  obtain ⟨score, is, later⟩ := ahead
  unfold Fields.seen at is
  by_cases late : Expiring.gone zset.expiry now = true
  · rw [if_pos late] at is
    cases is
  · rw [if_neg late] at is
    exact ⟨score, is, later⟩

variable {grants : Grants} {counter : Option Nat} {script : Script}

structure Recorded (grants : Grants) (counter : Option Nat) : Prop where
  sorted : (grants.map Prod.snd).Pairwise (· > ·)
  counted : ∀ grant ∈ grants, grant.2 ≤ counter.getD 0

theorem Recorded.next (recorded : Recorded grants counter) (script : Script) :
    Recorded ((script, incr counter) :: grants) (some (incr counter)) := by
  constructor
  · rw [List.map_cons, List.pairwise_cons]
    refine ⟨fun fence inside => ?_, recorded.sorted⟩
    obtain ⟨grant, among, rfl⟩ := List.mem_map.mp inside
    have most := recorded.counted grant among
    show grant.2 < incr counter
    unfold incr
    omega
  · intro grant inside
    show grant.2 ≤ incr counter
    rcases List.mem_cons.mp inside with rfl | older
    · exact le_rfl
    · have most := recorded.counted grant older
      unfold incr
      omega

theorem last_cons_self : Grants.last ((script, score) :: grants) script.token = some (script, score) :=
  List.find?_cons_of_pos (by simp)

theorem last_cons_of_ne (apart : script.token ≠ token) : Grants.last ((script, score) :: grants) token = grants.last token :=
  List.find?_cons_of_neg (by simpa using apart)

theorem noted_new (fence : Nat) : noted grants script false ((incr counter : Int), fence) = (script, incr counter) :: grants := by
  unfold noted incr
  rw [if_pos (by simp)]
  rfl

theorem noted_held (reply : Reply) : noted grants script true reply = grants := if_neg (by simp)

theorem noted_refused {held : Bool} {reply : Reply} (refused : reply.1 ≤ 0) : noted grants script held reply = grants := by
  apply if_neg
  simp only [Bool.and_eq_true, decide_eq_true_eq, not_and, not_lt]
  exact fun _ => refused

end Arki.Lock.Redis
