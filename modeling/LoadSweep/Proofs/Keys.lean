import Mathlib.Data.Finset.Card
import Mathlib.Data.Finset.Range
import Std.Data.String.ToNat
import Std.Data.TreeSet.Lemmas
import LoadSweep.Key.Space

/-!
# `LoadSweep/Proofs/Keys.lean` — which keys a count and a mode make

A key is the text of a number, and different numbers have different texts (`keyText_inj`). So every
question about keys is one about `numberAt`: which positions share a key, how many different keys
there are, when two runs have the same keys in the same order. Sequential numbers never repeat.
Decimal ones repeat with the modulus, and a modulus that the count does not reach leaves no trace;
what can be seen of it is the smaller of the two (`numberAt_agree_iff`).
-/

set_option autoImplicit false

namespace LoadSweep

/-- Different numbers have different keys. -/
theorem keyText_inj {n k : Nat} : keyText n = keyText k ↔ n = k := by
  refine ⟨fun h => ?_, fun h => by rw [h]⟩
  exact Nat.repr_injective ((String.append_right_inj keyHead).mp h)

namespace KeySpace

variable {count count' i j m m' : Nat} {mode mode' : KeyMode} {k k' : KeySpace}

/-! ## The key at a position -/

theorem build_of_pos (hcount : 0 < count) (hmode : mode ≠ .decimal 0) :
    ∃ k, build count mode = .ok k := by
  rw [build, dif_neg (Nat.ne_of_gt hcount), if_neg hmode]
  exact ⟨_, rfl⟩

/-- What was built has the keys of its count and its mode, and neither of the two is zero. -/
theorem of_build (h : build count mode = .ok k) :
    k.keys = keysOf count mode ∧ 0 < count ∧ mode ≠ .decimal 0 := by
  unfold build at h
  split at h
  · simp at h
  · rename_i hcount
    split at h
    · simp at h
    · rename_i hmode
      obtain rfl := Except.ok.inj h
      exact ⟨rfl, Nat.pos_of_ne_zero hcount, hmode⟩

theorem getElem?_keysOf (hi : i < count) :
    (keysOf count mode)[i]? = some (keyText (numberAt mode i)) := by
  simp [keysOf, hi]

/-- Two positions have the same key if and only if they have the same number. -/
theorem key_eq_iff (hi : i < count) (hj : j < count) :
    (keysOf count mode)[i]? = (keysOf count mode)[j]? ↔ numberAt mode i = numberAt mode j := by
  rw [getElem?_keysOf hi, getElem?_keysOf hj, Option.some_inj, keyText_inj]

/-- Two lists of keys are the same if and only if they number as many positions alike. -/
theorem keysOf_eq_iff : keysOf count mode = keysOf count' mode' ↔
    count = count' ∧ ∀ i < count, numberAt mode i = numberAt mode' i := by
  constructor
  · intro h
    have hsize : count = count' := by
      simpa only [size_keysOf] using congrArg Array.size h
    subst hsize
    refine ⟨rfl, fun i hi => ?_⟩
    have hkey : (keysOf count mode)[i]? = (keysOf count mode')[i]? := by rw [h]
    rwa [getElem?_keysOf hi, getElem?_keysOf hi, Option.some_inj, keyText_inj] at hkey
  · rintro ⟨rfl, hnumber⟩
    refine Array.ext_getElem? fun i => ?_
    by_cases hi : i < count
    · rw [getElem?_keysOf hi, getElem?_keysOf hi, hnumber i hi]
    · rw [Array.getElem?_eq_none (by rw [size_keysOf]; omega),
        Array.getElem?_eq_none (by rw [size_keysOf]; omega)]

/-! ## How many different keys -/

/-- How many different keys a mode makes of a count. -/
def varietyOf : KeyMode → Nat → Nat
  | .sequential, count => count
  | .decimal modulus, count => min count modulus

/-- The remainders of a range are the range that the modulus cuts short. -/
theorem image_mod_range (hm : 0 < m) :
    (Finset.range count).image (· % m) = Finset.range (min count m) := by
  ext n
  simp only [Finset.mem_image, Finset.mem_range, Nat.lt_min]
  constructor
  · rintro ⟨i, hi, rfl⟩
    exact ⟨Nat.lt_of_le_of_lt (Nat.mod_le i m) hi, Nat.mod_lt i hm⟩
  · rintro ⟨hcount, hmod⟩
    exact ⟨n, hcount, Nat.mod_eq_of_lt hmod⟩

theorem card_numbers (hmode : mode ≠ .decimal 0) :
    ((Finset.range count).image (numberAt mode)).card = varietyOf mode count := by
  cases mode with
  | sequential =>
    have hinj : Function.Injective (numberAt .sequential) := fun _ _ h => Nat.succ.inj h
    exact (Finset.card_image_of_injective _ hinj).trans (Finset.card_range _)
  | decimal modulus =>
    have hm : 0 < modulus := Nat.pos_of_ne_zero fun hz => hmode (by rw [hz])
    exact (congrArg Finset.card (image_mod_range hm)).trans (Finset.card_range _)

theorem toFinset_keysOf (count : Nat) (mode : KeyMode) :
    (keysOf count mode).toList.toFinset
      = ((Finset.range count).image (numberAt mode)).image keyText := by
  ext key
  simp [keysOf]

theorem card_keysOf (hmode : mode ≠ .decimal 0) :
    (keysOf count mode).toList.toFinset.card = varietyOf mode count := by
  rw [toFinset_keysOf, Finset.card_image_of_injective _ fun _ _ h => keyText_inj.mp h,
    card_numbers hmode]

/-- Gathering texts in a set counts each of them once. -/
theorem size_gathered (keys : List String) (seen : Std.TreeSet String) (before : Finset String)
    (h : ∀ key, key ∈ seen ↔ key ∈ before) (hsize : seen.size = before.card) :
    (keys.foldl (fun seen key => seen.insert key) seen).size = (before ∪ keys.toFinset).card := by
  induction keys generalizing seen before with
  | nil => simpa using hsize
  | cons key rest ih =>
    have hunion : before ∪ (key :: rest).toFinset = insert key before ∪ rest.toFinset := by
      rw [List.toFinset_cons, Finset.union_insert, Finset.insert_union]
    rw [List.foldl_cons, hunion]
    refine ih _ _ (fun other => ?_) ?_
    · rw [Std.TreeSet.mem_insert, Std.LawfulEqCmp.compare_eq_iff_eq, Finset.mem_insert, h other,
        eq_comm]
    · rw [Std.TreeSet.size_insert, hsize]
      by_cases hseen : key ∈ before
      · rw [if_pos (Std.TreeSet.contains_iff_mem.mpr ((h key).mpr hseen)),
          Finset.insert_eq_of_mem hseen]
      · rw [if_neg fun hmem => hseen ((h key).mp (Std.TreeSet.contains_iff_mem.mp hmem)),
          Finset.card_insert_of_notMem hseen]

theorem distinct_eq_card (k : KeySpace) : k.distinct = k.keys.toList.toFinset.card := by
  rw [distinct, ← Array.foldl_toList, size_gathered k.keys.toList ∅ ∅ (by simp) rfl,
    Finset.empty_union]

theorem distinct_of_build (h : build count mode = .ok k) : k.distinct = varietyOf mode count := by
  obtain ⟨hkeys, -, hmode⟩ := of_build h
  rw [distinct_eq_card, hkeys, card_keysOf hmode]

/-! ## When two lists of keys are the same -/

/-- Two moduli leave the same remainders below a count if and only if they are the same as far as
the count reaches. -/
theorem mod_agree_iff (hm : 0 < m) (hm' : 0 < m') :
    (∀ i < count, i % m = i % m') ↔ min m count = min m' count := by
  constructor
  · intro h
    -- A modulus below the count is itself a position, with remainder zero.
    by_cases hc : m < count
    · have hz : m % m' = 0 := by rw [← h m hc, Nat.mod_self]
      have hle : m' ≤ m := Nat.le_of_dvd hm (Nat.dvd_of_mod_eq_zero hz)
      have hz' : m' % m = 0 := by rw [h m' (by omega), Nat.mod_self]
      have hle' : m ≤ m' := Nat.le_of_dvd hm' (Nat.dvd_of_mod_eq_zero hz')
      rw [Nat.le_antisymm hle' hle]
    · by_cases hc' : m' < count
      · have hz : m' % m = 0 := by rw [h m' hc', Nat.mod_self]
        have hle : m ≤ m' := Nat.le_of_dvd hm' (Nat.dvd_of_mod_eq_zero hz)
        omega
      · omega
  · intro h i hi
    by_cases hc : m < count
    · rw [show m = m' by omega]
    · rw [Nat.mod_eq_of_lt (show i < m by omega), Nat.mod_eq_of_lt (show i < m' by omega)]

/-- The two modes number positions below the count alike. -/
def Agree : KeyMode → KeyMode → Nat → Prop
  | .sequential, .sequential, _ => True
  | .decimal m, .decimal m', count => min m count = min m' count
  | .sequential, .decimal _, _ | .decimal _, .sequential, _ => False

theorem numberAt_agree_iff (hcount : 0 < count) (hmode : mode ≠ .decimal 0)
    (hmode' : mode' ≠ .decimal 0) :
    (∀ i < count, numberAt mode i = numberAt mode' i) ↔ Agree mode mode' count := by
  cases mode with
  | sequential =>
    cases mode' with
    | sequential => exact ⟨fun _ => trivial, fun _ _ _ => rfl⟩
    | decimal m' =>
      refine ⟨fun h => ?_, False.elim⟩
      have hfirst := h 0 hcount
      simp [numberAt] at hfirst
  | decimal m =>
    cases mode' with
    | sequential =>
      refine ⟨fun h => ?_, False.elim⟩
      have hfirst := h 0 hcount
      simp [numberAt] at hfirst
    | decimal m' =>
      have hm : 0 < m := Nat.pos_of_ne_zero fun hz => hmode (by rw [hz])
      have hm' : 0 < m' := Nat.pos_of_ne_zero fun hz => hmode' (by rw [hz])
      exact mod_agree_iff hm hm'

/-- **Two builds have the same keys if and only if their counts are equal and their modes agree
that far.** -/
theorem keys_eq_iff (h : build count mode = .ok k) (h' : build count' mode' = .ok k') :
    k.keys = k'.keys ↔ count = count' ∧ Agree mode mode' count := by
  obtain ⟨hkeys, hcount, hmode⟩ := of_build h
  obtain ⟨hkeys', -, hmode'⟩ := of_build h'
  rw [hkeys, hkeys', keysOf_eq_iff, numberAt_agree_iff hcount hmode hmode']

/-- What is known of the keys of a count and a mode. -/
structure Numbered (count : Nat) (mode : KeyMode) (k : KeySpace) : Prop where
  built : build count mode = .ok k
  size : k.size = count
  /-- The key at a position is the numeral of its number after the head. -/
  key : ∀ i < count, k.key? i = some ("key:" ++ toString (numberAt mode i))
  /-- Positions with the same number, and no others, have the same key. -/
  same : ∀ i < count, ∀ j < count,
    (k.key? i = k.key? j ↔ numberAt mode i = numberAt mode j)
  distinct : k.distinct = varietyOf mode count
  distinct_eq_card : k.distinct = k.keys.toList.toFinset.card

theorem numbered (count : Nat) (mode : KeyMode) (hcount : 0 < count) (hmode : mode ≠ .decimal 0) :
    ∃ k, Numbered count mode k := by
  obtain ⟨k, hk⟩ := build_of_pos hcount hmode
  obtain ⟨hkeys, -, -⟩ := of_build hk
  refine ⟨k, hk, ?_, ?_, ?_, distinct_of_build hk, distinct_eq_card k⟩
  · rw [size, hkeys, size_keysOf]
  · intro i hi
    rw [key?, hkeys, getElem?_keysOf hi]
    rfl
  · intro i hi j hj
    rw [key?, key?, hkeys]
    exact key_eq_iff hi hj

/-- **A count and a mode make these keys, and no others make the same.** Sequential keys run from
one and never repeat; decimal ones repeat exactly with the modulus, so that there are as many as the
smaller of count and modulus. Two builds make the same list of keys if and only if the counts are
equal and the modes agree as far as they reach, which two modes of different kinds never do. -/
theorem determined :
    (∀ count, 0 < count → ∃ k, build count .sequential = .ok k ∧ k.size = count ∧
      (∀ i < count, k.key? i = some ("key:" ++ toString (i + 1))) ∧
      (∀ i < count, ∀ j < count, k.key? i = k.key? j → i = j) ∧ k.distinct = count) ∧
    (∀ count m, 0 < count → 0 < m → ∃ k, build count (.decimal m) = .ok k ∧ k.size = count ∧
      (∀ i < count, k.key? i = some ("key:" ++ toString (i % m))) ∧
      (∀ i < count, ∀ j < count, (k.key? i = k.key? j ↔ i % m = j % m)) ∧
      k.distinct = min count m ∧ k.keys.toList.toFinset.card = min count m) ∧
    (∀ count count' mode mode' k k', build count mode = .ok k → build count' mode' = .ok k' →
      (k.keys = k'.keys ↔ count = count' ∧ Agree mode mode' count)) ∧
    ∀ count count' m k k', build count .sequential = .ok k → build count' (.decimal m) = .ok k' →
      k.keys ≠ k'.keys := by
  refine ⟨?_, ?_, fun _ _ _ _ _ _ => keys_eq_iff, ?_⟩
  · intro count hcount
    obtain ⟨k, hk⟩ := numbered count .sequential hcount (by simp)
    exact ⟨k, hk.built, hk.size, hk.key,
      fun i hi j hj h => Nat.succ.inj ((hk.same i hi j hj).mp h), hk.distinct⟩
  · intro count m hcount hm
    obtain ⟨k, hk⟩ := numbered count (.decimal m) hcount (by simpa using Nat.ne_of_gt hm)
    exact ⟨k, hk.built, hk.size, hk.key, hk.same, hk.distinct,
      hk.distinct_eq_card.symm.trans hk.distinct⟩
  · intro count count' m k k' h h' hkeys
    exact ((keys_eq_iff h h').mp hkeys).2

/-- Seven keys on three numbers. Moduli of eight and nine are too large for seven keys to show. -/
theorem determined_sample : ∃ k k' k'',
    build 7 (.decimal 3) = .ok k ∧ k.key? 5 = some "key:2" ∧ k.key? 5 = k.key? 2 ∧
    k.key? 5 ≠ k.key? 4 ∧ k.distinct = 3 ∧
    build 7 (.decimal 8) = .ok k' ∧ build 7 (.decimal 9) = .ok k'' ∧ k'.keys = k''.keys ∧
    k.keys ≠ k'.keys := by
  obtain ⟨-, hdecimal, hsame, -⟩ := determined
  obtain ⟨k, hk, -, hkey, hiff, hdistinct, -⟩ := hdecimal 7 3 (by decide) (by decide)
  obtain ⟨k', hk', -⟩ := hdecimal 7 8 (by decide) (by decide)
  obtain ⟨k'', hk'', -⟩ := hdecimal 7 9 (by decide) (by decide)
  refine ⟨k, k', k'', hk, hkey 5 (by decide), (hiff 5 (by decide) 2 (by decide)).mpr rfl, ?_,
    hdistinct, hk', hk'', (hsame _ _ _ _ _ _ hk' hk'').mpr ⟨rfl, rfl⟩, ?_⟩
  · exact fun h => absurd ((hiff 5 (by decide) 4 (by decide)).mp h) (by decide)
  · exact fun h => absurd ((hsame _ _ _ _ _ _ hk hk').mp h).2 (show ¬ min 3 7 = min 8 7 by decide)

end KeySpace

end LoadSweep
