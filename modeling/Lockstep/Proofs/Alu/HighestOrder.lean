import Lockstep.Proofs.Alu.Promotion

/-!
# The type that takes a list of types

Whether the types of a list go together, and in which of them, depends on the members of the
list and on nothing else. Two types of one rank differ only in their sign, so the first type of
highest rank is the last one too, unless the list mixes signs; and then no type takes it.
-/

namespace Lockstep

namespace ScalarType

variable {ts us : List ScalarType} {s t f i : ScalarType}

/-- The list has a signed and an unsigned member. -/
def MixesSigns (ts : List ScalarType) : Prop :=
  (∃ s ∈ ts, s.isSigned = true) ∧ ∃ u ∈ ts, u.isUnsigned = true

/-- A float of the list, and none of them has a higher rank. -/
structure IsHighestFloat (ts : List ScalarType) (f : ScalarType) : Prop where
  mem : f ∈ ts
  float : f.isFloat = true
  greatest : ∀ g ∈ ts, g.isFloat = true → g.rank ≤ f.rank

/-- An integer type of the list, and none of them has more bits. -/
structure IsWidestInt (ts : List ScalarType) (i : ScalarType) : Prop where
  mem : i ∈ ts
  int : i.isInt = true
  greatest : ∀ j ∈ ts, j.isInt = true → j.bits ≤ i.bits

/-- The highest float of the list has fewer bits than its widest integer type. -/
def FloatTooNarrow (ts : List ScalarType) : Prop :=
  ∃ f i, IsHighestFloat ts f ∧ IsWidestInt ts i ∧ f.bits < i.bits

/-! ## Ranks -/

/-- Types of one rank are the same but for their sign. -/
theorem eq_of_rank_eq (h : s.rank = t.rank) :
    s = t ∨ (s.isSigned = true ∧ t.isUnsigned = true) ∨
      (t.isSigned = true ∧ s.isUnsigned = true) := by
  revert h
  cases s with
  | bool => cases t with
    | bool => simp
    | int t => cases t <;> decide
    | float t => cases t <;> decide
  | int s => cases t with
    | bool => cases s <;> decide
    | int t => cases s <;> cases t <;> decide
    | float t => cases s <;> cases t <;> decide
  | float s => cases t with
    | bool => cases s <;> decide
    | int t => cases s <;> cases t <;> decide
    | float t => cases s <;> cases t <;> decide

theorem rank_pos (h : t ≠ bool) : 0 < t.rank := by
  cases t with
  | bool => exact absurd rfl h
  | int t => cases t <;> decide
  | float t => cases t <;> decide

/-- Floats rank above all other types. -/
theorem isFloat_of_rank_le (hf : f.isFloat = true) (h : f.rank ≤ t.rank) : t.isFloat = true := by
  cases f with
  | bool => cases hf
  | int f => cases f <;> cases hf
  | float f =>
    revert h
    cases t with
    | bool => cases f <;> decide
    | int t => cases f <;> cases t <;> decide
    | float t => exact fun _ => rfl

/-! ## The two extremes of a list -/

/-- All that comes of the fold: a member of highest rank, or bool when there is no other. -/
theorem highest_cases (ts : List ScalarType) :
    (highest ts = bool ∧ ∀ s ∈ ts, s = bool) ∨ highest ts ∈ ts := by
  refine (highest_mem ts).imp_left fun h => ⟨h, fun s hs => ?_⟩
  by_contra hne
  have hle := rank_le_highest hs
  rw [h] at hle
  exact Nat.not_lt_of_le hle (rank_pos hne)

theorem widestInt_cases (ts : List ScalarType) :
    (widestInt ts = 0 ∧ ∀ s ∈ ts, s.isInt = false) ∨
      ∃ i, IsWidestInt ts i ∧ widestInt ts = i.bits := by
  have hmem : ∀ n, n ∈ (ts.filter isInt).map bits ↔ ∃ i ∈ ts, i.isInt = true ∧ i.bits = n := by
    simp [and_assoc]
  have hmax : widestInt ts = ((ts.filter isInt).map bits).max?.getD 0 := by
    rw [widestInt, List.foldl_max, Nat.zero_max]
  cases hm : ((ts.filter isInt).map bits).max? with
  | none =>
    rw [hm] at hmax
    refine .inl ⟨hmax, fun s hs => ?_⟩
    rw [List.max?_eq_none_iff] at hm
    by_contra hint
    have hin := (hmem s.bits).mpr ⟨s, hs, eq_true_of_ne_false hint, rfl⟩
    rw [hm] at hin
    cases hin
  | some n =>
    rw [hm] at hmax
    obtain ⟨hn, hle⟩ := List.max?_eq_some_iff.mp hm
    obtain ⟨i, hi, hint, hbits⟩ := (hmem n).mp hn
    refine .inr ⟨i, ⟨hi, hint, fun j hj hjint => ?_⟩, hmax.trans hbits.symm⟩
    rw [hbits]
    exact hle _ ((hmem j.bits).mpr ⟨j, hj, hjint, rfl⟩)

theorem isHighestFloat_highest (h : (highest ts).isFloat = true) :
    IsHighestFloat ts (highest ts) := by
  refine ⟨?_, h, fun g hg _ => rank_le_highest hg⟩
  rcases highest_cases ts with ⟨hbool, -⟩ | hmem
  · rw [hbool] at h
    cases h
  · exact hmem

theorem IsHighestFloat.eq_highest (h : IsHighestFloat ts f) : highest ts = f := by
  have hle := rank_le_highest h.mem
  have hfloat := isFloat_of_rank_le h.float hle
  have hge := h.greatest _ (isHighestFloat_highest hfloat).mem hfloat
  have hf : f.family = .float := by simpa [isFloat] using h.float
  rcases eq_of_rank_eq (Nat.le_antisymm hge hle) with heq | ⟨-, hu⟩ | ⟨hs, -⟩
  · exact heq
  · simp [isUnsigned, hf] at hu
  · simp [isSigned, hf] at hs

/-! ## When types go together -/

theorem mixesSigns_iff : (ts.any isSigned && ts.any isUnsigned) = true ↔ MixesSigns ts := by
  simp [MixesSigns]

theorem floatTooNarrow_iff :
    ((highest ts).isFloat && decide ((highest ts).bits < widestInt ts)) = true ↔
      FloatTooNarrow ts := by
  rw [Bool.and_eq_true, decide_eq_true_eq]
  constructor
  · rintro ⟨hfloat, hlt⟩
    rcases widestInt_cases ts with ⟨hzero, -⟩ | ⟨i, hi, hbits⟩
    · omega
    · exact ⟨_, i, isHighestFloat_highest hfloat, hi, hbits ▸ hlt⟩
  · rintro ⟨f, i, hf, hi, hlt⟩
    rw [hf.eq_highest]
    refine ⟨hf.float, ?_⟩
    rcases widestInt_cases ts with ⟨-, hnone⟩ | ⟨j, hj, hbits⟩
    · have hint := hi.int
      rw [hnone i hi.mem] at hint
      cases hint
    · rw [hbits]
      exact Nat.lt_of_lt_of_le hlt (hj.greatest i hi.mem hi.int)

theorem highestOrder?_eq_none : highestOrder? ts = none ↔ MixesSigns ts ∨ FloatTooNarrow ts := by
  unfold highestOrder?
  rw [← mixesSigns_iff, ← floatTooNarrow_iff]
  split
  next h => simp [h]
  next h =>
    split
    next h' => simp [h']
    next h' => simp [h, h']

-- a wider float makes up for a narrow one
example : highestOrder? [int .int64, float .float32] = none := by decide
example : highestOrder? [int .int64, float .float32, float .float64] = some (float .float64) := by
  decide

theorem eq_highest (h : highestOrder? ts = some t) : highest ts = t := by
  unfold highestOrder? at h
  split at h
  · cases h
  · split at h
    · cases h
    · exact Option.some.inj h

/-! ## Lists with the same members -/

/-- The lists have the same members, bool left aside. -/
def SameTypes (ts us : List ScalarType) : Prop :=
  ∀ t ≠ bool, t ∈ ts ↔ t ∈ us

namespace SameTypes

variable (h : SameTypes ts us)

include h

theorem any_eq {P : ScalarType → Bool} (hbool : P bool = false) : ts.any P = us.any P := by
  rw [Bool.eq_iff_iff, List.any_eq_true, List.any_eq_true]
  have hne : ∀ s, P s = true → s ≠ bool := by
    rintro s hs rfl
    rw [hbool] at hs
    cases hs
  constructor
  · rintro ⟨s, hs, hP⟩
    exact ⟨s, (h s (hne s hP)).mp hs, hP⟩
  · rintro ⟨s, hs, hP⟩
    exact ⟨s, (h s (hne s hP)).mpr hs, hP⟩

theorem widestInt_le : widestInt ts ≤ widestInt us := by
  rcases widestInt_cases ts with ⟨hzero, -⟩ | ⟨i, hi, hbits⟩
  · omega
  · have hint := hi.int
    have hne : i ≠ bool := by
      rintro rfl
      cases hint
    have hmem := (h i hne).mp hi.mem
    rcases widestInt_cases us with ⟨-, hnone⟩ | ⟨j, hj, hbits'⟩
    · rw [hnone i hmem] at hint
      cases hint
    · rw [hbits, hbits']
      exact hj.greatest i hmem hint

theorem rank_highest_le : (highest ts).rank ≤ (highest us).rank := by
  rcases highest_cases ts with ⟨hbool, -⟩ | hmem
  · rw [hbool]
    exact Nat.zero_le _
  · by_cases hne : highest ts = bool
    · rw [hne]
      exact Nat.zero_le _
    · exact rank_le_highest ((h _ hne).mp hmem)

end SameTypes

theorem SameTypes.symm (h : SameTypes ts us) : SameTypes us ts :=
  fun t ht => (h t ht).symm

/-- On lists that do not mix signs the first type of highest rank is the only one. -/
theorem SameTypes.highest_eq (h : SameTypes ts us) (hts : ¬ MixesSigns ts) :
    highest ts = highest us := by
  have hmem : ∀ s, s = highest ts ∨ s = highest us → s ≠ bool → s ∈ ts := by
    rintro s (rfl | rfl) hne
    · exact (highest_mem ts).resolve_left hne
    · exact (h _ hne).mpr ((highest_mem us).resolve_left hne)
  have hsigned : ∀ s : ScalarType, s.isSigned = true ∨ s.isUnsigned = true → s ≠ bool := by
    rintro s hs rfl
    rcases hs with hs | hs <;> cases hs
  rcases eq_of_rank_eq (Nat.le_antisymm h.rank_highest_le h.symm.rank_highest_le) with
    heq | ⟨hs, hu⟩ | ⟨hs, hu⟩
  · exact heq
  · exact absurd ⟨⟨_, hmem _ (.inl rfl) (hsigned _ (.inl hs)), hs⟩,
      ⟨_, hmem _ (.inr rfl) (hsigned _ (.inr hu)), hu⟩⟩ hts
  · exact absurd ⟨⟨_, hmem _ (.inr rfl) (hsigned _ (.inl hs)), hs⟩,
      ⟨_, hmem _ (.inl rfl) (hsigned _ (.inr hu)), hu⟩⟩ hts

theorem SameTypes.highestOrder?_eq (h : SameTypes ts us) : highestOrder? ts = highestOrder? us := by
  unfold highestOrder?
  rw [← h.any_eq (P := isSigned) rfl, ← h.any_eq (P := isUnsigned) rfl]
  by_cases hmix : MixesSigns ts
  · rw [if_pos (mixesSigns_iff.mpr hmix), if_pos (mixesSigns_iff.mpr hmix)]
  · rw [h.highest_eq hmix, Nat.le_antisymm h.widestInt_le h.symm.widestInt_le]

/-- What the type of a list is. -/
structure Joined (ts : List ScalarType) : Prop where
  /-- lists with the same members have the same type, in whatever order and how often they
  list them -/
  members : ∀ us, us ⊆ ts → ts ⊆ us → highestOrder? us = highestOrder? ts
  none_iff : highestOrder? ts = none ↔ MixesSigns ts ∨ FloatTooNarrow ts
  /-- the type is one of the list, or bool if the list has no other -/
  mem : ∀ t, highestOrder? ts = some t → t ∈ ts ∨ t = bool ∧ ∀ s ∈ ts, s = bool
  rank_le : ∀ t, highestOrder? ts = some t → ∀ s ∈ ts, s.rank ≤ t.rank
  /-- listing it again, at any places and any number of times, changes nothing -/
  absorbs : ∀ t, highestOrder? ts = some t → ∀ us, ts ⊆ us → us ⊆ t :: ts →
    highestOrder? us = some t

/-- Promotion is a join of the members of a list, where there is one. -/
theorem highestOrder?_joined (ts : List ScalarType) : Joined ts := by
  refine ⟨?_, highestOrder?_eq_none, ?_, ?_, ?_⟩
  · intro us hus hts
    have hsame : SameTypes us ts := fun t _ => ⟨fun ht => hus ht, fun ht => hts ht⟩
    exact hsame.highestOrder?_eq
  · intro t ht
    rw [← eq_highest ht]
    exact (highest_cases ts).symm
  · intro t ht s hs
    rw [← eq_highest ht]
    exact rank_le_highest hs
  · intro t ht us hts hus
    have hsame : SameTypes us ts := by
      refine fun s hs => ⟨fun hmem => ?_, fun hmem => hts hmem⟩
      rcases List.mem_cons.mp (hus hmem) with rfl | hmem
      · rw [← eq_highest ht] at hs ⊢
        exact (highest_mem ts).resolve_left hs
      · exact hmem
    rw [hsame.highestOrder?_eq, ht]

end ScalarType

end Lockstep
