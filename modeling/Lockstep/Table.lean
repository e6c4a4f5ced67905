/-!
# Tables

A finite map from positions, kept in ascending order of position.
-/

namespace Lockstep

/-- A finite map from natural numbers. -/
structure Table (α : Type) where
  entries : List (Nat × α)

namespace Table

variable {α : Type}

def empty : Table α := ⟨[]⟩

def find (pc : Nat) : List (Nat × α) → Option α
  | [] => none
  | (k, a) :: r => if k = pc then some a else find pc r

def get? (t : Table α) (pc : Nat) : Option α := find pc t.entries

def contains (t : Table α) (pc : Nat) : Bool := (t.get? pc).isSome

def place (pc : Nat) (a : α) : List (Nat × α) → List (Nat × α)
  | [] => [(pc, a)]
  | (k, b) :: r =>
    if pc < k then (pc, a) :: (k, b) :: r
    else if pc = k then (pc, a) :: r
    else (k, b) :: place pc a r

/-- Adds or replaces the entry of a position. -/
def insert (t : Table α) (pc : Nat) (a : α) : Table α := ⟨place pc a t.entries⟩

def erase (t : Table α) (pc : Nat) : Table α :=
  ⟨t.entries.filter fun e => e.1 != pc⟩

def size (t : Table α) : Nat := t.entries.length

/-- The positions with an entry, in ascending order. -/
def keys (t : Table α) : List Nat := t.entries.map (·.1)

theorem find_place_self (pc : Nat) (a : α) (es : List (Nat × α)) :
    find pc (place pc a es) = some a := by
  induction es with
  | nil => simp [place, find]
  | cons e r ih =>
    simp only [place]
    split
    · simp [find]
    · split
      · simp [find]
      · rename_i h₁ h₂
        simp [find, Ne.symm h₂, ih]

theorem find_place_of_ne {pc k : Nat} (h : k ≠ pc) (a : α) (es : List (Nat × α)) :
    find k (place pc a es) = find k es := by
  induction es with
  | nil => simp [place, find, Ne.symm h]
  | cons e r ih =>
    simp only [place]
    split
    · simp [find, Ne.symm h]
    · split
      · rename_i h₁ h₂
        subst h₂
        simp [find, Ne.symm h]
      · simp [find, ih]

@[simp] theorem get?_insert_self (t : Table α) (pc : Nat) (a : α) :
    (t.insert pc a).get? pc = some a := find_place_self pc a t.entries

theorem get?_insert_of_ne (t : Table α) {pc k : Nat} (h : k ≠ pc) (a : α) :
    (t.insert pc a).get? k = t.get? k := find_place_of_ne h a t.entries

theorem find_filter (pc k : Nat) (es : List (Nat × α)) :
    find k (es.filter fun e => e.1 != pc) = if k = pc then none else find k es := by
  induction es with
  | nil => simp [find]
  | cons e r ih =>
    by_cases h : e.1 = pc
    · by_cases hk : k = pc
      · subst hk
        simpa [h] using ih
      · simp [h, ih, hk, find, Ne.symm hk]
    · by_cases hk : k = pc
      · subst hk
        simp [h, find, ih]
      · simp [h, find, ih, hk]

@[simp] theorem get?_erase_self (t : Table α) (pc : Nat) : (t.erase pc).get? pc = none := by
  simp [get?, erase, find_filter]

theorem get?_erase_of_ne (t : Table α) {pc k : Nat} (h : k ≠ pc) :
    (t.erase pc).get? k = t.get? k := by
  simp [get?, erase, find_filter, h]

@[simp] theorem get?_empty (pc : Nat) : (empty : Table α).get? pc = none := rfl

end Table

end Lockstep
