import Mathlib.Data.List.Forall2

/-!
# Outcomes

Computations that may fail, taken apart: what a sequence or a traversal gives
when it succeeds, and which faults it can raise when it does not.
-/

namespace Lockstep

variable {ε α β : Type}

theorem bind_eq_ok {x : Except ε α} {f : α → Except ε β} {b : β} :
    (x >>= f) = .ok b ↔ ∃ a, x = .ok a ∧ f a = .ok b := by
  cases x with
  | error e => simp [bind, Except.bind]
  | ok a => simp [bind, Except.bind]

theorem bind_eq_error {x : Except ε α} {f : α → Except ε β} {e : ε} :
    (x >>= f) = .error e ↔ x = .error e ∨ ∃ a, x = .ok a ∧ f a = .error e := by
  cases x with
  | error e => simp [bind, Except.bind]
  | ok a => simp [bind, Except.bind]

theorem map_eq_ok {x : Except ε α} {f : α → β} {b : β} :
    x.map f = .ok b ↔ ∃ a, x = .ok a ∧ f a = b := by
  cases x with
  | error e => simp [Except.map]
  | ok a => simp [Except.map]

/-- A change of the results of what follows is one of the results of the whole. -/
theorem bind_map_of {γ : Type} {x : Except ε α} {f : α → Except ε γ} {g : α → Except ε β}
    {φ : β → γ} (h : ∀ a, x = .ok a → f a = (g a).map φ) : (x >>= f) = (x >>= g).map φ := by
  cases x with
  | error e => rfl
  | ok a => exact h a rfl

theorem mapError_eq_ok {ε' : Type} {x : Except ε α} {f : ε → ε'} {a : α} :
    x.mapError f = .ok a ↔ x = .ok a := by
  cases x with
  | error e => simp [Except.mapError]
  | ok a => simp [Except.mapError]

/-- A traversal succeeds when it does so at every element, in order. -/
theorem mapM_eq_ok {f : α → Except ε β} {l : List α} {r : List β} :
    l.mapM f = .ok r ↔ List.Forall₂ (fun a b => f a = .ok b) l r := by
  induction l generalizing r with
  | nil =>
    rw [List.mapM_nil, List.forall₂_nil_left_iff]
    exact ⟨fun h => (Except.ok.inj h).symm, fun h => by rw [h]; rfl⟩
  | cons a l ih =>
    rw [List.mapM_cons, bind_eq_ok, List.forall₂_cons_left_iff]
    constructor
    · rintro ⟨b, hb, h⟩
      obtain ⟨bs, hbs, h⟩ := bind_eq_ok.mp h
      exact ⟨b, bs, hb, ih.mp hbs, (Except.ok.inj h).symm⟩
    · rintro ⟨b, bs, hb, hbs, rfl⟩
      exact ⟨b, hb, bind_eq_ok.mpr ⟨bs, ih.mpr hbs, rfl⟩⟩

theorem length_of_mapM {f : α → Except ε β} {l : List α} {r : List β}
    (h : l.mapM f = .ok r) : r.length = l.length :=
  (mapM_eq_ok.mp h).length_eq.symm

theorem mem_of_mapM {f : α → Except ε β} {l : List α} {r : List β}
    (h : l.mapM f = .ok r) {b : β} (hb : b ∈ r) : ∃ a ∈ l, f a = .ok b := by
  have hall := mapM_eq_ok.mp h
  clear h
  induction hall with
  | nil => cases hb
  | @cons x y xs ys hxy _ ih =>
    rcases List.mem_cons.mp hb with rfl | hb
    · exact ⟨x, List.mem_cons_self, hxy⟩
    · obtain ⟨a, ha, hfa⟩ := ih hb
      exact ⟨a, List.mem_cons_of_mem _ ha, hfa⟩

theorem ok_of_mapM {f : α → Except ε β} {l : List α} {r : List β}
    (h : l.mapM f = .ok r) {a : α} (ha : a ∈ l) : ∃ b ∈ r, f a = .ok b := by
  have hall := mapM_eq_ok.mp h
  clear h
  induction hall with
  | nil => cases ha
  | @cons x y xs ys hxy _ ih =>
    rcases List.mem_cons.mp ha with rfl | ha
    · exact ⟨y, List.mem_cons_self, hxy⟩
    · obtain ⟨b, hb, hfb⟩ := ih ha
      exact ⟨b, List.mem_cons_of_mem _ hb, hfb⟩

theorem getElem?_of_mapM {f : α → Except ε β} {l : List α} {r : List β} (h : l.mapM f = .ok r)
    {i : Nat} {a : α} (ha : l[i]? = some a) : ∃ b, r[i]? = some b ∧ f a = .ok b := by
  have hall := mapM_eq_ok.mp h
  obtain ⟨hi, rfl⟩ := List.getElem?_eq_some_iff.mp ha
  have hi' : i < r.length := hall.length_eq ▸ hi
  exact ⟨r[i], List.getElem?_eq_getElem hi', hall.get hi hi'⟩

/-- What related lists are sent to is related if what related elements are sent
to is. -/
theorem forall₂_images {α' β' : Type} {R : α → α' → Prop} {S : β → β' → Prop} {P : α → β → Prop}
    {P' : α' → β' → Prop} {l : List α} {l' : List α'} {r : List β} {r' : List β'}
    (hl : List.Forall₂ R l l') (h : List.Forall₂ P l r) (h' : List.Forall₂ P' l' r')
    (hf : ∀ a a' b b', R a a' → P a b → P' a' b' → S b b') : List.Forall₂ S r r' := by
  induction hl generalizing r r' with
  | nil =>
    cases h
    cases h'
    exact .nil
  | cons ha _ ih =>
    obtain ⟨b, bs, hb, hbs, rfl⟩ := List.forall₂_cons_left_iff.mp h
    obtain ⟨b', bs', hb', hbs', rfl⟩ := List.forall₂_cons_left_iff.mp h'
    exact .cons (hf _ _ _ _ ha hb hb') (ih hbs hbs')

theorem mapM_eq_error {f : α → Except ε β} {l : List α} {a : α} {e : ε} (ha : a ∈ l)
    (he : f a = .error e) : ∃ e', l.mapM f = .error e' := by
  cases h : l.mapM f with
  | error e' => exact ⟨e', rfl⟩
  | ok r =>
    obtain ⟨b, -, hb⟩ := ok_of_mapM h ha
    rw [he] at hb
    cases hb

theorem mapM_ok_of_forall {f : α → Except ε β} {l : List α}
    (h : ∀ a ∈ l, ∃ b, f a = .ok b) : ∃ r, l.mapM f = .ok r := by
  induction l with
  | nil => exact ⟨[], rfl⟩
  | cons a l ih =>
    obtain ⟨b, hb⟩ := h a List.mem_cons_self
    obtain ⟨r, hr⟩ := ih fun a' ha' => h a' (List.mem_cons_of_mem _ ha')
    exact ⟨b :: r, mapM_eq_ok.mpr (.cons hb (mapM_eq_ok.mp hr))⟩

theorem mapM_replicate {f : α → Except ε β} {a : α} {b : β} (h : f a = .ok b) (n : Nat) :
    (List.replicate n a).mapM f = .ok (List.replicate n b) := by
  rw [mapM_eq_ok, List.forall₂_iff_get]
  refine ⟨by simp, ?_⟩
  intro i _ _
  simpa using h

theorem mapM_congr {m : Type → Type} [Monad m] [LawfulMonad m] {f g : α → m β} {l : List α}
    (h : ∀ a ∈ l, f a = g a) : l.mapM f = l.mapM g := by
  induction l with
  | nil => rfl
  | cons a l ih =>
    rw [List.mapM_cons, List.mapM_cons, h a List.mem_cons_self,
      ih fun a' ha' => h a' (List.mem_cons_of_mem _ ha')]

/-- A traversal by number. -/
theorem mapM_range {l : List α} {f : α → Except ε β} {g : Nat → Except ε β}
    (h : ∀ i (hi : i < l.length), g i = f l[i]) : (List.range l.length).mapM g = l.mapM f := by
  induction l generalizing g with
  | nil => rfl
  | cons a l ih =>
    have hrest : (List.range l.length).mapM (g ∘ Nat.succ) = l.mapM f :=
      ih fun i hi => h (i + 1) (Nat.succ_lt_succ hi)
    rw [List.length_cons, List.range_succ_eq_map, List.mapM_cons, List.mapM_cons, List.mapM_map,
      h 0 (Nat.succ_pos _), hrest]
    rfl

theorem foldlM_congr {f g : β → α → Except ε β} {l : List α} (h : ∀ b, ∀ a ∈ l, f b a = g b a)
    (b : β) : l.foldlM f b = l.foldlM g b := by
  induction l generalizing b with
  | nil => rfl
  | cons a l ih =>
    rw [List.foldlM_cons, List.foldlM_cons, h b a List.mem_cons_self]
    exact congrArg _ (funext fun b' => ih (fun b a' ha' => h b a' (List.mem_cons_of_mem _ ha')) b')

/-- A fold whose steps all succeed is a plain one. -/
theorem foldlM_ok {f : β → α → Except ε β} {g : β → α → β} {l : List α}
    (h : ∀ b, ∀ a ∈ l, f b a = .ok (g b a)) (b : β) : l.foldlM f b = .ok (l.foldl g b) :=
  (foldlM_congr h b).trans List.foldlM_pure

/-- A fold that succeeds has taken a step at every element. -/
theorem ok_of_foldlM {f : β → α → Except ε β} {l : List α} {b r : β}
    (h : l.foldlM f b = .ok r) {a : α} (ha : a ∈ l) : ∃ b b', f b a = .ok b' := by
  induction l generalizing b with
  | nil => cases ha
  | cons a' l ih =>
    rw [List.foldlM_cons] at h
    obtain ⟨b', hb', hrest⟩ := bind_eq_ok.mp h
    rcases List.mem_cons.mp ha with rfl | ha
    · exact ⟨b, b', hb'⟩
    · exact ih hrest ha

/-- A traversal gives something when it does so at every element, in order. -/
theorem mapM_eq_some {f : α → Option β} {l : List α} {r : List β} :
    l.mapM f = some r ↔ List.Forall₂ (fun a b => f a = some b) l r := by
  induction l generalizing r with
  | nil =>
    rw [List.mapM_nil, List.forall₂_nil_left_iff]
    exact ⟨fun h => (Option.some.inj h).symm, fun h => by rw [h]; rfl⟩
  | cons a l ih =>
    rw [List.mapM_cons, List.forall₂_cons_left_iff]
    constructor
    · intro h
      obtain ⟨b, hb, h⟩ := Option.bind_eq_some_iff.mp h
      obtain ⟨bs, hbs, h⟩ := Option.bind_eq_some_iff.mp h
      exact ⟨b, bs, hb, ih.mp hbs, (Option.some.inj h).symm⟩
    · rintro ⟨b, bs, hb, hbs, rfl⟩
      refine Option.bind_eq_some_iff.mpr ⟨b, hb, ?_⟩
      exact Option.bind_eq_some_iff.mpr ⟨bs, ih.mpr hbs, rfl⟩

theorem mapM_some_of_forall {f : α → Option β} {l : List α} (h : ∀ a ∈ l, ∃ b, f a = some b) :
    ∃ r, l.mapM f = some r := by
  induction l with
  | nil => exact ⟨[], rfl⟩
  | cons a l ih =>
    obtain ⟨b, hb⟩ := h a List.mem_cons_self
    obtain ⟨r, hr⟩ := ih fun a' ha' => h a' (List.mem_cons_of_mem _ ha')
    exact ⟨b :: r, mapM_eq_some.mpr (.cons hb (mapM_eq_some.mp hr))⟩

theorem length_of_mapM_some {f : α → Option β} {l : List α} {r : List β}
    (h : l.mapM f = some r) : r.length = l.length :=
  (mapM_eq_some.mp h).length_eq.symm

/-- Every fault the computation can raise has the property. -/
def Raises (x : Except ε α) (P : ε → Prop) : Prop :=
  ∀ e, x = .error e → P e

namespace Raises

variable {P Q : ε → Prop}

theorem ok (a : α) : Raises (.ok a : Except ε α) P := by
  intro e h
  cases h

theorem error {e : ε} (h : P e) : Raises (.error e : Except ε α) P := by
  intro e' he
  cases he
  exact h

theorem mono {x : Except ε α} (h : Raises x P) (hPQ : ∀ e, P e → Q e) : Raises x Q :=
  fun e he => hPQ e (h e he)

theorem bind {x : Except ε α} {f : α → Except ε β} (hx : Raises x P)
    (hf : ∀ a, x = .ok a → Raises (f a) P) : Raises (x >>= f) P := by
  intro e he
  rcases bind_eq_error.mp he with he | ⟨a, ha, he⟩
  · exact hx e he
  · exact hf a ha e he

theorem map {x : Except ε α} {f : α → β} (hx : Raises x P) : Raises (x.map f) P := by
  intro e he
  cases x with
  | error e' => exact hx e (by simpa [Except.map] using he)
  | ok a => cases he

theorem mapError {ε' : Type} {x : Except ε' α} {f : ε' → ε} (hf : ∀ e, P (f e)) :
    Raises (x.mapError f) P := by
  intro e he
  cases x with
  | error e' =>
    cases he
    exact hf e'
  | ok a => cases he

theorem foldlM {f : β → α → Except ε β} {l : List α} (hf : ∀ b, ∀ a ∈ l, Raises (f b a) P)
    (b : β) : Raises (l.foldlM f b) P := by
  induction l generalizing b with
  | nil => exact ok b
  | cons a l ih =>
    rw [List.foldlM_cons]
    refine bind (hf b a List.mem_cons_self) fun b' _ => ?_
    exact ih (fun b a' ha' => hf b a' (List.mem_cons_of_mem _ ha')) b'

theorem mapM {f : α → Except ε β} {l : List α} (hf : ∀ a ∈ l, Raises (f a) P) :
    Raises (l.mapM f) P := by
  induction l with
  | nil => exact ok []
  | cons a l ih =>
    rw [List.mapM_cons]
    refine bind (hf a List.mem_cons_self) fun b _ => ?_
    exact bind (ih fun a' ha' => hf a' (List.mem_cons_of_mem _ ha')) fun bs _ => ok _

end Raises

end Lockstep
