import Lockstep.DType
import Lockstep.Proofs.Text.Parts

/-!
# Texts of types

The texts that are read as a type, written as a grammar, and the one of them that is printed.
Letters keep the three forms apart: a colon is only in the text of an image, and no name of a
scalar type has an `x`, so that the first `x` of an image and the last one of a vector are those
before a number.
-/

namespace Lockstep

/-! ## Names of scalar types -/

/-- Names are made of digits and small letters, and `x` is not among the letters. -/
def isNameChar (c : Char) : Bool :=
  c.isDigit || c.isLower && c != 'x'

namespace ScalarType

variable {cs : List Char} {s : ScalarType} {t : String}

/-- A name or an alias of the type. -/
def Spells (cs : List Char) (s : ScalarType) : Prop :=
  String.ofList cs ∈ s.name :: s.aliases

theorem ofName?_of_mem (s : ScalarType) : ∀ t ∈ s.name :: s.aliases, ofName? t = some s := by
  rcases s with _ | t | t
  · decide
  · cases t <;> decide
  · cases t <;> decide

theorem ofName?_eq_some : ofName? t = some s ↔ t ∈ s.name :: s.aliases := by
  constructor
  · intro h
    have hname := List.find?_some h
    simp only [Bool.or_eq_true, beq_iff_eq, List.contains_iff_mem] at hname
    rcases hname with rfl | halias
    · exact List.mem_cons_self
    · exact List.mem_cons_of_mem s.name halias
  · exact ofName?_of_mem s t

theorem all_isNameChar (s : ScalarType) :
    ∀ t ∈ s.name :: s.aliases, t.toList.all isNameChar = true := by
  rcases s with _ | t | t
  · decide
  · cases t <;> decide
  · cases t <;> decide

theorem spells_name (s : ScalarType) : Spells s.name.toList s := by
  simp [Spells]

theorem Spells.ofName? (h : Spells cs s) : ofName? (String.ofList cs) = some s :=
  ofName?_eq_some.mpr h

theorem Spells.isNameChar (h : Spells cs s) : ∀ c ∈ cs, isNameChar c = true := by
  simpa using all_isNameChar s _ h

theorem Spells.not_mem {c : Char} (h : Spells cs s) (hc : Lockstep.isNameChar c = false) :
    c ∉ cs := by
  intro hmem
  rw [h.isNameChar c hmem] at hc
  cases hc

end ScalarType

/-! ## Texts of the three forms -/

namespace DType

variable {cs : List Char} {d : DType}

/-- The extents are machine words, and a vector has at least two elements. -/
def Declarable : DType → Prop
  | scalar _ => True
  | vector _ n => 2 ≤ n ∧ n < wordLimit
  | image _ h w => h < wordLimit ∧ w < wordLimit

/-- The texts of a type without blanks around them. A vector of one element is a scalar. -/
inductive Spells : List Char → DType → Prop where
  | scalar {cs : List Char} {s : ScalarType} (hs : s.Spells cs) : Spells cs (.scalar s)
  | vector {cs ds : List Char} {s : ScalarType} {n : Nat} (hs : s.Spells cs)
      (hn : SpellsWord ds n) (hpos : n ≠ 0) : Spells (cs ++ 'x' :: ds) (ofCount s n)
  | image {cs rows columns : List Char} {s : ScalarType} {height width : Nat} (hs : s.Spells cs)
      (hheight : SpellsWord rows height) (hwidth : SpellsWord columns width) :
      Spells (imageMark ++ (cs ++ ':' :: (rows ++ 'x' :: columns))) (.image s height width)

theorem declarable_ofCount (s : ScalarType) {n : Nat} (h : n < wordLimit) :
    (ofCount s n).Declarable := by
  unfold ofCount
  split
  · trivial
  · exact ⟨by omega, h⟩

theorem Spells.declarable (h : Spells cs d) : d.Declarable := by
  cases h with
  | scalar hs => trivial
  | vector hs hn hpos => exact declarable_ofCount _ hn.lt
  | image hs hheight hwidth => exact ⟨hheight.lt, hwidth.lt⟩

/-- What is printed is one of the texts. -/
theorem Declarable.spells_name (h : d.Declarable) : Spells d.name.toList d := by
  cases d with
  | scalar s => exact .scalar s.spells_name
  | vector s n =>
    obtain ⟨htwo, hlt⟩ := h
    have hcount : ofCount s n = .vector s n := if_neg (by omega)
    have hname : (DType.vector s n).name.toList = s.name.toList ++ 'x' :: Nat.toDigits 10 n := by
      simp [name]
      rfl
    rw [hname, ← hcount]
    exact .vector s.spells_name (spellsWord_toDigits hlt) (by omega)
  | image s height width =>
    have hname : (DType.image s height width).name.toList = imageMark ++
        (s.name.toList ++ ':' :: (Nat.toDigits 10 height ++ 'x' :: Nat.toDigits 10 width)) := by
      simp [name]
      rfl
    rw [hname]
    exact .image s.spells_name (spellsWord_toDigits h.1) (spellsWord_toDigits h.2)

/-! ## Reading -/

theorem readImage?_eq_some : readImage? cs = some d ↔
    ∃ s name rows columns height width, cs = name ++ ':' :: (rows ++ 'x' :: columns) ∧
      ScalarType.Spells name s ∧ SpellsWord rows height ∧ SpellsWord columns width ∧
      d = .image s height width := by
  simp only [readImage?, Option.bind_eq_bind, Option.bind_eq_some_iff, Prod.exists]
  constructor
  · rintro ⟨name, shape, hshape, rows, columns, hrows, s, hs, height, hheight, width, hwidth, h⟩
    obtain ⟨rfl, -⟩ := of_splitFirst? hshape
    obtain ⟨rfl, -⟩ := of_splitFirst? hrows
    exact ⟨s, name, rows, columns, height, width, rfl, ScalarType.ofName?_eq_some.mp hs,
      readWord?_eq_some.mp hheight, readWord?_eq_some.mp hwidth, (Option.some.inj h).symm⟩
  · rintro ⟨s, name, rows, columns, height, width, rfl, hs, hheight, hwidth, rfl⟩
    exact ⟨name, _, splitFirst?_append (hs.not_mem rfl), rows, columns,
      splitFirst?_append (hheight.not_mem rfl (by decide)), s, hs.ofName?, height,
      readWord?_eq_some.mpr hheight, width, readWord?_eq_some.mpr hwidth, rfl⟩

theorem readVector?_eq_some : readVector? cs = some d ↔
    ∃ s name ds n, cs = name ++ 'x' :: ds ∧ ScalarType.Spells name s ∧ SpellsWord ds n ∧ n ≠ 0 ∧
      d = ofCount s n := by
  simp only [readVector?, Option.bind_eq_bind, Option.bind_eq_some_iff, Prod.exists,
    Option.ite_none_left_eq_some, Option.some.injEq]
  constructor
  · rintro ⟨name, ds, hds, s, hs, n, hn, hpos, rfl⟩
    obtain ⟨rfl, -⟩ := of_splitLast? hds
    exact ⟨s, name, ds, n, rfl, ScalarType.ofName?_eq_some.mp hs, readWord?_eq_some.mp hn, hpos,
      rfl⟩
  · rintro ⟨s, name, ds, n, rfl, hs, hn, hpos, rfl⟩
    exact ⟨name, ds, splitLast?_append (hn.not_mem rfl (by decide)), s, hs.ofName?, n,
      readWord?_eq_some.mpr hn, hpos, rfl⟩

/-- Only the text of an image has a colon. -/
theorem not_imageMark (h : ':' ∉ cs) : imageMark.isPrefixOf cs = false := by
  rw [Bool.eq_false_iff]
  intro hprefix
  have hmark : ':' ∈ imageMark := by decide
  exact h ((List.isPrefixOf_iff_prefix.mp hprefix).subset hmark)

theorem read?_of_no_colon (h : ':' ∉ cs) : read? cs =
    match ScalarType.ofName? (String.ofList cs) with
    | some s => some (.scalar s)
    | none => readVector? cs := by
  rw [read?, not_imageMark h]
  rfl

theorem read?_imageMark (cs : List Char) : read? (imageMark ++ cs) = readImage? cs := by
  have hprefix : imageMark.isPrefixOf (imageMark ++ cs) = true := by simp
  rw [read?, if_pos hprefix, List.drop_left]

/-- The text of a vector is no name. -/
theorem ofName?_eq_none (h : 'x' ∈ cs) : ScalarType.ofName? (String.ofList cs) = none := by
  cases hs : ScalarType.ofName? (String.ofList cs) with
  | none => rfl
  | some s =>
    have hspells : s.Spells cs := ScalarType.ofName?_eq_some.mp hs
    exact absurd h (hspells.not_mem rfl)

theorem spells_of_read? (h : read? cs = some d) : Spells cs d := by
  unfold read? at h
  split at h
  next hprefix =>
    obtain ⟨rest, rfl⟩ := List.isPrefixOf_iff_prefix.mp hprefix
    rw [List.drop_left, readImage?_eq_some] at h
    obtain ⟨s, name, rows, columns, height, width, rfl, hs, hheight, hwidth, rfl⟩ := h
    exact .image hs hheight hwidth
  next =>
    split at h
    next s hs =>
      cases h
      exact .scalar (ScalarType.ofName?_eq_some.mp hs)
    next =>
      obtain ⟨s, name, ds, n, rfl, hs, hn, hpos, rfl⟩ := readVector?_eq_some.mp h
      exact .vector hs hn hpos

theorem Spells.read? (h : Spells cs d) : read? cs = some d := by
  -- an image is asked for first and a name second: each later form has to be refused by those
  cases h with
  | scalar hs => rw [read?_of_no_colon (hs.not_mem rfl), hs.ofName?]
  | @vector name ds s n hs hn hpos =>
    have hname : ':' ∉ name := hs.not_mem rfl
    have hds : ':' ∉ ds := hn.not_mem rfl (by decide)
    have hcolon : ':' ∉ name ++ 'x' :: ds := by simp [hname, hds]
    rw [read?_of_no_colon hcolon, ofName?_eq_none (by simp)]
    exact readVector?_eq_some.mpr ⟨_, _, _, _, rfl, hs, hn, hpos, rfl⟩
  | image hs hheight hwidth =>
    rw [read?_imageMark]
    exact readImage?_eq_some.mpr ⟨_, _, _, _, _, _, rfl, hs, hheight, hwidth, rfl⟩

theorem read?_eq_some : read? cs = some d ↔ Spells cs d :=
  ⟨spells_of_read?, Spells.read?⟩

/-! ## Blanks around a text -/

theorem isBlank_of_isNameChar {c : Char} (h : isNameChar c = true) : isBlank c = false := by
  simp only [isNameChar, Bool.or_eq_true, Bool.and_eq_true] at h
  rcases h with hdigit | ⟨hlower, -⟩
  · have hrange := toNat_of_isDigit hdigit
    exact isBlank_of_range (by omega)
  · have hrange := toNat_of_isLower hlower
    exact isBlank_of_range (by omega)

theorem Spells.isBlank (h : Spells cs d) : ∀ c ∈ cs, isBlank c = false := by
  have hname {cs : List Char} {s : ScalarType} (hs : s.Spells cs) :
      ∀ c ∈ cs, Lockstep.isBlank c = false :=
    fun c hc => isBlank_of_isNameChar (hs.isNameChar c hc)
  have hx : Lockstep.isBlank 'x' = false := rfl
  have hcolon : Lockstep.isBlank ':' = false := rfl
  have hmark : imageMark.all (fun c => !Lockstep.isBlank c) = true := by decide
  intro c hc
  cases h with
  | scalar hs => exact hname hs c hc
  | vector hs hn hpos =>
    simp only [List.mem_append, List.mem_cons] at hc
    rcases hc with hc | rfl | hc
    · exact hname hs c hc
    · exact hx
    · exact hn.isBlank c hc
  | image hs hheight hwidth =>
    simp only [List.mem_append, List.mem_cons] at hc
    rcases hc with hc | hc | rfl | hc | rfl | hc
    · simpa using List.all_eq_true.mp hmark c hc
    · exact hname hs c hc
    · exact hcolon
    · exact hheight.isBlank c hc
    · exact hx
    · exact hwidth.isBlank c hc

/-- The text is one of the texts of the type, with any blanks around it. -/
def SpellsAround (text : String) (d : DType) : Prop :=
  ∃ front cs back, text.toList = front ++ cs ++ back ∧ (∀ c ∈ front, isBlank c = true) ∧
    (∀ c ∈ back, isBlank c = true) ∧ Spells cs d

theorem parse_eq_ok {text : String} : parse text = .ok d ↔ SpellsAround text d := by
  have hread : parse text = .ok d ↔ read? (trimBlanks text.toList) = some d := by
    cases h : read? (trimBlanks text.toList) <;> simp [parse, h]
  rw [hread, read?_eq_some]
  constructor
  · intro h
    obtain ⟨front, back, htext, hfront, hback⟩ := exists_blanks_around text.toList
    exact ⟨front, _, back, htext, hfront, hback, h⟩
  · rintro ⟨front, cs, back, htext, hfront, hback, h⟩
    rwa [htext, trimBlanks_around hfront hback h.isBlank]

theorem SpellsAround.declarable {text : String} (h : SpellsAround text d) : d.Declarable := by
  obtain ⟨front, cs, back, -, -, -, hcs⟩ := h
  exact hcs.declarable

theorem Declarable.spellsAround_name (h : d.Declarable) : SpellsAround d.name d :=
  ⟨[], d.name.toList, [], by simp, by simp, by simp, h.spells_name⟩

theorem parse_name_eq_ok : parse d.name = .ok d ↔ d.Declarable := by
  rw [parse_eq_ok]
  exact ⟨SpellsAround.declarable, Declarable.spellsAround_name⟩

/-- A type is read back from its printed text if its extents are words and it is no vector of
fewer than two elements. The texts that are read are those of the grammar, and whatever text a
type is read from, it is read back from its printed one. -/
theorem name_normalizes (d : DType) :
    (parse d.name = .ok d ↔ d.Declarable) ∧
    ∀ text, (parse text = .ok d ↔ SpellsAround text d) ∧
      (parse text = .ok d → d.Declarable ∧ parse d.name = .ok d) := by
  refine ⟨parse_name_eq_ok, fun text => ⟨parse_eq_ok, ?_⟩⟩
  intro h
  have hdeclarable : d.Declarable := (parse_eq_ok.mp h).declarable
  exact ⟨hdeclarable, parse_name_eq_ok.mpr hdeclarable⟩

/-- An alias, a plus sign, zeros and blanks. -/
theorem name_normalizes_halfImage :
    let text := "\u00a0image:half:+02x008\t"
    let d := image (.float .float16) 2 8
    parse text = .ok d ∧ d.Declarable ∧ parse d.name = .ok d ∧ d.name = "image:float16:2x8" := by
  intro text d
  have htext : parse text = .ok d := by decide +kernel
  obtain ⟨hdeclarable, hname⟩ := ((name_normalizes d).2 text).2 htext
  exact ⟨htext, hdeclarable, hname, by decide +kernel⟩

end DType

end Lockstep
