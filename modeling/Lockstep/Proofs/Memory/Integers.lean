import Lockstep.Proofs.Alu.Held
import Lockstep.Proofs.Loop.Counter
import Lockstep.Proofs.Memory.Replay

/-!
# Buffers of integers

Buffers read and written as elements of one integer type. An integer that is stored is
read back, the other elements stay, and a list of writes of integers is done up to the
first that the type does not have.
-/

namespace Lockstep

/-! ## Words -/

theorem bytesWord_wordBytes (w size : Nat) : bytesWord (wordBytes w size) = w % 256 ^ size := by
  induction size generalizing w with
  | zero => simp [wordBytes, bytesWord, Nat.mod_one]
  | succ size ih =>
    have hbyte : (UInt8.ofNat (w % 256)).toNat = w % 256 := by simp
    rw [wordBytes, bytesWord, ih, hbyte, Nat.pow_succ', Nat.mod_mul]

namespace IntType

variable {t : IntType} {i : Int}

theorem two_pow_bits (t : IntType) : 2 ^ t.bits = 256 ^ t.size := by
  cases t <;> rfl

theorem toWord_lt (t : IntType) (i : Int) : t.toWord i < 256 ^ t.size := by
  have hpos : (0 : Int) < (2 ^ t.bits : Nat) := by exact_mod_cast Nat.two_pow_pos _
  have hlt : i % (2 ^ t.bits : Nat) < (2 ^ t.bits : Nat) := Int.emod_lt_of_pos i hpos
  have hnonneg : 0 ≤ i % (2 ^ t.bits : Nat) := Int.emod_nonneg i (Int.ne_of_gt hpos)
  rw [← two_pow_bits]
  unfold toWord
  change (i % (2 ^ t.bits : Nat)).toNat < _
  omega

/-- An integer of the type is the one that its word stands for. -/
theorem ofWord_toWord (h : t.contains i = true) : t.ofWord (t.toWord i) = i := by
  rw [contains_iff] at h
  have hpos : (0 : Int) < (2 ^ t.bits : Nat) := by exact_mod_cast Nat.two_pow_pos _
  have hword : ((t.toWord i : Nat) : Int) = i % (2 ^ t.bits : Nat) :=
    Int.toNat_of_nonneg (Int.emod_nonneg i (Int.ne_of_gt hpos))
  unfold ofWord
  rw [hword]
  cases hs : t.isSigned with
  | true =>
    rw [if_pos rfl]
    change (i % (2 ^ t.bits : Nat)).bmod (2 ^ t.bits) = i
    rw [Int.emod_bmod]
    refine Int.bmod_eq_of_le ?_ ?_ <;>
      cases t <;> simp [isSigned] at hs <;>
        simp [min, max, isSigned, bits, size] at h ⊢ <;> omega
  | false =>
    rw [if_neg (by simp)]
    refine Int.emod_eq_of_lt ?_ ?_ <;>
      cases t <;> simp [isSigned] at hs <;>
        simp [min, max, isSigned, bits, size] at h ⊢ <;> omega

theorem decodeElement_wordBytes (h : t.contains i = true) :
    decodeElement (.int t) (wordBytes (t.toWord i) t.size) = .int t i := by
  change Value.int t (t.ofWord (bytesWord _)) = _
  rw [bytesWord_wordBytes, Nat.mod_eq_of_lt (t.toWord_lt i), ofWord_toWord h]

end IntType

/-- An integer that is held is stored as its word if the type has it. -/
theorem encodeElement_of_holds {t : IntType} {v : Value} {i : Int} (hv : t.Holds v i)
    (hi : t.contains i = true) :
    encodeElement (.int t) v = .ok (wordBytes (t.toWord i) t.size) := by
  rw [encodeElement, if_neg (by simp [hv.isFloat_eq]), Value.convert_of_contains hv.toInt?_eq hi]
  rfl

theorem encodeElement_of_not_contains {t : IntType} {v : Value} {i : Int} (hv : t.Holds v i)
    (hi : t.contains i = false) :
    encodeElement (.int t) v = .error (.overflow (.whole i) (.int t)) := by
  have hne : t.widest ≠ t := by
    intro he
    have hwidest := hv.widest_contains
    rw [he, hi] at hwidest
    cases hwidest
  rw [encodeElement, if_neg (by simp [hv.isFloat_eq]), hv.eq_widest hi]
  change (if ScalarType.int t.widest = .int t then _ else _ : Except ConvertError Value).map _ = _
  rw [if_neg (by simpa using hne)]
  change (if t.contains i then _ else _ : Except ConvertError Value).map _ = _
  rw [if_neg (by simp [hi])]
  rfl

/-! ## Bytes -/

/-- Bytes put in place are there. -/
theorem extract_overwrite {bytes : Array UInt8} {start : Nat} {l : List UInt8}
    (h : start + l.length ≤ bytes.size) :
    ((overwrite bytes start l).extract start (start + l.length)).toList = l := by
  refine List.ext_getElem? fun k => ?_
  rw [Array.getElem?_toList, Array.getElem?_extract]
  by_cases hk : k < l.length
  · have hlt : start + k < bytes.size := by omega
    have hbyte : bytes[start + k]? = some bytes[start + k] := Array.getElem?_eq_getElem hlt
    rw [if_pos (by rw [size_overwrite]; omega), getElem?_overwrite (by omega) (by omega), hbyte]
    simp [List.getD_eq_getElem?_getD, hk]
  · rw [if_neg (by rw [size_overwrite]; omega), List.getElem?_eq_none (by omega)]

/-! ## Elements -/

namespace Buffer

/-- The buffer is a whole number of elements of the type, at least so many. -/
structure Spans (b : Buffer) (t : ScalarType) (n : Nat) : Prop where
  fits : b.fits t = true
  length : n ≤ b.lengthAs t

/-- The integer at a position. -/
def intAt (b : Buffer) (t : IntType) (i : Nat) : Int :=
  ((b.readAs? (.int t) i).bind Value.toInt?).getD 0

/-- The buffer with another integer at a position. -/
def setInt (b : Buffer) (t : IntType) (i : Nat) (x : Int) : Buffer :=
  { b with bytes := overwrite b.bytes (i * t.size) (wordBytes (t.toWord x) t.size) }

variable {b : Buffer} {t : IntType} {i j : Nat} {x : Int}

/-- The bytes of an element lie within the buffer. -/
theorem end_le_size {s : ScalarType} (h : i < b.lengthAs s) : i * s.size + s.size ≤ b.size := by
  rw [← Nat.succ_mul]
  exact Nat.mul_le_of_le_div _ _ _ h

theorem readAs?_intAt (h : i < b.lengthAs (.int t)) :
    b.readAs? (.int t) i = some (.int t (b.intAt t i)) := by
  unfold intAt
  rw [readAs?, if_pos (end_le_size h)]
  rfl

theorem intAt_of_readAs? (h : b.readAs? (.int t) i = some (.int t x)) : b.intAt t i = x := by
  rw [intAt, h]
  rfl

theorem contains_intAt (b : Buffer) (t : IntType) (i : Nat) : t.contains (b.intAt t i) = true := by
  by_cases h : i * t.size + t.size ≤ b.size
  · have hread : b.readAs? (.int t) i = some (.int t _) := if_pos h
    rw [intAt_of_readAs? hread]
    exact wellFormed_readAs? hread
  · have hread : b.readAs? (.int t) i = none := if_neg h
    rw [intAt, hread]
    exact t.contains_zero

@[simp] theorem shape_setInt (b : Buffer) (t : IntType) (i : Nat) (x : Int) :
    (b.setInt t i x).shape = b.shape := by
  simp [shape, setInt, size]

theorem size_of_shape {b b' : Buffer} (h : b'.shape = b.shape) : b'.size = b.size :=
  congrArg Prod.snd h

theorem lengthAs_of_shape {b b' : Buffer} (h : b'.shape = b.shape) (s : ScalarType) :
    b'.lengthAs s = b.lengthAs s := by
  rw [lengthAs, lengthAs, size_of_shape h]

/-- The element depends on its own bytes only. -/
theorem readAs?_congr {b b' : Buffer} {t : ScalarType} {n : Nat} (h : b'.shape = b.shape)
    (hbytes : ∀ k, n * t.size ≤ k → k < (n + 1) * t.size → b'.bytes[k]? = b.bytes[k]?) :
    b'.readAs? t n = b.readAs? t n := by
  have hsize : b'.bytes.size = b.bytes.size := size_of_shape h
  have hextract : b'.bytes.extract (n * t.size) (n * t.size + t.size) =
      b.bytes.extract (n * t.size) (n * t.size + t.size) := by
    refine Array.ext_getElem? fun k => ?_
    rw [Array.getElem?_extract, Array.getElem?_extract, hsize]
    split
    · rename_i hk
      exact hbytes _ (Nat.le_add_right _ _) (by rw [Nat.succ_mul]; omega)
    · rfl
  rw [readAs?, readAs?, size_of_shape h, hextract]

theorem Spans.of_shape {b b' : Buffer} {s : ScalarType} {n : Nat} (hb : b.Spans s n)
    (h : b'.shape = b.shape) : b'.Spans s n where
  fits := by
    rw [Buffer.fits, size_of_shape h]
    exact hb.fits
  length := lengthAs_of_shape h s ▸ hb.length

theorem readAs?_setInt (h : i < b.lengthAs (.int t)) (hx : t.contains x = true) :
    (b.setInt t i x).readAs? (.int t) i = some (.int t x) := by
  have hend : i * t.size + t.size ≤ b.size := end_le_size h
  have hword := Memory.length_wordBytes (t.toWord x) t.size
  have hextract := @extract_overwrite b.bytes (i * t.size) (wordBytes (t.toWord x) t.size)
    (by rw [hword]; exact hend)
  rw [hword] at hextract
  have hend' : i * t.size + t.size ≤ (b.setInt t i x).size :=
    (size_of_shape (b.shape_setInt t i x)).symm ▸ hend
  calc (b.setInt t i x).readAs? (.int t) i
      = some (decodeElement (.int t)
          ((b.setInt t i x).bytes.extract (i * t.size) (i * t.size + t.size)).toList) := if_pos hend'
    _ = some (decodeElement (.int t) (wordBytes (t.toWord x) t.size)) := by rw [← hextract]; rfl
    _ = some (.int t x) := by rw [IntType.decodeElement_wordBytes hx]

theorem readAs?_setInt_of_ne (h : j ≠ i) :
    (b.setInt t i x).readAs? (.int t) j = b.readAs? (.int t) j := by
  refine readAs?_congr (b.shape_setInt t i x) fun k hlo hhi => ?_
  rcases Nat.lt_or_gt_of_ne h with hlt | hlt
  · exact getElem?_overwrite_of_lt (Nat.lt_of_lt_of_le hhi (Nat.mul_le_mul_right _ hlt))
  · refine getElem?_overwrite_of_le ?_
    rw [Memory.length_wordBytes, ← Nat.succ_mul]
    exact Nat.le_trans (Nat.mul_le_mul_right _ hlt) hlo

/-! ## Several elements -/

/-- The buffer with other integers at some positions, put there in order. -/
def setInts (b : Buffer) (t : IntType) (es : List (Nat × Int)) : Buffer :=
  es.foldl (fun b e => b.setInt t e.1 e.2) b

@[simp] theorem setInts_nil (b : Buffer) (t : IntType) : b.setInts t [] = b := rfl

@[simp] theorem setInts_cons (b : Buffer) (t : IntType) (e : Nat × Int) (es : List (Nat × Int)) :
    b.setInts t (e :: es) = (b.setInt t e.1 e.2).setInts t es := rfl

@[simp] theorem shape_setInts (b : Buffer) (t : IntType) (es : List (Nat × Int)) :
    (b.setInts t es).shape = b.shape := by
  induction es generalizing b with
  | nil => rfl
  | cons e es ih => rw [setInts_cons, ih, shape_setInt]

theorem readAs?_setInts_of_not_mem {es : List (Nat × Int)} (h : ∀ e ∈ es, e.1 ≠ i) :
    (b.setInts t es).readAs? (.int t) i = b.readAs? (.int t) i := by
  induction es generalizing b with
  | nil => rfl
  | cons e es ih =>
    rw [setInts_cons, ih fun e' he' => h e' (List.mem_cons_of_mem _ he'),
      readAs?_setInt_of_ne (h e List.mem_cons_self).symm]

/-- All integers put at one position are the same. -/
theorem readAs?_setInts {es : List (Nat × Int)} (hmem : (i, x) ∈ es)
    (hsame : ∀ e ∈ es, e.1 = i → e.2 = x) (h : i < b.lengthAs (.int t))
    (hx : t.contains x = true) : (b.setInts t es).readAs? (.int t) i = some (.int t x) := by
  induction es generalizing b with
  | nil => cases hmem
  | cons e es ih =>
    rw [setInts_cons]
    have hlength : (b.setInt t e.1 e.2).lengthAs (.int t) = b.lengthAs (.int t) :=
      lengthAs_of_shape (shape_setInt b t e.1 e.2) _
    -- the last of the integers put at the position is the one that stays
    by_cases hrest : (i, x) ∈ es
    · exact ih hrest (fun e' he' => hsame e' (List.mem_cons_of_mem _ he')) (hlength ▸ h)
    · obtain rfl : (i, x) = e := (List.mem_cons.mp hmem).resolve_right hrest
      have hnot : ∀ e' ∈ es, e'.1 ≠ i := by
        rintro ⟨j, y⟩ he' rfl
        obtain rfl : y = x := hsame _ (List.mem_cons_of_mem _ he') rfl
        exact hrest he'
      rw [readAs?_setInts_of_not_mem hnot, readAs?_setInt h hx]

end Buffer

/-! ## Memory -/

namespace Memory

variable {m : Memory} {r : BufferRef} {b b' : Buffer} {t : IntType} {i : Nat} {v : Value} {x : Int}

theorem setBuffer_self (h : m.buffer? r = some b) : m.setBuffer r b = m := by
  have hset : ∀ {bs : List Buffer} {n : Nat}, bs[n]? = some b → bs.set n b = bs := by
    intro bs n hn
    obtain ⟨hlt, rfl⟩ := List.getElem?_eq_some_iff.mp hn
    exact List.set_getElem_self hlt
  cases r with
  | global n => exact congrArg (fun bs => { m with globals := bs }) (hset h)
  | scratch n => exact congrArg (fun bs => { m with scratch := bs }) (hset h)

theorem buffer?_setBuffer (h : m.buffer? r = some b) :
    (m.setBuffer r b').buffer? r = some b' := by
  have hset : ∀ {bs : List Buffer} {n : Nat}, bs[n]? = some b → (bs.set n b')[n]? = some b' := by
    intro bs n hn
    exact List.getElem?_set_self (List.getElem?_eq_some_iff.mp hn).1
  cases r with
  | global n => exact hset h
  | scratch n => exact hset h

theorem setBuffer_setBuffer (m : Memory) (r : BufferRef) (b b' : Buffer) :
    (m.setBuffer r b).setBuffer r b' = m.setBuffer r b' := by
  cases r <;> simp [setBuffer]

theorem resolve_of_buffer? (h : m.buffer? r = some b) (s : ScalarType) (a : Access) :
    m.resolve ⟨r, s⟩ a = .ok b :=
  resolve_eq_ok.mpr h

theorem slot_of_lt {s : ScalarType} (h : i < b.lengthAs s) (a : Access) :
    slot b s i a = .ok i := by
  rw [slot, if_pos ⟨Int.natCast_nonneg i, by exact_mod_cast h⟩, Int.toNat_natCast]

/-- An integer is read as what it is. -/
theorem read_int (hb : m.buffer? r = some b) (h : i < b.lengthAs (.int t)) :
    m.read ⟨r, .int t⟩ i = .ok (.int t (b.intAt t i)) := by
  simp [read, resolve_of_buffer? hb, slot_of_lt h, Buffer.readAs?_intAt h, bind, Except.bind, pure,
    Except.pure]

/-- An integer that is held is written if the type has it. -/
theorem write_of_holds (hb : m.buffer? r = some b) (h : i < b.lengthAs (.int t))
    (hv : t.Holds v x) (hx : t.contains x = true) :
    m.write ⟨r, .int t⟩ i v = .ok (m.setBuffer r (b.setInt t i x)) := by
  have hwrite : b.writeAs (.int t) i v = .ok (b.setInt t i x) := by
    rw [Buffer.writeAs, if_pos (Buffer.end_le_size h), encodeElement_of_holds hv hx]
    rfl
  simp [write, resolve_of_buffer? hb, slot_of_lt h, hwrite, bind, Except.bind, pure, Except.pure]

/-- The fault of a write of an integer that the type does not have. -/
def misfit (t : IntType) (x : Int) : Fault :=
  .conversion (.stored (.int t.widest x) (.int t) (.overflow (.whole x) (.int t)))

theorem write_of_not_contains (hb : m.buffer? r = some b) (h : i < b.lengthAs (.int t))
    (hv : t.Holds v x) (hx : t.contains x = false) :
    m.write ⟨r, .int t⟩ i v = .error (misfit t x) := by
  have hwrite : b.writeAs (.int t) i v = .error (.overflow (.whole x) (.int t)) := by
    rw [Buffer.writeAs, if_pos (Buffer.end_le_size h), encodeElement_of_not_contains hv hx]
    rfl
  obtain rfl := hv.eq_widest hx
  simp [write, resolve_of_buffer? hb, slot_of_lt h, hwrite, bind, Except.bind, throw, throwThe,
    MonadExceptOf.throw, misfit]

/-! ## Writes one after the other -/

/-- The write of an integer at a position of a buffer. -/
structure Stores (r : BufferRef) (t : IntType) (w : Write) (e : Nat × Int) : Prop where
  view : w.view = ⟨r, .int t⟩
  address : w.address = .ok e.1
  holds : t.Holds w.value e.2

/-- Writes of integers that the type has are all done before those that come after. -/
theorem perform_append {ws : List Write} {es : List (Nat × Int)}
    (hws : List.Forall₂ (Stores r t) ws es) (hb : m.buffer? r = some b)
    (hin : ∀ e ∈ es, e.1 < b.lengthAs (.int t)) (hfit : ∀ e ∈ es, t.contains e.2 = true)
    (ws' : List Write) : m.perform (ws ++ ws') = (m.setBuffer r (b.setInts t es)).perform ws' := by
  induction hws generalizing m b with
  | nil => rw [Buffer.setInts_nil, setBuffer_self hb, List.nil_append]
  | @cons w e ws es hw hws ih =>
    obtain ⟨view, address, value⟩ := w
    obtain ⟨rfl, rfl, hv⟩ := hw
    have hwrite := write_of_holds hb (hin e List.mem_cons_self) hv (hfit e List.mem_cons_self)
    have hlength := Buffer.lengthAs_of_shape (b.shape_setInt t e.1 e.2) (.int t)
    rw [List.cons_append, perform]
    simp only [hwrite]
    rw [ih (buffer?_setBuffer hb) (fun e' he' => hlength ▸ hin e' (List.mem_cons_of_mem _ he'))
      (fun e' he' => hfit e' (List.mem_cons_of_mem _ he')), setBuffer_setBuffer, Buffer.setInts_cons]

theorem perform_of_contains {ws : List Write} {es : List (Nat × Int)}
    (hws : List.Forall₂ (Stores r t) ws es) (hb : m.buffer? r = some b)
    (hin : ∀ e ∈ es, e.1 < b.lengthAs (.int t)) (hfit : ∀ e ∈ es, t.contains e.2 = true) :
    m.perform ws = (m.setBuffer r (b.setInts t es), .ok ()) := by
  have h := perform_append hws hb hin hfit []
  rw [List.append_nil] at h
  exact h

/-- Writes of integers are done up to the first that the type does not have. -/
theorem perform_of_not_contains {ws : List Write} {es : List (Nat × Int)} {k : Nat}
    (hws : List.Forall₂ (Stores r t) ws es) (hb : m.buffer? r = some b)
    (hin : ∀ e ∈ es, e.1 < b.lengthAs (.int t)) (hk : es[k]? = some (i, x))
    (hx : t.contains x = false) (hfit : ∀ e ∈ es.take k, t.contains e.2 = true) :
    m.perform ws = (m.setBuffer r (b.setInts t (es.take k)), .error (misfit t x)) := by
  have hlt : k < es.length := (List.getElem?_eq_some_iff.mp hk).1
  have hlt' : k < ws.length := hws.length_eq ▸ hlt
  have hw : Stores r t ws[k] (i, x) := by
    have hget := hws.get hlt' hlt
    rwa [List.get_eq_getElem, List.get_eq_getElem, (List.getElem?_eq_some_iff.mp hk).2] at hget
  have hin' : ∀ e ∈ es.take k, e.1 < b.lengthAs (.int t) :=
    fun e he => hin e (List.mem_of_mem_take he)
  have hi : i < b.lengthAs (.int t) := hin _ (List.mem_of_getElem? hk)
  have hbuffer : (m.setBuffer r (b.setInts t (es.take k))).buffer? r = some _ :=
    buffer?_setBuffer hb
  have hi' : i < (b.setInts t (es.take k)).lengthAs (.int t) := by
    rwa [Buffer.lengthAs_of_shape (b.shape_setInts t _)]
  have hwrite := write_of_not_contains hbuffer hi' hw.holds hx
  -- the writes before the one that fails are done, those after it are not reached
  rw [← List.take_append_drop k ws, List.drop_eq_getElem_cons hlt',
    perform_append (List.forall₂_take k hws) hb hin' hfit, perform, hw.address, hw.view]
  simp only [hwrite]

end Memory

end Lockstep
