import Lockstep.Proofs.Memory.Extends
import Lockstep.Proofs.Run.Entries
import Lockstep.Proofs.Run.Reach
import Lockstep.Proofs.Step.Failure

/-!
# Buffer handles

Buffers are numbered by how often a definition has executed, not by where the
definition stands: one in a loop defines a new buffer on every pass. The table,
the count of bound buffers and the list of allocated ones keep in step over any
run, so a handle always stands for a buffer, and no two executions share one.
-/

namespace Lockstep

/-! ## Executed instructions -/

def Program.kindAt? (p : Program) (q : Nat) : Option Kind := (p.get? q).map Uop.kind

/-- How many of the instructions executed at these positions are of a kind. -/
def Program.executions (p : Program) (k : Kind) (qs : List Nat) : Nat :=
  qs.countP fun q => p.kindAt? q = some k

/-- The buffer that an instruction defines when it executes after those at these
positions, if it defines one. -/
def Program.target? (p : Program) (qs : List Nat) (q : Nat) : Option BufferRef :=
  match p.kindAt? q with
  | some .defineGlobal => some (.global (p.executions .defineGlobal qs))
  | some .defineLocal => some (.scratch (p.executions .defineLocal qs))
  | _ => none

/-- A run from the first context arrives at the second by executing the
instructions at these positions, in order. -/
inductive Executes (p : Program) (c₀ : Context) : List Nat → Context → Prop where
  | start : Executes p c₀ [] c₀
  | step {qs : List Nat} {c d : Context} (h : Executes p c₀ qs c) (hs : Steps p c d) :
      Executes p c₀ (qs ++ [c.pc]) d

variable {p : Program} {c c' d c₀ : Context} {qs : List Nat}

theorem Program.executions_append (p : Program) (k : Kind) (qs qs' : List Nat) :
    p.executions k (qs ++ qs') = p.executions k qs + p.executions k qs' :=
  List.countP_append

theorem Program.executions_succ {k : Kind} {q : Nat} (h : p.kindAt? q = some k) :
    p.executions k (qs ++ [q]) = p.executions k qs + 1 := by
  rw [executions_append]
  simp [executions, h]

theorem Program.executions_of_ne {k : Kind} {q : Nat} (h : p.kindAt? q ≠ some k) :
    p.executions k (qs ++ [q]) = p.executions k qs := by
  rw [executions_append]
  simp [executions, h]

theorem Program.kindAt?_of_get? {u : Uop} {q : Nat} (h : p.get? q = some u) :
    p.kindAt? q = some u.kind := by
  rw [kindAt?, h]
  rfl

/-- A run that is cut off has executed the instructions at which it was before. -/
theorem executes_of_unfinished {n : Nat} (h : (run p n c).2 = .unfinished) :
    Executes p c ((List.range n).map fun i => (run p i c).1.pc) (run p n c).1 := by
  induction n with
  | zero => exact .start
  | succ n ih =>
    obtain ⟨hn, hs⟩ := steps_of_unfinished h
    rw [List.range_succ, List.map_append]
    exact .step (ih hn) hs

/-- An execution that comes later defines another buffer. -/
theorem Program.target?_ne {before after : List Nat} {q q' : Nat} {r r' : BufferRef}
    (hr : p.target? before q = some r) (hr' : p.target? (before ++ q :: after) q' = some r') :
    r ≠ r' := by
  have hcount : ∀ k, p.executions k (before ++ q :: after) =
      p.executions k (before ++ [q]) + p.executions k after := by
    intro k
    rw [← executions_append, List.append_assoc, List.singleton_append]
  rintro rfl
  unfold target? at hr hr'
  split at hr
  · rename_i hk
    rw [← Option.some.inj hr] at hr'
    split at hr'
    · simp [hcount, executions_succ hk] at hr'
      omega
    · cases hr'
    · cases hr'
  · rename_i hk
    rw [← Option.some.inj hr] at hr'
    split at hr'
    · cases hr'
    · simp [hcount, executions_succ hk] at hr'
      omega
    · cases hr'
  · cases hr

/-! ## Valid handles -/

/-- A handle is one view on all lanes, and the view stands for a buffer. -/
def LaneValues.Sees (w : Warp) (m : Memory) : LaneValues → Prop
  | buffer vs => ∃ v, vs = w.splat v ∧ m.Holds v
  | _ => True

theorem LaneValues.Sees.mono {w : Warp} {m m' : Memory} {v : LaneValues} (h : v.Sees w m)
    (he : m.Extends m') : v.Sees w m' := by
  cases v with
  | buffer vs =>
    obtain ⟨view, hvs, hholds⟩ := h
    exact ⟨view, hvs, hholds.mono he⟩
  | _ => trivial

/-- A value that is no handle sees whatever there is. -/
theorem LaneValues.sees_of_buffer? {w : Warp} {m : Memory} {v : LaneValues}
    (h : v.buffer? = none) : v.Sees w m := by
  cases v with
  | buffer vs => cases h
  | _ => trivial

/-- The views of a handle all stand for buffers. -/
theorem LaneValues.Sees.holds {w : Warp} {m : Memory} {v : LaneValues} {vs : List View}
    (h : v.Sees w m) (hvs : v.buffer? = some vs) : ∀ view ∈ vs, m.Holds view := by
  cases v with
  | buffer vs' =>
    cases hvs
    obtain ⟨view, rfl, hholds⟩ := h
    intro view' hmem
    rw [List.eq_of_mem_replicate hmem]
    exact hholds
  | scalar l => cases hvs
  | vector es => cases hvs

/-- Table, binding count and allocated buffers are in step after a run that
executed the instructions at these positions. -/
structure Context.InStep (p : Program) (buffers : List Buffer) (qs : List Nat) (c : Context) :
    Prop where
  globals : shapes c.memory.globals = shapes buffers
  bound : c.memory.bound = p.executions .defineGlobal qs
  bound_le : c.memory.bound ≤ buffers.length
  scratch : c.memory.scratch.length = p.executions .defineLocal qs
  entries : c.Entries (LaneValues.Sees c.warp c.memory)

/-! ## Computations make no handles -/

theorem buffer?_of_cast {pc : Nat} {t : DType} {ops : List Operand} {v : LaneValues}
    (h : cast pc t ops = .ok v) : v.buffer? = none := by
  cases casts_of_cast h <;> rfl

theorem buffer?_of_load {m : Memory} {t : DType} {ops : List Operand} {v : LaneValues}
    (h : load m t ops = .ok v) : v.buffer? = none := by
  cases loads_of_load h <;> rfl

theorem buffer?_of_pick {pc : Nat} {arg : Arg} {ops : List Operand} {v : LaneValues}
    (h : pick pc arg ops = .ok v) : v.buffer? = none := by
  obtain ⟨k, l, -, -, rfl⟩ := element_of_pick h
  rfl

theorem buffer?_of_multiplyAccumulate {pc : Nat} {t : DType} {arg : Arg} {ops : List Operand}
    {v : LaneValues} (h : multiplyAccumulate pc t arg ops = .ok v) : v.buffer? = none := by
  obtain ⟨tag, core, a, b, c, es, -, -, -, -, -, -, rfl⟩ := core_of_multiplyAccumulate h
  rfl

theorem buffer?_of_arithmetic {pc : Nat} {t : DType} {arg : Arg} {ops : List Operand}
    {v : LaneValues} (h : arithmetic pc t arg ops = .ok v) : v.buffer? = none := by
  obtain ⟨op, rows, l, -, -, -, rfl⟩ := rows_of_arithmetic h
  rfl

/-! ## Steps -/

section

variable {buffers : List Buffer}

theorem inStep_start (point : Point) (warp : Warp) (launchValues : List Value) :
    (Context.start point warp buffers launchValues).InStep p buffers [] :=
  ⟨rfl, rfl, Nat.zero_le _, rfl, Context.entries_start _ _ _ _⟩

/-- A context whose memory has the same counts stays in step under an instruction
that defines no buffer. -/
theorem Context.InStep.keep (h : c.InStep p buffers qs) (hwarp : d.warp = c.warp)
    (hmem : c.memory.Extends d.memory) (hbound : d.memory.bound = c.memory.bound)
    (hscratch : d.memory.scratch.length = c.memory.scratch.length)
    (hg : p.kindAt? c.pc ≠ some .defineGlobal) (hl : p.kindAt? c.pc ≠ some .defineLocal)
    (he : d.Entries (LaneValues.Sees c.warp d.memory)) :
    d.InStep p buffers (qs ++ [c.pc]) := by
  refine ⟨hmem.globals.trans h.globals, ?_, ?_, ?_, ?_⟩
  · rw [hbound, Program.executions_of_ne hg, h.bound]
  · rw [hbound]
    exact h.bound_le
  · rw [hscratch, Program.executions_of_ne hl, h.scratch]
  · rw [hwarp]
    exact he

/-- Whatever an instruction other than a definition leaves keeps in step if its
entries see the memory as it was. -/
theorem Context.InStep.keep_memory (h : c.InStep p buffers qs) (hwarp : d.warp = c.warp)
    (hmem : d.memory = c.memory) (hg : p.kindAt? c.pc ≠ some .defineGlobal)
    (hl : p.kindAt? c.pc ≠ some .defineLocal)
    (he : d.Entries (LaneValues.Sees c.warp c.memory)) :
    d.InStep p buffers (qs ++ [c.pc]) := by
  apply h.keep hwarp _ _ _ hg hl
  · rw [hmem]
    exact he
  · rw [hmem]
    exact .refl _
  · rw [hmem]
  · rw [hmem]

/-- The next buffer of the caller is there, is bound, and counts as one more. -/
theorem Context.InStep.define_global (h : c.InStep p buffers qs) {t : ScalarType} {view : View}
    {m : Memory} (hk : p.kindAt? c.pc = some .defineGlobal)
    (hb : c.memory.bind? t = some (.ok view, m)) (hd : d.memory = m) (hwarp : d.warp = c.warp)
    (hv : d.values = c.values.insert c.pc (.buffer (c.warp.splat view))) :
    d.InStep p buffers (qs ++ [c.pc]) := by
  obtain ⟨rfl, rfl, b, hb, hsize⟩ := Memory.bind?_eq_some hb
  have hlt : c.memory.bound < buffers.length := by
    have hlen : c.memory.globals.length = buffers.length := by
      simpa [shapes] using congrArg List.length h.globals
    rw [← hlen]
    exact (List.getElem?_eq_some_iff.mp hb).1
  have hext : c.memory.Extends d.memory := by
    rw [hd]
    exact ⟨Nat.le_succ _, rfl, List.prefix_refl _⟩
  refine ⟨?_, ?_, ?_, ?_, ?_⟩
  · rw [hd]
    exact h.globals
  · rw [hd, Program.executions_succ hk, ← h.bound]
  · rw [hd]
    exact hlt
  · rw [hd, Program.executions_of_ne (by rw [hk]; simp), ← h.scratch]
  · rw [hwarp]
    intro q v hq
    rw [hv] at hq
    by_cases he : q = c.pc
    · subst he
      rw [Table.get?_insert_self] at hq
      cases hq
      refine ⟨_, rfl, ?_⟩
      rw [hd]
      exact ⟨Nat.lt_succ_self _, b, hb, hsize⟩
    · rw [Table.get?_insert_of_ne _ he] at hq
      exact (h.entries q v hq).mono hext

/-- A new buffer has the next number and the format of its handle. -/
theorem Context.InStep.define_local (h : c.InStep p buffers qs) {t : ScalarType} {size : Nat}
    (hk : p.kindAt? c.pc = some .defineLocal) (hd : d.memory = (c.memory.allocate t size).2)
    (hwarp : d.warp = c.warp) (hv : d.values =
      c.values.insert c.pc (.buffer (c.warp.splat (c.memory.allocate t size).1))) :
    d.InStep p buffers (qs ++ [c.pc]) := by
  have hext : c.memory.Extends d.memory := by
    rw [hd]
    exact Memory.extends_allocate _ _ _
  rw [Memory.allocate_eq] at hd hv
  refine ⟨?_, ?_, ?_, ?_, ?_⟩
  · rw [hd]
    exact h.globals
  · rw [hd, Program.executions_of_ne (by rw [hk]; simp), ← h.bound]
  · rw [hd]
    exact h.bound_le
  · rw [hd, Program.executions_succ hk, ← h.scratch]
    simp
  · rw [hwarp]
    intro q v hq
    rw [hv] at hq
    by_cases he : q = c.pc
    · subst he
      rw [Table.get?_insert_self] at hq
      cases hq
      refine ⟨_, rfl, ?_⟩
      rw [hd]
      exact ⟨.zeros t size, by simp, rfl⟩
    · rw [Table.get?_insert_of_ne _ he] at hq
      exact (h.entries q v hq).mono hext

theorem Makes.inStep (h : c.InStep p buffers qs) {u : Uop} {t : DType} {ops : List Operand}
    (hu : p.get? c.pc = some u) (hops : OperandsAre (LaneValues.Sees c.warp c.memory) ops)
    (hm : Makes p u t (c.counted.declared t) ops d) : d.InStep p buffers (qs ++ [c.pc]) := by
  have hkind := Program.kindAt?_of_get? hu
  have hother : ∀ {k : Kind}, u.kind ≠ k → p.kindAt? c.pc ≠ some k := by
    intro k hne
    rw [hkind]
    simpa using hne
  -- all kinds but the two definitions leave the memory as it is
  have hkeep : ∀ {v : LaneValues}, u.kind ≠ .defineGlobal → u.kind ≠ .defineLocal →
      v.Sees c.warp c.memory → ((c.counted.declared t).define v).InStep p buffers (qs ++ [c.pc]) := by
    intro v hg hl hv
    refine h.keep_memory rfl rfl (hother hg) (hother hl) ?_
    exact Context.Entries.define (c := c.counted.declared t) h.entries hv
  cases hm with
  | global hk ht hb =>
    rw [hk] at hkind
    exact h.define_global hkind hb rfl rfl rfl
  | scratch hk ht ha =>
    rw [hk] at hkind
    exact h.define_local hkind rfl rfl rfl
  | launchValue hk hv hw =>
    refine h.keep_memory rfl rfl (hother (by simp [hk])) (hother (by simp [hk])) ?_
    exact Context.Entries.define (c := c.counted.declared t) h.entries (v := .scalar _) trivial
  | coordinate hk ha hn hl => exact hkeep (by simp [hk]) (by simp [hk]) trivial
  | nameless hk hc =>
    exact h.keep_memory rfl rfl (hother (by simp [hk])) (hother (by simp [hk])) h.entries
  | literal hk ha hv =>
    refine hkeep ?_ ?_ (LaneValues.sees_of_buffer? ?_)
    · rcases hk with hk | hk <;> simp [hk]
    · rcases hk with hk | hk <;> simp [hk]
    · split <;> rfl
  | cast hk hv =>
    exact hkeep (by simp [hk]) (by simp [hk]) (LaneValues.sees_of_buffer? (buffer?_of_cast hv))
  | load hk hv =>
    exact hkeep (by simp [hk]) (by simp [hk]) (LaneValues.sees_of_buffer? (buffer?_of_load hv))
  | carry hk hs ho =>
    have hsees := hops _ (List.mem_of_getElem? (Operand.require_eq_ok.mp ho))
    refine h.keep_memory rfl rfl (hother (by simp [hk])) (hother (by simp [hk])) ?_
    exact (Context.Entries.insert (c := c.counted.declared t) h.entries hsees).insert hsees
  | pick hk hv =>
    exact hkeep (by simp [hk]) (by simp [hk]) (LaneValues.sees_of_buffer? (buffer?_of_pick hv))
  | wmma hk hv =>
    exact hkeep (by simp [hk]) (by simp [hk])
      (LaneValues.sees_of_buffer? (buffer?_of_multiplyAccumulate hv))
  | alu hk hv =>
    exact hkeep (by simp [hk]) (by simp [hk])
      (LaneValues.sees_of_buffer? (buffer?_of_arithmetic hv))

/-- Every step that does not fail keeps the context in step; one past the end
executes nothing. -/
theorem Fires.inStep {k : Control} (h : c.InStep p buffers qs) (hf : Fires p c d k)
    (hne : k ≠ .halt) : d.InStep p buffers (qs ++ [c.pc]) := by
  cases hf with
  | halt hu => exact absurd rfl hne
  | close hu hk hs =>
    have hkind := Program.kindAt?_of_get? hu
    rw [hk] at hkind
    exact h.keep_memory rfl rfl (by simp [hkind]) (by simp [hkind]) h.entries
  | @mark u hu hk =>
    have hkind := Program.kindAt?_of_get? hu
    have hmarker : u.kind ≠ .defineGlobal ∧ u.kind ≠ .defineLocal := by
      constructor <;> intro he <;> simp [he, Kind.isMarker] at hk
    refine h.keep_memory rfl rfl ?_ ?_ h.entries
    · simpa [hkind] using hmarker.1
    · simpa [hkind] using hmarker.2
  | @store u ops ws m hu hk hg hw hm =>
    have hkind := Program.kindAt?_of_get? hu
    rw [hk] at hkind
    obtain ⟨hext, hbound, hscratch⟩ := Memory.perform_keeps ws c.memory
    rw [hm] at hext hbound hscratch
    refine h.keep rfl hext hbound hscratch (by simp [hkind]) (by simp [hkind]) ?_
    exact h.entries.mono fun v hv => hv.mono hext
  | produce hu hk hd hg hp =>
    exact (makes_of_produce hk hp).inStep h hu (h.entries.operands hg)
  | @enter u t ops v w hu hk hd hg hn hv hw =>
    have hkind := Program.kindAt?_of_get? hu
    rw [hk] at hkind
    refine h.keep_memory rfl rfl (by simp [hkind]) (by simp [hkind]) ?_
    exact Context.Entries.define (c := c.counted.declared t) h.entries (v := .scalar _) trivial
  | @again u t ops counter next stop hu hk hd hg hn hi hv hr =>
    have hkind := Program.kindAt?_of_get? hu
    rw [hk] at hkind
    refine h.keep_memory rfl rfl (by simp [hkind]) (by simp [hkind]) ?_
    exact Context.Entries.define (c := c.counted.declared t) h.entries (v := .scalar _) trivial
  | @leave u t ops counter next stop e hu hk hd hg hn hi hv hr he =>
    have hkind := Program.kindAt?_of_get? hu
    rw [hk] at hkind
    refine h.keep_memory rfl rfl (by simp [hkind]) (by simp [hkind]) ?_
    exact Context.Entries.erase (c := c.counted.declared t) h.entries c.pc

theorem Context.InStep.follow (h : c.InStep p buffers qs) (k : Control) :
    (c.follow k).InStep p buffers qs := by
  obtain ⟨hg, hb, hle, hs, he⟩ := h
  cases k <;> exact ⟨hg, hb, hle, hs, he⟩

theorem Steps.inStep (h : c.InStep p buffers qs) (hs : Steps p c d) :
    d.InStep p buffers (qs ++ [c.pc]) := by
  obtain ⟨c', k, hs, hne, rfl⟩ := hs
  exact ((fires_of_step hs).inStep h hne).follow k

/-- Wherever a run arrives, its context is in step with what it executed. -/
theorem Executes.inStep (h₀ : c₀.InStep p buffers []) (h : Executes p c₀ qs c) :
    c.InStep p buffers qs := by
  induction h with
  | start => exact h₀
  | step h hs ih => exact hs.inStep ih

/-- A step that fails loses no buffer and makes no handle. -/
theorem Breaks.inStep {f : Fault} (h : c.InStep p buffers qs) (hb : Breaks p c c' f) :
    c'.InStep p buffers qs := by
  obtain ⟨hglobals, hbound, hle, hscratch, hentries⟩ := h
  cases hb with
  | @write u ops ws m f hu hk hg hw hm =>
    obtain ⟨hext, hb, hs⟩ := Memory.perform_keeps ws c.memory
    rw [hm] at hext hb hs
    refine ⟨hext.globals.trans hglobals, hb.trans hbound, ?_, hs.trans hscratch, ?_⟩
    · rw [hb]
      exact hle
    · exact hentries.mono fun v hv => hv.mono hext
  | @unrecorded u t ops counter next stop hu hk hd hg hn ha hr he =>
    exact ⟨hglobals, hbound, hle, hscratch,
      Context.Entries.erase (c := c.counted.declared t) hentries c.pc⟩
  | _ => exact ⟨hglobals, hbound, hle, hscratch, hentries⟩

/-! ## No handle is unbound -/

/-- The fault is about a handle that stands for no buffer. -/
def Fault.isUnbound : Fault → Bool
  | .invalidOperands _ (.unbound _) => true
  | _ => false

theorem Fault.isUnbound_of_isData {f : Fault} (h : f.isData = true) : f.isUnbound = false := by
  unfold isUnbound
  split
  · cases h
  · rfl

/-- An access through views that stand for buffers does not miss one. -/
theorem Memory.not_misses {m : Memory} {views : List View} {f : Fault}
    (h : ∀ v ∈ views, m.Holds v) : ¬ m.Misses views f := by
  rintro ⟨v, hv, hnone, -⟩
  exact (h v hv).buffer? hnone

theorem Refuses.isUnbound {w : Warp} {u : Uop} {ops : List Operand} {f : Fault}
    (hops : OperandsAre (LaneValues.Sees w c.memory) ops) (h : Refuses p u c ops f) :
    f.isUnbound = false := by
  cases h with
  | data hf => exact Fault.isUnbound_of_isData hf
  | unbound hk ho hv hf =>
    subst ho
    have hsees := hops _ List.mem_cons_self
    exact absurd hf (Memory.not_misses (hsees.holds hv))
  | _ => rfl

theorem Loop.MissesBound.isUnbound {pc i : Nat} {ops : List Operand} {f : Fault}
    (h : MissesBound pc ops i f) : f.isUnbound = false := by
  rcases h with h | ⟨-, rfl⟩ | rfl
  · exact Fault.isUnbound_of_isData h
  · rfl
  · rfl

/-- No step misses a buffer where every handle stands for one. -/
theorem Breaks.isUnbound {f : Fault} (h : c.InStep p buffers qs) (hb : Breaks p c c' f) :
    f.isUnbound = false := by
  cases hb with
  | unread hu hk hm hg =>
    obtain ⟨s, -, rfl | rfl⟩ := gather_raises f hg
    · rfl
    · rfl
  | store hu hk hg hw =>
    rcases storeWrites_raises _ _ f hw with h | ⟨-, rfl | rfl⟩
    · exact Fault.isUnbound_of_isData h
    · rfl
    · rfl
  | @write u ops ws m f hu hk hg hw hm =>
    rcases perform_storeWrites_raises hw c.memory f (by rw [hm]) with hf | hf
    · exact Fault.isUnbound_of_isData hf
    · refine absurd hf (Memory.not_misses ?_)
      intro v hv
      obtain ⟨w, hmem, rfl⟩ := List.mem_map.mp hv
      obtain ⟨o, r, views, rfl, hvalues, hview⟩ := view_mem_of_storeWrites hw hmem
      have hsees := h.entries.operands hg o List.mem_cons_self
      exact hsees.holds (by rw [hvalues]; rfl) w.view hview
  | @produce u t ops f hu hk hd hg hp =>
    exact Refuses.isUnbound (c := c.counted.declared t) (h.entries.operands hg)
      (refuses_of_produce hp)
  | enter hu hk hd hg hn he => exact (Loop.enter_raises f he).isUnbound
  | advance hu hk hd hg hn ha => exact (Loop.advance_raises f ha).isUnbound
  | _ => rfl

/-! ## Handles along a run -/

/-- The view stands for a buffer defined by one of the instructions at these
positions: a buffer of the caller whose bytes are a whole number of its elements,
or an allocated one of its own format. -/
def View.Valid (p : Program) (buffers : List Buffer) (qs : List Nat) (m : Memory) (v : View) :
    Prop :=
  match v.buffer with
  | .global i => i < p.executions .defineGlobal qs ∧ i < buffers.length ∧
      ∃ b, m.globals[i]? = some b ∧ v.format.size ∣ b.size
  | .scratch i => i < p.executions .defineLocal qs ∧
      ∃ b, m.scratch[i]? = some b ∧ b.format = v.format

/-- Every handle of the context is one valid view on all lanes. -/
structure Context.HandlesValid (p : Program) (buffers : List Buffer) (qs : List Nat)
    (c : Context) : Prop where
  shapes : shapes c.memory.globals = shapes buffers
  bound : c.memory.bound = p.executions .defineGlobal qs
  scratch : c.memory.scratch.length = p.executions .defineLocal qs
  handles : ∀ q vs, c.values.get? q = some (.buffer vs) →
    ∃ v : View, vs = c.warp.splat v ∧ v.Valid p buffers qs c.memory

theorem Context.InStep.handlesValid (h : c.InStep p buffers qs) : c.HandlesValid p buffers qs := by
  refine ⟨h.globals, h.bound, h.scratch, ?_⟩
  intro q vs hq
  obtain ⟨⟨r, t⟩, hvs, hholds⟩ := h.entries q _ hq
  refine ⟨⟨r, t⟩, hvs, ?_⟩
  cases r with
  | global i =>
    obtain ⟨hi, b, hb, hsize⟩ := hholds
    refine ⟨?_, Nat.lt_of_lt_of_le hi h.bound_le, b, hb, hsize⟩
    rwa [h.bound] at hi
  | scratch i =>
    obtain ⟨b, hb, hformat⟩ := hholds
    refine ⟨?_, b, hb, hformat⟩
    rw [← h.scratch]
    exact (List.getElem?_eq_some_iff.mp hb).1

/-- The step executes the definition of a buffer and leaves the handle of it, with
the declared format. A buffer of its own is new and all zero; the buffers of the
caller stay as they are. -/
structure DefinesBuffer (p : Program) (c d : Context) (r : BufferRef) (t : ScalarType) :
    Prop where
  declared : ∃ u ty, p.get? c.pc = some u ∧ u.dtype = some ty ∧ ty.format? = some t
  handle : d.values.get? c.pc = some (.buffer (c.warp.splat ⟨r, t⟩))
  globals : d.memory.globals = c.memory.globals
  zeroed : ∀ n, r = .scratch n → n = c.memory.scratch.length ∧ ∃ u name size b,
    p.get? c.pc = some u ∧ u.arg = .buffer name size ∧
      d.memory.scratch = c.memory.scratch ++ [b] ∧
      b.format = t ∧ b.size = size * t.size ∧ ∀ byte ∈ b.bytes, byte = 0

theorem Buffer.size_zeros (t : ScalarType) (length : Nat) :
    (zeros t length).size = length * t.size := by
  simp [zeros, size]

theorem Buffer.eq_zero_of_mem_zeros {t : ScalarType} {length : Nat} {byte : UInt8}
    (h : byte ∈ (zeros t length).bytes) : byte = 0 := by
  simp only [zeros, Array.mem_replicate] at h
  exact h.2

theorem bufferFormat_eq_ok {pc : Nat} {ty : DType} {t : ScalarType} :
    bufferFormat pc ty = .ok t ↔ ty.format? = some t := by
  unfold bufferFormat
  cases ty.format? <;> simp

/-- A definition that executes defines the buffer whose turn it is. -/
theorem Steps.definesBuffer (h : c.InStep p buffers qs) (hs : Steps p c d) {r : BufferRef}
    (hr : p.target? qs c.pc = some r) : ∃ t, DefinesBuffer p c d r t := by
  obtain ⟨u, hu⟩ : ∃ u, p.get? c.pc = some u := by
    cases hu : p.get? c.pc with
    | none => simp [Program.target?, Program.kindAt?, hu] at hr
    | some u => exact ⟨u, rfl⟩
  have hkind := Program.kindAt?_of_get? hu
  have hcases : u.kind = .defineGlobal ∧ r = .global c.memory.bound ∨
      u.kind = .defineLocal ∧ r = .scratch c.memory.scratch.length := by
    rw [h.bound, h.scratch]
    rw [Program.target?, hkind] at hr
    cases hk : u.kind with
    | defineGlobal =>
      rw [hk] at hr
      exact .inl ⟨rfl, (Option.some.inj hr).symm⟩
    | defineLocal =>
      rw [hk] at hr
      exact .inr ⟨rfl, (Option.some.inj hr).symm⟩
    | _ =>
      rw [hk] at hr
      cases hr
  have hprod : u.kind.isProducer = true := by
    rcases hcases with ⟨hk, -⟩ | ⟨hk, -⟩ <;> simp [hk, Kind.isProducer, Kind.isVoid]
  obtain ⟨ty, ops, d', hty, -, hmakes, rfl⟩ := hs.makes hu hprod
  rcases hcases with ⟨hk, rfl⟩ | ⟨hk, rfl⟩
  · cases hmakes with
    | @global t view m hk' ht hb =>
      obtain ⟨rfl, rfl, -⟩ := Memory.bind?_eq_some hb
      refine ⟨t, ⟨u, ty, hu, hty, bufferFormat_eq_ok.mp ht⟩, ?_, rfl, ?_⟩
      · rw [Context.follow_values, Context.define_values]
        exact Table.get?_insert_self _ _ _
      · intro n hn
        cases hn
    | literal hk' => rcases hk' with hk' | hk' <;> simp [hk] at hk'
    | _ => simp_all
  · cases hmakes with
    | @scratch t name size hk' ht ha =>
      refine ⟨t, ⟨u, ty, hu, hty, bufferFormat_eq_ok.mp ht⟩, ?_, rfl, ?_⟩
      · rw [Context.follow_values, Context.define_values]
        exact Table.get?_insert_self _ _ _
      · intro n hn
        cases hn
        exact ⟨rfl, u, name, size, .zeros t size, hu, ha, rfl, rfl, Buffer.size_zeros t size,
          fun _ => Buffer.eq_zero_of_mem_zeros⟩
    | literal hk' => rcases hk' with hk' | hk' <;> simp [hk] at hk'
    | _ => simp_all

end

/-- Two rounds, with a new buffer in each. -/
def Program.scratchRounds : Program where
  uops :=
    [⟨.const, some (.scalar (.int .int32)), [], .literal (.int 0)⟩,
     ⟨.const, some (.scalar (.int .int32)), [], .literal (.int 2)⟩,
     ⟨.loop, some (.scalar (.int .int32)), [0, 1], .none⟩,
     ⟨.defineLocal, some (.scalar (.int .int8)), [], .buffer "t" 3⟩,
     ⟨.endLoop, none, [2], .none⟩]

end Lockstep
