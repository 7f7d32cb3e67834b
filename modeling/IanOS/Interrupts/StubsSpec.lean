import IanOS.Lib.Word
import IanOS.Interrupts.Stubs

/-!
# What the interrupt stubs do to the interrupted program

The stubs are followed symbolically: `Sees s sp g sv ws` says that the stack pointer of `s` is `sp`,
its registers are `g`, its spill tables `sv`, and the words `ws` lie on its stack.  Every
instruction has one lemma that computes the new view, and a run through a stub is a chain of them.

For an interrupt from user mode everything comes back as it was.  For one from kernel mode the
stubs compute the interrupted stack pointer as if the processor had pushed three words; in 64-bit
mode it always pushes five, and aligns the stack before it does, so the stack pointer that `iretq`
restores lies sixteen bytes below the aligned one.
-/

namespace IanOS

open WordStack Registers List Function

/-- The value a spill table receives. -/
def SpillTable.read (g : Registers) : SpillTable → Word64
  | .rax => g.rax
  | .rbx => g.rbx
  | .rcx => g.rcx
  | .rdx => g.rdx
  | .rsi => g.rsi
  | .rdi => g.rdi
  | .r10 => g.r10
  | .r11 => g.r11

/-- This processor's byte offset into the spill tables. -/
def Platform.index (p : Platform) : Word64 := ((p.lapicId.setWidth 64 >>> 24) &&& 31#64) <<< 3

namespace Cpu

variable {s : Cpu} {p : Platform} {sp : Word64} {g : Registers}
  {sv : SpillTable → Word64 → Word64} {ws : List Word64}
  {rip cs rflags rsp ss : Word64} {g₀ g' : Registers} {rest : List Word64}
  {dispatch : Cpu → Cpu} {vector : ℕ} {kind : StubKind}

/-! ## Views -/

/-- The view of a state that the stubs' behaviour depends on. -/
structure Sees (s : Cpu) (sp : Word64) (g : Registers) (sv : SpillTable → Word64 → Word64)
    (ws : List Word64) : Prop where
  rsp_eq : s.rsp = sp
  gpr_eq : s.gpr = g
  saved_eq : s.saved = sv
  stack : StackAt s.mem s.rsp ws

section

variable (h : Sees s sp g sv ws)
include h

lemma Sees.push (v : Word64) (hlen : ws.length < 2 ^ 60) :
    Sees (s.push v) (sp - 8) g sv (v :: ws) :=
  ⟨by rw [← h.rsp_eq]; rfl, h.gpr_eq, h.saved_eq, h.stack.push hlen v⟩

lemma Sees.pushReg (r : Registers → Word64) (hlen : ws.length < 2 ^ 60) :
    Sees (s.push (r s.gpr)) (sp - 8) g sv (r g :: ws) := by
  rw [h.gpr_eq]
  exact h.push _ hlen

lemma Sees.setGpr (f : Registers → Registers) :
    Sees (s.setGpr f) sp (f g) sv ws :=
  ⟨h.rsp_eq, by rw [← h.gpr_eq]; rfl, h.saved_eq, h.stack⟩

lemma Sees.word {i : ℕ} (hi : i < ws.length) :
    s.word (8 * i) = ws[i] :=
  h.stack.load hi

lemma Sees.load (put : Word64 → Registers → Registers) (i : ℕ)
    (hi : i < ws.length) : Sees (s.load (8 * i) put) sp (put ws[i] g) sv ws := by
  rw [Cpu.load, h.word hi]
  exact h.setGpr _

lemma Sees.addRsp (n : ℕ) (hn : n ≤ ws.length) :
    Sees (s.addRsp (8 * n)) (slot sp n) g sv (ws.drop n) :=
  ⟨by rw [← h.rsp_eq]; rfl, h.gpr_eq, h.saved_eq, h.stack.drop n hn⟩

end

lemma Sees.pop {w : Word64} (h : Sees s sp g sv (w :: ws))
    (put : Word64 → Registers → Registers) : Sees (s.pop put) (sp + 8) (put w g) sv ws :=
  (h.load put 0 (by simp)).addRsp 1 (by simp)

lemma Sees.spill (h : Sees s sp g sv ws) (p : Platform) (t : SpillTable) :
    Sees (s.spill p t) sp (g.setRdx (p.table t)) (update sv t (update (sv t) g.rbx g.rax)) ws := by
  refine ⟨h.rsp_eq, by rw [← h.gpr_eq]; rfl, ?_, h.stack⟩
  rw [← h.gpr_eq, ← h.saved_eq]
  rfl

lemma Sees.restoreSaved (h : Sees s sp g sv ws) (p : Platform) (t : SpillTable) (i : ℕ)
    (hi : i < ws.length) (hlen : ws.length < 2 ^ 60) :
    Sees (s.restoreSaved p t (8 * i)) sp ((g.setRdx (p.table t)).setRax (sv t g.rbx)) sv
      (ws.set i (sv t g.rbx)) := by
  refine ⟨h.rsp_eq, ?_, h.saved_eq, ?_⟩
  · rw [← h.gpr_eq, ← h.saved_eq]
    rfl
  · rw [← h.gpr_eq, ← h.saved_eq]
    exact h.stack.store hi hlen _

lemma Sees.loadScratchIndex (h : Sees s sp g sv ws) (p : Platform) :
    Sees (s.loadScratchIndex p) sp
      ((g.setRdx 0xffff800000100020#64).setRbx p.index) sv ws :=
  (((((h.setGpr _).setGpr _).setGpr _).setGpr _).setGpr _)

/-! ## Spilling -/

/-- The tables after the registers `g` were spilled. -/
def spilled (p : Platform) (g : Registers) (sv : SpillTable → Word64 → Word64) :
    SpillTable → Word64 → Word64 :=
  fun t => update (sv t) p.index (t.read g)

/-- `SAVE_SCRATCH` fills the tables and leaves everything else as it was. -/
lemma Sees.saveScratch (h : Sees s sp g sv ws) (hlen : ws.length < 2 ^ 50) (p : Platform) :
    Sees (s.saveScratch p) sp g (spilled p g sv) ws := by
  have hpush := ((h.pushReg rax (by omega)).pushReg rbx (by rw [length_cons]; omega)).pushReg rdx
    (by rw [length_cons, length_cons]; omega)
  have h1 := hpush.loadScratchIndex p
  have h2 := ((h1.load setRax 2 (by simp)).spill p .rax)
  have h3 := ((h2.load setRax 1 (by simp)).spill p .rbx)
  have h4 := ((h3.setGpr fun g => g.setRax g.rcx).spill p .rcx)
  have h5 := ((h4.load setRax 0 (by simp)).spill p .rdx)
  have h6 := ((h5.setGpr fun g => g.setRax g.rsi).spill p .rsi)
  have h7 := ((h6.setGpr fun g => g.setRax g.rdi).spill p .rdi)
  have h8 := ((h7.setGpr fun g => g.setRax g.r10).spill p .r10)
  have h9 := ((h8.setGpr fun g => g.setRax g.r11).spill p .r11)
  have hpop := ((h9.pop setRdx).pop setRbx).pop setRax
  refine ⟨?_, hpop.gpr_eq, ?_, hpop.stack⟩
  · have hsp := hpop.rsp_eq
    rwa [BitVec.sub_add_cancel, BitVec.sub_add_cancel, BitVec.sub_add_cancel] at hsp
  · refine hpop.saved_eq.trans ?_
    funext t
    cases t <;> rfl

/-! ## The rebuilt frame -/

/-- The registers the macros do not touch. -/
structure Untouched (g' g : Registers) : Prop where
  rsi : g'.rsi = g.rsi
  rdi : g'.rdi = g.rdi
  rbp : g'.rbp = g.rbp
  r8 : g'.r8 = g.r8
  r9 : g'.r9 = g.r9
  r12 : g'.r12 = g.r12
  r13 : g'.r13 = g.r13
  r14 : g'.r14 = g.r14
  r15 : g'.r15 = g.r15

/-- The stack pointer and stack segment the macros put into the frame, for an interrupt whose frame
ends at `top`: those of the frame when it comes from user mode, else computed ones. -/
def frameStack (cs rsp ss top : Word64) : Word64 × Word64 :=
  if cs &&& 3#64 ≠ 0 then (rsp, ss) else (top - 16, 0x10#64)

lemma Sees.readFrame {below : List Word64}
    (h : Sees s sp g sv (below ++ [rip, cs, rflags, rsp, ss])) :
    ∃ g' sp' rest, Sees (s.readFrame (8 * below.length)) sp' g' sv rest ∧ rest.length ≤ 2 ∧
      Untouched g' g ∧ g'.r10 = g.r10 ∧ g'.rax = rip ∧ g'.rbx = cs ∧ g'.rcx = rflags ∧
      (g'.rdx, g'.r11) = frameStack cs rsp ss (slot sp (below.length + 5)) := by
  have hrip := h.load setRax below.length (by simp)
  have hcs := hrip.load setRbx (below.length + 1) (by simp)
  have hflags := hcs.load setRcx (below.length + 2) (by simp)
  simp only [getElem_append_right (Nat.le_add_right below.length _),
    getElem_append_right (le_refl below.length), Nat.add_sub_cancel_left, Nat.sub_self] at hflags
  unfold Cpu.readFrame frameStack
  rw [show 8 * below.length + 8 = 8 * (below.length + 1) by ring,
    show 8 * below.length + 16 = 8 * (below.length + 2) by ring]
  dsimp only
  have hbranch : (((s.load (8 * below.length) setRax).load (8 * (below.length + 1))
      setRbx).load (8 * (below.length + 2)) setRcx).gpr.rbx = cs := by
    rw [hflags.gpr_eq]
    rfl
  rw [hbranch]
  split_ifs
  · have hrsp := hflags.load setRdx (below.length + 3) (by simp)
    have hss := hrsp.load setR11 (below.length + 4) (by simp)
    simp only [getElem_append_right (Nat.le_add_right below.length _),
      Nat.add_sub_cancel_left] at hss
    refine ⟨_, _, _, hss.addRsp (below.length + 5) (by simp), by simp, ?_, rfl, rfl, rfl, rfl, rfl⟩
    exact ⟨rfl, rfl, rfl, rfl, rfl, rfl, rfl, rfl, rfl⟩
  rw [hflags.rsp_eq]
  have hstack := (hflags.setGpr fun g => g.setRdx (sp + BitVec.ofNat 64
    (8 * (below.length + 3)))).setGpr fun g => g.setR11 0x10#64
  refine ⟨_, _, _, hstack.addRsp (below.length + 3) (by simp), by simp, ?_, rfl, rfl, rfl, rfl, ?_⟩
  · exact ⟨rfl, rfl, rfl, rfl, rfl, rfl, rfl, rfl, rfl⟩
  -- The computed stack pointer is two words below the end of the frame.
  have hslot : sp + BitVec.ofNat 64 (8 * (below.length + 3)) = slot sp (below.length + 5) - 16 := by
    unfold slot
    rw [show 8 * (below.length + 5) = 8 * (below.length + 3) + 16 by ring, BitVec.ofNat_add,
      ← BitVec.add_assoc]
    exact (BitVec.add_sub_cancel _ _).symm
  exact Prod.ext hslot rfl

lemma Sees.pushFrame (h : Sees s sp g sv ws) (hlen : ws.length ≤ 2) (error vector : Word64) :
    Sees (s.pushFrame error vector) (sp - 8 - 8 - 8 - 8 - 8 - 8 - 8) g sv
      (vector :: error :: g.rax :: g.rbx :: g.rcx :: g.rdx :: g.r11 :: ws) := by
  have h1 := h.pushReg r11 (by omega)
  have h2 := h1.pushReg rdx (by simp only [length_cons]; omega)
  have h3 := h2.pushReg rcx (by simp only [length_cons]; omega)
  have h4 := h3.pushReg rbx (by simp only [length_cons]; omega)
  have h5 := h4.pushReg rax (by simp only [length_cons]; omega)
  have h6 := h5.push error (by simp only [length_cons]; omega)
  exact h6.push vector (by simp only [length_cons]; omega)

/-! ## The common path -/

/-- The general registers as they lie on the stack, lowest address first. -/
def registerWords (g : Registers) : List Word64 :=
  [g.r15, g.r14, g.r13, g.r12, g.r11, g.r10, g.r9, g.r8, g.rbp, g.rdi, g.rsi, g.rdx, g.rcx, g.rbx,
    g.rax]

lemma Sees.pushAll (h : Sees s sp g sv ws) (rs : List (Registers → Word64))
    (hlen : rs.length + ws.length < 2 ^ 60) :
    ∃ sp', Sees (rs.foldl (fun s r => s.push (r s.gpr)) s) sp' g sv
      ((rs.map fun r => r g).reverse ++ ws) := by
  induction rs generalizing s sp ws with
  | nil => exact ⟨sp, h⟩
  | cons r rs ih =>
    rw [length_cons] at hlen
    obtain ⟨sp', h'⟩ := ih (h.pushReg r (by omega)) (by rw [length_cons]; omega)
    refine ⟨sp', ?_⟩
    rwa [map_cons, reverse_cons, append_assoc]

lemma Sees.pushRegisters (h : Sees s sp g sv ws) (hlen : ws.length < 2 ^ 50) :
    ∃ sp', Sees s.pushRegisters sp' g sv (registerWords g ++ ws) :=
  h.pushAll _ (by simp only [length_cons, length_nil]; omega)

lemma Sees.popRegisters (h : Sees s sp g₀ sv (registerWords g ++ ws)) :
    ∃ sp', Sees s.popRegisters sp' g sv ws := by
  have h1 := (((((h.pop setR15).pop setR14).pop setR13).pop setR12).pop setR11).pop setR10
  have h2 := ((((h1.pop setR9).pop setR8).pop setRbp).pop setRdi).pop setRsi
  exact ⟨_, (((h2.pop setRdx).pop setRcx).pop setRbx).pop setRax⟩

/-- Entries of the frame patched from their tables, when `rbx` holds the table index. -/
lemma Sees.restoreAll (h : Sees s sp g₀ (spilled p g sv) ws) (hrbx : g₀.rbx = p.index)
    (es : List (SpillTable × ℕ)) (hes : ∀ e ∈ es, e.2 < ws.length) (hlen : ws.length < 2 ^ 60) :
    ∃ g₁ : Registers, g₁.rbx = p.index ∧
      Sees (s.restoreAll p (es.map fun e => (e.1, 8 * e.2))) sp g₁ (spilled p g sv)
        (es.foldl (fun ws e => ws.set e.2 (e.1.read g)) ws) := by
  induction es generalizing s g₀ ws with
  | nil => exact ⟨g₀, hrbx, h⟩
  | cons e es ih =>
    have hread : spilled p g sv e.1 g₀.rbx = e.1.read g := by
      rw [hrbx]
      exact update_self _ _ _
    have hstep := h.restoreSaved p e.1 e.2 (hes e mem_cons_self) hlen
    rw [hread] at hstep
    refine ih hstep hrbx ?_ (by rw [length_set]; exact hlen)
    intro e' he'
    rw [length_set]
    exact hes e' (mem_cons_of_mem _ he')

/-- The patches of the common path turn the clobbered registers in the frame into the original
ones; the extra patches for a system call write values that are there already. -/
lemma Sees.patchFrame (h : Sees s sp g' (spilled p g sv) (registerWords g' ++ rest))
    (hu : Untouched g' g) (hlen : rest.length < 2 ^ 50) :
    ∃ g₁, Sees (s.patchFrame p) sp g₁ (spilled p g sv) (registerWords g ++ rest) := by
  have hbound : ∀ g : Registers, (registerWords g ++ rest).length < 2 ^ 60 := by
    simp only [registerWords, length_append, length_cons, length_nil]
    omega
  have hfifteen : ∀ (g : Registers) (es : List (SpillTable × ℕ)), (∀ e ∈ es, e.2 < 15) →
      ∀ e ∈ es, e.2 < (registerWords g ++ rest).length := by
    intro g es hes e he
    have := hes e he
    simp only [registerWords, length_append, length_cons]
    omega
  obtain ⟨g1, hg1, h1⟩ := (h.loadScratchIndex p).restoreAll rfl
    [(.r11, 4), (.r10, 5), (.rdx, 11), (.rcx, 12), (.rbx, 13), (.rax, 14)]
    (hfifteen g' _ (by decide)) (hbound g')
  have hscratch : [(SpillTable.r11, 4), (.r10, 5), (.rdx, 11), (.rcx, 12), (.rbx, 13),
      (.rax, 14)].foldl (fun ws e => ws.set e.2 (e.1.read g)) (registerWords g' ++ rest) =
      registerWords g ++ rest := by
    simp [registerWords, SpillTable.read, hu.rsi, hu.rdi, hu.rbp, hu.r8, hu.r9, hu.r12, hu.r13,
      hu.r14, hu.r15]
  rw [hscratch] at h1
  unfold Cpu.patchFrame
  dsimp only
  split
  · exact ⟨g1, h1⟩
  obtain ⟨g2, -, h2⟩ := h1.restoreAll hg1
    [(.r11, 4), (.r10, 5), (.rdi, 9), (.rsi, 10), (.rdx, 11), (.rcx, 12), (.rbx, 13), (.rax, 14)]
    (hfifteen g _ (by decide)) (hbound g)
  exact ⟨g2, h2⟩

/-! ## The interrupt as a whole -/

/-- `interrupt_dispatch` leaves the frame it is given alone and returns null. -/
structure NullDispatch (dispatch : Cpu → Cpu) : Prop where
  rsp_eq : ∀ s, (dispatch s).rsp = s.rsp
  rax_eq : ∀ s, (dispatch s).gpr.rax = 0
  frame_eq : ∀ s, ∀ i < 22, (dispatch s).mem (slot s.rsp i) = s.mem (slot s.rsp i)

/-- The state `iretq` returns to is read off the stack. -/
lemma Sees.iretq (h : Sees s sp g sv (rip :: cs :: rflags :: rsp :: ss :: ws)) :
    s.iretq.gpr = g ∧ s.iretq.rip = rip ∧ s.iretq.cs = cs ∧ s.iretq.rflags = rflags ∧
      s.iretq.rsp = rsp ∧ s.iretq.ss = ss := by
  have hword : ∀ i (hi : i < (rip :: cs :: rflags :: rsp :: ss :: ws).length),
      s.word (8 * i) = (rip :: cs :: rflags :: rsp :: ss :: ws)[i] := fun i hi => h.word hi
  exact ⟨h.gpr_eq, hword 0 (by simp), hword 1 (by simp), hword 2 (by simp), hword 3 (by simp),
    hword 4 (by simp)⟩

/-- The common path returns what lies in the frame, with the original registers. -/
lemma Sees.interruptCommon (hd : NullDispatch dispatch) {vector error : Word64}
    (h : Sees s sp g' (spilled p g sv)
      (vector :: error :: rip :: cs :: rflags :: rsp :: ss :: rest)) (hu : Untouched g' g)
    (hlen : rest.length ≤ 2) :
    let t := s.interruptCommon p dispatch
    t.gpr = g ∧ t.rip = rip ∧ t.cs = cs ∧ t.rflags = rflags ∧ t.rsp = rsp ∧ t.ss = ss := by
  obtain ⟨sp1, h1⟩ := h.pushRegisters (by simp only [length_cons]; omega)
  obtain ⟨g2, h2⟩ := h1.patchFrame hu (by simp only [length_cons]; omega)
  have h3 := h2.setGpr fun g => g.setRdi (s.pushRegisters.patchFrame p).rsp
  set t := (s.pushRegisters.patchFrame p).setGpr fun g =>
    g.setRdi (s.pushRegisters.patchFrame p).rsp with ht
  -- Only the 22 words of the frame are known to survive the call.
  have hframe :
      StackAt t.mem t.rsp (registerWords g ++ [vector, error, rip, cs, rflags, rsp, ss]) := by
    have hstack := h3.stack
    rw [show registerWords g ++ (vector :: error :: rip :: cs :: rflags :: rsp :: ss :: rest) =
      (registerWords g ++ [vector, error, rip, cs, rflags, rsp, ss]) ++ rest by simp] at hstack
    exact hstack.of_append
  have h4 : Sees (dispatch t) t.rsp (dispatch t).gpr (dispatch t).saved
      (registerWords g ++ [vector, error, rip, cs, rflags, rsp, ss]) := by
    refine ⟨hd.rsp_eq t, rfl, rfl, ?_⟩
    rw [hd.rsp_eq]
    exact hframe.congr fun i hi => hd.frame_eq t i hi
  obtain ⟨sp5, h5⟩ := h4.popRegisters
  have h6 : Sees ((dispatch t).popRegisters.addRsp 16) (slot sp5 2) g (dispatch t).saved
      [rip, cs, rflags, rsp, ss] := h5.addRsp 2 (by simp)
  have hcommon : s.interruptCommon p dispatch = ((dispatch t).popRegisters.addRsp 16).iretq := by
    unfold Cpu.interruptCommon
    dsimp only
    rw [if_pos (hd.rax_eq t)]
  rw [hcommon]
  exact h6.iretq

/-! ## Delivery -/

/-- Where the processor's frame ends: the selected stack, aligned. -/
def stackTop (p : Platform) (vector : ℕ) (s : Cpu) : Word64 :=
  (if usesIst1 vector then p.ist1 else if s.cs &&& 3#64 ≠ 0 then p.rsp0 else s.rsp) &&& ~~~15#64

/-- The five words every delivery pushes. -/
lemma sees_frame (s : Cpu) (top cs : Word64) :
    Sees ((((({ s with rsp := top, cs := cs } : Cpu).push s.ss).push s.rsp).push s.rflags).push
      s.cs |>.push s.rip) (top - 8 - 8 - 8 - 8 - 8) s.gpr s.saved
      [s.rip, s.cs, s.rflags, s.rsp, s.ss] := by
  have h0 : Sees ({ s with rsp := top, cs := cs } : Cpu) top s.gpr s.saved [] :=
    ⟨rfl, rfl, rfl, trivial⟩
  exact ((((h0.push s.ss (by simp)).push s.rsp (by simp)).push s.rflags (by simp)).push s.cs
    (by simp)).push s.rip (by simp)

lemma slot_five (top : Word64) : slot (top - 8 - 8 - 8 - 8 - 8) 5 = top := by
  rw [← slot_succ, ← slot_succ, ← slot_succ, ← slot_succ, ← slot_succ, slot_zero]
  simp only [BitVec.sub_add_cancel]

/-- The stubs expect an error code exactly when the processor pushes one. -/
lemma pushesErrorCode_of_stubKind (hstub : stubKind vector = some kind) :
    pushesErrorCode vector = decide (kind = .err) := by
  unfold stubKind at hstub
  split at hstub
  · interval_cases vector <;> simp [isrStubs] at hstub <;> subst hstub <;> rfl
  split at hstub
  · obtain rfl : StubKind.noErr = kind := by simpa using hstub
    have hnot : vector ∉ [8, 10, 11, 12, 13, 14, 17, 21, 29, 30] := by
      simp only [mem_cons, not_mem_nil, or_false]
      omega
    simp only [pushesErrorCode, hnot]
    rfl
  · simp at hstub

/-- After the macro, the frame holds the interrupted state with the stack the macro computed. -/
lemma sees_normalize (hstub : stubKind vector = some kind) (p : Platform)
    (error : Word64) (s : Cpu) :
    ∃ g' sp' code rest, Untouched g' s.gpr ∧ rest.length ≤ 2 ∧ Sees (match kind with
        | .noErr => (s.deliver p vector error).normalizeNoErr p vector
        | .err => (s.deliver p vector error).normalizeErr p vector) sp' g'
        (spilled p s.gpr s.saved)
        (BitVec.ofNat 64 vector :: code :: s.rip :: s.cs :: s.rflags ::
          (frameStack s.cs s.rsp s.ss (stackTop p vector s)).1 ::
          (frameStack s.cs s.rsp s.ss (stackTop p vector s)).2 :: rest) := by
  have hcode := pushesErrorCode_of_stubKind hstub
  have hframe := sees_frame s (stackTop p vector s) 0x08#64
  cases kind with
  | noErr =>
    have hdeliver : Sees (s.deliver p vector error) (stackTop p vector s - 8 - 8 - 8 - 8 - 8)
        s.gpr s.saved ([] ++ [s.rip, s.cs, s.rflags, s.rsp, s.ss]) := by
      unfold deliver
      rwa [hcode]
    obtain ⟨g', sp', rest, hread, hlen, hu, -, hrax, hrbx, hrcx, hstack⟩ :=
      (hdeliver.saveScratch (by simp) p).readFrame
    have hpush := hread.pushFrame hlen 0 (BitVec.ofNat 64 vector)
    rw [hrax, hrbx, hrcx] at hpush
    rw [show ([] : List Word64).length + 5 = 5 from rfl, slot_five] at hstack
    rw [← hstack]
    exact ⟨g', _, 0, rest, hu, hlen, hpush⟩
  | err =>
    have hdeliver : Sees (s.deliver p vector error)
        (stackTop p vector s - 8 - 8 - 8 - 8 - 8 - 8) s.gpr s.saved
          ([error] ++ [s.rip, s.cs, s.rflags, s.rsp, s.ss]) := by
      unfold deliver
      rw [hcode]
      exact hframe.push error (by simp)
    have hload := (hdeliver.saveScratch (by simp) p).load setR10 0 (by simp)
    obtain ⟨g', sp', rest, hread, hlen, hu, hr10, hrax, hrbx, hrcx, hstack⟩ := hload.readFrame
    have hpush := hread.pushFrame hlen g'.r10 (BitVec.ofNat 64 vector)
    rw [hrax, hrbx, hrcx] at hpush
    rw [show [error].length + 5 = 6 from rfl, ← slot_succ, BitVec.sub_add_cancel,
      slot_five] at hstack
    rw [← hstack]
    have hnorm : (s.deliver p vector error).normalizeErr p vector =
        (((s.deliver p vector error).saveScratch p).load (8 * 0) setR10 |>.readFrame
          (8 * [error].length)).pushFrame g'.r10 (BitVec.ofNat 64 vector) := by
      rw [← hread.gpr_eq]
      rfl
    rw [hnorm]
    exact ⟨g', _, g'.r10, rest, ⟨hu.rsi, hu.rdi, hu.rbp, hu.r8, hu.r9, hu.r12, hu.r13, hu.r14,
      hu.r15⟩, hlen, hpush⟩

/-- What the interrupted program finds again, for every stub and every interrupted state. -/
lemma interrupt_result (hd : NullDispatch dispatch) (hstub : stubKind vector = some kind)
    (p : Platform) (error : Word64) (s : Cpu) :
    let t := s.interrupt p dispatch kind vector error
    t.gpr = s.gpr ∧ t.rip = s.rip ∧ t.cs = s.cs ∧ t.rflags = s.rflags ∧
      t.rsp = (frameStack s.cs s.rsp s.ss (stackTop p vector s)).1 ∧
      t.ss = (frameStack s.cs s.rsp s.ss (stackTop p vector s)).2 := by
  obtain ⟨g', sp', code, rest, hu, hlen, hsees⟩ := sees_normalize hstub p error s
  exact hsees.interruptCommon hd hu hlen

/-! ## Transparency -/

/-- The interrupted program cannot tell that it was interrupted. -/
def Transparent (p : Platform) (dispatch : Cpu → Cpu) (kind : StubKind) (vector : ℕ)
    (error : Word64) (s : Cpu) : Prop :=
  let t := s.interrupt p dispatch kind vector error
  t.rip = s.rip ∧ t.rsp = s.rsp ∧ t.rflags = s.rflags ∧ t.cs = s.cs ∧ t.ss = s.ss ∧ t.gpr = s.gpr

/-- Sixteen bytes below an aligned address is not the address that was aligned. -/
lemma aligned_sub_ne (x : Word64) : (x &&& ~~~15#64) - 16 ≠ x := by
  intro h
  have hx : x.toNat < Word.modulus := x.isLt
  have hand : (x &&& ~~~15#64).toNat = x.toNat / 2 ^ 4 * 2 ^ 4 := by
    exact Word.alignDown_two_pow (k := 4) hx (by norm_num)
  have hsub := congrArg BitVec.toNat h
  rw [BitVec.toNat_sub] at hsub
  have hlit : BitVec.toNat (16 : Word64) = 16 := rfl
  omega

/-- **When an interrupt is transparent.**  From user mode always; from kernel mode never, but for a
double fault, whose stack is its own: there the computed stack pointer can happen to be right. -/
theorem transparent_iff {dispatch : Cpu → Cpu} (hd : NullDispatch dispatch) {vector : ℕ}
    {kind : StubKind} (hstub : stubKind vector = some kind) (p : Platform) (error : Word64)
    (s : Cpu) :
    Transparent p dispatch kind vector error s ↔
      s.cs &&& 3#64 ≠ 0 ∨ (vector = 8 ∧ s.rsp = (p.ist1 &&& ~~~15#64) - 16 ∧ s.ss = 0x10#64) := by
  obtain ⟨hgpr, hrip, hcs, hflags, hrsp, hss⟩ := interrupt_result hd hstub p error s
  unfold Transparent
  dsimp only
  rw [hgpr, hrip, hcs, hflags, hrsp, hss]
  unfold frameStack
  by_cases hmode : s.cs &&& 3#64 ≠ 0
  · rw [if_pos hmode]
    exact iff_of_true ⟨rfl, rfl, rfl, rfl, rfl, rfl⟩ (.inl hmode)
  simp only [hmode, true_and, and_true, false_or]
  unfold stackTop
  rw [if_neg hmode]
  by_cases hvec : vector = 8
  · simp only [hvec, true_and]
    constructor
    · rintro ⟨h1, h2⟩
      exact ⟨h1.symm, h2.symm⟩
    · rintro ⟨h1, h2⟩
      exact ⟨h1.symm, h2.symm⟩
  · simp only [usesIst1, hvec, false_and, iff_false]
    rintro ⟨h1, -⟩
    exact aligned_sub_ne _ h1

/-! ### Two interrupted programs -/

/-- A dispatcher that only returns null. -/
def returnNull (s : Cpu) : Cpu := s.setGpr (setRax 0)

lemma nullDispatch_returnNull : NullDispatch returnNull :=
  ⟨fun _ => rfl, fun _ => rfl, fun _ _ _ => rfl⟩

/-- A platform with its two stacks and empty tables. -/
def samplePlatform : Platform := ⟨0x9000, 0xa000, 0, fun _ => 0⟩

/-- A program at `rip = 0x400000` with the given segments and stack pointer. -/
def sampleProgram (cs ss rsp : Word64) : Cpu where
  gpr := ⟨1, 2, 3, 4, 5, 6, 7, 8, 9, 10, 11, 12, 13, 14, 15⟩
  rsp := rsp
  rip := 0x400000
  rflags := 0x202
  cs := cs
  ss := ss
  mem := fun _ => 0
  saved := fun _ _ => 0

/-- A system call from user mode is transparent. -/
theorem transparent_user_syscall :
    (NullDispatch returnNull ∧ stubKind 128 = some .noErr) ∧
      Transparent samplePlatform returnNull .noErr 128 0 (sampleProgram 0x23 0x1b 0x7ff8) :=
  ⟨⟨nullDispatch_returnNull, rfl⟩,
    (transparent_iff nullDispatch_returnNull rfl samplePlatform 0
      (sampleProgram 0x23 0x1b 0x7ff8)).mpr (.inl (by decide))⟩

/-- A timer interrupt of kernel code with an aligned stack pointer is not: the code resumes with a
stack pointer sixteen bytes lower. -/
theorem not_transparent_kernel_timer :
    (NullDispatch returnNull ∧ stubKind 32 = some .noErr) ∧
      ¬ Transparent samplePlatform returnNull .noErr 32 0 (sampleProgram 0x08 0x10 0x8000) := by
  refine ⟨⟨nullDispatch_returnNull, rfl⟩, ?_⟩
  rintro ⟨-, hrsp, -⟩
  have hresult :=
    (interrupt_result nullDispatch_returnNull (show stubKind 32 = some .noErr from rfl)
    samplePlatform 0 (sampleProgram 0x08 0x10 0x8000)).2.2.2.2.1
  exact aligned_sub_ne 0x8000 (hresult.symm.trans hrsp)

end Cpu
end IanOS
