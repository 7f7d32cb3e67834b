import IanOS.Loader.Segments

/-!
# The memory the kernel works in

When the user pages of a process are in place, `map_kernel_runtime_ranges` maps physical memory at
its own addresses, up to a limit, and the framebuffer.  It passes over pages that are already
mapped.  The address space may have any size, but the allocator has at most `2 ^ 20` pages for its
page tables, so the loop does not get as far as the upper half.
-/

namespace IanOS.Loader

open Paging PhysicalMemoryManager Finset
open Paging.State
open LinkTree (walk)

variable {s s' : State} {b : Building} {root virt flags active v w : Word64}
  {start : PhysicalMemoryManager} {owned : List OwnedPage} {i : ℕ} {M : Word64 → Prop}
  {fb : FramebufferInfo}

/-! ## The beginning, and the stack -/

/-- An address space without tables in the lower half has no pages there. -/
lemma built_of_bare (hbare : Bare s (table root)) (htables : Tables False s (table root))
    (haccounted : Accounted start ∅ s (table root)) : Built start root [] s where
  sound := ⟨htables, haccounted, by simp⟩
  upper v hv q j hq _ hpres := absurd hpres (hbare.not_present hv hq)
  pages _ ho := absurd ho List.not_mem_nil
  only v hv hpres := absurd hpres (hbare.not_present hv ⟨[], rfl⟩)

lemma built_createAddressSpace (hinv : s.pmm.Inv) (hroot : (s.createAddressSpace active).1 ≠ 0) :
    Built s.pmm (s.createAddressSpace active).1 [] (s.createAddressSpace active).2 :=
  built_of_bare (bare_createAddressSpace hroot) (tables_createAddressSpace hroot).lower
    (accounted_createAddressSpace hinv hroot)

/-- The addresses of the pages of the stack. -/
def IsStackPage (v : Word64) : Prop :=
  ∃ i < kDefaultUserStackPages, v = kDefaultUserStackTop - BitVec.ofNat 64 ((i + 1) * kPageSize)

lemma toNat_stackPage (hi : i < kDefaultUserStackPages) :
    (kDefaultUserStackTop - BitVec.ofNat 64 ((i + 1) * kPageSize)).toNat =
      0x7ffffff000 - (i + 1) * kPageSize := by
  have htop : kDefaultUserStackTop.toNat = 0x7ffffff000 := by decide
  simp only [kDefaultUserStackPages, kPageSize] at hi ⊢
  rw [BitVec.toNat_sub, BitVec.toNat_ofNat]
  omega

/-- The stack is mapped below its top. -/
lemma Built.mapStack {prepare : Word64 → Building → Building}
    (h : Built start root b.owned b.memory)
    (hprepare : ∀ phys b, phys.toNat % kPageSize = 0 → OnlyFrame phys b (prepare phys b))
    (hok : (b.mapStack root prepare).1 = true) :
    Built start root (b.mapStack root prepare).2.owned (b.mapStack root prepare).2.memory ∧
      b.Extends root IsStackPage (b.mapStack root prepare).2 := by
  have hloop := Attempt.passed (P := fun _ b' => Built start root b'.owned b'.memory ∧
    b.Extends root IsStackPage b') ⟨h, .refl root b⟩ ?_ hok
  · exact hloop
  rintro i b' - hi ⟨hbuilt, hext⟩ hround
  have hadds := Building.adds_of_addPage (fun hpage => hprepare _ _ ?_) hround
  · have hlower : LowerHalf (kDefaultUserStackTop - BitVec.ofNat 64 ((i + 1) * kPageSize)) := by
      refine lowerHalf_of_lt ?_
      rw [toNat_stackPage hi]
      omega
    exact ⟨hbuilt.adds hadds hlower (by rw [Scan.value_pure]; decide),
      hext.trans ((hbuilt.extended hadds hlower).mono fun v hv => ⟨i, hi, hv⟩)⟩
  · have hg := fresh_allocatePage hpage
    rw [Building.frame, hg.toNat_ofNat]
    exact hg.aligned

/-! ## Pages for the kernel -/

/-- A page that has a translation other than zero is mapped. -/
lemma present_of_translate (h : s.translate root v ≠ 0) : Present (leafOf s root v) := by
  have hroot : root ≠ 0 := by
    rintro rfl
    exact h rfl
  rw [translate_eq hroot] at h
  cases hwalk : walk s.link (table root) (path v) with
  | none =>
    rw [hwalk] at h
    exact absurd rfl h
  | some f => exact present_of_walk hwalk ⟨[], rfl⟩

lemma leafOf_congr (h : path v = path w) : leafOf s root v = leafOf s root w := by
  simp only [path, List.cons.injEq, and_true] at h
  rw [leafOf, leafOf, h.1, h.2.1, h.2.2.1, h.2.2.2]

/-- The kernel's pages have been mapped at the addresses in `M`, if they were not mapped before. -/
structure Runtime (start : PhysicalMemoryManager) (root : Word64) (owned : List OwnedPage)
    (before : State) (M : Word64 → Prop) (s : State) : Prop where
  sound : Sound start root owned s
  grows : Grows (table root) before s
  upper : UpperWritable s (table root)
  mapped : ∀ w, M w → LowerHalf w ∧ Present (leafOf s root w)
  leaves : ∀ v, LowerHalf v → leafOf s root v = leafOf before root v ∨
    ¬Present (leafOf before root v) ∧ ∃ w flags, M w ∧ path w = path v ∧ Writable flags ∧
      ¬User flags ∧ leafOf s root v = leafEntry w flags

namespace Runtime

variable {before : State}

section

variable (h : Runtime start root owned before M s)
include h

lemma mono {N : Word64 → Prop}
    (himp : ∀ w, M w → N w) (hmap : ∀ w, N w → LowerHalf w ∧ Present (leafOf s root w)) :
    Runtime start root owned before N s := by
  refine ⟨h.sound, h.grows, h.upper, hmap, fun v hv => ?_⟩
  rcases h.leaves v hv with hsame | ⟨hempty, w, flags, hw, hnew⟩
  · exact .inl hsame
  · exact .inr ⟨hempty, w, flags, himp w hw, hnew⟩

/-- One more page is mapped at its own address, or passed over. -/
lemma mapUnlessMapped (hv : LowerHalf virt)
    (hwrite : Writable flags) (huser : ¬User flags)
    (hok : (mapUnlessMapped root virt flags s).1 = true) :
    Runtime start root owned before (fun w => M w ∨ w = virt)
      (mapUnlessMapped root virt flags s).2 := by
  rw [Loader.mapUnlessMapped] at hok ⊢
  split_ifs at hok ⊢ with htrans
  · refine h.mono (fun w hw => .inl hw) fun w hw => ?_
    rcases hw with hold | rfl
    · exact h.mapped w hold
    · exact ⟨hv, present_of_translate htrans⟩
  have htables := h.sound.tables
  have hgrows : Grows (table root) s (s.mapPage root virt virt flags).2 := grows_mapPage htables hv
  have hleaf (v : Word64) (hlower : LowerHalf v) :=
    leafOf_mapPage htables hv hlower hok
  have hempty : ¬Present (leafOf s root virt) := (mapPage_cells htables hv).absent hok
  refine ⟨h.sound.mapPage hv, h.grows.trans hgrows,
    h.upper.call (c := ⟨virt, virt, flags⟩) htables hv, fun w hw => ?_, fun v hlower => ?_⟩
  · rcases hw with hold | rfl
    · obtain ⟨hlower, hpres⟩ := h.mapped w hold
      rw [leafOf_grows hgrows hlower hpres]
      exact ⟨hlower, hpres⟩
    · rw [hleaf _ hv, if_pos rfl]
      exact ⟨hv, present_leafEntry _ _⟩
  · rw [hleaf v hlower]
    split_ifs with hpath
    · refine .inr ⟨fun hpres => hempty ?_, virt, flags, .inr rfl, hpath.symm, hwrite, huser, rfl⟩
      rwa [← leafOf_congr hpath, leafOf_grows h.grows hlower hpres]
    · rcases h.leaves v hlower with hsame | ⟨hold, w, f, hw, hnew⟩
      · exact .inl hsame
      · exact .inr ⟨hold, w, f, .inl hw, hnew⟩

/-- The loops of the two ranges. -/
lemma loop {page : ℕ → Word64} {n : ℕ}
    (hwrite : Writable flags) (huser : ¬User flags)
    (hlower : ∀ i < n, ∀ s, Runtime start root owned before (fun w => M w ∨ ∃ j < i, w = page j) s →
      LowerHalf (page i))
    (hok : (attempt (fun i => Loader.mapUnlessMapped root (page i) flags) n 0 s).1 = true) :
    Runtime start root owned before (fun w => M w ∨ ∃ j < n, w = page j)
      (attempt (fun i => Loader.mapUnlessMapped root (page i) flags) n 0 s).2 := by
  have hloop := Attempt.passed (P := fun i =>
    Runtime start root owned before (fun w => M w ∨ ∃ j < i, w = page j)) ?_ ?_ hok
  · rwa [Nat.zero_add] at hloop
  · simpa using h
  intro i s' _ hi hruntime hround
  rw [Nat.zero_add] at hi
  have hlow := hlower i hi s' hruntime
  have hset : (fun w => (M w ∨ ∃ j < i, w = page j) ∨ w = page i) =
      fun w => M w ∨ ∃ j < i + 1, w = page j := by
    simp only [Nat.lt_succ_iff_lt_or_eq, or_and_right, exists_or, exists_eq_left, or_assoc]
  rw [← hset]
  exact hruntime.mapUnlessMapped hlow hwrite huser hround

end

end Runtime

/-! ## How far the window can reach -/

/-- There are not enough pages for the tables of a larger window. -/
lemma Sound.window_le (h : Sound start root owned s)
    (hmap : ∀ j < i, Present (leafOf s root (pageAbove 0 j))) : i ≤ 2 ^ 29 := by
  by_contra hlarge
  have hnat (k : ℕ) (hk : k < 2 ^ 20 + 1) :
      (pageAbove 0 (k * 512)).toNat = k * 512 * kPageSize := by
    rw [pageAbove]
    simp [kPageSize]
    omega
  have hlow (k : ℕ) (hk : k < 2 ^ 20 + 1) : LowerHalf (pageAbove 0 (k * 512)) := by
    refine lowerHalf_of_lt ?_
    rw [hnat k hk]
    simp only [kPageSize]
    omega
  -- each two megabytes of the window have a page table of their own
  have htable (k : ℕ) (hk : k < 2 ^ 20 + 1) : ∃ page ∈ start.freeSet,
      walk s.link (table root)
        [pml4Index (pageAbove 0 (k * 512)), pdptIndex (pageAbove 0 (k * 512)),
        pdIndex (pageAbove 0 (k * 512))] = some (page * kPageSize) := by
    obtain ⟨n, hn⟩ := exists_walk_of_present (hmap (k * 512) (by omega))
    have hmul : n / kPageSize * kPageSize = n :=
      Nat.div_mul_cancel (Nat.dvd_of_mod_eq_zero (walk_mod h.tables.aligned hn))
    refine ⟨n / kPageSize, (h.accounted.pages _).2 (.inr (.inl ⟨_, low_leaf (hlow k hk), ?_⟩)), ?_⟩
    · rw [hmul, hn]
    · rw [hmul, hn]
  choose! page hfree hwalk using htable
  have hcard : start.freeSet.card < (range (2 ^ 20 + 1)).card := by
    have hsub : start.freeSet ⊆ range kPmmBitmapPages := fun p hp =>
      mem_range.2 (lt_of_mem_freeSet hp)
    have hle := card_le_card hsub
    rw [card_range] at hle ⊢
    exact Nat.lt_succ_of_le hle
  obtain ⟨x, hx, y, hy, hne, hsame⟩ := exists_ne_map_eq_of_card_lt_of_maps_to hcard
    (fun k hk => hfree k (mem_range.1 hk))
  rw [mem_range] at hx hy
  have hpaths := h.tables.tree _ _ _ (low_leaf (hlow x hx)) (low_leaf (hlow y hy)) (hwalk x hx)
    (by rw [hsame]; exact hwalk y hy)
  have hlast (k : ℕ) (hk : k < 2 ^ 20 + 1) : ptIndex (pageAbove 0 (k * 512)) = 0 := by
    rw [ptIndex, Fin.ext_iff, Fin.val_ofNat, BitVec.toNat_ushiftRight,
      hnat k hk]
    simp only [kPageSize]
    omega
  have hpath : path (pageAbove 0 (x * 512)) = path (pageAbove 0 (y * 512)) := by
    simp only [List.cons.injEq, and_true] at hpaths
    rw [path, path, hpaths.1, hpaths.2.1, hpaths.2.2, hlast x hx, hlast y hy]
  rw [path_eq_iff, pageNumber, pageNumber, hnat x hx, hnat y hy, mul_div_page,
    mul_div_page] at hpath
  omega

/-! ## Both ranges -/

/-- The pages of the identity window. -/
def InWindow (requiredLimit v : Word64) : Prop :=
  ∃ i < pagesBetween 0 (identityLimit requiredLimit), v = pageAbove 0 i

/-- The first page of the framebuffer, and the end of its last. -/
def framebufferStart (fb : FramebufferInfo) : Word64 := alignDown (BitVec.ofNat 64 fb.base)

@[inherit_doc framebufferStart]
def framebufferStop (fb : FramebufferInfo) : Word64 :=
  alignUp (BitVec.ofNat 64 fb.base + BitVec.ofNat 64 (framebufferLength fb))

/-- The pages of the framebuffer, if there is one. -/
def InFramebuffer (fb : FramebufferInfo) (v : Word64) : Prop :=
  ¬(BitVec.ofNat 64 fb.base = 0 ∨ BitVec.ofNat 64 (framebufferLength fb) = 0) ∧
    ∃ i < pagesBetween (framebufferStart fb) (framebufferStop fb),
      v = pageAbove (framebufferStart fb) i

/-- The framebuffer lies below the upper half, where memory can be mapped at its own address. -/
def FramebufferLow (fb : FramebufferInfo) : Prop :=
  fb.base + framebufferLength fb ≤ 2 ^ 47
  deriving Decidable

lemma toNat_framebuffer (h : FramebufferLow fb) :
    (framebufferStart fb).toNat = fb.base / kPageSize * kPageSize ∧
    (framebufferStop fb).toNat =
    (fb.base + framebufferLength fb + 4095) / kPageSize * kPageSize := by
  have hlow : fb.base + framebufferLength fb ≤ 2 ^ 47 := h
  have hbase : (BitVec.ofNat 64 fb.base).toNat = fb.base := by
    rw [BitVec.toNat_ofNat]
    omega
  have hend : (BitVec.ofNat 64 fb.base + BitVec.ofNat 64 (framebufferLength fb)).toNat =
        fb.base + framebufferLength fb := by
    rw [BitVec.toNat_add, hbase, BitVec.toNat_ofNat]
    omega
  refine ⟨?_, ?_⟩
  · rw [framebufferStart, toNat_alignDown, hbase]
  · rw [framebufferStop, toNat_alignUp (by omega), hend]

lemma toNat_framebufferPage (h : FramebufferLow fb)
    (hi : i < pagesBetween (framebufferStart fb) (framebufferStop fb)) :
    (pageAbove (framebufferStart fb) i).toNat = fb.base / kPageSize * kPageSize + i * kPageSize ∧
    (pageAbove (framebufferStart fb) i).toNat < 2 ^ 47 := by
  obtain ⟨hstart, hstop⟩ := toNat_framebuffer h
  have hlow : fb.base + framebufferLength fb ≤ 2 ^ 47 := h
  rw [lt_pagesBetween (by rw [hstart, Nat.mul_mod_left]) (by rw [hstop, Nat.mul_mod_left])] at hi
  rw [toNat_pageAbove hi, hstart]
  refine ⟨rfl, ?_⟩
  rw [hstart, hstop] at hi
  simp only [kPageSize] at hi ⊢
  omega

lemma toNat_windowPage (hi : i ≤ 2 ^ 29) : (pageAbove 0 i).toNat = i * kPageSize := by
  rw [pageAbove]
  simp [kPageSize]
  omega

/-- Before any of the kernel's pages is mapped. -/
lemma Built.runtime (h : Built start root owned s) :
    Runtime start root owned s (fun _ => False) s :=
  ⟨h.sound, .refl _ _, fun v hv q j hq hlen hpres =>
    (h.upper v hv q j hq hlen hpres).writable, fun _ hw => hw.elim, fun _ _ => .inl rfl⟩

/-- After the user pages, the kernel's pages are mapped where the process has none. -/
lemma Built.mapRuntime {requiredLimit : Word64} (h : Built start root owned s)
    (hfb : FramebufferLow fb) (hok : (mapKernelRuntimeRanges fb root requiredLimit s).1 = true) :
    Runtime start root owned s (fun v => InWindow requiredLimit v ∨ InFramebuffer fb v)
      (mapKernelRuntimeRanges fb root requiredLimit s).2 := by
  have hwin (hok : (mapKernelIdentityWindow root requiredLimit s).1 = true) :
      Runtime start root owned s (InWindow requiredLimit)
        (mapKernelIdentityWindow root requiredLimit s).2 := by
    have hloop := h.runtime.loop (by decide) (by decide) (fun i _ s' hruntime => ?_) hok
    · simp only [false_or] at hloop
      exact hloop
    have hle := hruntime.sound.window_le fun j hj => (hruntime.mapped _ (.inr ⟨j, hj, rfl⟩)).2
    refine lowerHalf_of_lt ?_
    rw [toNat_windowPage hle]
    simp only [kPageSize]
    omega
  rw [mapKernelRuntimeRanges] at hok ⊢
  split_ifs at hok ⊢ with hfirst
  · replace hwin := hwin hfirst
    rw [mapSupervisorRange] at hok ⊢
    split_ifs at hok ⊢ with hnone
    · refine hwin.mono (fun w hw => .inl hw) fun w hw => ?_
      rcases hw with hw | ⟨hsome, -⟩
      · exact hwin.mapped w hw
      · exact absurd hnone hsome
    have hloop := hwin.loop (by decide) (by decide)
      (fun i hi s' _ => lowerHalf_of_lt (toNat_framebufferPage hfb hi).2) hok
    have hset : (fun v => InWindow requiredLimit v ∨ InFramebuffer fb v) = fun v =>
        InWindow requiredLimit v ∨ ∃ i < pagesBetween (framebufferStart fb) (framebufferStop fb),
          v = pageAbove (framebufferStart fb) i := by
      funext v
      rw [InFramebuffer, and_iff_right hnone]
    rwa [hset]
  · exact absurd hok hfirst

end IanOS.Loader
