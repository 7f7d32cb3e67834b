import IanOS.Mm.AddressSpaceCells

/-!
# Which pages user code may touch

The processor lets user code reach a page only if the user bit is set in all four entries on the way
to it, and write to it only if the write bit is.  `map_page` sets the bits of the last entry as it
was asked to.  The three entries above it are shared by the pages of a region: each gets its user
bit from the call that first needs it, and no later call changes it.  So the first supervisor page
of a region closes the region to user code for good.

The main result is what this leaves of the intended meaning of the flags: after calls on a new
address space the pages open to user code are those that were asked for as user pages if and only if
every successful call for a user page found the user bit in the entries that were already on its
way.
-/

namespace IanOS.Paging

open List

open LinkTree (walk)

/-! ## The bits of an entry -/

def User (e : Word64) : Prop := e &&& PageUser ≠ 0
  deriving Decidable

def Writable (e : Word64) : Prop := e &&& PageWrite ≠ 0
  deriving Decidable

lemma and_twoPow_ne_zero {e : Word64} {k : ℕ} (hk : k < 64) :
    e &&& BitVec.twoPow 64 k ≠ 0 ↔ e.getLsbD k = true := by
  rw [BitVec.and_twoPow]
  split_ifs with hbit
  · simp only [hbit, iff_true]
    intro hzero
    have hself := congrArg (fun x => x.getLsbD k) hzero
    simp [hk] at hself
  · simpa using hbit

lemma user_iff {e : Word64} : User e ↔ e.getLsbD 2 = true := by
  exact and_twoPow_ne_zero (by norm_num)

lemma writable_iff {e : Word64} : Writable e ↔ e.getLsbD 1 = true := by
  exact and_twoPow_ne_zero (by norm_num)

/-- The flags of a page are the low bits of its entry. -/
lemma getLsbD_leafEntry {phys flags : Word64} {k : ℕ} (hk : k < 12) :
    (State.leafEntry phys flags).getLsbD k = (flags.getLsbD k || decide (k = 0)) := by
  have hmask : kAddrMask.getLsbD k = false := by
    rw [getLsbD_kAddrMask (by omega)]
    simp only [decide_eq_false_iff_not]
    omega
  have hpres : PagePresent.getLsbD k = decide (k = 0) := by
    have hall : ∀ k < 12, PagePresent.getLsbD k = decide (k = 0) := by decide
    exact hall k hk
  rw [State.leafEntry, BitVec.getLsbD_or, BitVec.getLsbD_or, BitVec.getLsbD_and, BitVec.getLsbD_and,
    BitVec.getLsbD_not, hmask, hpres]
  have hlt : decide (k < 64) = true := decide_eq_true (by omega)
  simp [hlt]

@[simp] lemma user_leafEntry {phys flags : Word64} :
    User (State.leafEntry phys flags) ↔ User flags := by
  rw [user_iff, user_iff, getLsbD_leafEntry (by norm_num)]
  simp

@[simp] lemma writable_leafEntry {phys flags : Word64} :
    Writable (State.leafEntry phys flags) ↔ Writable flags := by
  rw [writable_iff, writable_iff, getLsbD_leafEntry (by norm_num)]
  simp

/-- The low bits of a page address are zero. -/
lemma getLsbD_ofNat_page {g k : ℕ} (hg : g % kPageSize = 0) (hk : k < 12) :
    (BitVec.ofNat 64 g).getLsbD k = false := by
  have hbit : (g % 2 ^ 12).testBit k = g.testBit k := by
    rw [Nat.testBit_mod_two_pow]
    simp [hk]
  have hzero : g % 2 ^ 12 = 0 := hg
  rw [BitVec.getLsbD_ofNat, ← hbit, hzero, Nat.zero_testBit, Bool.and_false]

lemma user_tableEntry {g : ℕ} {flags : Word64} (hg : g % kPageSize = 0) :
    User (State.tableEntry g flags) ↔ User flags := by
  rw [user_iff, user_iff, State.tableEntry, BitVec.getLsbD_or, BitVec.getLsbD_or,
    BitVec.getLsbD_or, getLsbD_ofNat_page hg (by norm_num)]
  simp [PagePresent, PageWrite, PageUser]

lemma writable_tableEntry (g : ℕ) (flags : Word64) : Writable (State.tableEntry g flags) := by
  rw [writable_iff, State.tableEntry]
  simp [PageWrite]

/-! ## The rule of the processor -/

namespace State

variable {s : State} {root : ℕ} {j : Fin 512} {q : List (Fin 512)} {K : Prop} {v w pml4 : Word64}
  {calls before : List MapCall} {c : MapCall} {P : Word64 → Prop}

/-- The entries the processor reads on the way to an address, from the root down. -/
def entries (s : State) (pml4 v : Word64) : List Word64 :=
  [s.cellAt (table pml4) [] (pml4Index v),
    s.cellAt (table pml4) [pml4Index v] (pdptIndex v),
    s.cellAt (table pml4) [pml4Index v, pdptIndex v] (pdIndex v),
    s.cellAt (table pml4) [pml4Index v, pdptIndex v, pdIndex v] (ptIndex v)]

/-- User code may read the page of an address. -/
def UserAccessible (s : State) (pml4 v : Word64) : Prop :=
  ∀ e ∈ s.entries pml4 v, Present e ∧ User e

/-- User code may write to the page of an address. -/
def UserWritable (s : State) (pml4 v : Word64) : Prop :=
  s.UserAccessible pml4 v ∧ ∀ e ∈ s.entries pml4 v, Writable e

/-- The entries above the last that are already there have the user bit. -/
def UserReady (s : State) (pml4 v : Word64) : Prop :=
  ∀ e ∈ (s.entries pml4 v).take 3, Present e → User e

instance : Decidable (s.UserAccessible pml4 v) := decidableBAll _ _

instance : Decidable (s.UserWritable pml4 v) :=
  @instDecidableAnd _ _ inferInstance (decidableBAll _ _)

instance : Decidable (s.UserReady pml4 v) := decidableBAll _ _

lemma concat_isPrefix_path_iff : q ++ [j] <+: path v ↔
    (q = [] ∧ j = pml4Index v) ∨ (q = [pml4Index v] ∧ j = pdptIndex v) ∨
    (q = [pml4Index v, pdptIndex v] ∧ j = pdIndex v) ∨
    (q = [pml4Index v, pdptIndex v, pdIndex v] ∧ j = ptIndex v) := by
  rw [path]
  rcases q with _ | ⟨a, _ | ⟨b, _ | ⟨c, _ | ⟨d, q⟩⟩⟩⟩ <;>
    simp [and_assoc]

lemma forall_mem_entries : (∀ e ∈ s.entries pml4 v, P e) ↔
    ∀ q j, q ++ [j] <+: path v → P (s.cellAt (table pml4) q j) := by
  simp only [entries, forall_mem_cons, concat_isPrefix_path_iff]
  constructor
  · rintro ⟨h0, h1, h2, h3, -⟩ q j (⟨rfl, rfl⟩ | ⟨rfl, rfl⟩ | ⟨rfl, rfl⟩ | ⟨rfl, rfl⟩)
    · exact h0
    · exact h1
    · exact h2
    · exact h3
  · intro h
    refine ⟨h _ _ (by simp), h _ _ (by simp), h _ _ (by simp), h _ _ (by simp), by simp⟩

lemma forall_mem_take_entries : (∀ e ∈ (s.entries pml4 v).take 3, P e) ↔
    ∀ q j, q ++ [j] <+: path v → q.length ≤ 2 → P (s.cellAt (table pml4) q j) := by
  simp only [entries, take_succ_cons, forall_mem_cons, concat_isPrefix_path_iff]
  constructor
  · rintro ⟨h0, h1, h2, -⟩ q j (⟨rfl, rfl⟩ | ⟨rfl, rfl⟩ | ⟨rfl, rfl⟩ | ⟨rfl, rfl⟩) hlen
    · exact h0
    · exact h1
    · exact h2
    · simp at hlen
  · intro h
    refine ⟨h _ _ (by simp) (by simp), h _ _ (by simp) (by simp),
      h _ _ (by simp) (by simp), by simp⟩

/-! ## One call -/

lemma userAccessible_congr (h : path v = path w) :
    s.UserAccessible pml4 v ↔ s.UserAccessible pml4 w := by
  rw [UserAccessible, UserAccessible, forall_mem_entries, forall_mem_entries, h]

lemma userWritable_congr (h : path v = path w) : s.UserWritable pml4 v ↔ s.UserWritable pml4 w := by
  rw [UserWritable, UserWritable, userAccessible_congr h, forall_mem_entries, forall_mem_entries, h]

/-- A successful call opens its page to user code if it asks for this and no entry that was already
on the way forbids it. -/
lemma userAccessible_call (h : Tables K s (table pml4)) (hc : LowerHalf c.virt)
    (hok : (s.call pml4 c).1.ok = true) :
    (s.call pml4 c).2.UserAccessible pml4 c.virt ↔ User c.flags ∧ s.UserReady pml4 c.virt := by
  have hcells := call_cells h hc
  rw [UserAccessible, UserReady, forall_mem_entries, forall_mem_take_entries]
  constructor
  · intro hall
    refine ⟨?_, fun q j hq hlen hpres => ?_⟩
    · have hleaf :=
        hall [pml4Index c.virt, pdptIndex c.virt, pdIndex c.virt] (ptIndex c.virt) ⟨[], rfl⟩
      rw [hcells.leaf hc hok ⟨[], rfl⟩ (by simp)] at hleaf
      exact user_leafEntry.1 hleaf.2
    · rw [← hcells.keeps (low_of_concat hc hq) hpres]
      exact (hall q j hq).2
  · rintro ⟨huser, hready⟩ q j hq
    have hpres := hcells.present hok q j hq
    refine ⟨hpres, ?_⟩
    by_cases hlen : q.length ≤ 2
    · obtain hsame | ⟨-, -, -, g, hg, hnew⟩ := hcells.upper q j (low_of_concat hc hq) hlen
      · rw [hsame] at hpres ⊢
        exact hready q j hq hlen hpres
      · rwa [hnew, user_tableEntry hg.1]
    · rwa [hcells.leaf hc hok hq (by omega), user_leafEntry]

/-- All entries above the last have the write bit. -/
def UpperWritable (s : State) (root : ℕ) : Prop :=
  ∀ v, LowerHalf v → ∀ q j, q ++ [j] <+: path v → q.length ≤ 2 →
    Present (s.cellAt root q j) → Writable (s.cellAt root q j)

lemma UpperWritable.call (hw : UpperWritable s (table pml4)) (h : Tables K s (table pml4))
    (hc : LowerHalf c.virt) : UpperWritable (s.call pml4 c).2 (table pml4) := by
  intro v hv q j hq hlen hpres
  obtain hsame | ⟨-, -, -, g, -, hnew⟩ :=
    (call_cells h hc).upper q j (low_of_concat hv hq) hlen
  · rw [hsame] at hpres ⊢
    exact hw v hv q j hq hlen hpres
  · rw [hnew]
    exact writable_tableEntry g c.flags

/-- A page that is open to user code is open to writes if its call asked for this. -/
lemma userWritable_call (h : Tables K s (table pml4)) (hw : UpperWritable s (table pml4))
    (hc : LowerHalf c.virt) (hok : (s.call pml4 c).1.ok = true) :
    (s.call pml4 c).2.UserWritable pml4 c.virt ↔
      (s.call pml4 c).2.UserAccessible pml4 c.virt ∧ Writable c.flags := by
  have hcells := call_cells h hc
  have hupper := hw.call h hc
  rw [UserWritable, forall_mem_entries]
  refine and_congr_right fun _ => ⟨fun hall => ?_, fun hwrite q j hq => ?_⟩
  · have hleaf :=
      hall [pml4Index c.virt, pdptIndex c.virt, pdIndex c.virt] (ptIndex c.virt) ⟨[], rfl⟩
    rw [hcells.leaf hc hok ⟨[], rfl⟩ (by simp)] at hleaf
    exact writable_leafEntry.1 hleaf
  · by_cases hlen : q.length ≤ 2
    · exact hupper c.virt hc q j hq hlen (hcells.present hok q j hq)
    · rwa [hcells.leaf hc hok hq (by omega), writable_leafEntry]

/-! ## Sequences of calls -/

lemma upperWritable_mapAll (h : Tables K s (table pml4)) (hw : UpperWritable s (table pml4))
    (hcalls : ∀ c ∈ calls, LowerHalf c.virt) :
    UpperWritable (s.mapAll pml4 calls) (table pml4) := by
  induction calls using reverseRecOn with
  | nil => exact hw
  | append_singleton calls c ih =>
    have hinit := (forall_mem_append.1 hcalls).1
    rw [mapAll_concat]
    exact (ih hinit).call (tables_mapAll h hinit) (hcalls c (by simp))

/-- Later calls change nothing on the way to a page that has been mapped. -/
lemma entries_mapAll (h : Tables K s (table pml4)) (hcalls : ∀ c ∈ calls, LowerHalf c.virt)
    (hv : LowerHalf v) (hpres : ∀ q j, q ++ [j] <+: path v → Present (s.cellAt (table pml4) q j)) :
    (s.mapAll pml4 calls).entries pml4 v = s.entries pml4 v := by
  have hsame (q : List (Fin 512)) (j : Fin 512) (hq : q ++ [j] <+: path v) :
      (s.mapAll pml4 calls).cellAt (table pml4) q j = s.cellAt (table pml4) q j :=
    cellAt_mapAll h hcalls (low_of_concat hv hq) (hpres q j hq)
  simp only [concat_isPrefix_path_iff] at hsame
  rw [entries, entries, hsame _ _ (by simp), hsame _ _ (by simp), hsame _ _ (by simp),
    hsame _ _ (by simp)]

/-- What a successful call has opened its page to, in the end. -/
lemma permissions_of_succeedsAt (h : Tables K s (table pml4)) (hw : UpperWritable s (table pml4))
    (hcalls : ∀ c ∈ calls, LowerHalf c.virt) (hc : SucceedsAt s pml4 calls before c) :
    ((s.mapAll pml4 calls).UserAccessible pml4 c.virt ↔
      User c.flags ∧ (s.mapAll pml4 before).UserReady pml4 c.virt) ∧
    ((s.mapAll pml4 calls).UserWritable pml4 c.virt ↔
      (s.mapAll pml4 calls).UserAccessible pml4 c.virt ∧ Writable c.flags) := by
  obtain ⟨⟨later, rfl⟩, hok⟩ := hc
  have hinit := (forall_mem_append.1 hcalls).1
  have hvirt : LowerHalf c.virt := hcalls c (by simp)
  have hlater (d : MapCall) (hd : d ∈ later) : LowerHalf d.virt := hcalls d (by simp [hd])
  have hbefore := tables_mapAll h hinit
  have hafter : Tables K ((s.mapAll pml4 before).call pml4 c).2 (table pml4) :=
    tables_mapPage hbefore hvirt
  have hentries := entries_mapAll hafter hlater hvirt ((call_cells hbefore hvirt).present hok)
  have haccess := userAccessible_call hbefore hvirt hok
  have hwrite := userWritable_call hbefore (upperWritable_mapAll h hw hinit) hvirt hok
  rw [mapAll_append, mapAll_cons]
  unfold UserWritable UserAccessible
  rw [hentries]
  exact ⟨haccess, hwrite⟩

/-- User code may reach the pages that successful calls asked to be user pages, and write to those
that they asked to be writable as well. -/
def PermissionsAsAsked (s : State) (pml4 : Word64) (calls : List MapCall) : Prop :=
  ∀ v, LowerHalf v →
    ((s.mapAll pml4 calls).UserAccessible pml4 v ↔ ∃ before c, SucceedsAt s pml4 calls before c ∧
      pageNumber c.virt = pageNumber v ∧ User c.flags) ∧
    ((s.mapAll pml4 calls).UserWritable pml4 v ↔ ∃ before c, SucceedsAt s pml4 calls before c ∧
      pageNumber c.virt = pageNumber v ∧ User c.flags ∧ Writable c.flags)

/-- A page user code may reach was mapped by some call. -/
lemma exists_succeedsAt {active : Word64} (hroot : (s.createAddressSpace active).1 ≠ 0)
    (hcalls : ∀ c ∈ calls, LowerHalf c.virt) (hv : LowerHalf v)
    (haccess : ((s.createAddressSpace active).2.mapAll (s.createAddressSpace active).1
      calls).UserAccessible (s.createAddressSpace active).1 v) :
    ∃ before c, SucceedsAt (s.createAddressSpace active).2 (s.createAddressSpace active).1 calls
      before c ∧ path v = path c.virt := by
  rw [UserAccessible, forall_mem_entries] at haccess
  have hleaf := (haccess [pml4Index v, pdptIndex v, pdIndex v] (ptIndex v) ⟨[], rfl⟩).1
  have hempty := (bare_createAddressSpace hroot).not_present
    (q := [pml4Index v, pdptIndex v, pdIndex v]) hv ⟨[], rfl⟩
  obtain hsame | ⟨before, c, hc, hpath, -⟩ :=
    lowest_mapAll (q := [pml4Index v, pdptIndex v, pdIndex v])
      (tables_createAddressSpace hroot) hcalls (low_of_concat hv ⟨[], rfl⟩)
      (by simp)
  · rw [hsame] at hleaf
    exact absurd hleaf hempty
  · exact ⟨before, c, hc, hpath⟩

/-- After calls of `map_page` on lower-half addresses in an address space made by
`create_address_space`, the pages open to user code are those that were asked for, exactly if every
successful call for a user page found the user bit in the entries that were already on its way. -/
theorem permissions_as_asked_iff (s : State) (active : Word64) (calls : List MapCall)
    (hroot : (s.createAddressSpace active).1 ≠ 0) (hcalls : ∀ c ∈ calls, LowerHalf c.virt) :
    PermissionsAsAsked (s.createAddressSpace active).2 (s.createAddressSpace active).1 calls ↔
      ∀ before c,
        SucceedsAt (s.createAddressSpace active).2 (s.createAddressSpace active).1 calls before c →
        User c.flags →
        ((s.createAddressSpace active).2.mapAll (s.createAddressSpace active).1 before).UserReady
          (s.createAddressSpace active).1 c.virt := by
  have htables := tables_createAddressSpace hroot
  have hwritable : UpperWritable (s.createAddressSpace active).2
      (table (s.createAddressSpace active).1) := fun v hv q j hq _ hpresent =>
    absurd hpresent ((bare_createAddressSpace hroot).not_present hv hq)
  have hmapped {v : Word64} (hv : LowerHalf v) := exists_succeedsAt hroot hcalls hv
  generalize s.createAddressSpace active = space at htables hwritable hmapped ⊢
  have hvirt {before : List MapCall} {c : MapCall}
    (hc : SucceedsAt space.2 space.1 calls before c) :
      LowerHalf c.virt := by
    obtain ⟨⟨later, rfl⟩, -⟩ := hc
    exact hcalls c (by simp)
  constructor
  · intro hasked before c hc huser
    have haccess := (hasked c.virt (hvirt hc)).1.2 ⟨before, c, hc, rfl, huser⟩
    exact ((permissions_of_succeedsAt htables hwritable hcalls hc).1.1 haccess).2
  intro hready v hv
  have hopen : (space.2.mapAll space.1 calls).UserAccessible space.1 v → ∃ before c,
      SucceedsAt space.2 space.1 calls before c ∧ path v = path c.virt ∧ User c.flags := by
    intro haccess
    obtain ⟨before, c, hc, hpath⟩ := hmapped hv haccess
    rw [userAccessible_congr hpath] at haccess
    exact ⟨before, c, hc, hpath,
      ((permissions_of_succeedsAt htables hwritable hcalls hc).1.1 haccess).1⟩
  have hopened {before : List MapCall} {c : MapCall}
      (hc : SucceedsAt space.2 space.1 calls before c) (hpage : pageNumber c.virt = pageNumber v)
      (huser : User c.flags) : (space.2.mapAll space.1 calls).UserAccessible space.1 v := by
    rw [userAccessible_congr (path_eq_iff.2 hpage.symm)]
    exact (permissions_of_succeedsAt htables hwritable hcalls hc).1.2
      ⟨huser, hready before c hc huser⟩
  refine ⟨⟨fun haccess => ?_, fun ⟨before, c, hc, hpage, huser⟩ => hopened hc hpage huser⟩,
    fun hwrite => ?_, fun ⟨before, c, hc, hpage, huser, hflag⟩ => ?_⟩
  · obtain ⟨before, c, hc, hpath, huser⟩ := hopen haccess
    exact ⟨before, c, hc, (path_eq_iff.1 hpath).symm, huser⟩
  · obtain ⟨before, c, hc, hpath, huser⟩ := hopen hwrite.1
    rw [userWritable_congr hpath] at hwrite
    exact ⟨before, c, hc, (path_eq_iff.1 hpath).symm, huser,
      ((permissions_of_succeedsAt htables hwritable hcalls hc).2.1 hwrite).2⟩
  · have haccess := hopened hc hpage huser
    have hpath := path_eq_iff.2 hpage.symm
    rw [userAccessible_congr hpath] at haccess
    rw [userWritable_congr hpath]
    exact (permissions_of_succeedsAt htables hwritable hcalls hc).2.2 ⟨haccess, hflag⟩

/-- A user page and a supervisor page of one region, in this order. -/
def userThenSupervisor : List MapCall := [⟨0x400000, 0x200000, 7⟩, ⟨0x401000, 0x300000, 3⟩]

/-- The same pages in the other order. -/
def supervisorThenUser : List MapCall := [⟨0x401000, 0x300000, 3⟩, ⟨0x400000, 0x200000, 7⟩]

/-- If the user page comes first, then it is open to user code and the other is not. -/
theorem permissions_as_asked_user_first :
    let space := eightPages.createAddressSpace 0x1000
    PermissionsAsAsked space.2 space.1 userThenSupervisor ∧
      (space.2.mapAll space.1 userThenSupervisor).UserWritable space.1 0x400000 ∧
      ¬(space.2.mapAll space.1 userThenSupervisor).UserAccessible space.1 0x401000 := by
  refine ⟨(permissions_as_asked_iff eightPages 0x1000 userThenSupervisor (by decide +kernel)
    (by decide)).2 ?_, by decide +kernel, by decide +kernel⟩
  rintro before c ⟨⟨later, hcalls⟩, -⟩ huser
  rcases before with _ | ⟨b, _ | ⟨b', before⟩⟩
  · obtain ⟨rfl, -⟩ := cons.inj hcalls
    decide +kernel
  · obtain ⟨-, hrest⟩ := cons.inj hcalls
    obtain ⟨rfl, -⟩ := cons.inj hrest
    exact absurd huser (by decide)
  · simp [userThenSupervisor] at hcalls

/-- If the supervisor page comes first, then the user page is closed to user code. -/
theorem supervisor_page_closes_region :
    let space := eightPages.createAddressSpace 0x1000
    SucceedsAt space.2 space.1 supervisorThenUser [⟨0x401000, 0x300000, 3⟩]
        ⟨0x400000, 0x200000, 7⟩ ∧
      User 7 ∧ ¬(space.2.mapAll space.1 supervisorThenUser).UserAccessible space.1 0x400000 ∧
      ¬PermissionsAsAsked space.2 space.1 supervisorThenUser := by
  intro space
  have hcall : SucceedsAt space.2 space.1 supervisorThenUser [⟨0x401000, 0x300000, 3⟩]
      ⟨0x400000, 0x200000, 7⟩ := ⟨⟨[], by simp [supervisorThenUser]⟩, by decide +kernel⟩
  have hclosed : ¬(space.2.mapAll space.1 supervisorThenUser).UserAccessible space.1 0x400000 := by
    decide +kernel
  refine ⟨hcall, by decide, hclosed, fun hasked => hclosed ?_⟩
  exact (hasked 0x400000 (by decide)).1.2 ⟨_, _, hcall, by simp, by decide⟩

end State
end IanOS.Paging
