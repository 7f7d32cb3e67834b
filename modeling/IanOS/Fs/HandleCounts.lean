import IanOS.Fs.HandleIds

/-!
# Reference counts of handles

To its users the handle table is the multiset of the references they hold: `open` adds a reference
with a new number, `retain_handle` another copy of one that is held, `close` takes one away, and
nothing else changes it.  `Counts` says that the table keeps exactly this multiset: a number is open
when there is a reference to it, and its count is the number of those references.
-/

namespace IanOS.Vfs

open Multiset Option Table

variable {v v' : Vfs} {out : Outside} {k n id : ℕ} {held : Multiset ℕ}

/-- The number 0 is never given to a handle, so it stands for failure. -/
lemma openPath_eq_zero {path : Path} (h : (v.openPath out path).1 = 0) :
    (v.openPath out path).2 = v := by
  have htake (next : ℕ) : (takeHandleId next).1 ≠ 0 := by
    rw [takeHandleId]
    split
    · next hzero => simp [hzero]
    · next hne => exact hne
  obtain hrefused | ⟨k, node, dynamicVirtual, p, -, -, -, hopened⟩ := openPath_cases v out path
  · rw [hrefused]
  · rw [hopened] at h
    exact absurd h (htake _)

lemma retainHandle_eq_false (h : (v.retainHandle id).1 = false) : (v.retainHandle id).2 = v := by
  rw [retainHandle] at h ⊢
  split at h
  · rfl
  · split_ifs at h ⊢
    · rfl

/-- `n` handles have been opened, and `held` are the references to those that are open. -/
structure Counts (v : Vfs) (n : ℕ) (held : Multiset ℕ) : Prop where
  numbered : Numbered v n
  count : ∀ k, v.OpenAt k → (v.handle k).refCount = held.count (v.handle k).id
  mem : ∀ id, id ∈ held ↔ ∃ k, v.OpenAt k ∧ (v.handle k).id = id

namespace Counts

lemma zero_notMem (h : Counts v n held) : 0 ∉ held := by
  intro hzero
  obtain ⟨k, hopen, hid⟩ := (h.mem 0).1 hzero
  have := (h.numbered.range k hopen).1
  omega

lemma handleFor (h : Counts v n held) (hid : id ∈ held) :
    ∃ k, v.handleFor id = some k ∧ v.OpenAt k ∧ (v.handle k).id = id := by
  obtain ⟨k, hopen, hk⟩ := (h.mem id).1 hid
  exact ⟨k, h.numbered.handleFor_iff.2 ⟨hopen, hk⟩, hopen, hk⟩

lemma of_same (h : Counts v n held) (hnext : v'.nextHandleId = v.nextHandleId)
    (hopen : ∀ k, v'.OpenAt k ↔ v.OpenAt k)
    (hsame : ∀ k, (v'.handle k).id = (v.handle k).id ∧
      (v'.handle k).refCount = (v.handle k).refCount) : Counts v' n held := by
  refine ⟨h.numbered.of_same hnext fun k hk => ⟨(hopen k).1 hk, (hsame k).1⟩, fun k hk => ?_,
    fun id => ?_⟩
  · rw [(hsame k).1, (hsame k).2]
    exact h.count k ((hopen k).1 hk)
  · rw [h.mem id]
    refine exists_congr fun k => ?_
    rw [hopen, (hsame k).1]

lemma empty (hnext : v.nextHandleId = 1) (hclosed : ∀ k, ¬v.OpenAt k) : Counts v 0 0 := by
  refine ⟨⟨hnext, fun k hk => absurd hk (hclosed k), fun k l hk => absurd hk (hclosed k)⟩,
    fun k hk => absurd hk (hclosed k), fun id => ⟨fun hid => absurd hid (notMem_zero _), ?_⟩⟩
  rintro ⟨k, hk, -⟩
  exact absurd hk (hclosed k)

/-! ## Taking a reference -/

section

variable (h : Counts v n held)
include h

/-- A new handle has a number of its own, and one reference. -/
lemma putHandle (hn : n + 1 < 2 ^ 32) (hk : k < v.handles.count)
    (hunused : ¬(v.handle k).isOpen) (node : Option ℕ) (dynamicVirtual : Bool) (p : Path) :
    Counts (v.putHandle k node dynamicVirtual p) (n + 1) ((n + 1) ::ₘ held) := by
  obtain ⟨hnum, hid⟩ := h.numbered.putHandle hn k node dynamicVirtual p
  have hopen (l : ℕ) : (v.putHandle k node dynamicVirtual p).OpenAt l ↔ l = k ∨ v.OpenAt l := by
    rw [OpenAt, Vfs.putHandle, inUse_set]
    split
    · next hl => simp [hl, hk]
    · next hl => simp [hl, OpenAt]
  have hself : ((v.putHandle k node dynamicVirtual p).handle k).id = n + 1 ∧
      ((v.putHandle k node dynamicVirtual p).handle k).refCount = 1 := by
    rw [handle, Vfs.putHandle, slot_set_self]
    exact ⟨hid, rfl⟩
  have hother (l : ℕ) (hl : l ≠ k) :
      (v.putHandle k node dynamicVirtual p).handle l = v.handle l :=
    (slot_set _ _ _ _).trans (if_neg hl)
  have hne (l : ℕ) (hl : v.OpenAt l) : l ≠ k := by
    rintro rfl
    exact hunused hl.2
  have hnew : n + 1 ∉ held := by
    intro hmem
    obtain ⟨l, hl, heq⟩ := (h.mem _).1 hmem
    have := (h.numbered.range l hl).2
    omega
  refine ⟨hnum, fun l hl => ?_, fun id' => ?_⟩
  · obtain rfl | hl := (hopen l).1 hl
    · rw [hself.1, hself.2, count_cons_self, count_eq_zero_of_notMem hnew]
    · have hold := (h.numbered.range l hl).2
      rw [hother l (hne l hl), count_cons_of_ne (by omega)]
      exact h.count l hl
  rw [mem_cons, h.mem id']
  constructor
  · rintro (rfl | ⟨l, hl, hid'⟩)
    · exact ⟨k, (hopen k).2 (.inl rfl), hself.1⟩
    · exact ⟨l, (hopen l).2 (.inr hl), by rwa [hother l (hne l hl)]⟩
  · rintro ⟨l, hl, hid'⟩
    obtain rfl | hl := (hopen l).1 hl
    · exact .inl (hid'.symm.trans hself.1)
    · rw [hother l (hne l hl)] at hid'
      exact .inr ⟨l, hl, hid'⟩

/-- `open` refuses with the number 0, or returns the reference it adds. -/
lemma openPath (hn : n + 1 < 2 ^ 32) (out : Outside) (path : Path) :
    v.openPath out path = (0, v) ∨ (v.openPath out path).1 = n + 1 ∧
      Counts (v.openPath out path).2 (n + 1) ((n + 1) ::ₘ held) := by
  obtain hrefused | ⟨k, node, dynamicVirtual, p, hk, hunused, -, hopened⟩ :=
    openPath_cases v out path
  · exact .inl hrefused
  · rw [hopened]
    exact .inr ⟨(h.numbered.putHandle hn k node dynamicVirtual p).2,
      h.putHandle hn hk hunused node dynamicVirtual p⟩

/-- The count of one handle is set to the number of references there are to it. -/
lemma setRefCount {held' : Multiset ℕ} {refCount : ℕ} (hopen : v.OpenAt k)
    (hk : (v.handle k).id = id) (hcount : refCount = held'.count id) (hpos : 0 < refCount)
    (hother : ∀ id' ≠ id, held'.count id' = held.count id') :
    Counts (v.setRefCount k refCount) n held' := by
  have hslot (l : ℕ) : (v.setRefCount k refCount).handle l =
      if l = k then { v.handle l with refCount := refCount } else v.handle l :=
    v.handles.slot_modify k (fun h => { h with refCount := refCount }) l
  have hsame (l : ℕ) : ((v.setRefCount k refCount).handle l).id = (v.handle l).id ∧
      ((v.setRefCount k refCount).handle l).isOpen = (v.handle l).isOpen := by
    rw [hslot]
    split <;> exact ⟨rfl, rfl⟩
  have hopen' (l : ℕ) : (v.setRefCount k refCount).OpenAt l ↔ v.OpenAt l := by
    refine and_congr_right fun _ => ?_
    rw [← handle, ← handle, (hsame l).2]
  refine ⟨h.numbered.of_same rfl fun l hl => ⟨(hopen' l).1 hl, (hsame l).1⟩, fun l hl => ?_,
    fun id' => ?_⟩
  · rw [hslot]
    split
    · next hlk => rw [hlk, hk, hcount]
    · next hlk =>
      have hl := (hopen' l).1 hl
      rw [hother _ fun heq => hlk (h.numbered.distinct l k hl hopen (heq.trans hk.symm))]
      exact h.count l hl
  · have hmem : id' ∈ held' ↔ id' ∈ held := by
      by_cases heq : id' = id
      · rw [heq]
        exact iff_of_true (count_pos.1 (hcount ▸ hpos)) ((h.mem id).2 ⟨k, hopen, hk⟩)
      · rw [← count_pos, ← count_pos, hother id' heq]
    rw [hmem, h.mem id']
    refine exists_congr fun l => ?_
    rw [hopen', (hsame l).1]

/-- `retain_handle` of a number that is held refuses, or adds a reference. -/
lemma retainHandle (hid : id ∈ held) :
    v.retainHandle id = (false, v) ∨
      (v.retainHandle id).1 = true ∧ Counts (v.retainHandle id).2 n (id ::ₘ held) := by
  obtain ⟨k, hfor, hopen, hk⟩ := h.handleFor hid
  rw [Vfs.retainHandle, hfor]
  dsimp only
  split_ifs with hfull
  · exact .inl rfl
  have hcount : (v.handle k).refCount + 1 = (id ::ₘ held).count id := by
    rw [count_cons_self, h.count k hopen, hk]
  exact .inr ⟨rfl, h.setRefCount hopen hk hcount (Nat.succ_pos _) fun id' hne =>
    count_cons_of_ne hne held⟩

end

/-! ## Giving one back -/

/-- The last reference to a handle is given back. -/
lemma closeHandle (h : Counts v n (id ::ₘ held)) (hopen : v.OpenAt k) (hk : (v.handle k).id = id)
    (hlast : id ∉ held) : Counts (v.closeHandle k) n held := by
  have hold (l : ℕ) (hl : (v.closeHandle k).OpenAt l) :
      v.OpenAt l ∧ (v.closeHandle k).handle l = v.handle l :=
    openAt_set rfl hl (ne_of_openAt_closeHandle hl)
  have hstill (l : ℕ) (hl : v.OpenAt l) (hlk : l ≠ k) : (v.closeHandle k).OpenAt l := by
    rwa [OpenAt, Vfs.closeHandle, inUse_set, if_neg hlk]
  have hne (l : ℕ) (hl : v.OpenAt l) (hlk : l ≠ k) : (v.handle l).id ≠ id :=
    fun heq => hlk (h.numbered.distinct l k hl hopen (heq.trans hk.symm))
  refine ⟨h.numbered.closeHandle k, fun l hl => ?_, fun id' => ?_⟩
  · have hlk := ne_of_openAt_closeHandle hl
    obtain ⟨hl, hslot⟩ := hold l hl
    rw [hslot, h.count l hl, count_cons_of_ne (hne l hl hlk)]
  constructor
  · intro hid'
    obtain ⟨l, hl, heq⟩ := (h.mem id').1 (mem_cons_of_mem hid')
    have hlk : l ≠ k := by
      rintro rfl
      exact hlast (hk ▸ heq ▸ hid')
    have hl' := hstill l hl hlk
    exact ⟨l, hl', by rw [(hold l hl').2, heq]⟩
  · rintro ⟨l, hl, heq⟩
    have hlk := ne_of_openAt_closeHandle hl
    obtain ⟨hl, hslot⟩ := hold l hl
    rw [hslot] at heq
    refine (mem_cons.1 ((h.mem id').2 ⟨l, hl, heq⟩)).resolve_left ?_
    rintro rfl
    exact hne l hl hlk heq

/-- `close` takes one reference away. -/
lemma close (h : Counts v n (id ::ₘ held)) : Counts (v.close id).2 n held := by
  obtain ⟨k, hfor, hopen, hk⟩ := h.handleFor (mem_cons_self id held)
  have hcount : (v.handle k).refCount = held.count id + 1 := by
    rw [h.count k hopen, hk, count_cons_self]
  rw [Vfs.close, hfor]
  dsimp only
  split_ifs with hmany
  · have hrest : (v.handle k).refCount - 1 = held.count id := by omega
    have hpos : 0 < (v.handle k).refCount - 1 := by omega
    exact h.setRefCount hopen hk hrest hpos fun id' hne =>
      (count_cons_of_ne hne held).symm
  · exact h.closeHandle hopen hk (count_eq_zero.1 (by omega))

/-! ## Everything else -/

/-- The functions that neither take nor give back a reference. -/
lemma onHandle (h : Counts v n held) (out : Outside) (op : HandleOp)
    (hopen : ∀ path, op ≠ .openPath path) (hretain : ∀ id, op ≠ .retainHandle id)
    (hclose : ∀ id, op ≠ .close id) : Counts (v.onHandle out op) n held := by
  have hoff (k offset : ℕ) : Counts (v.setOffset k offset) n held := by
    have hslot (l : ℕ) : (v.setOffset k offset).handle l =
        if l = k then { v.handle l with offset := offset } else v.handle l :=
      v.handles.slot_modify k (fun h => { h with offset := offset }) l
    refine h.of_same rfl (fun l => and_congr_right fun _ => ?_) fun l => ?_
    · rw [← handle, hslot]
      split <;> rfl
    · rw [hslot]
      split <;> exact ⟨rfl, rfl⟩
  have hchange := onHandle_change v out op
  generalize v.onHandle out op = v' at hchange
  cases hchange with
  | refuse => exact h
  | opened => exact absurd rfl (hopen _)
  | sought => exact hoff _ _
  | stored => exact (hoff _ _).of_same rfl (fun _ => Iff.rfl) fun _ => ⟨rfl, rfl⟩
  | retained => exact absurd rfl (hretain _)
  | released | closed => exact absurd rfl (hclose _)

/-- Changes of the namespace leave the references alone. -/
lemma change {op : NamespaceOp} {r : Bool × Vfs} (h : Counts v n held) (hchange : Change v op r) :
    Counts r.2 n held := by
  refine h.of_same (nextHandleId_change hchange) (fun k => ?_) fun k => ?_
  · obtain ⟨offset, hhandle⟩ := handle_change hchange k
    rw [OpenAt, Table.InUse, count_handles_change hchange, ← handle, hhandle]
    rfl
  · obtain ⟨offset, hhandle⟩ := handle_change hchange k
    rw [hhandle]
    exact ⟨rfl, rfl⟩

lemma performAll (h : Counts v n held) (ops : List NamespaceOp) :
    Counts (v.performAll ops) n held := by
  induction ops generalizing v with
  | nil => exact h
  | cons op ops ih => exact ih (h.change (perform_change v op))

/-- After `initialize` no handle is open. -/
lemma booted (registrations : List Registration) : Counts (booted registrations) 0 0 := by
  obtain ⟨-, -, nodes, hv⟩ := onlyRegistered_booted registrations
  rw [hv]
  exact empty rfl fun k hk => (nomatch hk.2)

end Counts

/-! ## Whoever holds the others -/

variable {id' : ℕ}

/-- The count of the open handle with this number, 0 if there is none. -/
def references (v : Vfs) (id : ℕ) : ℕ := (v.handleFor id).elim 0 fun k => (v.handle k).refCount

/-- No two open handles have the same number. -/
def DistinctHandles (v : Vfs) : Prop :=
  ∀ k l, v.OpenAt k → v.OpenAt l → (v.handle k).id = (v.handle l).id → k = l

/-- Writing the entry of a number does not touch the counts of the others. -/
lemma references_set {a : FileHandle} (hhandles : v'.handles = v.handles.set k a)
    (hk : v.handleFor id = some k) (ha : a.isOpen → a.id = id) (hne : id' ≠ id) :
    v'.references id' = v.references id' := by
  obtain ⟨-, -, hid, -⟩ := handleFor_eq_some.1 hk
  have hslot (l : ℕ) : v'.handle l = if l = k then a else v.handle l := by
    rw [handle, hhandles, slot_set]
    rfl
  have hfor : v'.handleFor id' = v.handleFor id' := by
    refine if_congr Iff.rfl rfl (find_congr (by rw [hhandles, count_set]) fun l _ => ?_)
    have hentry := hslot l
    rw [handle] at hentry
    rw [hentry]
    split
    · next hlk =>
      refine iff_of_false (fun h => hne (h.2.symm.trans (ha h.1))) fun h => hne ?_
      rwa [← h.2, hlk]
    · exact Iff.rfl
  rw [references, references, hfor]
  cases hl : v.handleFor id' with
  | none => rfl
  | some l =>
    obtain ⟨-, -, hid', -⟩ := handleFor_eq_some.1 hl
    have hlk : l ≠ k := by
      rintro rfl
      exact hne (hid'.symm.trans hid)
    rw [elim_some, elim_some, hslot, if_neg hlk]

/-- `close` gives back one reference, if there is one. -/
lemma references_close (h : DistinctHandles v) (id id' : ℕ) :
    (v.close id).2.references id' = v.references id' - if id' = id then 1 else 0 := by
  cases hk : v.handleFor id with
  | none =>
    rw [close]
    simp only [hk]
    split
    · next heq => rw [heq, references, hk, elim_none]
    · exact (Nat.sub_zero _).symm
  | some k =>
    obtain ⟨hnonzero, hopen, hid, hfirst⟩ := handleFor_eq_some.1 hk
    have hcount : v.references id = (v.handle k).refCount := by rw [references, hk, elim_some]
    rw [close]
    simp only [hk]
    split_ifs with hmany heq heq
    · rw [heq, hcount]
      have hslot (l : ℕ) : (v.setRefCount k ((v.handle k).refCount - 1)).handle l =
          if l = k then { v.handle l with refCount := (v.handle k).refCount - 1 } else v.handle l :=
        v.handles.slot_modify k (fun h => { h with refCount := (v.handle k).refCount - 1 }) l
      have hsame (l : ℕ) : ((v.setRefCount k ((v.handle k).refCount - 1)).handle l).isOpen =
          (v.handle l).isOpen ∧ ((v.setRefCount k ((v.handle k).refCount - 1)).handle l).id =
            (v.handle l).id := by
        rw [hslot]
        split <;> exact ⟨rfl, rfl⟩
      have hfor : (v.setRefCount k ((v.handle k).refCount - 1)).handleFor id = some k := by
        refine handleFor_eq_some.2 ⟨hnonzero, ⟨hopen.1, (hsame k).1.trans hopen.2⟩,
          (hsame k).2.trans hid, fun j hj => ?_⟩
        rw [(hsame j).1, (hsame j).2]
        exact hfirst j hj
      show (v.setRefCount k ((v.handle k).refCount - 1)).references id = _
      rw [references, hfor, elim_some, hslot, if_pos rfl]
    · have hset : (v.setRefCount k ((v.handle k).refCount - 1)).handles =
          v.handles.set k { v.handle k with refCount := (v.handle k).refCount - 1 } := rfl
      exact references_set hset hk (fun _ => hid) heq
    · rw [heq]
      have hfor : (v.closeHandle k).handleFor id = none := by
        rw [eq_none_iff_forall_ne_some]
        intro l hl
        obtain ⟨-, hopen', hid', -⟩ := handleFor_eq_some.1 hl
        have hlk := ne_of_openAt_closeHandle hopen'
        obtain ⟨hold, hslot⟩ := openAt_set rfl hopen' hlk
        rw [hslot] at hid'
        exact hlk (h l k hold hopen (hid'.trans hid.symm))
      show (v.closeHandle k).references id = _
      rw [references, hfor, elim_none]
      omega
    · have hset : (v.closeHandle k).handles = v.handles.set k {} := rfl
      exact references_set hset hk (by simp) heq

lemma DistinctHandles.of_same (h : DistinctHandles v)
    (hsame : ∀ k, v'.OpenAt k → v.OpenAt k ∧ (v'.handle k).id = (v.handle k).id) :
    DistinctHandles v' := by
  intro k l hk hl hid
  obtain ⟨hkopen, hkid⟩ := hsame k hk
  obtain ⟨hlopen, hlid⟩ := hsame l hl
  exact h k l hkopen hlopen (hkid.symm.trans (hid.trans hlid))

lemma DistinctHandles.close (h : DistinctHandles v) (id : ℕ) : DistinctHandles (v.close id).2 := by
  rw [Vfs.close]
  split
  · exact h
  next k _ =>
    split
    · refine h.of_same fun l hl => ?_
      obtain ⟨hopen, offset, refCount, hslot⟩ :=
        openAt_modify rfl (fun a => ⟨a.offset, a.refCount - 1, rfl⟩) hl
      exact ⟨hopen, by rw [hslot]⟩
    · refine h.of_same fun l hl => ?_
      have hl' : (v.closeHandle k).OpenAt l := hl
      obtain ⟨hopen, hslot⟩ := openAt_set rfl hl' (ne_of_openAt_closeHandle hl')
      exact ⟨hopen, congrArg FileHandle.id hslot⟩

end IanOS.Vfs
