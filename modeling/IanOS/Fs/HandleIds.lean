import IanOS.Fs.Handles

/-!
# Numbers of handles

`open` numbers handles by a 32-bit counter that starts at 1.  As long as the counter has not come
round, open handles have different numbers and `handle_for` finds the one meant.
-/

namespace IanOS.Vfs

variable {v v' : Vfs} {out : Outside} {k n : ℕ} {op : NamespaceOp} {r : Bool × Vfs}

/-- The state after `n` handles have been opened. -/
structure Numbered (v : Vfs) (n : ℕ) : Prop where
  next : v.nextHandleId = (n + 1) % 2 ^ 32
  range : ∀ k, v.OpenAt k → 1 ≤ (v.handle k).id ∧ (v.handle k).id ≤ n
  distinct : ∀ k l, v.OpenAt k → v.OpenAt l → (v.handle k).id = (v.handle l).id → k = l

lemma Numbered.handleFor_iff {id : ℕ} (h : Numbered v n) :
    v.handleFor id = some k ↔ v.OpenAt k ∧ (v.handle k).id = id := by
  rw [handleFor_eq_some]
  constructor
  · rintro ⟨-, hopen, hid, -⟩
    exact ⟨hopen, hid⟩
  · rintro ⟨hopen, rfl⟩
    refine ⟨Nat.one_le_iff_ne_zero.1 (h.range k hopen).1, hopen, rfl, fun j hj ⟨hjopen, hjid⟩ => ?_⟩
    exact hj.ne (h.distinct j k ⟨hj.trans hopen.1, hjopen⟩ hopen hjid)

/-- The numbers of open handles are as before, though some may have been closed. -/
lemma Numbered.of_same (h : Numbered v n) (hnext : v'.nextHandleId = v.nextHandleId)
    (hsame : ∀ k, v'.OpenAt k → v.OpenAt k ∧ (v'.handle k).id = (v.handle k).id) :
    Numbered v' n := by
  refine ⟨hnext.trans h.next, fun k hk => ?_, fun k l hk hl hid => ?_⟩
  · obtain ⟨hopen, hid⟩ := hsame k hk
    rw [hid]
    exact h.range k hopen
  · obtain ⟨hkopen, hkid⟩ := hsame k hk
    obtain ⟨hlopen, hlid⟩ := hsame l hl
    exact h.distinct k l hkopen hlopen (by rw [← hkid, ← hlid, hid])

lemma nextHandleId_change (hchange : Change v op r) : r.2.nextHandleId = v.nextHandleId := by
  cases hchange with
  | deleteFile =>
    rw [freeUnlinked, freeLink]
    split <;> split <;> rfl
  | deleteDirectory =>
    rw [freeDirectory]
    split <;> rfl
  | _ => rfl

section

variable (h : Numbered v n)
include h

lemma Numbered.change (hchange : Change v op r) : Numbered r.2 n := by
  refine h.of_same (nextHandleId_change hchange) fun k hk => ?_
  obtain ⟨offset, hhandle⟩ := handle_change hchange k
  refine ⟨openAt_change hchange hk, ?_⟩
  rw [hhandle]

/-- A new handle gets a new number. -/
lemma Numbered.putHandle (hn : n + 1 < 2 ^ 32) (k : ℕ) (node : Option ℕ)
    (dynamicVirtual : Bool) (p : Path) : Numbered (v.putHandle k node dynamicVirtual p) (n + 1) ∧
      (takeHandleId v.nextHandleId).1 = n + 1 := by
  have hid : takeHandleId v.nextHandleId = (n + 1, (n + 1 + 1) % 2 ^ 32) := by
    rw [h.next, Nat.mod_eq_of_lt hn, takeHandleId, if_neg n.succ_ne_zero]
  have hold (l : ℕ) (hl : (v.putHandle k node dynamicVirtual p).OpenAt l) (hlk : l ≠ k) :
      v.OpenAt l ∧ (v.putHandle k node dynamicVirtual p).handle l = v.handle l := by
    have hslot : (v.putHandle k node dynamicVirtual p).handle l = v.handle l :=
      (Table.slot_set _ _ _ _).trans (if_neg hlk)
    refine ⟨⟨hl.1, ?_⟩, hslot⟩
    rw [← handle, ← hslot]
    exact hl.2
  have hself : ((v.putHandle k node dynamicVirtual p).handle k).id = n + 1 := by
    have hslot := v.handles.slot_set_self k
      { id := (takeHandleId v.nextHandleId).1, node := node, offset := 0, refCount := 1
        isOpen := true, dynamicVirtual := dynamicVirtual, path := p }
    refine (congrArg FileHandle.id hslot).trans ?_
    rw [hid]
  have hid' (l : ℕ) (hl : (v.putHandle k node dynamicVirtual p).OpenAt l) (hlk : l ≠ k) :
      1 ≤ ((v.putHandle k node dynamicVirtual p).handle l).id ∧
        ((v.putHandle k node dynamicVirtual p).handle l).id ≤ n := by
    obtain ⟨hopen, hslot⟩ := hold l hl hlk
    rw [hslot]
    exact h.range l hopen
  refine ⟨⟨?_, fun l hl => ?_, fun l m hl hm heq => ?_⟩, by rw [hid]⟩
  · rw [Vfs.putHandle, hid]
  · by_cases hlk : l = k
    · rw [hlk]
      omega
    · have := hid' l hl hlk
      omega
  by_cases hlk : l = k
  · by_cases hmk : m = k
    · rw [hlk, hmk]
    · rw [hlk] at heq
      have := hid' m hm hmk
      omega
  · by_cases hmk : m = k
    · rw [hmk] at heq
      have := hid' l hl hlk
      omega
    · obtain ⟨hlopen, hlslot⟩ := hold l hl hlk
      obtain ⟨hmopen, hmslot⟩ := hold m hm hmk
      exact h.distinct l m hlopen hmopen (by rw [← hlslot, ← hmslot, heq])

lemma Numbered.of_modify {g : FileHandle → FileHandle}
    (hnext : v'.nextHandleId = v.nextHandleId) (hhandles : v'.handles = v.handles.modify k g)
    (hg : ∀ a, ∃ offset refCount, g a = { a with offset := offset, refCount := refCount }) :
    Numbered v' n := by
  refine h.of_same hnext fun k hk => ?_
  obtain ⟨hopen, offset, refCount, hslot⟩ := openAt_modify hhandles hg hk
  exact ⟨hopen, by rw [hslot]⟩

lemma Numbered.closeHandle (k : ℕ) : Numbered (v.closeHandle k) n := by
  refine h.of_same rfl fun k hk => ?_
  obtain ⟨hopen, hslot⟩ := openAt_set rfl hk (ne_of_openAt_closeHandle hk)
  exact ⟨hopen, by rw [hslot]⟩

/-- At most `open` uses up a number. -/
lemma Numbered.onHandle {op : HandleOp} (hchange : HandleChange v out op v')
    (hn : (∃ path, op = .openPath path) → n + 1 < 2 ^ 32) :
    Numbered v' n ∨ (∃ path, op = .openPath path) ∧ Numbered v' (n + 1) := by
  cases hchange with
  | refuse => exact .inl h
  | @opened path => exact .inr ⟨⟨path, rfl⟩, (h.putHandle (hn ⟨path, rfl⟩) _ _ _ _).1⟩
  | sought | stored => exact .inl (h.of_modify rfl rfl fun a => ⟨_, a.refCount, rfl⟩)
  | retained | released => exact .inl (h.of_modify rfl rfl fun a => ⟨a.offset, _, rfl⟩)
  | closed => exact .inl (h.closeHandle _)

end

end IanOS.Vfs
