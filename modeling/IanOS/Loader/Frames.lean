import IanOS.Loader.Building
import IanOS.Mm.AddressSpaceGrowth

/-!
# The contents of frames

The bytes of a frame are those of the 512 words the page tables would read in it.  A page that is
not written keeps its bytes, and an image on such pages is read as before.
-/

namespace IanOS.Loader

open Paging

/-- Reading changes no memory. -/
@[simp] lemma Building.memory_scan (b : Building) {α : Type} (m : Scan α) :
    (b.scan m).2.memory = b.memory := rfl

variable {s s' : State} {a : Word64}

lemma byteAt_eq (s : State) (a : Word64) : byteAt s a =
    WordBytes.byteOf (s.entry (a.toNat / kPageSize * kPageSize)
      (Fin.ofNat 512 (a.toNat % kPageSize / 8))) (a.toNat % 8) := by
  rw [byteAt, WordBytes.load, State.entry, Fin.val_ofNat]
  congr 2
  simp only [kPageSize]
  omega

lemma byteAt_of_samePage (h : State.SamePage s s' (a.toNat / kPageSize)) :
    byteAt s' a = byteAt s a := by
  rw [byteAt_eq, byteAt_eq, h]

/-! ## Images -/

variable {base size : Word64} {α : Type} {m : Scan α}

/-- The bytes of an image are not on the allocator's list of free pages. -/
def ImageUsed (s : State) (base size : Word64) : Prop :=
  ∀ a : Word64, (a - base).toNat < size.toNat → a.toNat / kPageSize ∉ s.pmm.freeSet

/-- The image has the same bytes in both states. -/
def ImageKept (s s' : State) (base size : Word64) : Prop :=
  ∀ a : Word64, (a - base).toNat < size.toNat → byteAt s' a = byteAt s a

/-- Memory that was not on the list of free pages has not changed. -/
def UsedKept (s s' : State) : Prop := ∀ page ∉ s.pmm.freeSet, State.SamePage s s' page

lemma UsedKept.image (h : UsedKept s s') (hused : ImageUsed s base size) :
    ImageKept s s' base size :=
  fun a ha => byteAt_of_samePage (h _ (hused a ha))

lemma usedKept_createAddressSpace (s : State) (active : Word64) :
    UsedKept s (s.createAddressSpace active).2 :=
  fun _ hused => State.samePage_createAddressSpace hused

/-- What is read inside an image that is kept is the same in both states. -/
lemma ImageKept.value (h : ImageKept s s' base size)
    (hm : Scan.Within (fun e => e.Inside base size.toNat) m (byteAt s)) :
    m.value (byteAt s') = m.value (byteAt s) :=
  (m.value_congr fun e he k hk => h _ (hm e he k hk)).1

end IanOS.Loader
