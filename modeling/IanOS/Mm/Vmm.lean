import IanOS.Mm.AddressSpace

/-!
# The kernel's own page tables

A model of `VirtualMemoryManager` in `kernel/src/mm/vmm.cpp`: the functions that map, unmap and
translate an address in the tables below the root the kernel runs on, with what they return.  The
counters they keep, and the invalidation of cached translations after a change, are left out.

Unlike the tables of a process (`IanOS.Mm.AddressSpace`), these tables come from the firmware, and
an entry at the second or third level may map a page of 1 GiB or 2 MiB itself.  `translate` looks at
the bit that says so.
-/

namespace IanOS

namespace Vmm

open Paging

def kDefaultTableFlags : Word64 := PagePresent ||| PageWrite

/-- The bit of an entry at the second or third level that maps a large page. -/
def largeBit : Word64 := 1 <<< 7

def ensureTable (s : State) (parent : ℕ) (index : Fin 512) : Option ℕ × State :=
  if s.entry parent index &&& PagePresent = 0 then
    let r := s.pmm.allocatePage
    let s := { s with pmm := r.1 }
    if r.2 = 0 then (none, s)
    else
      let s := s.clearPage r.2
      let s := s.setEntry parent index (BitVec.ofNat 64 r.2 ||| kDefaultTableFlags)
      (some (table (s.entry parent index)), s)
  else (some (table (s.entry parent index)), s)

def mapPage (s : State) (root virt phys flags : Word64) : MappingResult × State :=
  if virt &&& 0xfff ≠ 0 ∨ phys &&& 0xfff ≠ 0 then (⟨false, "unaligned map_page address"⟩, s)
  else
    let r := ensureTable s (table root) (pml4Index virt)
    match r.1 with
    | none => (⟨false, "failed to allocate PDPT"⟩, r.2)
    | some pdpt =>
      let r := ensureTable r.2 pdpt (pdptIndex virt)
      match r.1 with
      | none => (⟨false, "failed to allocate PD"⟩, r.2)
      | some pd =>
        let r := ensureTable r.2 pd (pdIndex virt)
        match r.1 with
        | none => (⟨false, "failed to allocate PT"⟩, r.2)
        | some pt =>
          if r.2.entry pt (ptIndex virt) &&& PagePresent ≠ 0 then
            (⟨false, "virtual page is already mapped"⟩, r.2)
          else
            (⟨true, "ok"⟩,
              r.2.setEntry pt (ptIndex virt)
                ((phys &&& kAddrMask) ||| (flags &&& ~~~kAddrMask) ||| PagePresent))

def unmapPage (s : State) (root virt : Word64) : MappingResult × State :=
  let pml4e := s.entry (table root) (pml4Index virt)
  if pml4e &&& PagePresent = 0 then (⟨false, "PML4 entry absent"⟩, s)
  else
    let pdpte := s.entry (table pml4e) (pdptIndex virt)
    if pdpte &&& PagePresent = 0 then (⟨false, "PDPT entry absent"⟩, s)
    else
      let pde := s.entry (table pdpte) (pdIndex virt)
      if pde &&& PagePresent = 0 then (⟨false, "PD entry absent"⟩, s)
      else
        let pt := table pde
        if s.entry pt (ptIndex virt) &&& PagePresent = 0 then (⟨false, "PT entry absent"⟩, s)
        else (⟨true, "ok"⟩, s.setEntry pt (ptIndex virt) 0)

def translate (s : State) (root virt : Word64) : Word64 :=
  let pml4e := s.entry (table root) (pml4Index virt)
  if pml4e &&& PagePresent = 0 then 0
  else
    let pdpte := s.entry (table pml4e) (pdptIndex virt)
    if pdpte &&& PagePresent = 0 then 0
    else if pdpte &&& largeBit ≠ 0 then (pdpte &&& 0x000fffffc0000000) + (virt &&& 0x3fffffff)
    else
      let pde := s.entry (table pdpte) (pdIndex virt)
      if pde &&& PagePresent = 0 then 0
      else if pde &&& largeBit ≠ 0 then (pde &&& 0x000fffffffe00000) + (virt &&& 0x1fffff)
      else
        let pte := s.entry (table pde) (ptIndex virt)
        if pte &&& PagePresent = 0 then 0 else (pte &&& kAddrMask) + (virt &&& 0xfff)

end Vmm
end IanOS
