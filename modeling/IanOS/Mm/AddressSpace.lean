import IanOS.Lib.WordStack
import IanOS.Mm.Pmm

/-!
# Address spaces

A model of `kernel/src/mm/address_space.cpp`: four levels of page tables in physical memory, whose
pages come from the page allocator.  Physical memory is read and written in words of eight bytes; a
table is named by the physical address at which it begins, and entry `i` of it is the word `8 * i`
bytes further on.
-/

namespace IanOS

namespace Paging

def PagePresent : Word64 := 1 <<< 0
def PageWrite : Word64 := 1 <<< 1
def PageUser : Word64 := 1 <<< 2

def kAddrMask : Word64 := 0x000ffffffffff000

def pml4Index (v : Word64) : Fin 512 := Fin.ofNat 512 (v >>> 39).toNat
def pdptIndex (v : Word64) : Fin 512 := Fin.ofNat 512 (v >>> 30).toNat
def pdIndex (v : Word64) : Fin 512 := Fin.ofNat 512 (v >>> 21).toNat
def ptIndex (v : Word64) : Fin 512 := Fin.ofNat 512 (v >>> 12).toNat

/-- The table an entry or a root register points to. -/
def table (physical : Word64) : ℕ := (physical &&& kAddrMask).toNat

/-- The allocator and the words of physical memory. -/
structure State where
  pmm : PhysicalMemoryManager
  words : ℕ → Word64

/-- `MappingResult`. -/
structure MappingResult where
  ok : Bool
  error : String
  deriving DecidableEq, Repr

namespace State

variable (s : State)

/-- `table[index]`. -/
def entry (table : ℕ) (index : Fin 512) : Word64 := s.words (table + 8 * index)

def setEntry (table : ℕ) (index : Fin 512) (e : Word64) : State :=
  { s with words := Function.update s.words (table + 8 * index) e }

/-- `memset(page, 0, kPageSize)`. -/
def clearPage (page : ℕ) : State :=
  { s with words := fun a => if page ≤ a ∧ a < page + kPageSize then 0 else s.words a }

/-- The table behind an entry, which is created if there is none. -/
def ensureTable (parent : ℕ) (index : Fin 512) (flags : Word64) : Option ℕ × State :=
  if s.entry parent index &&& PagePresent = 0 then
    let r := s.pmm.allocatePage
    let s := { s with pmm := r.1 }
    if r.2 = 0 then (none, s)
    else
      let s := s.clearPage r.2
      let s := s.setEntry parent index
        (BitVec.ofNat 64 r.2 ||| PagePresent ||| PageWrite ||| (flags &&& PageUser))
      (some (table (s.entry parent index)), s)
  else (some (table (s.entry parent index)), s)

/-- The loop that copies entries of the root in use. -/
def copyEntries (source target : ℕ) (l : List ℕ) : State :=
  l.foldl (fun s i => s.setEntry target (Fin.ofNat 512 i) (s.entry source (Fin.ofNat 512 i))) s

/-- `create_address_space`: the root of the new address space, 0 if there is no memory.  Its upper
half is that of the address space in use, whose root is `active`. -/
def createAddressSpace (active : Word64) : Word64 × State :=
  let r := s.pmm.allocatePage
  let s := { s with pmm := r.1 }
  if r.2 = 0 then (0, s)
  else
    let root := BitVec.ofNat 64 r.2
    let s := s.clearPage r.2
    (root,
      (List.range' 256 256).foldl
        (fun s i => s.setEntry (table root) (Fin.ofNat 512 i)
          (s.entry (table active) (Fin.ofNat 512 i))) s)

def mapPage (pml4 virt phys flags : Word64) : MappingResult × State :=
  if pml4 = 0 then (⟨false, "address space has no PML4"⟩, s)
  else if virt &&& 0xfff ≠ 0 ∨ phys &&& 0xfff ≠ 0 then (⟨false, "unaligned address-space map"⟩, s)
  else
    let r := s.ensureTable (table pml4) (pml4Index virt) flags
    match r.1 with
    | none => (⟨false, "failed to allocate address-space PDPT"⟩, r.2)
    | some pdpt =>
      let r := r.2.ensureTable pdpt (pdptIndex virt) flags
      match r.1 with
      | none => (⟨false, "failed to allocate address-space PD"⟩, r.2)
      | some pd =>
        let r := r.2.ensureTable pd (pdIndex virt) flags
        match r.1 with
        | none => (⟨false, "failed to allocate address-space PT"⟩, r.2)
        | some pt =>
          if r.2.entry pt (ptIndex virt) &&& PagePresent ≠ 0 then
            (⟨false, "address-space virtual page is already mapped"⟩, r.2)
          else
            (⟨true, "ok"⟩,
              r.2.setEntry pt (ptIndex virt)
                ((phys &&& kAddrMask) ||| (flags &&& ~~~kAddrMask) ||| PagePresent))

def translate (pml4 virt : Word64) : Word64 :=
  if pml4 = 0 then 0
  else
    let pml4e := s.entry (table pml4) (pml4Index virt)
    if pml4e &&& PagePresent = 0 then 0
    else
      let pdpte := s.entry (table pml4e) (pdptIndex virt)
      if pdpte &&& PagePresent = 0 then 0
      else
        let pde := s.entry (table pdpte) (pdIndex virt)
        if pde &&& PagePresent = 0 then 0
        else
          let pte := s.entry (table pde) (ptIndex virt)
          if pte &&& PagePresent = 0 then 0 else (pte &&& kAddrMask) + (virt &&& 0xfff)

def pageFlags (pml4 virt : Word64) : Word64 :=
  if pml4 = 0 then 0
  else
    let pml4e := s.entry (table pml4) (pml4Index virt)
    if pml4e &&& PagePresent = 0 then 0
    else
      let pdpte := s.entry (table pml4e) (pdptIndex virt)
      if pdpte &&& PagePresent = 0 then 0
      else
        let pde := s.entry (table pdpte) (pdIndex virt)
        if pde &&& PagePresent = 0 then 0 else s.entry (table pde) (ptIndex virt)

/-- `pmm().free_page(physical)`. -/
def freePage (physical : ℕ) : State := { s with pmm := s.pmm.freePage physical }

/-- The loop of `destroy_address_space` over the entries of a page directory. -/
def destroyPageTables (pd : ℕ) : State :=
  (List.range 512).foldl (fun s pdi =>
    let pde := s.entry pd (Fin.ofNat 512 pdi)
    if pde &&& PagePresent = 0 then s else s.freePage (table pde)) s

/-- The loop of `destroy_address_space` over the entries of a directory pointer table. -/
def destroyDirectories (pdpt : ℕ) : State :=
  (List.range 512).foldl (fun s pdpti =>
    let pdpte := s.entry pdpt (Fin.ofNat 512 pdpti)
    if pdpte &&& PagePresent = 0 then s
    else (s.destroyPageTables (table pdpte)).freePage (table pdpte)) s

/-- `destroy_address_space`, with the value it leaves in the root register. -/
def destroyAddressSpace (pml4 : Word64) : Word64 × State :=
  if pml4 = 0 then (pml4, s)
  else
    let s := (List.range 256).foldl (fun s pml4i =>
      let pml4e := s.entry (table pml4) (Fin.ofNat 512 pml4i)
      if pml4e &&& PagePresent = 0 then s
      else (s.destroyDirectories (table pml4e)).freePage (table pml4e)) s
    (0, s.freePage pml4.toNat)

end State
end Paging
end IanOS
