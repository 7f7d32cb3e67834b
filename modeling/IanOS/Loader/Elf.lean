import IanOS.Lib.Scan

/-!
# ELF images

The file header and the program headers of an ELF image in memory (`Elf64_Ehdr` and `Elf64_Phdr`, of
which the kernel and the boot loader have the same copy), and the check of the file header in
`kernel/src/userspace/userspace.cpp`.  A field is read where the code reads it, so that what is read
of an image is part of the model.

Addresses and sizes are 64-bit words and all sums wrap.
-/

namespace IanOS.Elf

open Scan (field)

/-- `sizeof(Elf64_Ehdr)` and `sizeof(Elf64_Phdr)`. -/
def sizeofEhdr : Word64 := 64

@[inherit_doc sizeofEhdr]
def sizeofPhdr : Word64 := 56

def kElfLoad : Word64 := 1
def kElfExecute : Word64 := 1
def kElfWrite : Word64 := 2

/-! ## The fields -/

def eIdent (eh i : Word64) : Scan Word64 := field (eh + i) 1
def eMachine (eh : Word64) : Scan Word64 := field (eh + 18) 2
def eEntry (eh : Word64) : Scan Word64 := field (eh + 24) 8
def ePhoff (eh : Word64) : Scan Word64 := field (eh + 32) 8
def ePhentsize (eh : Word64) : Scan Word64 := field (eh + 54) 2
def ePhnum (eh : Word64) : Scan Word64 := field (eh + 56) 2

def pType (ph : Word64) : Scan Word64 := field ph 4
def pFlags (ph : Word64) : Scan Word64 := field (ph + 4) 4
def pOffset (ph : Word64) : Scan Word64 := field (ph + 8) 8
def pVaddr (ph : Word64) : Scan Word64 := field (ph + 16) 8
def pPaddr (ph : Word64) : Scan Word64 := field (ph + 24) 8
def pFilesz (ph : Word64) : Scan Word64 := field (ph + 32) 8
def pMemsz (ph : Word64) : Scan Word64 := field (ph + 40) 8

/-- `&ph[i]`, where `ph` is `base + e_phoff`. -/
def phdr (base phoff : Word64) (i : ℕ) : Word64 := base + phoff + BitVec.ofNat 64 i * sizeofPhdr

/-! ## Checks of the file header -/

/-- Whether the fields have these values; the first that has not ends the comparison. -/
def fieldsAre : List (Scan Word64 × Word64) → Scan Bool
  | [] => pure true
  | (f, v) :: fields => do
    let w ← f
    if w ≠ v then return false
    fieldsAre fields

def magic (eh : Word64) : List (Scan Word64 × Word64) :=
  [(eIdent eh 0, 0x7f), (eIdent eh 1, 0x45), (eIdent eh 2, 0x4c), (eIdent eh 3, 0x46)]

/-- `e_phoff + e_phnum * sizeof(Elf64_Phdr) > size`. -/
def tableExceeds (eh size : Word64) : Scan Bool := do
  let phoff ← ePhoff eh
  let phnum ← ePhnum eh
  return decide (size < phoff + phnum * sizeofPhdr)

/-- `valid_elf64`. -/
def validElf64 (eh size : Word64) : Scan Bool := do
  if size < sizeofEhdr then return false
  if !(← fieldsAre (magic eh)) then return false
  if !(← fieldsAre [(eIdent eh 4, 2), (eIdent eh 5, 1)]) then return false
  if !(← fieldsAre [(eMachine eh, 62), (ePhentsize eh, 56)]) then return false
  if ← tableExceeds eh size then return false
  return true

end IanOS.Elf
