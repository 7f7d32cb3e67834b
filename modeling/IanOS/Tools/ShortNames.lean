import Mathlib.Tactic

/-!
# The short names of a directory

`tools/make_fat_image.py` gives each child of a directory a name of eight and three characters.  A
name that has this form in capital letters is used as it is, even if the directory has such a name
already; for the others the first alias that is not used yet is taken.
-/

namespace IanOS.ShortNames

/-- `str.upper` for one character. -/
abbrev Upper := Char → List Char

def allowed : List Char := "ABCDEFGHIJKLMNOPQRSTUVWXYZ0123456789$%'-_@~`!()\x7b\x7d^#&".toList

/-- `rsplit(".", 1)`, with an empty extension if there is no dot. -/
def splitExt (name : List Char) : List Char × List Char :=
  if '.' ∈ name then
    ((name.reverse.dropWhile (· ≠ '.')).tail.reverse, (name.reverse.takeWhile (· ≠ '.')).reverse)
  else (name, [])

def ljust (text : List Char) (width : ℕ) : List Char :=
  text ++ List.replicate (width - text.length) ' '

variable (upper : Upper)

/-- `short_name`; `none` is the `ValueError`. -/
def shortName (name : List Char) : Option (List Char) :=
  let base := (splitExt name).1.flatMap upper
  let ext := (splitExt name).2.flatMap upper
  if base = [] ∨ base.length > 8 ∨ ext.length > 3 ∨ (base ++ ext).any (· ∉ allowed) then none
  else some (ljust base 8 ++ ljust ext 3)

def sanitizeShortPart (text : List Char) : List Char :=
  let out := (text.flatMap upper).filter (· ∈ allowed)
  if out = [] then "FILE".toList else out

/-- The alias of `make_short_alias` with this number. -/
def candidate (name : List Char) (index : ℕ) : List Char :=
  let (base, ext) := splitExt name
  let suffix := '~' :: (toString index).toList
  let cleanExt := if ext = [] then [] else (sanitizeShortPart upper ext).take 3
  ljust ((sanitizeShortPart upper base).take (8 - suffix.length) ++ suffix) 8 ++ ljust cleanExt 3

/-- `make_short_alias`. -/
def makeShortAlias (name : List Char) (used : List (List Char)) : Option (List Char) :=
  ((List.range' 1 99).map (candidate upper name)).find? (· ∉ used)

/-- The short name of the record that `directory_record` returns; both records of a name that is
short have the same.  A character that does not fit into 16 bits is an error, too. -/
def directoryRecord (name : List Char) (used : List (List Char)) : Option (List Char) :=
  match shortName upper name with
  | some short => some short
  | none => if name.any (·.toNat > 0xFFFF) then none else makeShortAlias upper name used

/-- The loop of `build_directory` over the children, from the names in use. -/
def records (used : List (List Char)) : List (List Char) → Option (List (List Char))
  | [] => some []
  | name :: names => do
    let short ← directoryRecord upper name used
    return short :: (← records (short :: used) names)

/-- Whenever a name that is short comes to `directory_record`, none of the records made so far has
it. -/
def Unclaimed (used made : List (List Char)) : List (List Char) → Prop
  | [] => True
  | name :: names =>
    (∀ short ∈ shortName upper name, short ∉ made) ∧
      ∀ short ∈ directoryRecord upper name used, Unclaimed (short :: used) (short :: made) names

variable {upper} {used made names shorts : List (List Char)}

lemma directoryRecord_unclaimed {name short : List Char} (hmade : made ⊆ used)
    (h : directoryRecord upper name used = some short) :
    short ∉ made ↔ ∀ s ∈ shortName upper name, s ∉ made := by
  rw [directoryRecord] at h
  split at h
  · next s hs =>
    cases h
    simp [hs]
  · next hnone =>
    split at h
    · cases h
    · have hfree : short ∉ used := by simpa using List.find?_some h
      simpa [hnone] using fun hmem => hfree (hmade hmem)

lemma records_spec (hmade : made ⊆ used) (h : records upper used names = some shorts) :
    (shorts.Nodup ∧ ∀ s ∈ shorts, s ∉ made) ↔ Unclaimed upper used made names := by
  induction names generalizing used made shorts with
  | nil =>
    cases h
    simp [Unclaimed]
  | cons name names ih =>
    obtain ⟨short, hshort, h⟩ := Option.bind_eq_some_iff.1 h
    obtain ⟨rest, hrest, h⟩ := Option.bind_eq_some_iff.1 h
    cases h
    rw [Unclaimed, ← directoryRecord_unclaimed hmade hshort, hshort]
    simp only [Option.mem_some_iff, forall_eq', ← ih (List.cons_subset_cons short hmade) hrest,
      List.nodup_cons, List.mem_cons, not_or]
    grind

/-- If the builder raises no error, the short names of a directory are distinct exactly if no name
that is short was already used up by a record. -/
theorem shortNames_distinct_iff (h : records upper used names = some shorts) :
    shorts.Nodup ↔ Unclaimed upper used [] names := by
  rw [← records_spec (List.nil_subset used) h]
  simp

/-- A name that looks like an alias, and a long name that gets the next one. -/
theorem shortNames_distinct_alias : Unclaimed (fun c => [c.toUpper]) [] []
    ["KERNEL~1.LOG".toList, "kernel messages.log".toList] := by
  have hrecords : records (fun c => [c.toUpper]) []
      ["KERNEL~1.LOG".toList, "kernel messages.log".toList] =
      some ["KERNEL~1LOG".toList, "KERNEL~2LOG".toList] := by decide +kernel
  exact (shortNames_distinct_iff hrecords).1 (by decide +kernel)

/-- `a` and `A` get the same short name. -/
theorem shortNames_clash : records (fun c => [c.toUpper]) [] [['a'], ['A']] =
    some [ljust ['A'] 11, ljust ['A'] 11] := by decide

end IanOS.ShortNames
