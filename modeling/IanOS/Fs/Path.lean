import IanOS.Lib.SlashPath

/-!
# Paths of the file system

The functions on path texts of `kernel/src/fs/vfs.cpp`.  A path is a C string, kept without its
terminator; the buffers that hold normalized paths have 64 bytes.

A path is canonical if `normalize_path` leaves it alone.  Canonical paths are the written names
whose segments are neither empty nor `.` nor `..` and that fit into a buffer, and on them
`parent_path` and `path_has_prefix_child` do what their names say.
-/

namespace IanOS

open List Option

/-- The text of a path, without its terminator. -/
abbrev Path := List UInt8

/-- The path that a string of ASCII characters spells. -/
def Path.ascii (s : String) : Path := s.toList.map fun c => UInt8.ofNat c.toNat

open SlashPath

def slash : UInt8 := 0x2f
def dot : UInt8 := 0x2e

/-- The size of the buffers for paths. -/
def kPathBytes : ℕ := 64

/-! ## The functions of the source -/

/-- What `..` does to the path built so far. -/
def popSegment (out : Path) : Path :=
  let out := out.rdropWhile (· ≠ slash)
  if 1 < out.length then out.dropLast else out

/-- Append a segment if it fits. -/
def pushText (out segment : Path) : Option Path :=
  if kPathBytes ≤ out.length + segment.length then none else some (out ++ segment)

/-- One round of the loop of `normalize_path`, for the text between two slashes. -/
def pushSegment (out segment : Path) : Option Path :=
  -- runs of slashes are skipped
  if segment = [] ∨ segment = [dot] then some out
  else if segment = [dot, dot] then some (popSegment out)
  else if out.length ≠ 1 then
    if kPathBytes ≤ out.length + 1 then none else pushText (out ++ [slash]) segment
  else pushText out segment

def normalizePath : Path → Option Path
  | [] => none
  | c :: rest => if c = slash then (rest.splitOn slash).foldlM pushSegment [slash] else none

/-- `copy_path`. -/
def copyPath (path : Path) : Path := path.take (kPathBytes - 1)

/-- `copy_path_checked`: a normalized path that is not the root. -/
def copyPathChecked (path : Path) : Option Path :=
  (normalizePath path).filter fun out => 1 < out.length

def parentPath (path : Path) : Option Path :=
  match normalizePath path with
  | none => none
  | some normalized =>
    if normalized.length ≤ 1 then none
    else
      let upToSlash := normalized.rdropWhile (· ≠ slash)
      if upToSlash.length ≤ 1 then some [slash] else some upToSlash.dropLast

def pathHasPrefixChild (path directory : Path) : Bool :=
  path ≠ directory ∧ directory.isPrefixOf path ∧
    (directory.getLast? = some slash ∨ path[directory.length]? = some slash)

/-! ## Canonical paths -/

/-- The segments of canonical paths. -/
def GoodSegments (l : List Path) : Prop :=
  ∀ s ∈ l, s ≠ [] ∧ slash ∉ s ∧ s ≠ [dot] ∧ s ≠ [dot, dot]

lemma GoodSegments.clean {l : List Path} (h : GoodSegments l) : Clean slash l :=
  fun s hs => ⟨(h s hs).1, (h s hs).2.1⟩

lemma goodSegments_concat {l : List Path} {s : Path} :
    GoodSegments (l ++ [s]) ↔ GoodSegments l ∧ s ≠ [] ∧ slash ∉ s ∧ s ≠ [dot] ∧ s ≠ [dot, dot] := by
  simp only [GoodSegments, forall_mem_append, forall_mem_singleton]

/-- A path that names the list of its segments and fits into a buffer. -/
def Names (path : Path) (l : List Path) : Prop :=
  GoodSegments l ∧ path = render slash l ∧ path.length < kPathBytes

def Canonical (path : Path) : Prop := normalizePath path = some path
  deriving Decidable

lemma length_render_concat (l : List Path) (s : Path) :
    (render slash (l ++ [s])).length = (body slash l).length + 1 + s.length := by
  rw [render_concat, length_append, length_cons]
  omega

lemma length_render_le_one {l : List Path} (h : GoodSegments l) :
    (render slash l).length ≤ 1 ↔ l = [] := by
  constructor
  · intro hle
    obtain rfl | ⟨l, s, rfl⟩ := eq_nil_or_concat l
    · rfl
    rw [concat_eq_append] at h hle
    rw [length_render_concat] at hle
    have hs := (goodSegments_concat.1 h).2.1
    exact absurd (eq_nil_of_length_eq_zero (by omega)) hs
  · rintro rfl
    exact le_rfl

lemma popSegment_render {l : List Path} {s : Path} (hs : slash ∉ s) :
    popSegment (render slash (l ++ [s])) = render slash l := by
  rw [popSegment, rdropWhile_concat hs]
  obtain rfl | hne := eq_or_ne l []
  · rfl
  have hlen : 1 < (body slash l ++ [slash]).length := by
    obtain ⟨t, l, rfl⟩ := exists_cons_of_ne_nil hne
    simp
  rw [if_pos hlen, dropLast_concat, render_of_ne_nil hne]

lemma popSegment_root : popSegment (render slash []) = render slash [] := by decide

/-- A segment goes to the end of a path if the result fits. -/
lemma pushSegment_render {l : List Path} {s : Path} (hl : GoodSegments l)
    (hs : GoodSegments [s]) :
    pushSegment (render slash l) s =
      if kPathBytes ≤ (render slash (l ++ [s])).length then none
      else some (render slash (l ++ [s])) := by
  obtain ⟨hne, -, hdot, hdots⟩ := hs s (mem_singleton_self s)
  rw [pushSegment, if_neg (by tauto), if_neg hdots, length_render_concat, render_concat]
  obtain rfl | hroot := eq_or_ne l []
  · rfl
  have hlong : (render slash l).length ≠ 1 := by
    intro h
    exact hroot ((length_render_le_one hl).1 h.le)
  rw [if_pos hlong, render_of_ne_nil hroot, pushText, length_append, length_singleton,
    append_assoc, singleton_append]
  by_cases hfull : kPathBytes ≤ (body slash l).length + 1
  · rw [if_pos hfull, if_pos (by omega)]
  · rw [if_neg hfull]

lemma Names.pushSegment {out out' segment : Path} {l : List Path} (h : Names out l)
    (hseg : slash ∉ segment) (hpush : pushSegment out segment = some out') :
    ∃ l', Names out' l' := by
  obtain ⟨hgood, rfl, hshort⟩ := h
  by_cases hskip : segment = [] ∨ segment = [dot]
  · rw [IanOS.pushSegment, if_pos hskip] at hpush
    obtain rfl := some.inj hpush
    exact ⟨l, hgood, rfl, hshort⟩
  by_cases hdots : segment = [dot, dot]
  · rw [IanOS.pushSegment, if_neg hskip, if_pos hdots] at hpush
    obtain rfl := some.inj hpush
    obtain rfl | ⟨l, s, rfl⟩ := eq_nil_or_concat l
    · exact ⟨[], hgood, popSegment_root, by rwa [popSegment_root]⟩
    rw [concat_eq_append] at hgood hshort ⊢
    obtain ⟨hl, -, hs, -⟩ := goodSegments_concat.1 hgood
    rw [popSegment_render hs]
    refine ⟨l, hl, rfl, lt_of_le_of_lt ?_ hshort⟩
    obtain rfl | hne := eq_or_ne l []
    · rw [length_render_concat]
      simp
    · rw [length_render_concat, render_of_ne_nil hne]
      omega
  · rw [not_or] at hskip
    have hgood' : GoodSegments [segment] := by
      intro s hs
      rw [mem_singleton.1 hs]
      exact ⟨hskip.1, hseg, hskip.2, hdots⟩
    rw [pushSegment_render hgood hgood'] at hpush
    split at hpush
    · cases hpush
    · next hfits =>
      obtain rfl := some.inj hpush
      exact ⟨l ++ [segment], goodSegments_concat.2 ⟨hgood, hgood' _ (mem_singleton_self _)⟩,
        rfl, not_le.1 hfits⟩

lemma names_root : Names [slash] [] := ⟨forall_mem_nil _, rfl, by decide⟩

lemma exists_names_of_normalizePath {path out : Path} (h : normalizePath path = some out) :
    ∃ l, Names out l := by
  cases path with
  | nil => cases h
  | cons c rest =>
    rw [normalizePath] at h
    split at h
    · have hloop (segments : List Path) (hsegs : ∀ s ∈ segments, slash ∉ s) (start : Path)
          (l : List Path) (hstart : Names start l)
          (hfold : segments.foldlM pushSegment start = some out) : ∃ l, Names out l := by
        induction segments generalizing start l with
        | nil =>
          obtain rfl := some.inj hfold
          exact ⟨l, hstart⟩
        | cons s segments ih =>
          obtain ⟨next, hpush, hfold⟩ := bind_eq_some_iff.1 hfold
          rw [forall_mem_cons] at hsegs
          obtain ⟨l', hnext⟩ := hstart.pushSegment hsegs.1 hpush
          exact ih hsegs.2 next l' hnext hfold
      exact hloop _ (fun s hs => notMem_of_mem_splitOn hs) _ _ names_root h
    · cases h

/-- Reading a written name builds it again. -/
lemma foldlM_pushSegment {l m : List Path} (hgood : GoodSegments (m ++ l))
    (hshort : (render slash (m ++ l)).length < kPathBytes) :
    l.foldlM pushSegment (render slash m) = some (render slash (m ++ l)) := by
  induction l generalizing m with
  | nil =>
    rw [append_nil]
    rfl
  | cons s l ih =>
    have happend : m ++ s :: l = m ++ [s] ++ l := by simp
    have hm : GoodSegments (m ++ [s]) := fun t ht =>
      hgood t (by rw [happend]; exact mem_append_left _ ht)
    have hfits : (render slash (m ++ [s])).length < kPathBytes := by
      refine lt_of_le_of_lt ?_ hshort
      rw [happend, render_of_ne_nil (l := m ++ [s] ++ l) (by simp), body_append,
        render_of_ne_nil (by simp), length_append]
      exact Nat.le_add_right _ _
    obtain ⟨hgoodm, hs⟩ := goodSegments_concat.1 hm
    rw [foldlM_cons, pushSegment_render hgoodm, if_neg (not_le.2 hfits), happend]
    · exact ih (happend ▸ hgood) (happend ▸ hshort)
    · intro t ht
      rwa [mem_singleton.1 ht]

lemma Names.canonical {path : Path} {l : List Path} (h : Names path l) : Canonical path := by
  obtain ⟨hgood, rfl, hshort⟩ := h
  cases l with
  | nil => decide
  | cons s l =>
    have hread : splitOn slash (s ++ body slash l) = s :: l := by
      have hsplit := splitOn_body (hgood.clean.notMem)
      have hcons := splitOn_append_cons slash [] (s ++ body slash l)
      rw [nil_append, ← body_cons, hsplit] at hcons
      exact (cons.inj hcons).2.symm
    have hrender : render slash (s :: l) = slash :: (s ++ body slash l) := by
      rw [render_of_ne_nil (cons_ne_nil _ _), body_cons]
    have hfold := foldlM_pushSegment (m := []) hgood hshort
    rw [Canonical]
    nth_rewrite 1 [hrender]
    rwa [normalizePath, hread]

lemma canonical_iff {path : Path} : Canonical path ↔ ∃ l, Names path l :=
  ⟨exists_names_of_normalizePath, fun ⟨_, h⟩ => h.canonical⟩

lemma canonical_of_normalizePath {path out : Path} (h : normalizePath path = some out) :
    Canonical out :=
  canonical_iff.2 (exists_names_of_normalizePath h)

lemma copyPath_of_canonical {path : Path} (h : Canonical path) : copyPath path = path := by
  obtain ⟨l, -, -, hshort⟩ := canonical_iff.1 h
  rw [copyPath, take_of_length_le]
  omega

lemma copyPathChecked_eq_some {path out : Path} :
    copyPathChecked path = some out ↔ normalizePath path = some out ∧ 1 < out.length := by
  rw [copyPathChecked, filter_eq_some_iff, decide_eq_true_eq]

/-- The parent of a path, which is not the root, names all segments but the last. -/
lemma Names.parentPath {path : Path} {l : List Path} {s : Path} (h : Names path (l ++ [s])) :
    ∃ parent, IanOS.parentPath path = some parent ∧ Names parent l := by
  have hcanon := h.canonical
  obtain ⟨hgood, rfl, hshort⟩ := h
  obtain ⟨hl, -, hs, -⟩ := goodSegments_concat.1 hgood
  have hlong : ¬(render slash (l ++ [s])).length ≤ 1 := by
    rw [length_render_le_one hgood]
    simp
  have hparent : Names (render slash l) l := by
    refine ⟨hl, rfl, lt_of_le_of_lt ?_ hshort⟩
    rw [length_render_concat]
    obtain rfl | hne := eq_or_ne l []
    · simp
    · rw [render_of_ne_nil hne]
      omega
  refine ⟨render slash l, ?_, hparent⟩
  rw [IanOS.parentPath, hcanon]
  simp only [if_neg hlong, rdropWhile_concat hs]
  obtain rfl | hne := eq_or_ne l []
  · rfl
  have hlen : ¬(body slash l ++ [slash]).length ≤ 1 := by
    obtain ⟨t, l, rfl⟩ := exists_cons_of_ne_nil hne
    simp
  rw [if_neg hlen, dropLast_concat, render_of_ne_nil hne]

lemma Names.pathHasPrefixChild {path directory : Path} {l d : List Path} (h : Names path l)
    (hd : Names directory d) :
    IanOS.pathHasPrefixChild path directory ↔ ∃ t, t ≠ [] ∧ l = d ++ t := by
  obtain ⟨hgood, rfl, -⟩ := h
  obtain ⟨hgoodd, rfl, -⟩ := hd
  rw [IanOS.pathHasPrefixChild, decide_eq_true_eq, isPrefixOf_iff_prefix]
  obtain rfl | hne := eq_or_ne d []
  · obtain ⟨rest, hrest⟩ := exists_render_eq_cons slash l
    have hprefix : [slash] <+: render slash l := ⟨rest, by rw [hrest]; rfl⟩
    simp only [render_nil, hprefix]
    simp [hgood.clean.render_eq_singleton]
  rw [← hgood.clean.exists_body_eq hgoodd.clean, render_of_ne_nil hne]
  have hlast : (body slash d).getLast? ≠ some slash := by
    obtain rfl | ⟨d, s, rfl⟩ := eq_nil_or_concat d
    · exact absurd rfl hne
    rw [concat_eq_append] at hgoodd ⊢
    obtain ⟨-, hs, hslash, -⟩ := goodSegments_concat.1 hgoodd
    obtain rfl | ⟨s, a, rfl⟩ := eq_nil_or_concat s
    · exact absurd rfl hs
    rw [concat_eq_append]
    rw [body_concat, ← cons_append, ← append_assoc, getLast?_concat]
    intro ha
    rw [some.inj ha] at hslash
    exact hslash (by simp)
  constructor
  · rintro ⟨hneq, ⟨rest, hrest⟩, hafter | hafter⟩
    · exact absurd hafter hlast
    rw [← hrest, getElem?_append_right le_rfl, Nat.sub_self] at hafter
    obtain ⟨a, rest, rfl⟩ := exists_cons_of_ne_nil (l := rest) (by rintro rfl; cases hafter)
    obtain rfl : a = slash := some.inj hafter
    refine ⟨rest, ?_⟩
    rw [hrest, render_of_ne_nil]
    rintro rfl
    obtain ⟨t, d, rfl⟩ := exists_cons_of_ne_nil hne
    have hlen := congrArg length hrest
    simp at hlen
  · rintro ⟨rest, hrest⟩
    have hl : l ≠ [] := by
      rintro rfl
      have hlen := congrArg length hrest
      simp at hlen
    rw [render_of_ne_nil hl, hrest]
    refine ⟨by simp, prefix_append _ _, .inr ?_⟩
    rw [getElem?_append_right le_rfl, Nat.sub_self]
    rfl

end IanOS
