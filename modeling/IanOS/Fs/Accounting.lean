import IanOS.Fs.Runs

/-!
# Accounting for RAM storage

The functions decide which records to free by comparing path texts and by scanning the nodes.  In
every reachable state this comes out even: a RAM file is in use exactly as long as a node refers to
it, and a link or directory in use holds the path of exactly one node.

`stat` counts the nodes of a file, which is the number of paths that name it.  It does so only for
paths that it looks up in the table of nodes: a path that is at the same time an entry of `/proc`
generated for a live process is reported as that entry, with one link.
-/

namespace IanOS

open List

/-- `stat` looks up the paths of these kinds in the table of nodes. -/
def DynamicProcKind.PassedOver (kind : DynamicProcKind) : Prop := kind = .none ∨ kind = .pidIo

/-- `stat` reports the paths of these kinds as directories. -/
def DynamicProcKind.IsDirectory (kind : DynamicProcKind) : Prop :=
  kind ∈ [.pidDirectory, .pidTask, .pidTaskTidDirectory, .pidFd, .pidFdinfo]

namespace Vfs

variable {v : Vfs} {n : Node} {i j k f : ℕ} {p q : Path} {path : Path} {out : Outside}

/-! ## The paths of a file -/

/-- The paths that name a RAM file. -/
def pathsOf (v : Vfs) (f : ℕ) : Finset Path :=
  ((v.nodes.filter fun n => n.ramFile = some f).filterMap v.pathOf).toFinset

lemma mem_pathsOf : p ∈ v.pathsOf f ↔ ∃ n ∈ v.nodes, n.ramFile = some f ∧ v.pathOf n = some p := by
  simp only [pathsOf, mem_toFinset, mem_filterMap, mem_filter, decide_eq_true_eq, and_assoc]

lemma Stored.standsAt_of_mem_pathsOf (h : Stored v) (hp : p ∈ v.pathsOf f) :
    ∃ i, v.StandsAt i p ∧ (v.nodeAt i).ramFile = some f := by
  obtain ⟨n, hn, hf, hpath⟩ := mem_pathsOf.1 hp
  obtain ⟨i, hi, rfl⟩ := getElem_of_mem hn
  rw [← nodeAt_eq_getElem hi] at hf hpath
  exact ⟨i, ⟨h.canonical_of_ramFile (nodeAt_mem hi) hf hpath, hi, hpath⟩, hf⟩

/-- The nodes of a file have different paths, so counting nodes counts paths. -/
lemma Stored.card_pathsOf (h : Stored v) (f : ℕ) :
    (v.pathsOf f).card = v.nodes.countP fun n => n.type = .memoryFile ∧ n.ramFile = some f := by
  have hnodup : ((v.nodes.filter fun n => n.ramFile = some f).filterMap v.pathOf).Nodup := by
    have hdistinct : (v.nodes.filter fun n => n.ramFile = some f).Pairwise fun a b =>
        ∀ p, v.pathOf a = some p → v.pathOf b ≠ some p := by
      refine (h.distinct.sublist filter_sublist).imp_of_mem fun {a b} ha _ hab p hpa => ?_
      obtain ⟨ha, hf⟩ := mem_filter.1 ha
      exact hab p (h.canonical_of_ramFile ha (of_decide_eq_true hf) hpa) hpa
    refine hdistinct.filterMap _ fun a b hab p hpa q hqb => ?_
    rintro rfl
    exact hab p hpa hqb
  have hlen (l : List Node) (hl : ∀ n ∈ l, n ∈ v.nodes) :
      (l.filterMap v.pathOf).length = l.length := by
    rw [length_filterMap_eq_countP, countP_eq_length]
    intro n hn
    obtain ⟨r, hr, -⟩ := h.held n (hl n hn)
    rw [pathOf_eq hr, Option.isSome_some]
  rw [pathsOf, toFinset_card_of_nodup hnodup, hlen _ fun n hn => mem_of_mem_filter hn,
    ← countP_eq_length_filter]
  refine countP_congr fun n hn => ?_
  simp only [decide_eq_true_eq]
  exact ⟨fun hf => ⟨(h.ofRamFile hn hf).type, hf⟩, fun hf => hf.2⟩

lemma Stored.linkCount_eq (h : Stored v) (hn : n ∈ v.nodes) (hf : n.ramFile = some f) :
    v.linkCount n = (v.pathsOf f).card := by
  have hpos : 0 < v.nodes.countP fun n => n.type = .memoryFile ∧ n.ramFile = some f := by
    rw [countP_pos_iff]
    exact ⟨n, hn, decide_eq_true ⟨(h.ofRamFile hn hf).type, hf⟩⟩
  rw [linkCount, hf, h.card_pathsOf]
  exact if_neg hpos.ne'

/-! ## Records in use -/

/-- Records in use and nodes correspond. -/
structure Accounted (v : Vfs) : Prop where
  files : ∀ f < kMaxRamFiles, (v.ramFile f).used ↔ ∃ i < v.nodes.length,
    (v.nodeAt i).ramFile = some f
  links : ∀ k < kMaxRamLinks, (v.ramLinks.slot k).used →
    ∃! i, i < v.nodes.length ∧ (v.nodeAt i).path = some (.ramLink k)
  directories : ∀ k < kMaxRamDirectories, (v.ramDirectories.slot k).used →
    ∃! i, i < v.nodes.length ∧ (v.nodeAt i).path = some (.ramDirectory k)

/-- A record that holds the canonical path of a node holds it for this node only. -/
lemma Stored.existsUnique_node {r : PathRef} (h : Stored v) (hex : ∃ n ∈ v.nodes, n.path = some r)
    (hcanon : ∀ n, v.Holds n r → Canonical (v.text r)) :
    ∃! i, i < v.nodes.length ∧ (v.nodeAt i).path = some r := by
  obtain ⟨i, hi, hr⟩ := exists_nodeAt_iff.1 hex
  have hp := hcanon _ (h.inUse (nodeAt_mem hi) hr)
  refine ⟨i, ⟨hi, hr⟩, fun j ⟨hj, hjr⟩ => ?_⟩
  exact h.distinct.eq ⟨hp, hj, pathOf_eq hjr⟩ ⟨hp, hi, pathOf_eq hr⟩

lemma Stored.accounted (h : Stored v) (hsized : Sized v) : v.Accounted := by
  refine ⟨fun f hf => ⟨fun hused => ?_, ?_⟩, fun k hk hused => ?_, fun k hk hused => ?_⟩
  · rw [← hsized.files] at hf
    exact exists_nodeAt_iff.1 (h.fileUsed f ⟨hf, hused⟩)
  · rintro ⟨i, hi, hram⟩
    exact (h.ofRamFile (nodeAt_mem hi) hram).inUse.2
  · rw [← hsized.links] at hk
    exact h.existsUnique_node (h.linkUsed k ⟨hk, hused⟩) fun n hholds => hholds.2.1
  · rw [← hsized.directories] at hk
    exact h.existsUnique_node (h.directoryUsed k ⟨hk, hused⟩) fun n hholds => hholds.2.1

lemma Stored.delete_last (h : Stored v) (hpath : normalizePath path = some p)
    (hlast : v.pathsOf f = {p}) (haccept : (v.perform (.deleteRamFile path)).1) :
    ¬(v.perform (.deleteRamFile path)).2.FileInUse f := by
  have hchange := perform_change v (.deleteRamFile path)
  generalize v.perform (.deleteRamFile path) = r at hchange haccept
  cases hchange with
  | refuse | clearFile | clearLink | clearDirectory => cases haccept
  | @deleteFile _ q i g hq hat hfile _ =>
    obtain rfl : p = q := Option.some.inj (hpath.symm.trans hq)
    intro hinUse
    obtain ⟨j, hj, hne, hram⟩ := (h.removed_file hat hfile).files f hinUse
    obtain ⟨s, hs, -⟩ := h.held _ (nodeAt_mem hj)
    have hmem : v.text s ∈ v.pathsOf f := mem_pathsOf.2 ⟨_, nodeAt_mem hj, hram, pathOf_eq hs⟩
    rw [hlast, Finset.mem_singleton] at hmem
    exact hne (h.distinct.eq ⟨hat.canonical, hj, by rw [pathOf_eq hs, hmem]⟩ hat)

/-! ## The link count that is reported -/

lemma Stored.stat_passedOver (h : Stored v) (hpath : normalizePath path = some p)
    (hp : p ∈ v.pathsOf f) (hkind : (out.dynamicKind p).PassedOver) :
    (v.stat out path).map StatInfo.links = some (v.pathsOf f).card := by
  obtain ⟨i, hat, hf⟩ := h.standsAt_of_mem_pathsOf hp
  have hfind := h.distinct.find_eq hpath hat
  have hdyn : dynamicStat out p = none := by
    obtain hnone | hio := hkind
    · rw [dynamicStat, hnone]
    · rw [dynamicStat, hio]
  have htype := (h.ofRamFile (nodeAt_mem hat.lt) hf).type
  rw [stat, hpath, Option.bind_some, hdyn, hfind]
  dsimp only
  rw [hat.path]
  dsimp only
  rw [if_neg (by rw [htype]; decide), Option.map_some, h.linkCount_eq (nodeAt_mem hat.lt) hf]

/-- An entry generated for a process is reported in place of the file, with one link. -/
lemma stat_generated {links : ℕ} (hpath : normalizePath path = some p)
    (hkind : ¬(out.dynamicKind p).PassedOver) :
    (v.stat out path).map StatInfo.links = some links ↔
      links = 1 ∧ ((out.dynamicKind p).IsDirectory ∨ out.dynamicProcFileSize p ≠ 0) := by
  rw [stat, hpath, Option.bind_some, dynamicStat]
  cases hk : out.dynamicKind p
  case none => exact absurd (.inl hk) hkind
  case pidIo => exact absurd (.inr hk) hkind
  case pidDirectory | pidTask | pidTaskTidDirectory | pidFd | pidFdinfo =>
    simp [DynamicProcKind.IsDirectory, eq_comm]
  all_goals
    by_cases hsize : out.dynamicProcFileSize p = 0
    · simp [DynamicProcKind.IsDirectory, hsize]
    · simp [hsize, eq_comm]

/-! ## Sequences of calls -/

/-- In every state reached, records in use and nodes correspond, deleting the last path of a file
frees its record, and `stat` reports the number of paths, of a path it looks up in the table.  Of a
path that it finds generated for a process it reports one link, if anything. -/
theorem storage_accounted (registrations : List Registration) (ops : List VfsOp) :
    let v := (booted registrations).run ops
    v.Accounted ∧
      (∀ path p f, f < kMaxRamFiles → normalizePath path = some p → v.pathsOf f = {p} →
        (v.perform (.deleteRamFile path)).1 →
          ¬((v.perform (.deleteRamFile path)).2.ramFile f).used) ∧
      ∀ out path p f, normalizePath path = some p → p ∈ v.pathsOf f →
        ((v.stat out path).map StatInfo.links = some (v.pathsOf f).card ↔
          (out.dynamicKind p).PassedOver ∨
            (v.pathsOf f).card = 1 ∧
              ((out.dynamicKind p).IsDirectory ∨ out.dynamicProcFileSize p ≠ 0)) := by
  intro v
  have hstored : Stored v := Reachable.stored ⟨registrations, ops, rfl⟩
  have hsized : Sized v := (sized_booted registrations).run ops
  refine ⟨hstored.accounted hsized, fun path p f hf hpath hlast haccepted hused => ?_,
    fun out path p f hpath hp => ?_⟩
  · have hcount := (hsized.change (perform_change v (.deleteRamFile path))).files
    exact hstored.delete_last hpath hlast haccepted ⟨hcount ▸ hf, hused⟩
  · by_cases hkind : (out.dynamicKind p).PassedOver
    · exact iff_of_true (hstored.stat_passedOver hpath hp hkind) (.inl hkind)
    · rw [stat_generated hpath hkind, or_iff_right hkind]

/-- Process 1 is alive. -/
def oneProcess : Outside :=
  { (default : Outside) with
    dynamicKind := fun p => if p = .ascii "/proc/1" then .pidDirectory else .none }

/-- A file made at the path of a live process and linked from elsewhere: two paths name it, and
`stat` reports one link. -/
theorem stat_of_shadowed_file :
    let v := (booted [.directory (.ascii "/") false, .directory (.ascii "/proc") false,
      .directory (.ascii "/tmp") true]).run
        [.change (.createRamFile (.ascii "/proc/1")),
          .change (.linkRamFile (.ascii "/proc/1") (.ascii "/tmp/b"))]
    v.pathsOf 0 = {.ascii "/proc/1", .ascii "/tmp/b"} ∧
      (v.stat oneProcess (.ascii "/proc/1")).map StatInfo.links = some 1 := by
  decide +kernel

end Vfs
end IanOS
