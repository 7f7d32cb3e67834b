import IanOS.Fs.Changes

/-!
# Nodes and the records behind them

Every node of a RAM file, link or directory has its path in a record in use, every such record in
use has its node, and a RAM file is in use as long as a node refers to it.  `Stored` says this; it
holds of a table of registered nodes and every namespace function keeps it.

A function finds the record behind a node by comparing path texts.  That it finds the right one
rests on the texts of nodes being different, as far as they are canonical: `Distinct`.
-/

namespace IanOS.Vfs

open List Option Table

variable {v v' : Vfs} {n : Node} {r : PathRef} {i j k f : ℕ} {p q : Path} {size : ℕ}

/-! ## The invariant -/

def FileInUse (v : Vfs) (k : ℕ) : Prop := v.ramFiles.InUse RamFile.used k

def LinkInUse (v : Vfs) (k : ℕ) : Prop := v.ramLinks.InUse RamLink.used k

def DirectoryInUse (v : Vfs) (k : ℕ) : Prop := v.ramDirectories.InUse RamDirectory.used k

/-- A node of a RAM file. -/
structure OfRamFile (v : Vfs) (n : Node) (f : ℕ) : Prop where
  ramFile : n.ramFile = some f
  type : n.type = .memoryFile
  writable : n.writable
  notDisk : n.diskBacked = false
  inUse : v.FileInUse f

/-- What a node has to be if its path is stored here. -/
def Holds (v : Vfs) (n : Node) : PathRef → Prop
  | .constant _ => n.ramFile = none
  | .ramFile k => v.OfRamFile n k ∧ Canonical (v.ramFile k).path
  | .ramLink k => v.LinkInUse k ∧ Canonical (v.ramLinks.slot k).path ∧
      ∃ f, v.OfRamFile n f ∧ (v.ramLinks.slot k).target = some f
  | .ramDirectory k => v.DirectoryInUse k ∧ Canonical (v.ramDirectories.slot k).path ∧
      n.type = .directory ∧ n.ramFile = none

/-- No two nodes stand at one canonical path. -/
def Distinct (v : Vfs) : Prop :=
  v.nodes.Pairwise fun a b => ∀ p, Canonical p → v.pathOf a = some p → v.pathOf b ≠ some p

structure Stored (v : Vfs) : Prop where
  held : ∀ n ∈ v.nodes, ∃ r, n.path = some r ∧ v.Holds n r
  distinct : v.Distinct
  fileUsed : ∀ k, v.FileInUse k → ∃ n ∈ v.nodes, n.ramFile = some k
  linkUsed : ∀ k, v.LinkInUse k → ∃ n ∈ v.nodes, n.path = some (.ramLink k)
  directoryUsed : ∀ k, v.DirectoryInUse k → ∃ n ∈ v.nodes, n.path = some (.ramDirectory k)

lemma pathOf_eq (h : n.path = some r) : v.pathOf n = some (v.text r) := by
  rw [pathOf, h, Option.map_some]

lemma StandsAt.text_eq (h : v.StandsAt i p) (hr : (v.nodeAt i).path = some r) : v.text r = p :=
  some.inj ((pathOf_eq hr).symm.trans h.path)

lemma nodeAt_mem (hi : i < v.nodes.length) : v.nodeAt i ∈ v.nodes := by
  rw [nodeAt_eq_getElem hi]
  exact getElem_mem hi

lemma lt_of_ramFile (hf : (v.nodeAt i).ramFile = some f) : i < v.nodes.length := by
  by_contra hge
  have hempty : v.nodeAt i = {} := by
    rw [nodeAt, getD_eq_getElem?_getD, getElem?_eq_none (not_lt.1 hge), getD_none]
  rw [hempty] at hf
  cases hf

lemma Distinct.eq (h : v.Distinct) (hi : v.StandsAt i p) (hj : v.StandsAt j p) : i = j := by
  rw [Distinct, pairwise_iff_getElem] at h
  have hpi := hi.path
  have hpj := hj.path
  rw [nodeAt_eq_getElem hi.lt] at hpi
  rw [nodeAt_eq_getElem hj.lt] at hpj
  obtain hlt | heq | hgt := lt_trichotomy i j
  · exact absurd hpj (h i j hi.lt hj.lt hlt p hi.canonical hpi)
  · exact heq
  · exact absurd hpi (h j i hj.lt hi.lt hgt p hi.canonical hpj)

lemma distinct_iff : v.Distinct ↔ ∀ i j p, v.StandsAt i p → v.StandsAt j p → i = j := by
  constructor
  · intro h i j p hi hj
    exact h.eq hi hj
  intro h
  rw [Distinct, pairwise_iff_getElem]
  intro i j hi hj hlt p hp hpi hpj
  rw [← nodeAt_eq_getElem hi] at hpi
  rw [← nodeAt_eq_getElem hj] at hpj
  have hij := h i j p ⟨hp, hi, hpi⟩ ⟨hp, hj, hpj⟩
  omega

lemma Distinct.nodeAt_eq (h : v.Distinct) (hi : v.StandsAt i p) (hn : n ∈ v.nodes)
    (hpath : v.pathOf n = some p) : v.nodeAt i = n := by
  obtain ⟨j, hj, rfl⟩ := getElem_of_mem hn
  rw [← nodeAt_eq_getElem hj] at hpath ⊢
  rw [h.eq hi ⟨hi.canonical, hj, hpath⟩]

lemma Distinct.find_eq {path : Path} (h : v.Distinct) (hpath : normalizePath path = some p)
    (hat : v.StandsAt i p) : v.find path = some i := by
  rw [find, hpath, bind_some, findNormalized, findIdx?_eq_some_iff_getElem]
  refine ⟨hat.lt, ?_, fun j hj => ?_⟩
  · rw [← nodeAt_eq_getElem hat.lt]
    exact decide_eq_true hat.path
  · have hjlt := hj.trans hat.lt
    rw [← nodeAt_eq_getElem hjlt, Bool.not_eq_true, decide_eq_false_iff_not]
    exact fun hjp => hj.ne (h.eq ⟨hat.canonical, hjlt, hjp⟩ hat)

lemma Vacant.pathOf_ne (h : Vacant v p) (hn : n ∈ v.nodes) : v.pathOf n ≠ some p := by
  have hnone := findIdx?_eq_none_iff.1 h.free n hn
  exact of_decide_eq_false hnone

lemma Holds.ofRamFile (h : v.Holds n r) (hf : n.ramFile = some f) : v.OfRamFile n f := by
  cases r with
  | constant text => cases Eq.symm h |>.trans hf
  | ramFile k =>
    obtain rfl : k = f := some.inj (h.1.ramFile.symm.trans hf)
    exact h.1
  | ramLink k =>
    obtain ⟨-, -, g, hg, -⟩ := h
    obtain rfl : g = f := some.inj (hg.ramFile.symm.trans hf)
    exact hg
  | ramDirectory k => cases h.2.2.2.symm.trans hf

section

variable (h : Stored v) (hn : n ∈ v.nodes)
include h hn

lemma Stored.ofRamFile (hf : n.ramFile = some f) : v.OfRamFile n f := by
  obtain ⟨r, -, hr⟩ := h.held n hn
  exact hr.ofRamFile hf

lemma Stored.ramFile_eq_none (htype : n.type ≠ .memoryFile) : n.ramFile = none := by
  by_contra hsome
  obtain ⟨f, hf⟩ := ne_none_iff_exists'.1 hsome
  exact htype (h.ofRamFile hn hf).type

lemma Stored.canonical_of_ramFile (hf : n.ramFile = some f)
    (hp : v.pathOf n = some p) : Canonical p := by
  obtain ⟨r, hr, hholds⟩ := h.held n hn
  rw [pathOf_eq hr] at hp
  rw [← some.inj hp]
  cases r with
  | constant text => cases Eq.symm hholds |>.trans hf
  | ramFile => exact hholds.2
  | ramLink | ramDirectory => exact hholds.2.1

end

/-! ## Writing a record -/

/-- The record behind a path is as before. -/
def SameRecord (v v' : Vfs) : PathRef → Prop
  | .constant _ => True
  | .ramFile k => (v'.ramFile k).path = (v.ramFile k).path
  | .ramLink k => v'.ramLinks.count = v.ramLinks.count ∧ v'.ramLinks.slot k = v.ramLinks.slot k
  | .ramDirectory k => v'.ramDirectories.count = v.ramDirectories.count ∧
      v'.ramDirectories.slot k = v.ramDirectories.slot k

lemma SameRecord.text (h : SameRecord v v' r) : v'.text r = v.text r := by
  cases r with
  | constant text => rfl
  | ramFile => exact h
  | ramLink k | ramDirectory k => rw [Vfs.text, Vfs.text, h.2]

lemma SameRecord.pathOf (h : SameRecord v v' r) (hr : n.path = some r) :
    v'.pathOf n = v.pathOf n := by
  rw [pathOf_eq hr, pathOf_eq hr, h.text]

lemma Holds.congr (h : v.Holds n r) (hrec : SameRecord v v' r)
    (hfile : ∀ f, v.FileInUse f → n.ramFile = some f → v'.FileInUse f) : v'.Holds n r := by
  have hof (g : ℕ) (hg : v.OfRamFile n g) : v'.OfRamFile n g :=
    ⟨hg.ramFile, hg.type, hg.writable, hg.notDisk, hfile g hg.inUse hg.ramFile⟩
  cases r with
  | constant => exact h
  | ramFile k =>
    rw [Holds, hrec]
    exact ⟨hof k h.1, h.2⟩
  | ramLink k =>
    obtain ⟨hin, hcanon, g, hg, htarget⟩ := h
    rw [Holds, LinkInUse, Table.InUse, hrec.1, hrec.2]
    exact ⟨hin, hcanon, g, hof g hg, htarget⟩
  | ramDirectory k =>
    rwa [Holds, DirectoryInUse, Table.InUse, hrec.1, hrec.2]

lemma sameRecord_of_eq (hfiles : v'.ramFiles = v.ramFiles) (hlinks : v'.ramLinks = v.ramLinks)
    (hdirs : v'.ramDirectories = v.ramDirectories) (r : PathRef) : SameRecord v v' r := by
  cases r with
  | constant text => trivial
  | ramFile k => rw [SameRecord, ramFile, ramFile, hfiles]
  | ramLink k => rw [SameRecord, hlinks]; exact ⟨rfl, rfl⟩
  | ramDirectory k => rw [SameRecord, hdirs]; exact ⟨rfl, rfl⟩

lemma sameRecord_set_file {file : RamFile} (nodes : List Node) (hr : r ≠ .ramFile k) :
    SameRecord v { v with ramFiles := v.ramFiles.set k file, nodes := nodes } r := by
  cases r with
  | constant text => trivial
  | ramFile l =>
    have hl : l ≠ k := fun hlk => hr (by rw [hlk])
    rw [SameRecord, ramFile, slot_set, if_neg hl]
    rfl
  | ramLink | ramDirectory => exact ⟨rfl, rfl⟩

lemma sameRecord_set_link {link : RamLink} (nodes : List Node) (hr : r ≠ .ramLink k) :
    SameRecord v { v with ramLinks := v.ramLinks.set k link, nodes := nodes } r := by
  cases r with
  | constant text => trivial
  | ramFile l => rfl
  | ramLink l =>
    have hl : l ≠ k := fun hlk => hr (by rw [hlk])
    exact ⟨rfl, by rw [slot_set, if_neg hl]⟩
  | ramDirectory => exact ⟨rfl, rfl⟩

lemma sameRecord_set_directory {directory : RamDirectory} (nodes : List Node)
    (hr : r ≠ .ramDirectory k) :
    SameRecord v { v with
      ramDirectories := v.ramDirectories.set k directory, nodes := nodes } r := by
  cases r with
  | constant text => trivial
  | ramFile l => rfl
  | ramLink => exact ⟨rfl, rfl⟩
  | ramDirectory l =>
    have hl : l ≠ k := fun hlk => hr (by rw [hlk])
    exact ⟨rfl, by rw [slot_set, if_neg hl]⟩

/-! ## Steps that keep the nodes -/

/-- The same records are in use. -/
structure SameUse (v v' : Vfs) : Prop where
  files : ∀ k, v'.FileInUse k ↔ v.FileInUse k
  links : ∀ k, v'.LinkInUse k ↔ v.LinkInUse k
  directories : ∀ k, v'.DirectoryInUse k ↔ v.DirectoryInUse k

/-- The nodes agree in everything but the storage and the size. -/
structure Alike (a b : Node) : Prop where
  path : b.path = a.path
  type : b.type = a.type
  writable : b.writable = a.writable
  diskBacked : b.diskBacked = a.diskBacked
  ramFile : b.ramFile = a.ramFile

lemma Alike.refl (a : Node) : Alike a a := ⟨rfl, rfl, rfl, rfl, rfl⟩

lemma Alike.holds {a b : Node} (h : Alike a b) (ha : v.Holds a r) : v.Holds b r := by
  have hof (f : ℕ) (hf : v.OfRamFile a f) : v.OfRamFile b f :=
    ⟨h.ramFile.trans hf.ramFile, h.type.trans hf.type, h.writable ▸ hf.writable,
      h.diskBacked.trans hf.notDisk, hf.inUse⟩
  cases r with
  | constant => exact h.ramFile.trans ha
  | ramFile => exact ⟨hof _ ha.1, ha.2⟩
  | ramLink k =>
    obtain ⟨hk, hcanon, f, hf, htarget⟩ := ha
    exact ⟨hk, hcanon, f, hof f hf, htarget⟩
  | ramDirectory => exact ⟨ha.1, ha.2.1, h.type.trans ha.2.2.1, h.ramFile.trans ha.2.2.2⟩

lemma exists_nodeAt_iff {P : Node → Prop} :
    (∃ n ∈ v.nodes, P n) ↔ ∃ j < v.nodes.length, P (v.nodeAt j) := by
  constructor
  · rintro ⟨n, hn, hP⟩
    obtain ⟨j, hj, rfl⟩ := getElem_of_mem hn
    exact ⟨j, hj, by rwa [nodeAt_eq_getElem hj]⟩
  · rintro ⟨j, hj, hP⟩
    exact ⟨_, nodeAt_mem hj, hP⟩

/-- The nodes are as before, apart from their storage and size, and so are the records behind them.
-/
structure Kept (v v' : Vfs) : Prop where
  length : v'.nodes.length = v.nodes.length
  alike : ∀ j < v.nodes.length, Alike (v.nodeAt j) (v'.nodeAt j)
  use : SameUse v v'
  record : ∀ n ∈ v.nodes, ∀ r, n.path = some r → SameRecord v v' r

lemma Stored.of_kept (h : Stored v) (hkept : Kept v v') : Stored v' := by
  obtain ⟨hlen, halike, huse, hrec⟩ := hkept
  have hpath (j : ℕ) (hj : j < v.nodes.length) :
      v'.pathOf (v'.nodeAt j) = v.pathOf (v.nodeAt j) := by
    obtain ⟨r, hr, -⟩ := h.held _ (nodeAt_mem hj)
    rw [pathOf_eq ((halike j hj).path.trans hr), pathOf_eq hr, (hrec _ (nodeAt_mem hj) r hr).text]
  have hexists (P : Node → Prop) (hP : ∀ a b, Alike a b → P a → P b)
      (hex : ∃ n ∈ v.nodes, P n) : ∃ n ∈ v'.nodes, P n := by
    rw [exists_nodeAt_iff] at hex ⊢
    obtain ⟨j, hj, hPj⟩ := hex
    exact ⟨j, hlen ▸ hj, hP _ _ (halike j hj) hPj⟩
  refine ⟨fun n hn => ?_, distinct_iff.2 fun i j p hi hj => ?_, fun k hk => ?_, fun k hk => ?_,
    fun k hk => ?_⟩
  · obtain ⟨j, hj, rfl⟩ := getElem_of_mem hn
    rw [← nodeAt_eq_getElem hj]
    rw [hlen] at hj
    obtain ⟨r, hr, hholds⟩ := h.held _ (nodeAt_mem hj)
    refine ⟨r, (halike j hj).path.trans hr, (halike j hj).holds ?_⟩
    exact hholds.congr (hrec _ (nodeAt_mem hj) r hr) fun f hf _ => (huse.files f).2 hf
  · have hilt := hlen ▸ hi.lt
    have hjlt := hlen ▸ hj.lt
    exact h.distinct.eq ⟨hi.canonical, hilt, (hpath i hilt).symm.trans hi.path⟩
      ⟨hj.canonical, hjlt, (hpath j hjlt).symm.trans hj.path⟩
  · exact hexists _ (fun a b hab ha => hab.ramFile.trans ha) (h.fileUsed k ((huse.files k).1 hk))
  · exact hexists _ (fun a b hab ha => hab.path.trans ha) (h.linkUsed k ((huse.links k).1 hk))
  · exact hexists _ (fun a b hab ha => hab.path.trans ha)
      (h.directoryUsed k ((huse.directories k).1 hk))

lemma kept_of_nodes (hnodes : v'.nodes = v.nodes) (huse : SameUse v v')
    (hrec : ∀ n ∈ v.nodes, ∀ r, n.path = some r → SameRecord v v' r) : Kept v v' := by
  refine ⟨by rw [hnodes], fun j _ => ?_, huse, hrec⟩
  rw [nodeAt, nodeAt, hnodes]
  exact Alike.refl _

lemma Stored.inUse (h : Stored v) (hn : n ∈ v.nodes) (hr : n.path = some r) : v.Holds n r := by
  obtain ⟨r', hr', hholds⟩ := h.held n hn
  rwa [some.inj (hr.symm.trans hr')]

lemma Stored.ne_ramFile (h : Stored v) (hunused : ¬(v.ramFile k).used) (hn : n ∈ v.nodes)
    (hr : n.path = some r) : r ≠ .ramFile k := by
  rintro rfl
  exact hunused (h.inUse hn hr).1.inUse.2

lemma Stored.ne_ramLink (h : Stored v) (hunused : ¬(v.ramLinks.slot k).used) (hn : n ∈ v.nodes)
    (hr : n.path = some r) : r ≠ .ramLink k := by
  rintro rfl
  exact hunused (h.inUse hn hr).1.2

lemma Stored.ne_ramDirectory (h : Stored v) (hunused : ¬(v.ramDirectories.slot k).used)
    (hn : n ∈ v.nodes) (hr : n.path = some r) : r ≠ .ramDirectory k := by
  rintro rfl
  exact hunused (h.inUse hn hr).1.2

/-- A record that is not in use may be cleared. -/
lemma Stored.kept_clear_file (h : Stored v) (hunused : ¬(v.ramFile k).used) :
    Kept v { v with ramFiles := v.ramFiles.set k {} } :=
  kept_of_nodes rfl ⟨v.ramFiles.inUse_set_of_unused hunused rfl, fun _ => .rfl, fun _ => .rfl⟩
    fun _ hn _ hr => sameRecord_set_file v.nodes (h.ne_ramFile hunused hn hr)

lemma Stored.kept_clear_link (h : Stored v) (hunused : ¬(v.ramLinks.slot k).used) :
    Kept v { v with ramLinks := v.ramLinks.set k {} } :=
  kept_of_nodes rfl ⟨fun _ => .rfl, v.ramLinks.inUse_set_of_unused hunused rfl, fun _ => .rfl⟩
    fun _ hn _ hr => sameRecord_set_link v.nodes (h.ne_ramLink hunused hn hr)

lemma Stored.kept_clear_directory (h : Stored v) (hunused : ¬(v.ramDirectories.slot k).used) :
    Kept v { v with ramDirectories := v.ramDirectories.set k {} } :=
  kept_of_nodes rfl ⟨fun _ => .rfl, fun _ => .rfl, v.ramDirectories.inUse_set_of_unused hunused rfl⟩
    fun _ hn _ hr => sameRecord_set_directory v.nodes (h.ne_ramDirectory hunused hn hr)

/-! ## A node is added -/

/-- A node goes to the end of the table, with its path in a record that was not in use. -/
structure Added (v v' : Vfs) (node : Node) (r : PathRef) : Prop where
  nodes : v'.nodes = v.nodes ++ [node]
  record : ∀ n ∈ v.nodes, ∀ s, n.path = some s → SameRecord v v' s
  path : node.path = some r
  holds : v'.Holds node r
  vacant : v.Vacant (v'.text r)
  keep : ∀ k, v.FileInUse k → v'.FileInUse k
  files : ∀ k, v'.FileInUse k → v.FileInUse k ∨ node.ramFile = some k
  links : ∀ k, v'.LinkInUse k → v.LinkInUse k ∨ r = .ramLink k
  directories : ∀ k, v'.DirectoryInUse k → v.DirectoryInUse k ∨ r = .ramDirectory k

lemma Stored.of_added {node : Node} (h : Stored v) (hadded : Added v v' node r) : Stored v' := by
  obtain ⟨hnodes, hrec, hr, hholds, hvacant, hkeep, hfiles, hlinks, hdirs⟩ := hadded
  have hpath (n : Node) (hn : n ∈ v.nodes) : v'.pathOf n = v.pathOf n := by
    obtain ⟨s, hs, -⟩ := h.held n hn
    exact (hrec n hn s hs).pathOf hs
  have hmem (P : Node → Prop) (hex : (∃ n ∈ v.nodes, P n) ∨ P node) : ∃ n ∈ v'.nodes, P n := by
    rw [hnodes]
    obtain ⟨n, hn, hP⟩ | hP := hex
    · exact ⟨n, mem_append_left _ hn, hP⟩
    · exact ⟨node, mem_append_right _ (mem_singleton_self node), hP⟩
  refine ⟨fun n hn => ?_, ?_, fun k hk => ?_, fun k hk => ?_, fun k hk => ?_⟩
  · rw [hnodes, mem_append, mem_singleton] at hn
    obtain hn | rfl := hn
    · obtain ⟨s, hs, hholdsn⟩ := h.held n hn
      exact ⟨s, hs, hholdsn.congr (hrec n hn s hs) fun f hf _ => hkeep f hf⟩
    · exact ⟨r, hr, hholds⟩
  · rw [Distinct, hnodes, pairwise_append]
    refine ⟨?_, pairwise_singleton _ _, fun a ha b hb p hp hpa => ?_⟩
    · refine h.distinct.imp_of_mem fun {a b} ha hb hab p hp hpa => ?_
      rw [hpath b hb]
      exact hab p hp (hpath a ha ▸ hpa)
    -- no node stood where the new one stands
    rw [mem_singleton.1 hb, pathOf_eq hr]
    rw [hpath a ha] at hpa
    rintro heq
    rw [← some.inj heq] at hpa
    exact hvacant.pathOf_ne ha hpa
  · exact hmem _ ((hfiles k hk).imp_left (h.fileUsed k))
  · refine hmem (fun n => n.path = some (.ramLink k)) ((hlinks k hk).imp (h.linkUsed k) ?_)
    rintro rfl
    exact hr
  · refine hmem (fun n => n.path = some (.ramDirectory k)) ((hdirs k hk).imp (h.directoryUsed k) ?_)
    rintro rfl
    exact hr

section

variable (h : Stored v) (hvacant : v.Vacant p)
include h hvacant

lemma Stored.added_file (hk : k < v.ramFiles.count) (hunused : ¬(v.ramFile k).used) :
    Added v { v with
      ramFiles := v.ramFiles.set k { used := true, path := p }
      nodes := v.nodes ++ [fileNode k] } (fileNode k) (.ramFile k) := by
  have hslot :
    (v.ramFiles.set k { used := true, path := p }).slot k = { used := true, path := p } :=
    slot_set_self _ _ _
  refine ⟨rfl, fun n hn s hs => sameRecord_set_file _ (h.ne_ramFile hunused hn hs), rfl, ?_, ?_,
    ?_, ?_, fun l hl => .inl hl, fun l hl => .inl hl⟩
  · refine ⟨⟨rfl, rfl, rfl, rfl, hk, ?_⟩, ?_⟩
    · rw [hslot]
    · rw [ramFile, hslot]
      exact hvacant.canonical
  · rwa [text, ramFile, hslot]
  · intro l hl
    rw [FileInUse, Table.inUse_set]
    split
    · exact ⟨hk, rfl⟩
    · exact hl
  · intro l hl
    obtain ⟨rfl, -⟩ | ⟨hl, -⟩ := inUse_of_set _ hl
    · exact .inr rfl
    · exact .inl hl

lemma Stored.added_link (hk : k < v.ramLinks.count)
    (hunused : ¬(v.ramLinks.slot k).used) (hf : v.FileInUse f) :
    Added v { v with
      ramLinks := v.ramLinks.set k { used := true, path := p, target := some f }
      nodes := v.nodes ++ [linkNode k f size] } (linkNode k f size) (.ramLink k) := by
  have hslot : (v.ramLinks.set k { used := true, path := p, target := some f }).slot k =
      { used := true, path := p, target := some f } := slot_set_self _ _ _
  refine ⟨rfl, fun n hn s hs => sameRecord_set_link _ (h.ne_ramLink hunused hn hs), rfl, ?_, ?_,
    fun l hl => hl, fun l hl => .inl hl, ?_, fun l hl => .inl hl⟩
  · refine ⟨⟨hk, ?_⟩, ?_, f, ⟨rfl, rfl, rfl, rfl, hf⟩, ?_⟩
    · rw [hslot]
    · rw [hslot]
      exact hvacant.canonical
    · rw [hslot]
  · rwa [text, hslot]
  · intro l hl
    obtain ⟨rfl, -⟩ | ⟨hl, -⟩ := inUse_of_set _ hl
    · exact .inr rfl
    · exact .inl hl

lemma Stored.added_directory
    (hk : k < v.ramDirectories.count) (hunused : ¬(v.ramDirectories.slot k).used) :
    Added v { v with
      ramDirectories := v.ramDirectories.set k { used := true, path := p }
      nodes := v.nodes ++ [directoryNode k] } (directoryNode k) (.ramDirectory k) := by
  have hslot : (v.ramDirectories.set k { used := true, path := p }).slot k =
      { used := true, path := p } := slot_set_self _ _ _
  refine ⟨rfl, fun n hn s hs => sameRecord_set_directory _ (h.ne_ramDirectory hunused hn hs), rfl,
    ?_, ?_, fun l hl => hl, fun l hl => .inl hl, fun l hl => .inl hl, ?_⟩
  · refine ⟨⟨hk, ?_⟩, ?_, rfl, rfl⟩
    · rw [hslot]
    · rw [hslot]
      exact hvacant.canonical
  · rwa [text, hslot]
  · intro l hl
    obtain ⟨rfl, -⟩ | ⟨hl, -⟩ := inUse_of_set _ hl
    · exact .inr rfl
    · exact .inl hl

end

/-! ## A node is moved -/

/-- The text behind the path of one node is overwritten. -/
structure Moved (v v' : Vfs) (i : ℕ) (p : Path) (r : PathRef) : Prop where
  at_ : v.StandsAt i p
  path : (v.nodeAt i).path = some r
  nodes : v'.nodes = v.nodes
  use : SameUse v v'
  record : ∀ s, s ≠ r → SameRecord v v' s
  vacant : v.Vacant (v'.text r)
  holds : v.Holds (v.nodeAt i) r → v'.Holds (v.nodeAt i) r

section

variable (h : Stored v)
include h

/-- The node that is moved is the only one with its path in that record. -/
lemma Stored.moved_self (hm : Moved v v' i p r) (hn : n ∈ v.nodes)
    (hnr : n.path = some r) : v.nodeAt i = n := by
  refine h.distinct.nodeAt_eq hm.at_ hn ?_
  rw [pathOf_eq hnr, ← pathOf_eq hm.path, hm.at_.path]

lemma Stored.moved_pathOf (hm : Moved v v' i p r) (hn : n ∈ v.nodes)
    (hnr : n.path ≠ some r) : v'.pathOf n = v.pathOf n := by
  obtain ⟨s, hs, -⟩ := h.held n hn
  exact (hm.record s fun hsr => hnr (hsr ▸ hs)).pathOf hs

lemma Stored.of_moved (hm : Moved v v' i p r) : Stored v' := by
  have hself (n : Node) (hn : n ∈ v.nodes) := h.moved_self hm hn
  have hpath (n : Node) (hn : n ∈ v.nodes) := h.moved_pathOf hm hn
  obtain ⟨hat, hr, hnodes, huse, hrec, hvacant, hholds⟩ := hm
  have hold := hat.text_eq hr
  refine ⟨fun n hn => ?_, ?_, fun k hk => ?_, fun k hk => ?_, fun k hk => ?_⟩
  · rw [hnodes] at hn
    obtain ⟨s, hs, hholdsn⟩ := h.held n hn
    refine ⟨s, hs, ?_⟩
    by_cases hsr : s = r
    · subst hsr
      obtain rfl := hself n hn hs
      exact hholds hholdsn
    · exact hholdsn.congr (hrec s hsr) fun f hf _ => (huse.files f).2 hf
  · rw [Distinct, hnodes]
    refine h.distinct.imp_of_mem fun {a b} ha hb hab c hc hca hcb => ?_
    by_cases har : a.path = some r
    · by_cases hbr : b.path = some r
      · exact hab p hat.canonical (by rw [pathOf_eq har, hold]) (by rw [pathOf_eq hbr, hold])
      · rw [pathOf_eq har] at hca
        rw [hpath b hb hbr, ← hca] at hcb
        exact hvacant.pathOf_ne hb hcb
    · rw [hpath a ha har] at hca
      by_cases hbr : b.path = some r
      · rw [pathOf_eq hbr] at hcb
        rw [← hcb] at hca
        exact hvacant.pathOf_ne ha hca
      · rw [hpath b hb hbr] at hcb
        exact hab c hc hca hcb
  · exact hnodes ▸ h.fileUsed k ((huse.files k).1 hk)
  · exact hnodes ▸ h.linkUsed k ((huse.links k).1 hk)
  · exact hnodes ▸ h.directoryUsed k ((huse.directories k).1 hk)

/-- A link in use with the path of a node is the record behind that path. -/
lemma Stored.path_eq_ramLink (hat : v.StandsAt i p) (hk : v.LinkInUse k)
    (htext : (v.ramLinks.slot k).path = p) : (v.nodeAt i).path = some (.ramLink k) := by
  obtain ⟨n, hn, hr⟩ := h.linkUsed k hk
  rw [h.distinct.nodeAt_eq hat hn (by rw [pathOf_eq hr, text, htext]), hr]

lemma Stored.path_eq_ramDirectory (hat : v.StandsAt i p) (hk : v.DirectoryInUse k)
    (htext : (v.ramDirectories.slot k).path = p) :
    (v.nodeAt i).path = some (.ramDirectory k) := by
  obtain ⟨n, hn, hr⟩ := h.directoryUsed k hk
  rw [h.distinct.nodeAt_eq hat hn (by rw [pathOf_eq hr, text, htext]), hr]

/-- Without such a link the path of a RAM file's node is in the record of the file. -/
lemma Stored.path_eq_ramFile (hat : v.StandsAt i p)
    (hf : (v.nodeAt i).ramFile = some f)
    (hlinks : ∀ k < v.ramLinks.count, (v.ramLinks.slot k).used → (v.ramLinks.slot k).path ≠ p) :
    (v.nodeAt i).path = some (.ramFile f) := by
  obtain ⟨r, hr, hholds⟩ := h.held _ (nodeAt_mem hat.lt)
  cases r with
  | constant text => cases Eq.symm hholds |>.trans hf
  | ramFile g =>
    obtain rfl : g = f := some.inj (hholds.1.ramFile.symm.trans hf)
    exact hr
  | ramLink => exact absurd (hat.text_eq hr) (hlinks _ hholds.1.1 hholds.1.2)
  | ramDirectory d => cases hholds.2.2.2.symm.trans hf

end

/-- Pointing a node to where its path is already changes nothing. -/
lemma modify_path_eq (hr : (v.nodeAt i).path = some r) :
    (v.nodes.modify i fun node => { node with path := some r }) = v.nodes := by
  apply ext_getElem?
  intro j
  rw [getElem?_modify]
  split
  · next hij =>
    subst hij
    cases hnode : v.nodes[i]? with
    | none => rfl
    | some n =>
      have hn : v.nodeAt i = n := by
        rw [nodeAt, getD_eq_getElem?_getD, hnode, getD_some]
      rw [hn] at hr
      rw [Option.map_eq_map, Option.map_some, ← hr]
  · exact Option.map_id'

lemma inUse_modify {α : Type*} {t : Table α} {used : α → Bool} {g : α → α}
    (hg : used (g (t.slot k)) = used (t.slot k)) (l : ℕ) :
    (t.modify k g).InUse used l ↔ t.InUse used l := by
  rw [Table.modify, Table.inUse_set, hg]
  split
  · next hl => rw [Table.InUse, hl]
  · rfl

lemma text_moveToLink : (v.moveToLink i k q).text (.ramLink k) = q := by
  have hslot := v.ramLinks.slot_modify_self k fun link => { link with path := q }
  exact congrArg RamLink.path hslot

lemma text_moveToDirectory : (v.moveToDirectory i k q).text (.ramDirectory k) = q := by
  have hslot := v.ramDirectories.slot_modify_self k fun d => { d with path := q }
  exact congrArg RamDirectory.path hslot

lemma text_moveToFile : (v.moveToFile i f q).text (.ramFile f) = q := by
  have hslot := v.ramFiles.slot_modify_self f fun file => { file with path := q }
  exact congrArg RamFile.path hslot

section

variable (h : Stored v) (hat : v.StandsAt i p) (hvacant : v.Vacant q)
include h hat hvacant

lemma Stored.moved_link
    (hk : k < v.ramLinks.count) (hused : (v.ramLinks.slot k).used)
    (htext : (v.ramLinks.slot k).path = p) : Moved v (v.moveToLink i k q) i p (.ramLink k) := by
  have hr := h.path_eq_ramLink hat ⟨hk, hused⟩ htext
  have hslot : (v.moveToLink i k q).ramLinks.slot k = { v.ramLinks.slot k with path := q } :=
    v.ramLinks.slot_modify_self k fun link => { link with path := q }
  refine ⟨hat, hr, modify_path_eq hr, ⟨fun _ => .rfl, inUse_modify rfl, fun _ => .rfl⟩,
    fun s hs => sameRecord_set_link _ hs, ?_, fun hholds => ?_⟩
  · rwa [text, hslot]
  obtain ⟨-, -, g, ⟨hram, htype, hwrite, hdisk, hinUse⟩, htarget⟩ := hholds
  refine ⟨(inUse_modify rfl k).2 ⟨hk, hused⟩, ?_, g, ⟨hram, htype, hwrite, hdisk, hinUse⟩, ?_⟩
  · rw [hslot]
    exact hvacant.canonical
  · rwa [hslot]

lemma Stored.moved_directory
    (hk : k < v.ramDirectories.count) (hused : (v.ramDirectories.slot k).used)
    (htext : (v.ramDirectories.slot k).path = p) :
    Moved v (v.moveToDirectory i k q) i p (.ramDirectory k) := by
  have hr := h.path_eq_ramDirectory hat ⟨hk, hused⟩ htext
  have hslot : (v.moveToDirectory i k q).ramDirectories.slot k =
      { v.ramDirectories.slot k with path := q } :=
    v.ramDirectories.slot_modify_self k fun d => { d with path := q }
  refine ⟨hat, hr, modify_path_eq hr, ⟨fun _ => .rfl, fun _ => .rfl, inUse_modify rfl⟩,
    fun s hs => sameRecord_set_directory _ hs, ?_, fun hholds => ?_⟩
  · rwa [text, hslot]
  · refine ⟨(inUse_modify rfl k).2 ⟨hk, hused⟩, ?_, hholds.2.2⟩
    rw [hslot]
    exact hvacant.canonical

lemma Stored.moved_file
    (hf : (v.nodeAt i).ramFile = some f)
    (hlinks : ∀ k < v.ramLinks.count, (v.ramLinks.slot k).used → (v.ramLinks.slot k).path ≠ p) :
    Moved v (v.moveToFile i f q) i p (.ramFile f) := by
  have hr := h.path_eq_ramFile hat hf hlinks
  have hslot : (v.moveToFile i f q).ramFiles.slot f = { v.ramFile f with path := q } :=
    v.ramFiles.slot_modify_self f fun file => { file with path := q }
  refine ⟨hat, hr, modify_path_eq hr, ⟨inUse_modify rfl, fun _ => .rfl, fun _ => .rfl⟩,
    fun s hs => sameRecord_set_file _ hs, ?_, fun hholds => ?_⟩
  · rwa [text, ramFile, hslot]
  obtain ⟨⟨hram, htype, hwrite, hdisk, hinUse⟩, -⟩ := hholds
  refine ⟨⟨hram, htype, hwrite, hdisk, (inUse_modify rfl f).2 hinUse⟩, ?_⟩
  rw [ramFile, hslot]
  exact hvacant.canonical

end

/-! ## The size of a file is set -/

lemma nodeAt_setFileSize (hj : j < v.nodes.length) :
    (v.setFileSize k size).nodeAt j = if (v.nodeAt j).ramFile = some k then
        { v.nodeAt j with base := .ramData k, size := size }
      else v.nodeAt j := by
  have hj' : j < (v.setFileSize k size).nodes.length := by
    rwa [setFileSize, length_map]
  rw [nodeAt_eq_getElem hj', nodeAt_eq_getElem hj]
  exact getElem_map _

lemma kept_setFileSize : Kept v (v.setFileSize k size) := by
  refine ⟨length_map _, fun j hj => ?_, ⟨inUse_modify rfl, fun _ => .rfl, fun _ => .rfl⟩,
    fun n _ r _ => ?_⟩
  · rw [nodeAt_setFileSize hj]
    split
    · exact ⟨rfl, rfl, rfl, rfl, rfl⟩
    · exact Alike.refl _
  · cases r with
    | constant text => trivial
    | ramFile l =>
      rw [SameRecord, ramFile, setFileSize, slot_modify]
      split <;> rfl
    | ramLink | ramDirectory => exact ⟨rfl, rfl⟩

/-! ## A node is removed -/

lemma mem_eraseIdx : n ∈ v.nodes.eraseIdx i ↔ ∃ j < v.nodes.length, j ≠ i ∧ v.nodeAt j = n := by
  rw [mem_eraseIdx_iff_getElem]
  constructor
  · rintro ⟨j, hj, hne, rfl⟩
    exact ⟨j, hj, hne, nodeAt_eq_getElem hj⟩
  · rintro ⟨j, hj, hne, rfl⟩
    exact ⟨j, hj, hne, (nodeAt_eq_getElem hj).symm⟩

/-- A node leaves the table, and with it the records only it needed. -/
structure Removed (v v' : Vfs) (i : ℕ) : Prop where
  nodes : v'.nodes = v.nodes.eraseIdx i
  record : ∀ j < v.nodes.length, j ≠ i → ∀ r, (v.nodeAt j).path = some r → SameRecord v v' r
  keep : ∀ j < v.nodes.length, j ≠ i → ∀ f, v.FileInUse f → (v.nodeAt j).ramFile = some f →
    v'.FileInUse f
  files : ∀ k, v'.FileInUse k → ∃ j < v.nodes.length, j ≠ i ∧ (v.nodeAt j).ramFile = some k
  links : ∀ k, v'.LinkInUse k → v.LinkInUse k ∧ (v.nodeAt i).path ≠ some (.ramLink k)
  directories : ∀ k, v'.DirectoryInUse k →
    v.DirectoryInUse k ∧ (v.nodeAt i).path ≠ some (.ramDirectory k)

section

variable (h : Stored v)
include h

lemma Stored.removed_pathOf (hremoved : Removed v v' i) (hj : j < v.nodes.length)
    (hne : j ≠ i) : v'.pathOf (v.nodeAt j) = v.pathOf (v.nodeAt j) := by
  obtain ⟨r, hr, -⟩ := h.held _ (nodeAt_mem hj)
  exact (hremoved.record j hj hne r hr).pathOf hr

lemma Stored.of_removed (hremoved : Removed v v' i) : Stored v' := by
  have hpath (n : Node) (hn : n ∈ v.nodes.eraseIdx i) : v'.pathOf n = v.pathOf n := by
    obtain ⟨j, hj, hne, rfl⟩ := mem_eraseIdx.1 hn
    exact h.removed_pathOf hremoved hj hne
  obtain ⟨hnodes, hrec, hkeep, hfiles, hlinks, hdirs⟩ := hremoved
  -- a node that needs a record the removed node does not need is still there
  have hstays (s : PathRef) (hex : ∃ n ∈ v.nodes, n.path = some s)
      (hne : (v.nodeAt i).path ≠ some s) : ∃ n ∈ v'.nodes, n.path = some s := by
    obtain ⟨j, hj, hs⟩ := exists_nodeAt_iff.1 hex
    rw [hnodes]
    refine ⟨_, mem_eraseIdx.2 ⟨j, hj, ?_, rfl⟩, hs⟩
    rintro rfl
    exact hne hs
  refine ⟨fun n hn => ?_, ?_, fun k hk => ?_, fun k hk => ?_, fun k hk => ?_⟩
  · rw [hnodes] at hn
    obtain ⟨j, hj, hne, rfl⟩ := mem_eraseIdx.1 hn
    obtain ⟨r, hr, hholds⟩ := h.held _ (nodeAt_mem hj)
    exact ⟨r, hr, hholds.congr (hrec j hj hne r hr) (hkeep j hj hne)⟩
  · rw [Distinct, hnodes]
    refine (h.distinct.sublist (eraseIdx_sublist _ _)).imp_of_mem fun {a b} ha hb hab p hp hpa => ?_
    rw [hpath b hb]
    exact hab p hp (hpath a ha ▸ hpa)
  · obtain ⟨j, hj, hne, hram⟩ := hfiles k hk
    rw [hnodes]
    exact ⟨_, mem_eraseIdx.2 ⟨j, hj, hne, rfl⟩, hram⟩
  · obtain ⟨hin, hne⟩ := hlinks k hk
    exact hstays _ (h.linkUsed k hin) hne
  · obtain ⟨hin, hne⟩ := hdirs k hk
    exact hstays _ (h.directoryUsed k hin) hne

/-- `delete_ram_file` clears the link behind the path of the node, if there is one. -/
lemma Stored.freeLink_cases (hat : v.StandsAt i p) :
    (∃ k, (v.nodeAt i).path = some (.ramLink k) ∧
      v.freeLink p = { v with ramLinks := v.ramLinks.set k {} }) ∨
    ((∀ k, (v.nodeAt i).path ≠ some (.ramLink k)) ∧ v.freeLink p = v) := by
  rw [freeLink]
  split
  · next k hslot =>
    obtain ⟨hk, ⟨hused, htext⟩, -⟩ := find_eq_some.1 hslot
    exact .inl ⟨k, h.path_eq_ramLink hat ⟨hk, hused⟩ htext, rfl⟩
  · next hslot =>
    refine .inr ⟨fun k hr => ?_, rfl⟩
    have hholds := h.inUse (nodeAt_mem hat.lt) hr
    exact find_eq_none.1 hslot k hholds.1.1 ⟨hholds.1.2, hat.text_eq hr⟩

lemma Stored.freeDirectory_cases (hat : v.StandsAt i p) :
    (∃ k, (v.nodeAt i).path = some (.ramDirectory k) ∧
      v.freeDirectory p = { v with ramDirectories := v.ramDirectories.set k {} }) ∨
    ((∀ k, (v.nodeAt i).path ≠ some (.ramDirectory k)) ∧ v.freeDirectory p = v) := by
  rw [freeDirectory]
  split
  · next k hslot =>
    obtain ⟨hk, ⟨hused, htext⟩, -⟩ := find_eq_some.1 hslot
    exact .inl ⟨k, h.path_eq_ramDirectory hat ⟨hk, hused⟩ htext, rfl⟩
  · next hslot =>
    refine .inr ⟨fun k hr => ?_, rfl⟩
    have hholds := h.inUse (nodeAt_mem hat.lt) hr
    exact find_eq_none.1 hslot k hholds.1.1 ⟨hholds.1.2, hat.text_eq hr⟩

/-- No other node has its path in the same record. -/
lemma Stored.path_ne (hi : v.StandsAt i p) (hr : (v.nodeAt i).path = some r)
    (hj : j < v.nodes.length) (hne : j ≠ i) : (v.nodeAt j).path ≠ some r := by
  intro hjr
  exact hne (h.distinct.eq ⟨hi.canonical, hj, by rw [pathOf_eq hjr, hi.text_eq hr]⟩ hi)

lemma Stored.removed_file (hat : v.StandsAt i p)
    (hf : (v.nodeAt i).ramFile = some f) :
    Removed v (((v.freeLink p).removeNode i).freeUnlinked f) i := by
  -- the state before the last step, which may clear the file
  generalize hw : (v.freeLink p).removeNode i = w
  obtain ⟨hnodes, hwfiles, hwdirectories⟩ : w.nodes = v.nodes.eraseIdx i ∧ w.ramFiles = v.ramFiles ∧
      w.ramDirectories = v.ramDirectories := by
    obtain ⟨k, -, hfree⟩ | ⟨-, hfree⟩ := h.freeLink_cases hat <;> rw [← hw, hfree] <;>
      exact ⟨rfl, rfl, rfl⟩
  have hwlinks (k : ℕ) (hk : w.LinkInUse k) :
      v.LinkInUse k ∧ (v.nodeAt i).path ≠ some (.ramLink k) := by
    obtain ⟨l, hl, hfree⟩ | ⟨hne, hfree⟩ := h.freeLink_cases hat
    · rw [← hw, hfree] at hk
      obtain ⟨-, hused⟩ | ⟨hk, hkl⟩ := inUse_of_set _ hk
      · cases hused
      refine ⟨hk, fun hr => hkl ?_⟩
      rw [hl] at hr
      cases hr
      rfl
    · rw [← hw, hfree] at hk
      exact ⟨hk, hne k⟩
  have hrec (j : ℕ) (hj : j < v.nodes.length) (hne : j ≠ i) (r : PathRef)
      (hr : (v.nodeAt j).path = some r) : SameRecord v w r := by
    obtain ⟨l, hl, hfree⟩ | ⟨-, hfree⟩ := h.freeLink_cases hat
    · rw [← hw, hfree]
      refine sameRecord_set_link _ ?_
      rintro rfl
      exact h.path_ne hat hl hj hne hr
    · rw [← hw, hfree]
      exact sameRecord_of_eq rfl rfl rfl r
  have hdirs (k : ℕ) (hk : v.DirectoryInUse k) :
      v.DirectoryInUse k ∧ (v.nodeAt i).path ≠ some (.ramDirectory k) := by
    refine ⟨hk, fun hr => ?_⟩
    cases (h.inUse (nodeAt_mem hat.lt) hr).2.2.2.symm.trans hf
  have hlinked : w.stillLinked f ↔ ∃ j < v.nodes.length, j ≠ i ∧ (v.nodeAt j).ramFile = some f := by
    rw [stillLinked, hnodes]
    constructor
    · rintro ⟨n, hn, -, hram⟩
      obtain ⟨j, hj, hne, rfl⟩ := mem_eraseIdx.1 hn
      exact ⟨j, hj, hne, hram⟩
    · rintro ⟨j, hj, hne, hram⟩
      exact ⟨_, mem_eraseIdx.2 ⟨j, hj, hne, rfl⟩, (h.ofRamFile (nodeAt_mem hj) hram).type, hram⟩
  -- another file keeps the nodes it has
  have hother (k : ℕ) (hk : v.FileInUse k) (hkf : k ≠ f) :
      ∃ j < v.nodes.length, j ≠ i ∧ (v.nodeAt j).ramFile = some k := by
    obtain ⟨j, hj, hram⟩ := exists_nodeAt_iff.1 (h.fileUsed k hk)
    refine ⟨j, hj, ?_, hram⟩
    rintro rfl
    exact hkf (some.inj (hram.symm.trans hf))
  rw [freeUnlinked]
  split
  · next hstill =>
    refine ⟨hnodes, hrec, fun j hj hne g hg _ => ?_, fun k hk => ?_, hwlinks,
      fun k hk => hdirs k ?_⟩
    · rwa [FileInUse, hwfiles]
    · rw [FileInUse, hwfiles] at hk
      by_cases hkf : k = f
      · rw [hkf]
        exact hlinked.1 hstill
      · exact hother k hk hkf
    · rwa [DirectoryInUse, hwdirectories] at hk
  · next hstill =>
    rw [hlinked] at hstill
    have hnot (j : ℕ) (hj : j < v.nodes.length) (hne : j ≠ i) : (v.nodeAt j).ramFile ≠ some f :=
      fun hram => hstill ⟨j, hj, hne, hram⟩
    refine ⟨hnodes, fun j hj hne r hr => ?_, fun j hj hne g hg hram => ?_, fun k hk => ?_,
      hwlinks, fun k hk => hdirs k ?_⟩
    · have hsame := hrec j hj hne r hr
      cases r with
      | constant text => trivial
      | ramFile l =>
        have hlf : l ≠ f := by
          rintro rfl
          exact hnot j hj hne (h.inUse (nodeAt_mem hj) hr).1.ramFile
        rwa [SameRecord, ramFile, slot_set, if_neg hlf]
      | ramLink | ramDirectory => exact hsame
    · have hgf : g ≠ f := fun hgf => hnot j hj hne (hgf ▸ hram)
      rwa [FileInUse, Table.inUse_set, if_neg hgf, hwfiles]
    · rw [FileInUse, Table.inUse_set, hwfiles] at hk
      split at hk
      · cases hk.2
      · next hkf => exact hother k hk hkf
    · rwa [hwdirectories] at hk

lemma Stored.removed_directory (hat : v.StandsAt i p)
    (htype : (v.nodeAt i).type = .directory) :
    Removed v ((v.freeDirectory p).removeNode i) i := by
  have hram : (v.nodeAt i).ramFile = none :=
    h.ramFile_eq_none (nodeAt_mem hat.lt) (by rw [htype]; decide)
  have hfiles (k : ℕ) (hk : v.FileInUse k) :
      ∃ j < v.nodes.length, j ≠ i ∧ (v.nodeAt j).ramFile = some k := by
    obtain ⟨j, hj, hjk⟩ := exists_nodeAt_iff.1 (h.fileUsed k hk)
    refine ⟨j, hj, ?_, hjk⟩
    rintro rfl
    cases hram.symm.trans hjk
  have hlinks (k : ℕ) (hk : v.LinkInUse k) :
      v.LinkInUse k ∧ (v.nodeAt i).path ≠ some (.ramLink k) := by
    refine ⟨hk, fun hr => ?_⟩
    obtain ⟨-, -, f, hf, -⟩ := h.inUse (nodeAt_mem hat.lt) hr
    cases htype.symm.trans hf.type
  obtain ⟨l, hl, hfree⟩ | ⟨hne, hfree⟩ := h.freeDirectory_cases hat
  · rw [hfree]
    refine ⟨rfl, fun j hj hne r hr => ?_, fun j hj hne g hg _ => hg, hfiles, hlinks, fun k hk => ?_⟩
    · refine sameRecord_set_directory _ ?_
      rintro rfl
      exact h.path_ne hat hl hj hne hr
    obtain ⟨-, hused⟩ | ⟨hk, hkl⟩ := inUse_of_set _ hk
    · cases hused
    refine ⟨hk, fun hr => hkl ?_⟩
    rw [hl] at hr
    cases hr
    rfl
  · rw [hfree]
    exact ⟨rfl, fun j _ _ r _ => sameRecord_of_eq rfl rfl rfl r, fun j hj hne g hg _ => hg, hfiles,
      hlinks, fun k hk => ⟨hk, hne k⟩⟩

end

/-! ## All calls -/

lemma writableRamFile_eq_some (h : n.writableRamFile = some f) : n.ramFile = some f := by
  rw [Node.writableRamFile] at h
  split at h
  · exact h
  · cases h

lemma Stored.sourceInUse (h : Stored v) (hat : v.StandsAt i p)
    (hfile : (v.nodeAt i).writableRamFile = some f) : v.FileInUse f :=
  (h.ofRamFile (nodeAt_mem hat.lt) (writableRamFile_eq_some hfile)).inUse

lemma Stored.change {op : NamespaceOp} {res : Bool × Vfs} (h : Stored v)
    (hchange : Change v op res) : Stored res.2 := by
  cases hchange with
  | refuse => exact h
  | clearFile _ hunused => exact h.of_kept (h.kept_clear_file hunused)
  | clearLink _ hunused => exact h.of_kept (h.kept_clear_link hunused)
  | clearDirectory _ hunused => exact h.of_kept (h.kept_clear_directory hunused)
  | createFile _ hvacant hk hunused => exact h.of_added (h.added_file hvacant hk hunused)
  | createLink _ _ hvacant hsrc hfile hk hunused =>
    exact h.of_added (h.added_link hvacant hk hunused (h.sourceInUse hsrc hfile))
  | createDirectory _ hvacant hk hunused => exact h.of_added (h.added_directory hvacant hk hunused)
  | truncate => exact h.of_kept kept_setFileSize
  | moveLink _ _ hvacant hat _ hk hused htext =>
    exact h.of_moved (h.moved_link hat hvacant hk hused htext)
  | moveFile _ _ hvacant hat hfile hlinks _ =>
    exact h.of_moved (h.moved_file hat hvacant hfile hlinks)
  | moveDirectory _ _ hvacant hat _ _ hk hused htext =>
    exact h.of_moved (h.moved_directory hat hvacant hk hused htext)
  | deleteFile _ hat hfile _ => exact h.of_removed (h.removed_file hat hfile)
  | deleteDirectory _ _ hat htype _ => exact h.of_removed (h.removed_directory hat htype)

end IanOS.Vfs
