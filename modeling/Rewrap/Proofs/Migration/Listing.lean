import Rewrap.Proofs.Migration.Classes

/-! # The listing of files

A listing gives each file below its root that has one of the extensions, whatever links stand beside
it, in the order of the paths. So the files that a discovery selects come in that order already, and
sorting them changes nothing. -/

namespace Rewrap.Migration

variable {w : World} {m : Migration} {root : Path} {R : Place} {extensions : List String}
  {files : List Path}

theorem hasExtension_iff {p : Path} :
    hasExtension extensions p = true ↔ ∃ e ∈ extensions, p.extension? = some e := by
  unfold hasExtension
  split
  · next e he => simp [he]
  · next hnone => simp [hnone]

/-- The listing has each file below the place of the root that has one of the extensions, once and
under the path that its names spell from the root, in the order of these paths. -/
structure IsListing (t : FileTree) (extensions : List String) (root : Path) (R : Place)
    (files : List Path) : Prop where
  found : ∃ places : List Place, files = places.map root.below ∧ places.Nodup ∧
    ∀ names, names ∈ places ↔
    (∃ b, t.get? (R ++ names) = some (.file b)) ∧
      ∃ e ∈ extensions, (root.below names).extension? = some e
  ordered : files.Pairwise fun p q => p.compare q = .lt

theorem isListing_of_walk {t : FileTree} (h : t.WellFormed) (hfolder : t.get? R = some .folder)
    (hwalk : t.walk root = .ok ((t.filesWithin t.height R).map root.below))
    (extensions : List String) :
    IsListing t extensions root R
      (((t.filesWithin t.height R).map root.below).filter (hasExtension extensions)) where
  found := by
    have hnodup : (t.filesWithin t.height R).Nodup := (FileTree.walk_spec h hwalk).1.of_map _
    refine ⟨(t.filesWithin t.height R).filter (hasExtension extensions ∘ root.below),
      List.filter_map, hnodup.filter _, fun names => ?_⟩
    rw [List.mem_filter, h.mem_filesWithin_height hfolder, Function.comp_apply, hasExtension_iff]
  ordered := (FileTree.pairwise_walk h hwalk).filter _

/-- What is selected from paths in order comes in order. -/
theorem mergeSort_of_sublist {selected : List Path}
    (hfiles : files.Pairwise fun p q => p.compare q = .lt) (h : selected.Sublist files) :
    selected.mergeSort Path.le = selected :=
  List.mergeSort_of_pairwise ((hfiles.sublist h).imp fun hlt => by simp [Path.le, hlt])

/-- The listed files that are not excluded, as far as they can be read, with their texts. -/
def texts (m : Migration) (w : World) (files : List Path) : List (Path × Text) :=
  (m.included files).filterMap fun p => (w.source p).toOption.map (p, ·)

theorem filterMap_source_sublist (w : World) :
    ∀ ps : List Path, ((ps.filterMap fun p => (w.source p).toOption.map (p, ·)).map
      Prod.fst).Sublist ps
  | [] => .slnil
  | p :: ps => by
      have ih := filterMap_source_sublist w ps
      cases hsource : w.source p with
      | error e => simpa [hsource, Except.toOption] using ih.cons p
      | ok x => simpa [hsource, Except.toOption] using ih.cons_cons p

theorem texts_sublist (m : Migration) (w : World) (files : List Path) :
    ((m.texts w files).map Prod.fst).Sublist files :=
  (filterMap_source_sublist w (m.included files)).trans List.filter_sublist

theorem select_sublist (s : Selector) (texts : List (Path × Text)) :
    (s.select texts).Sublist (texts.map Prod.fst) :=
  List.filter_sublist.map _

/-- Where the listing is in order, what is discovered is selected from it as it comes. -/
theorem Lists.candidates_eq (h : m.Lists w files)
    (hfiles : files.Pairwise fun p q => p.compare q = .lt) :
    ∃ d start, m.discover.run.run w = (.ok d, start) ∧
      d.candidates = m.selector.select (m.texts w files) := by
  have hnodup : files.Nodup := hfiles.imp fun hlt heq => by simp [heq, Path.compare_self] at hlt
  obtain ⟨hdiscover, -⟩ := h.discover hnodup
  refine ⟨_, _, hdiscover, ?_⟩
  have hsame : (((m.included files).map fun p => (p, w.source p)).filterMap
      fun r => r.2.toOption.map (r.1, ·)) = m.texts w files := by
    rw [List.filterMap_map]
    rfl
  unfold discoveryOf
  simp only [hsame]
  exact mergeSort_of_sublist hfiles ((select_sublist _ _).trans (m.texts_sublist w files))

/-- Below a folder the listing is complete, free of duplicates and in order, and a discovery takes
its candidates from it as they come. -/
theorem listFiles_isListing (hw : w.tree.WellFormed) (hroot : w.tree.resolve true root = .ok R)
    (hfolder : w.tree.get? R = some .folder) (extensions : List String) :
    ∃ files, (listFiles extensions root).run.run w = (.ok files, w) ∧
      IsListing w.tree extensions root R files ∧
      ∀ m : Migration, m.root = root → m.swap.spec.extensions = extensions →
        ∃ d start, m.discover.run.run w = (.ok d, start) ∧
          d.candidates = m.selector.select (m.texts w files) := by
  have hwalk := FileTree.walk_eq hroot hfolder
  have hlisted := listFiles_of_walk hwalk extensions
  have hlisting := isListing_of_walk hw hfolder hwalk extensions
  refine ⟨_, hlisted, hlisting, ?_⟩
  rintro m rfl rfl
  exact Lists.candidates_eq hlisted hlisting.ordered

/-- A folder with siblings whose names go on after a common letter, among them a link. -/
def siblings : World where
  tree := ⟨[], [(["src"], .folder),
    (["src", "a"], .folder),
    (["src", "a", "z.tsx"], .file (Text.toBytes "import NavBar from '@/components/NavBar'".toList)),
    (["src", "a-b"], .folder),
    (["src", "a-b", "c.tsx"],
      .file (Text.toBytes "import NavBar from '@/components/NavBar'".toList)),
    (["src", "a.tsx"], .file (Text.toBytes "import NavBar from '@/components/NavBar'".toList)),
    (["src", "b.css"], .file (Text.toBytes [])),
    (["src", "c.tsx"], .link ⟨"a.tsx"⟩)]⟩

/-- A migration of the folder. -/
def siblingsMigration : Migration :=
  ⟨⟨"/src"⟩, ⟨⟨"A", "a", "B", "b", [], ["tsx"], []⟩, by decide⟩,
    ⟨⟨"NavBar", "@/components/NavBar"⟩, ⟨⟨"/"⟩, [], []⟩⟩⟩

/-- The files in a folder come where its name does, and the link is not listed. -/
theorem listFiles_isListing_siblings :
    siblings.tree.resolve true ⟨"/src"⟩ = .ok ["src"] ∧
      (listFiles ["tsx"] ⟨"/src"⟩).run.run siblings =
        (.ok [⟨"/src/a/z.tsx"⟩, ⟨"/src/a-b/c.tsx"⟩, ⟨"/src/a.tsx"⟩], siblings) ∧
      IsListing siblings.tree ["tsx"] ⟨"/src"⟩ ["src"]
        [⟨"/src/a/z.tsx"⟩, ⟨"/src/a-b/c.tsx"⟩, ⟨"/src/a.tsx"⟩] ∧
      ∃ d start, siblingsMigration.discover.run.run siblings = (.ok d, start) ∧
        d.candidates = [⟨"/src/a/z.tsx"⟩, ⟨"/src/a-b/c.tsx"⟩, ⟨"/src/a.tsx"⟩] := by
  have hw : siblings.tree.WellFormed := .of_isWellFormed (by decide)
  have hroot : siblings.tree.resolve true ⟨"/src"⟩ = .ok ["src"] := by decide
  have hwalk := FileTree.walk_of_pairwise hw hroot rfl (by decide)
  have hlisted : (listFiles ["tsx"] ⟨"/src"⟩).run.run siblings =
      (.ok [⟨"/src/a/z.tsx"⟩, ⟨"/src/a-b/c.tsx"⟩, ⟨"/src/a.tsx"⟩], siblings) :=
        listFiles_of_walk hwalk ["tsx"]
  obtain ⟨files, hfiles, hlisting, hdiscovers⟩ := listFiles_isListing hw hroot rfl ["tsx"]
  rw [hlisted] at hfiles
  cases hfiles
  obtain ⟨d, start, hdiscover, hcandidates⟩ := hdiscovers siblingsMigration rfl rfl
  refine ⟨hroot, hlisted, hlisting, d, start, hdiscover, hcandidates.trans ?_⟩
  decide +kernel

end Rewrap.Migration
