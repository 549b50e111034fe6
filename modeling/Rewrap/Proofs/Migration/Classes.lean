import Rewrap.Proofs.Migration.Accounting
import Rewrap.Proofs.Migration.Requests
import Rewrap.Proofs.Migration.Skipping
import Rewrap.Proofs.Path.Order

/-! # Every file is accounted for

Each file that a migration lists is excluded, cannot be read, does not hold the retiring import, or
is a candidate. Only files of the second kind are reported as failed by the discovery, and only
candidates are written. -/

namespace Rewrap

open FileTree (Frame Anywhere)

variable {w w' : World} {p q : Path}

/-! ## The order of a walk -/

theorem FileTree.IsSource.eq_of_components {t : FileTree} (h : t.WellFormed) {root : Path}
    {k k' : Place} (hp : t.IsSource root p k) (hq : t.IsSource root q k')
    (heq : p.components = q.components) : p = q := by
  obtain ⟨R, names, b, hR, rfl, rfl, hb⟩ := hp
  obtain ⟨R', names', b', hR', rfl, rfl, hb'⟩ := hq
  rw [hR] at hR'
  cases hR'
  have hsome : t.get? (R ++ names) ≠ none := by simp [hb]
  have hsome' : t.get? (R ++ names') ≠ none := by simp [hb']
  obtain ⟨hnames, -⟩ := h.names_of_append hsome
  obtain ⟨hnames', -⟩ := h.names_of_append hsome'
  rw [Path.components_below _ hnames, Path.components_below _ hnames'] at heq
  have hsame : names = names' :=
    List.map_injective_iff.mpr (fun _ _ hname => Path.Component.name.inj hname)
      (List.append_cancel_left heq)
  rw [hsame]

/-- Where the files below the root come in the order of their paths, a walk finds them as they
come. -/
theorem FileTree.walk_of_pairwise {t : FileTree} (h : t.WellFormed) {root : Path} {k : Place}
    (hk : t.resolve true root = .ok k) (hfolder : t.get? k = some .folder)
    (hsorted : ((t.filesBelow k).map root.below).Pairwise fun p q => p.compare q = .lt) :
    t.walk root = .ok ((t.filesBelow k).map root.below) := by
  have hwalk := walk_eq hk hfolder
  rw [hwalk, Path.eq_of_pairwise_lt (pairwise_walk h hwalk) hsorted fun p => ?_]
  simp only [List.mem_map, h.mem_filesWithin_height hfolder, h.mem_filesBelow]

/-! ## Reports -/

theorem Report.count_results (r : Report) :
    r.migrated + r.skipped + r.errors.length = r.results.length := by
  unfold migrated skipped errors
  induction r.results with
  | nil => rfl
  | cons e es ih =>
      obtain ⟨p, outcome⟩ := e
      cases outcome <;> simp at ih ⊢ <;> omega

/-! ## Reading -/

theorem World.source_reply_of_ne (w : World) (hne : p ≠ q) :
    (w.reply (.readSource q)).2.source p = w.source p := by
  have hcontains : (q :: w.sourcesRead).contains p = w.sourcesRead.contains p := by
    rw [List.contains_cons, beq_eq_false_iff_ne.mpr hne, Bool.false_or]
  unfold World.source
  simp only [World.reply, hcontains]

namespace Migration

variable {m : Migration}

/-- Files that are read once, one after the other, give what each of them gives at the start. -/
theorem readAll_of_nodup {ps : List Path} (hnodup : ps.Nodup) (w : World) :
    ((readAll ps).run w).1 = ps.map fun p => (p, w.source p) := by
  induction ps generalizing w with
  | nil => rfl
  | cons p ps ih =>
      obtain ⟨hnew, hnodup⟩ := List.nodup_cons.mp hnodup
      unfold readAll
      rw [Action.run_bind, Action.run_bind, ih hnodup]
      refine congrArg ((p, w.source p) :: ·) (List.map_congr_left fun q hq => ?_)
      have hne : q ≠ p := fun heq => hnew (heq ▸ hq)
      exact congrArg (Prod.mk q) (World.source_reply_of_ne w hne)

theorem requests_readAll (ps : List Path) (w : World) :
    (readAll ps).requests w = ps.map Request.readSource := by
  induction ps generalizing w with
  | nil => rfl
  | cons p ps ih =>
      unfold readAll
      rw [Action.requests_bind, Action.requests_bind, ih]
      exact congrArg (Request.readSource p :: ·) (List.append_nil _)

/-! ## Listing -/

/-- The files that a migration lists. -/
def Lists (m : Migration) (w : World) (files : List Path) : Prop :=
  (listFiles m.swap.spec.extensions m.root).run.run w = (.ok files, w)

/-- The files that a migration reads to discover. -/
def included (m : Migration) (files : List Path) : List Path :=
  files.filter fun p => !m.selector.isExcluded p

theorem mem_included {files : List Path} :
    p ∈ m.included files ↔ p ∈ files ∧ m.selector.isExcluded p = false := by
  simp [included]

variable {files : List Path}

theorem nodup_included (m : Migration) (h : files.Nodup) : (m.included files).Nodup := h.filter _

theorem Lists.eq (h : m.Lists w files) :
    ∃ ps, w.tree.walk m.root = .ok ps ∧
      files = ps.filter (hasExtension m.swap.spec.extensions) := by
  obtain ⟨ps, w₁, hwalk, hdone⟩ := Attempt.bind_eq_ok h
  cases hdone
  rw [Attempt.run_orFail] at hwalk
  exact ⟨ps, Except.mapError_eq_ok.mp (Prod.mk.inj hwalk).1, rfl⟩

theorem listFiles_of_walk {root : Path} {ps : List Path} (hwalk : w.tree.walk root = .ok ps)
    (extensions : List String) :
    (listFiles extensions root).run.run w = (.ok (ps.filter (hasExtension extensions)), w) := by
  unfold listFiles
  rw [Attempt.run_bind, Attempt.run_orFail, Action.run_ask]
  simp only [World.reply, hwalk]
  rfl

theorem Lists.of_pairwise (hw : w.tree.WellFormed) {k : Place}
    (hk : w.tree.resolve true m.root = .ok k) (hfolder : w.tree.get? k = some .folder)
    (hsorted : ((w.tree.filesBelow k).map m.root.below).Pairwise fun p q => p.compare q = .lt) :
    m.Lists w (((w.tree.filesBelow k).map m.root.below).filter
      (hasExtension m.swap.spec.extensions)) :=
  listFiles_of_walk (FileTree.walk_of_pairwise hw hk hfolder hsorted) _

theorem Lists.nodup (h : m.Lists w files) (hw : w.tree.WellFormed) : files.Nodup := by
  obtain ⟨ps, hwalk, rfl⟩ := h.eq
  exact (FileTree.walk_spec hw hwalk).1.filter _

theorem Lists.isSource (h : m.Lists w files) (hw : w.tree.WellFormed) (hp : p ∈ files) :
    ∃ k, w.tree.IsSource m.root p k := by
  obtain ⟨ps, hwalk, rfl⟩ := h.eq
  exact (FileTree.walk_spec hw hwalk).2 p (List.mem_filter.mp hp).1

/-- A file that is listed and not excluded is one that the migration reads. -/
theorem Lists.reads (h : m.Lists w files) (hw : w.tree.WellFormed) (hp : p ∈ m.included files) :
    ∃ k, m.Reads w.tree p k := by
  obtain ⟨hlisted, hincluded⟩ := mem_included.mp hp
  obtain ⟨k, hk⟩ := h.isSource hw hlisted
  obtain ⟨ps, -, rfl⟩ := h.eq
  exact ⟨k, hk, (List.mem_filter.mp hlisted).2, hincluded⟩

theorem Lists.leadOf_inj (h : m.Lists w files) (hw : w.tree.WellFormed) (hp : p ∈ files)
    (hq : q ∈ files) (heq : w.tree.leadOf p = w.tree.leadOf q) : p = q := by
  obtain ⟨k, hk⟩ := h.isSource hw hp
  obtain ⟨k', hk'⟩ := h.isSource hw hq
  rw [hk.leadOf hw, hk'.leadOf hw] at heq
  cases heq
  exact hk.inj hk'

theorem Lists.relative_inj (h : m.Lists w files) (hw : w.tree.WellFormed) (hp : p ∈ files)
    (hq : q ∈ files) (heq : m.relative p = m.relative q) : p = q := by
  obtain ⟨k, hk⟩ := h.isSource hw hp
  obtain ⟨k', hk'⟩ := h.isSource hw hq
  exact Migration.relative_inj hw hk hk' heq

/-- What is discovered goes by what each of the files gives that are not excluded. -/
theorem Lists.discover (h : m.Lists w files) (hnodup : files.Nodup) :
    m.discover.run.run w = (.ok (m.discoveryOf ((m.included files).map fun p => (p, w.source p))),
      { w with sourcesRead := (m.included files).reverse ++ w.sourcesRead }) ∧
    m.discover.run.requests w = .walk m.root :: (m.included files).map Request.readSource := by
  have hwalk : (listFiles m.swap.spec.extensions m.root).run.requests w = [.walk m.root] := by
    unfold listFiles
    rw [ExceptT.run_bind, Action.requests_bind, Attempt.requests_orFail]
    split <;> rfl
  have hread : (Attempt.always (readAll (m.included files)) : Attempt WalkError _).run.run w =
      (.ok ((m.included files).map fun p => (p, w.source p)),
        { w with sourcesRead := (m.included files).reverse ++ w.sourcesRead }) := by
    rw [Attempt.run_always, readAll_world, readAll_of_nodup (m.nodup_included hnodup)]
  unfold Migration.discover
  rw [Attempt.bind_of_ok h, Attempt.requests_bind h, hwalk]
  change (Attempt.always (readAll (m.included files)) >>= _).run.run w = _ ∧
    _ ++ (Attempt.always (readAll (m.included files)) >>= _).run.requests w = _
  rw [Attempt.bind_of_ok hread, Attempt.requests_bind hread, Attempt.requests_always,
    requests_readAll, Attempt.requests_pure, List.append_nil]
  exact ⟨rfl, rfl⟩

/-! ## Classes -/

/-- What a listed file can be to a migration. -/
inductive FileClass where
  | excluded
  | unreadable
  | unselected
  | candidate

/-- Whether a file is of a class. A file that is not excluded is told by what it gives when it is
read. -/
def IsOf (m : Migration) (w : World) (p : Path) : FileClass → Prop
  | .excluded => m.selector.isExcluded p = true
  | .unreadable => m.selector.isExcluded p = false ∧ ∃ e, w.source p = .error e
  | .unselected =>
      m.selector.isExcluded p = false ∧ ∃ x, w.source p = .ok x ∧ m.selector.accepts x = false
  | .candidate =>
      m.selector.isExcluded p = false ∧ ∃ x, w.source p = .ok x ∧ m.selector.accepts x = true

/-- Each file is of one class. -/
theorem existsUnique_isOf (m : Migration) (w : World) (p : Path) : ∃! c, m.IsOf w p c := by
  cases hexcluded : m.selector.isExcluded p with
  | true =>
      refine ⟨.excluded, hexcluded, fun c hc => ?_⟩
      cases c <;> simp_all [IsOf]
  | false =>
      cases hsource : w.source p with
      | error e =>
          refine ⟨.unreadable, ⟨hexcluded, e, hsource⟩, fun c hc => ?_⟩
          cases c <;> simp_all [IsOf]
      | ok x =>
          cases haccepts : m.selector.accepts x with
          | true =>
              refine ⟨.candidate, ⟨hexcluded, x, hsource, haccepts⟩, fun c hc => ?_⟩
              cases c <;> simp_all [IsOf]
          | false =>
              refine ⟨.unselected, ⟨hexcluded, x, hsource, haccepts⟩, fun c hc => ?_⟩
              cases c <;> simp_all [IsOf]

/-- A discovery tells listed files by their classes: the errors are those of the files that cannot
be read, in the order of the listing, and the candidates are in the order of their paths. -/
structure Classifies (m : Migration) (w : World) (files : List Path) (d : Discovery) : Prop where
  errors : (d.errors.map Prod.fst).Sublist files
  mem_errors : ∀ p e, (p, e) ∈ d.errors ↔ p ∈ files ∧ m.selector.isExcluded p = false ∧
    w.source p = .error e
  candidates : d.candidates.Pairwise fun p q => p.compare q = .lt
  mem_candidates : ∀ p, p ∈ d.candidates ↔ p ∈ files ∧ m.IsOf w p .candidate

theorem mem_errors {readings : List (Path × Except FileError Text)} {e : FileError} :
    (p, e) ∈ (m.discoveryOf readings).errors ↔ (p, .error e) ∈ readings := by
  unfold discoveryOf
  rw [List.mem_filterMap]
  constructor
  · rintro ⟨⟨q, x⟩, hx, heq⟩
    cases x with
    | error e' =>
        cases heq
        exact hx
    | ok x => cases heq
  · intro h
    exact ⟨_, h, rfl⟩

theorem errors_sublist (m : Migration) (readings : List (Path × Except FileError Text)) :
    ((m.discoveryOf readings).errors.map Prod.fst).Sublist (readings.map Prod.fst) := by
  induction readings with
  | nil => exact .slnil
  | cons r rs ih =>
      obtain ⟨p, x⟩ := r
      cases x with
      | error e => exact ih.cons_cons p
      | ok x => exact ih.cons p

theorem Lists.classifies (h : m.Lists w files) (hw : w.tree.WellFormed) :
    m.Classifies w files (m.discoveryOf ((m.included files).map fun p => (p, w.source p))) := by
  have hmem : ∀ p x, (p, x) ∈ ((m.included files).map fun p => (p, w.source p)) ↔
      (p ∈ files ∧ m.selector.isExcluded p = false) ∧ w.source p = x := by
    intro p x
    rw [← mem_included, List.mem_map]
    constructor
    · rintro ⟨q, hq, heq⟩
      cases heq
      exact ⟨hq, rfl⟩
    · rintro ⟨hp, rfl⟩
      exact ⟨p, hp, rfl⟩
  have hnodup := m.nodup_included (h.nodup hw)
  have hpaths : ((m.included files).map fun p => (p, w.source p)).map Prod.fst =
      m.included files := by
    rw [List.map_map]
    exact List.map_id _
  have hread : ∀ p ∈
      (m.discoveryOf ((m.included files).map fun p => (p, w.source p))).candidates,
      ∃ k, m.Reads w.tree p k := by
    intro p hp
    obtain ⟨-, x, hx, -⟩ := Migration.mem_candidates.mp hp
    exact h.reads hw (mem_included.mpr ((hmem p _).mp hx).1)
  constructor
  · refine (m.errors_sublist _).trans ?_
    rw [hpaths]
    exact List.filter_sublist
  · intro p e
    rw [Migration.mem_errors, hmem, and_assoc]
  · have hdistinct := (m.discoveryOf_spec (hpaths.symm ▸ hnodup)).1
    have hdistinct := (List.nodup_append.mp hdistinct).2.1
    refine (List.Pairwise.and (Path.pairwise_mergeSort _) hdistinct).imp_of_mem fun hp hq hpq => ?_
    rename_i p q
    obtain ⟨k, hk, -⟩ := hread p hp
    obtain ⟨k', hk', -⟩ := hread q hq
    obtain ⟨hle, hne⟩ := hpq
    unfold Path.le at hle
    cases hcompare : p.compare q with
    | lt => rfl
    | eq => exact absurd (hk.eq_of_components hw hk' (Path.components_eq_of_compare hcompare)) hne
    | gt =>
        rw [hcompare] at hle
        cases hle
  · intro p
    rw [Migration.mem_candidates]
    constructor
    · rintro ⟨hexcluded, x, hx, haccepts⟩
      obtain ⟨⟨hfile, -⟩, hsource⟩ := (hmem p _).mp hx
      exact ⟨hfile, hexcluded, x, hsource, haccepts⟩
    · rintro ⟨hfile, hexcluded, x, hsource, haccepts⟩
      exact ⟨hexcluded, x, (hmem p _).mpr ⟨⟨hfile, hexcluded⟩, hsource⟩, haccepts⟩

/-! ## Whole runs -/

theorem migrateAll_paths (m : Migration) (o : Options) (progress : Progress) (ps : List Path)
    (w : World) :
    ((m.migrateAll o progress ps).run w).1.results.map Prod.fst =
      progress.results.map Prod.fst ++ ps.map m.relative := by
  induction ps generalizing progress w with
  | nil => exact (List.append_nil _).symm
  | cons p ps ih =>
      unfold migrateAll
      rw [Action.run_bind, ih, List.map_append, List.append_assoc]
      rfl

/-- A run keeps within bounds: it changes nothing while it discovers, reads only files that are not
excluded, writes each candidate at most once, and changes at each point only candidates that were
written and, if there is a journal, backups of candidates. -/
structure IsConfined (m : Migration) (w : World) (files : List Path) (journal : Option Journal)
    (d : Discovery) (found rest : List Request) : Prop where
  quiet : ∀ r ∈ found, r.targets = []
  source : ∀ p, .readSource p ∈ found ++ rest → p ∈ files ∧
    m.selector.isExcluded p = false
  own : ∀ p, .read p ∉ found ++ rest
  written : (Request.written rest).Sublist d.candidates
  differs : ∀ pre, pre <+: found ++ rest → ∀ k, w.tree.DiffersAt (w.after pre).tree k →
    ∃ p ∈ d.candidates, (p ∈ Request.written pre ∧ w.tree.leadOf p = some k) ∨
      ∃ j, journal = some j ∧ w.tree.leadOf (j.store.backupPath j.runId p) = some k

theorem Lists.isConfined (h : m.Lists w files) (hw : w.tree.WellFormed) {d : Discovery}
    {start : World} (hdiscover : m.discover.run.run w = (.ok d, start))
    (hclassifies : m.Classifies w files d) (o : Options) (progress : Progress) :
    m.IsConfined w files progress.journal d (m.discover.run.requests w)
      ((m.migrateAll o progress d.candidates).requests start) := by
  obtain ⟨-, hfound⟩ := h.discover (h.nodup hw)
  obtain ⟨hasks, hwritten⟩ := m.migrateAll_asks o progress d.candidates start
  obtain ⟨htree, -, -⟩ := discover_reads hw hdiscover
  have hcandidate : ∀ p ∈ d.candidates, p ∈ files ∧
      m.selector.isExcluded p = false := fun p hp =>
    ⟨((hclassifies.mem_candidates p).mp hp).1, ((hclassifies.mem_candidates p).mp hp).2.1⟩
  have hmem : ∀ r ∈ m.discover.run.requests w, r = .walk m.root ∨ ∃ p ∈ m.included files,
      r = .readSource p := by
    intro r hr
    rw [hfound, List.mem_cons, List.mem_map] at hr
    exact hr.imp_right fun ⟨p, hp, heq⟩ => ⟨p, hp, heq.symm⟩
  refine ⟨fun r hr => ?_, fun p hp => ?_, fun p hp => ?_, hwritten,
    fun pre hpre k hdiffers => ?_⟩
  · rcases hmem r hr with rfl | ⟨p, -, rfl⟩ <;> rfl
  · rcases List.mem_append.mp hp with hp | hp
    · obtain heq | ⟨q, hq, heq⟩ := hmem _ hp
      · cases heq
      · cases heq
        exact mem_included.mp hq
    · obtain ⟨q, hq, hasks⟩ := hasks _ hp
      cases hasks
      exact hcandidate p hq
  · rcases List.mem_append.mp hp with hp | hp
    · obtain heq | ⟨q, -, heq⟩ := hmem _ hp <;> cases heq
    · obtain ⟨q, -, hasks⟩ := hasks _ hp
      cases hasks
  · have halong := along_discover m [] ⟨(rfl : w.tree = w.tree), rfl⟩
    rcases prefix_append_cases hpre with hpre | ⟨mid, rfl, hmid⟩
    · rw [(halong.of_prefix hpre).1] at hdiffers
      exact absurd rfl hdiffers
    · have hafter : w.after (m.discover.run.requests w ++ mid) = start.after mid := by
        rw [World.after_append, Action.after_requests, hdiscover]
      have hquiet : Request.written (m.discover.run.requests w) = [] := halong.finish.2
      rw [hafter, ← htree] at hdiffers
      obtain ⟨-, hframe⟩ := frame_of_asksFor (htree ▸ hw) fun r hr => hasks r (hmid.subset hr)
      obtain ⟨p, hp, hplace⟩ := hframe.of_differsAt hdiffers
      rw [htree] at hplace
      rw [Request.written_append, hquiet, List.nil_append]
      refine ⟨p, hp, ?_⟩
      rcases hplace with hplace | ⟨s, id, hkey, hlead⟩
      · exact .inl hplace
      · obtain ⟨j, hj, heq⟩ := Option.map_eq_some_iff.mp hkey
        cases heq
        exact .inr ⟨j, hj, hlead⟩

/-- Each file that a migration lists is excluded, cannot be read, is not selected, or is a
candidate, and is found to be so. The run keeps within bounds, whatever fails, and reports each file
that cannot be read and each candidate. -/
theorem run_accounts (hw : w.tree.WellFormed) (hfiles : m.Lists w files) (o : Options)
    (journal : Option Journal) :
    files.Nodup ∧ (∀ p ∈ files, ∃! c, m.IsOf w p c) ∧
      ∃ d start rest report journal', m.discover.run.run w = (.ok d, start) ∧
        m.Classifies w files d ∧
        (m.run o journal).run.run w = (.ok (report, journal'), start.after rest) ∧
        (m.run o journal).run.requests w = m.discover.run.requests w ++ rest ∧
        m.IsConfined w files journal d (m.discover.run.requests w) rest ∧
        report.candidates = d.candidates.length ∧
        report.migrated + report.skipped + report.errors.length =
          d.candidates.length + d.errors.length := by
  obtain ⟨hdiscover, -⟩ := hfiles.discover (hfiles.nodup hw)
  have hclassifies := hfiles.classifies hw
  obtain ⟨unread, hunread, -, hrequests, hmigrated⟩ := run_of_discover hdiscover o journal
  have hconfined := hfiles.isConfined hw hdiscover hclassifies o ⟨unread, {}, journal⟩
  refine ⟨hfiles.nodup hw, fun p _ => m.existsUnique_isOf w p, _, _, _, _, _,
    hdiscover, hclassifies,
    hmigrated.trans (Prod.ext rfl (Action.after_requests _ _).symm), hrequests,
      hconfined, rfl, ?_⟩
  have hpaths := congrArg List.length (m.migrateAll_paths o ⟨unread, {}, journal⟩
    (m.discoveryOf ((m.included files).map fun p => (p, w.source p))).candidates
    { w with sourcesRead := (m.included files).reverse ++ w.sourcesRead })
  rw [Report.count_results]
  rw [List.length_append, hunread] at hpaths
  simp only [List.length_map] at hpaths
  rw [hpaths, Nat.add_comm]

/-! ## A page of each class -/

/-- Four pages, of which the third cannot be read and the last does not hold the retiring import. -/
def fourPages : World where
  tree := ⟨[], [(["src"], .folder),
    (["src", "a.ts"], .file (Text.toBytes "import A from 'a'\n<P></P>".toList)),
    (["src", "b.ts"], .file (Text.toBytes "import A from 'a'\n<P></P>".toList)),
    (["src", "c.ts"], .file (Text.toBytes "import A from 'a'\n<P></P>".toList)),
    (["src", "d.ts"], .file (Text.toBytes "<P></P>".toList))]⟩
  faults := { unreadable := [⟨"/src/c.ts"⟩] }

/-- A migration that leaves the second of them alone. -/
def sparing : Migration :=
  { guardedRun.migration with
    selector := ⟨⟨"A", "a"⟩, ⟨⟨"/"⟩, [⟨"/src/b.ts"⟩], []⟩⟩ }

theorem lists_fourPages :
    sparing.Lists fourPages [⟨"/src/a.ts"⟩, ⟨"/src/b.ts"⟩, ⟨"/src/c.ts"⟩,
      ⟨"/src/d.ts"⟩] :=
  Lists.of_pairwise (k := ["src"]) (.of_isPlain (by decide)) (by decide) rfl (by decide)

/-- Each of the four pages is of another class. -/
theorem run_accounts_fourPages :
    ∃ d start rest report journal, sparing.discover.run.run fourPages = (.ok d, start) ∧
      (sparing.run ⟨true, .quiet⟩ none).run.run fourPages =
        (.ok (report, journal), start.after rest) ∧
      ⟨"/src/a.ts"⟩ ∈ d.candidates ∧ sparing.IsOf fourPages ⟨"/src/b.ts"⟩ .excluded ∧
      (⟨"/src/c.ts"⟩, Faults.error) ∈ d.errors ∧
      sparing.IsOf fourPages ⟨"/src/d.ts"⟩ .unselected ∧
      report.migrated + report.skipped + report.errors.length =
        d.candidates.length + d.errors.length := by
  have hplain : fourPages.tree.isPlain = true := by decide
  have hexcluded : sparing.selector.isExcluded ⟨"/src/b.ts"⟩ = true := by decide
  have hfirst : fourPages.source ⟨"/src/a.ts"⟩ = .ok "import A from 'a'\n<P></P>".toList := by
    decide
  have hlast : fourPages.source ⟨"/src/d.ts"⟩ = .ok "<P></P>".toList := by decide
  have hfails : fourPages.source ⟨"/src/c.ts"⟩ = .error Faults.error := by decide
  obtain ⟨-, -, d, start, rest, report, journal, hdiscover, hclassifies, hrun, -,
    -, -, hcount⟩ := run_accounts (.of_isPlain hplain) lists_fourPages ⟨true, .quiet⟩ none
  refine ⟨d, start, rest, report, journal, hdiscover, hrun, ?_, hexcluded, ?_, ?_, hcount⟩
  · exact (hclassifies.mem_candidates _).mpr ⟨by simp, by decide, _, hfirst, by decide⟩
  · exact (hclassifies.mem_errors _ _).mpr ⟨by simp, by decide, hfails⟩
  · exact ⟨by decide, _, hlast, by decide⟩

end Migration

end Rewrap
