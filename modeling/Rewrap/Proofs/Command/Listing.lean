import Rewrap.Proofs.Command.Recording
import Rewrap.Proofs.Migration.Classes

/-! # What a scan and a migration list

A scan and a migration begin alike, and go through the candidates of one discovery in one order.
Each of them shows a candidate by its path below the root. Where the root is the candidate itself,
nothing is left of this path, and only the migration then shows the whole path. -/

namespace Rewrap

namespace Migration

variable {m : Migration} {w : World}

theorem migrateAll_dry_journal (m : Migration) (format : PreviewFormat) (progress : Progress)
    (ps : List Path) (w : World) :
    ((m.migrateAll ⟨false, format⟩ progress ps).run w).1.journal = progress.journal := by
  induction ps generalizing progress w with
  | nil => rfl
  | cons p ps ih =>
      unfold migrateAll
      rw [Action.run_bind, ih, run_migrateFile]
      rcases m.useReading_cases p (w.source p) with ⟨outcome, -, hdone⟩ |
        ⟨before, r, -, -, -, hmade⟩
      · rw [hdone]
        rfl
      · rw [hmade]
        rfl

/-- A dry run reports on the candidates of its discovery after the files that could not be read. -/
theorem run_dry_paths {d : Discovery} {start : World} (h : m.discover.run.run w = (.ok d, start))
    (format : PreviewFormat) :
    ∃ report w₁, (m.run ⟨false, format⟩ none).run.run w = (.ok (report, none), w₁) ∧
      report.runId = none ∧ report.candidates = d.candidates.length ∧
      report.results.map Prod.fst = (d.errors.map Prod.fst).map m.relative ++
        d.candidates.map m.relative := by
  obtain ⟨-, hrun⟩ := run_discovered h ⟨false, format⟩ none
  have hpaths := m.migrateAll_paths ⟨false, format⟩ ⟨m.unread d, {}, none⟩
    d.candidates start
  rw [migrateAll_dry_journal] at hrun
  rw [unread_paths] at hpaths
  exact ⟨_, _, hrun, rfl, rfl, hpaths⟩

end Migration

namespace Command

variable {env : Environment} {c : CommandLine} {m : Migration} {w start : World} {root p : Path}
  {recorded : String} {format : PreviewFormat} {d : Migration.Discovery}

/-! ## Scanning -/

/-- The path under which a scan shows a candidate. -/
def scanned (root p : Path) : Path := (p.relativeTo? root).getD p

/-- What a scan prints: the candidates as they are listed, and the files that could not be read. -/
def scanText (listed : List Path) (errors : List (Path × FileError)) : String :=
  "Found " ++ toString listed.length ++ " files to migrate\n"
    ++ String.join (listed.map fun p => "  " ++ p.text ++ "\n")
    ++ String.join (errors.map fun (p, e) =>
      "  ERR " ++ p.text ++ ": " ++ (Migration.FileFailure.undiscoverable p e).message ++ "\n")

theorem run_print (s : String) (w : World) :
    (print s).run.run w = (.ok (), { w with out := w.out ++ s }) :=
  Attempt.run_print s w

theorem run_forM_print {α : Type} {f : α → Attempt Error Unit} {line : α → String}
    (hf : ∀ a, f a = print (line a)) (as : List α) (w : World) :
    (as.forM f).run.run w = (.ok (), { w with out := w.out ++ String.join (as.map line) }) := by
  induction as generalizing w with
  | nil => simp [String.join]
  | cons a as ih =>
      rw [Attempt.run_forM_cons, hf, run_print]
      simp only [ih, List.map_cons, String.join_cons, String.append_assoc]

theorem scan_of_discover (hsetup : (migrationOf env c root).run.run w = (.ok m, w))
    (hdiscover : m.discover.run.run w = (.ok d, start)) :
    (scan env c root).run.run w =
      (.ok (), { start with
        out := start.out ++ scanText (d.candidates.map (scanned root)) d.errors }) := by
  have hfound : (m.discover.adapt Error.walk).run.run w = (.ok d, start) := by
    rw [Attempt.run_adapt, hdiscover]
    rfl
  unfold scan
  rw [Attempt.bind_of_ok hsetup, Attempt.bind_of_ok hfound, Attempt.bind_of_ok (run_print _ _),
    Attempt.bind_of_ok (run_forM_print (fun _ => rfl) _ _), run_forM_print (fun _ => rfl)]
  simp [scanText, scanned, String.append_assoc, Function.comp_def]

/-! ## Migrating without writing -/

/-- A dry run ends with the report. -/
theorem migrate_of_dry_run {report : Report} {w₁ : World}
    (hsetup : (migrationOf env c root).run.run w = (.ok m, w))
    (hrun : (m.run ⟨false, format⟩ none).run.run w = (.ok (report, none), w₁))
    (hid : report.runId = none) (recorded : String) :
    ∃ shown, (migrate env c format recorded root false).run.run w =
      (.ok (), { w₁ with out := shown ++ report.text }) := by
  have hmigrated : ((m.run ⟨false, format⟩ none).adapt Error.walk).run.run w =
      (.ok (report, none), w₁) := by
    rw [Attempt.run_adapt, hrun]
    rfl
  obtain ⟨shown, hreport⟩ :=
    run_report (decide (format ≠ .quiet) && c.summary) report.stats.summary report.text w₁
  refine ⟨shown, ?_⟩
  unfold migrate
  rw [Attempt.bind_of_ok hsetup]
  simp only [Bool.false_eq_true, if_false]
  rw [Attempt.bind_of_ok hmigrated, ← hreport]
  cases report
  cases hid
  rfl

theorem migrationOf_root {w' : World} (h : (migrationOf env c root).run.run w = (.ok m, w')) :
    m.root = root := by
  unfold migrationOf at h
  obtain ⟨s, w₁, -, hspec⟩ := Attempt.bind_eq_ok h
  rw [Attempt.run_ofExcept] at hspec
  have hm := Except.mapError_eq_ok.mp (Prod.mk.inj hspec).1
  obtain ⟨exclusions, -, hm⟩ := Except.bind_eq_ok.mp hm
  obtain ⟨swap, -, hm⟩ := Except.bind_eq_ok.mp hm
  cases hm
  rfl

/-! ## The paths that are shown -/

/-- Below the root a scan and a migration show a file by the same path. -/
theorem scanned_eq_relative {t : FileTree} {k : Place} (h : t.WellFormed)
    (hp : t.IsSource m.root p k) (hne : p ≠ m.root) : scanned m.root p = m.relative p := by
  obtain ⟨R, names, b, -, rfl, rfl, hb⟩ := hp
  have hsome : t.get? (R ++ names) ≠ none := by simp [hb]
  have hnames := (h.names_of_append hsome).1
  have hnil : names ≠ [] := by
    rintro rfl
    exact hne rfl
  rw [Migration.relative_below m hnames, if_neg hnil, scanned, Path.relativeTo?_below _ hnames]
  rfl

theorem scanned_root (root : Path) : scanned root root = ⟨""⟩ := by
  have hnone : ∀ n ∈ ([] : Place), Path.IsName n := nofun
  have h : root.relativeTo? root = some (Path.ofComponents []) := root.relativeTo?_below hnone
  rw [scanned, h]
  rfl

/-- A migration shows it by the whole path. -/
theorem relative_root (m : Migration) : m.relative m.root = m.root := by
  have hnone : ∀ n ∈ ([] : Place), Path.IsName n := nofun
  exact Migration.relative_below m hnone

theorem ne_root_of_folder {t : FileTree} {R k : Place} (h : t.WellFormed)
    (hroot : t.resolve true root = .ok R) (hfolder : t.get? R = some .folder)
    (hp : t.IsSource root p k) : p ≠ root := by
  obtain ⟨R', names, b, hlead, rfl, rfl, hb⟩ := hp
  rw [FileTree.leadOf_of_resolve hroot] at hlead
  cases hlead
  have hsome : t.get? (R ++ names) ≠ none := by simp [hb]
  have hnames := (h.names_of_append hsome).1
  intro heq
  have hcomponents := congrArg Path.components heq
  rw [Path.components_below _ hnames] at hcomponents
  have hnil : names = [] := by simpa using hcomponents
  simp [hnil, hfolder] at hb

/-- A scan lists what a migration reports, unless the root is a candidate itself. -/
theorem map_scanned_iff (hw : w.tree.WellFormed)
    (hdiscover : m.discover.run.run w = (.ok d, start)) :
    d.candidates.map (scanned m.root) = d.candidates.map m.relative ↔
      m.root ∉ d.candidates := by
  have hreads := ((Migration.discover_reads hw hdiscover).2.2 d rfl).2
  constructor
  · intro heq hmem
    obtain ⟨k, -, hextension, -⟩ := hreads _ hmem
    have hshown := List.map_inj_left.mp heq _ hmem
    rw [scanned_root, relative_root] at hshown
    -- the empty path has no extension
    rw [← hshown] at hextension
    cases hextension
  · intro hroot
    refine List.map_congr_left fun p hp => ?_
    obtain ⟨k, hk, -⟩ := hreads p hp
    refine scanned_eq_relative hw hk ?_
    rintro rfl
    exact hroot hp

/-! ## Both commands -/

theorem perform_eq_scan (hformat : PreviewFormat.ofName? c.format = some format) (recorded : String)
    (root : Path) :
    perform env recorded { c with invocation := .scan root } = scan env c root := by
  unfold perform
  rw [hformat]
  rfl

theorem perform_eq_dry_run (hformat : PreviewFormat.ofName? c.format = some format)
    (recorded : String) (root : Path) :
    perform env recorded { c with invocation := .migrate root false } =
      migrate env c format recorded root false := by
  unfold perform
  rw [hformat]
  rfl

/-- Both commands fail where there is nothing to discover. -/
theorem run_of_walk_error {e : Migration.WalkError}
    (hsetup : (migrationOf env c root).run.run w = (.ok m, w))
    (hdiscover : m.discover.run.run w = (.error e, start)) :
    (scan env c root).run.run w = (.error (.walk e), start) ∧
      (migrate env c format recorded root false).run.run w = (.error (.walk e), start) := by
  constructor
  · unfold scan
    rw [Attempt.bind_of_ok hsetup, Attempt.run_bind, Attempt.run_adapt, hdiscover]
    rfl
  · have hrun : (m.run ⟨false, format⟩ none).run.run w = (.error e, start) := by
      unfold Migration.run
      rw [Attempt.run_bind, hdiscover]
    unfold migrate
    rw [Attempt.bind_of_ok hsetup]
    simp only [Bool.false_eq_true, if_false]
    rw [Attempt.run_bind, Attempt.run_adapt, hrun]
    rfl

/-- A scan and a dry run fail alike, or go through. Then the scan lists as many files as the dry run
has candidates, in the same order, and under the paths of their results in the report, unless the
root is a candidate itself. Below a folder they always list the same. -/
theorem scan_lists_reported (hw : w.tree.WellFormed) (env : Environment) (c : CommandLine)
    (recorded : String) (root : Path) :
    (∃ e w', (perform env recorded { c with invocation := .scan root }).run.run w =
          (.error e, w') ∧
        (perform env recorded { c with invocation := .migrate root false }).run.run w =
          (.error e, w')) ∨
      ∃ m d start format report w₁ shown,
        (migrationOf env c root).run.run w = (.ok m, w) ∧
        m.discover.run.run w = (.ok d, start) ∧
        (m.run ⟨false, format⟩ none).run.run w = (.ok (report, none), w₁) ∧
        (perform env recorded { c with invocation := .scan root }).run.run w =
          (.ok (), { start with
            out := start.out ++ scanText (d.candidates.map (scanned root)) d.errors }) ∧
        (perform env recorded { c with invocation := .migrate root false }).run.run w =
          (.ok (), { w₁ with out := shown ++ report.text }) ∧
        report.candidates = d.candidates.length ∧
        (d.candidates.map (scanned root) = (report.results.drop d.errors.length).map Prod.fst ↔
          root ∉ d.candidates) ∧
        ∀ R, w.tree.resolve true root = .ok R → w.tree.get? R = some .folder →
          d.candidates.map (scanned root) = (report.results.drop d.errors.length).map Prod.fst := by
  cases hformat : PreviewFormat.ofName? c.format with
  | none =>
      refine .inl ⟨.unknownFormat c.format, w, ?_⟩
      unfold perform
      rw [hformat]
      exact ⟨rfl, rfl⟩
  | some format =>
      rw [perform_eq_scan hformat, perform_eq_dry_run hformat]
      cases hsetup : (migrationOf env c root).run.run w with
      | mk setup w' =>
        obtain rfl := migrationOf_world hsetup
        cases setup with
        | error e =>
            refine .inl ⟨e, w', ?_, migrate_of_setup_error hsetup⟩
            unfold scan
            rw [Attempt.run_bind, hsetup]
        | ok m =>
          obtain rfl := migrationOf_root hsetup
          cases hdiscover : m.discover.run.run w' with
          | mk found start =>
            cases found with
            | error e => exact .inl ⟨_, _, run_of_walk_error hsetup hdiscover⟩
            | ok d =>
                obtain ⟨report, w₁, hrun, hid, hcandidates, hpaths⟩ :=
                  Migration.run_dry_paths hdiscover format
                obtain ⟨shown, hmigrate⟩ := migrate_of_dry_run hsetup hrun hid recorded
                have hreported : (report.results.drop d.errors.length).map Prod.fst =
                    d.candidates.map m.relative := by
                  rw [List.map_drop, hpaths, List.drop_left' (by simp)]
                have hiff := map_scanned_iff hw hdiscover
                refine .inr ⟨m, d, start, format, report, w₁, shown, rfl, hdiscover, hrun,
                  scan_of_discover hsetup hdiscover, hmigrate, hcandidates,
                    by rw [hreported, hiff], ?_⟩
                intro R hR hfolder
                rw [hreported, hiff]
                intro hmem
                obtain ⟨k, hk, -⟩ :=
                  ((Migration.discover_reads hw hdiscover).2.2 d rfl).2 _ hmem
                exact ne_root_of_folder hw hR hfolder hk rfl

/-- The page is listed and reported by its name. -/
theorem scan_lists_reported_page : ∃ (start w₁ : World) (report : Report) (shown : String),
    (perform atZero "" { invocation := .scan ⟨"/src"⟩ }).run.run { tree := pageBeside [] } =
        (.ok (), { start with out := start.out ++ scanText [⟨"a.ts"⟩] [] }) ∧
      (perform atZero "" { invocation := .migrate ⟨"/src"⟩ false }).run.run
          { tree := pageBeside [] } =
        (.ok (), { w₁ with out := shown ++ report.text }) ∧
      report.results.map Prod.fst = [⟨"a.ts"⟩] := by
  have hplain : (pageBeside []).isPlain = true := by decide
  have hroot : (pageBeside []).resolve true ⟨"/src"⟩ = .ok ["src"] := by decide
  have hsetup := migrationOf_page { tree := pageBeside [] }
  obtain ⟨start, hfound⟩ : ∃ start, pageMigration.discover.run.run { tree := pageBeside [] } =
      (.ok ⟨[⟨"/src/a.ts"⟩], []⟩, start) := ⟨_, Except.pair_of_fst (by decide +kernel)⟩
  have hlisted : [(⟨"/src/a.ts"⟩ : Path)].map (scanned ⟨"/src"⟩) = [⟨"a.ts"⟩] := by
    decide
  rcases scan_lists_reported (w := { tree := pageBeside [] }) (.of_isPlain hplain) atZero
    migrateLine "" ⟨"/src"⟩ with
    ⟨e, w', hscan, -⟩ |
      ⟨m, d, start', format, report, w₁, shown, hm, hd, -, hscan, hmigrate, -, -, hfolder⟩
  · have hscanned : perform atZero "" { migrateLine with invocation := .scan ⟨"/src"⟩ } =
        scan atZero migrateLine ⟨"/src"⟩ := perform_eq_scan (by rfl) _ _
    rw [hscanned, scan_of_discover hsetup hfound] at hscan
    cases hscan
  · cases hsetup.symm.trans hm
    cases hfound.symm.trans hd
    have hreported := hfolder ["src"] hroot rfl
    rw [hlisted] at hscan hreported
    exact ⟨start, w₁, report, shown, hscan, hmigrate, hreported.symm⟩

/-- The migration of the page alone. -/
def singlePage : Migration := { pageMigration with root := ⟨"/src/a.ts"⟩ }

/-- Where the page is the root itself, a scan lists it by an empty path, and a dry run reports it by
its own. -/
theorem scan_not_lists_reported : ∃ (start w₁ : World) (report : Report) (shown : String),
    (perform atZero "" { invocation := .scan ⟨"/src/a.ts"⟩ }).run.run
          { tree := pageBeside [] } =
        (.ok (), { start with out := start.out ++ scanText [⟨""⟩] [] }) ∧
      (perform atZero "" { invocation := .migrate ⟨"/src/a.ts"⟩ false }).run.run
          { tree := pageBeside [] } =
        (.ok (), { w₁ with out := shown ++ report.text }) ∧
      report.results.map Prod.fst = [⟨"/src/a.ts"⟩] := by
  have hquiet : PreviewFormat.ofName? migrateLine.format = some .quiet := rfl
  have hsetup : (migrationOf atZero migrateLine ⟨"/src/a.ts"⟩).run.run
      { tree := pageBeside [] } = (.ok singlePage, { tree := pageBeside [] }) := rfl
  have hfound : singlePage.discover.run.run { tree := pageBeside [] } =
      (.ok ⟨[⟨"/src/a.ts"⟩], []⟩, _) :=
    Except.pair_of_fst (by decide +kernel)
  obtain ⟨report, w₁, hrun, hid, -, hpaths⟩ := Migration.run_dry_paths hfound .quiet
  obtain ⟨shown, hmigrate⟩ := migrate_of_dry_run hsetup hrun hid ""
  have hscan := scan_of_discover hsetup hfound
  have hscanned : [(⟨"/src/a.ts"⟩ : Path)].map (scanned ⟨"/src/a.ts"⟩) = [⟨""⟩] := by
    decide
  have hrelative : singlePage.relative ⟨"/src/a.ts"⟩ = ⟨"/src/a.ts"⟩ := by decide
  rw [hscanned, ← perform_eq_scan hquiet ""] at hscan
  rw [← perform_eq_dry_run hquiet] at hmigrate
  refine ⟨_, w₁, report, shown, hscan, hmigrate, ?_⟩
  rw [hpaths]
  exact congrArg (· :: []) hrelative

end Command

end Rewrap
