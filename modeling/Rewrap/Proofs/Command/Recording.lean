import Rewrap.Command.Basic
import Rewrap.Proofs.FileTree.Plain
import Rewrap.Proofs.Migration.Recording
import Rewrap.Proofs.Migration.Single

/-! # Commands that migrate

A command that changes a file records it and succeeds, if the store was ready for the run. Where the
index cannot be read, files are changed all the same, and nothing is recorded. -/

namespace Rewrap

open RunStore

namespace Command

variable {env : Environment} {c : CommandLine} {m : Migration} {w w' : World} {root : Path}
  {recorded : String} {format : PreviewFormat}

theorem migrationOf_world {r : Except Error Migration}
    (h : (migrationOf env c root).run.run w = (r, w')) : w' = w := by
  have hspec : ((loadSpec c.config).run.run w).2 = w := by
    unfold loadSpec
    split
    · next p _ =>
        unfold Spec.load
        rw [Attempt.run_adapt, Attempt.run_bind, Attempt.run_readText]
        cases (w.tree.read p).bind Text.ofBytes with
        | ok x => simp [Except.mapError]
        | error e => simp [Except.mapError]
    · rfl
  unfold migrationOf at h
  rw [Attempt.run_bind] at h
  split at h
  · next spec w₁ hload =>
      rw [hload] at hspec
      rw [Attempt.run_ofExcept] at h
      cases h
      exact hspec
  · next e w₁ hload =>
      rw [hload] at hspec
      cases h
      exact hspec

/-- What a command needs in order to record what it changes: the store's own places are no links,
the store is ready for the run, and the migration reads none of the store's own files; the run's id
and time are made from a clock, and source files that can be read are read as they are. -/
structure Prepared (env : Environment) (c : CommandLine) (root : Path) (w : World) : Prop where
  guarded : (env.store c.localState).Guarded [env.newRunId] w.tree
  ready : (env.store c.localState).Ready env.newRunId w.tree
  spared : ∀ m w', (migrationOf env c root).run.run w = (.ok m, w') →
    (env.store c.localState).Spared [env.newRunId] m w.tree
  id : ∃ clock, env.newRunId = Journal.idAt clock
  time : env.newRunTime.IsValid
  faults : w.faults.AreHonest

/-- Printing a report succeeds, and what it prints ends with the report. -/
theorem run_report (summarized : Bool) (x y : String) (w : World) :
    ∃ shown, (if summarized = true
        then do { print x; print y } else print y : Attempt Error Unit).run.run w =
      (.ok (), { w with out := shown ++ y }) := by
  split
  · exact ⟨w.out ++ x, Attempt.bind_of_ok (Attempt.run_print _ _)⟩
  · exact ⟨w.out, Attempt.run_print _ _⟩

theorem migrate_of_setup_error {e : Error} {apply : Bool}
    (hsetup : (migrationOf env c root).run.run w = (.error e, w)) :
    (migrate env c format recorded root apply).run.run w = (.error e, w) := by
  unfold migrate
  rw [Attempt.run_bind, hsetup]

theorem migrate_of_run_error {e : Migration.WalkError} {w₂ : World}
    (hsetup : (migrationOf env c root).run.run w = (.ok m, w))
    (hmigrated : (m.run ⟨true, format⟩
      (some ⟨env.store c.localState, env.newRunId, recorded, root, []⟩)).run.run w =
      (.error e, w₂)) :
    (migrate env c format recorded root true).run.run w = (.error (.walk e), w₂) := by
  unfold migrate
  rw [Attempt.bind_of_ok hsetup]
  simp only [if_true]
  rw [Attempt.run_bind, Attempt.run_adapt, hmigrated]
  rfl

theorem migrate_of_run {report : Report} {j : Journal} {w₂ : World}
    (hsetup : (migrationOf env c root).run.run w = (.ok m, w))
    (hmigrated : (m.run ⟨true, format⟩
      (some ⟨env.store c.localState, env.newRunId, recorded, root, []⟩)).run.run w =
      (.ok (report, some j), w₂)) :
    ∃ w', (migrate env c format recorded root true).run.run w =
        (((j.finish env.newRunTime).run.run w₂).1.map (fun _ => ()) |>.mapError .run, w') ∧
      w'.tree = ((j.finish env.newRunTime).run.run w₂).2.tree := by
  unfold migrate
  rw [Attempt.bind_of_ok hsetup]
  simp only [if_true]
  rw [Attempt.run_bind, Attempt.run_adapt, hmigrated]
  simp only [Except.mapError]
  rw [Attempt.run_bind, Attempt.run_adapt]
  cases (j.finish env.newRunTime).run.run w₂ with
  | mk finished w₃ =>
    cases finished with
    | error e => exact ⟨w₃, rfl, rfl⟩
    | ok runId =>
        obtain ⟨shown, hreport⟩ := run_report _ _ _ w₃
        exact ⟨_, hreport, rfl⟩

/-- A command that changes a file succeeds and records it, if the store is ready for the run. -/
theorem migrate_recordsSince (h : Prepared env c root w) {r : Except Error Unit}
    (hrun : (migrate env c format recorded root true).run.run w = (r, w'))
    (hchanged : (env.store c.localState).ChangesFile env.newRunId w.tree w'.tree) :
    r = .ok () ∧ (env.store c.localState).RecordsSince env.newRunId w.tree w' := by
  obtain ⟨hstore, hready, hspares, ⟨clock, hid⟩, hnow, hfaults⟩ := h
  have hisId : Run.IsId env.newRunId := hid ▸ Journal.isId_idAt clock
  have hlength : env.newRunId.toList.length = 7 := hid ▸ Journal.length_idAt clock
  have hids : ∀ id ∈ [env.newRunId], Run.IsId id := by simpa using hisId
  obtain ⟨k, hk, hdiffers⟩ := hchanged
  have hsame : w'.tree ≠ w.tree := fun heq => hdiffers (heq ▸ rfl)
  cases hsetup : (migrationOf env c root).run.run w with
  | mk res w₁ =>
    obtain rfl := migrationOf_world hsetup
    cases res with
    | error e =>
        rw [migrate_of_setup_error hsetup] at hrun
        cases hrun
        exact absurd rfl hsame
    | ok m =>
        have hspared := hspares m w₁ hsetup
        have hkept := isJournalKept_noted hstore List.mem_cons_self hspared
        cases hmigrated : (m.run ⟨true, format⟩
          (some ⟨env.store c.localState, env.newRunId, recorded, root, []⟩)).run.run w₁ with
        | mk res w₂ =>
          rcases hkept.run hids List.mem_cons_self hfaults rfl (.start hstore.wellFormed)
            hmigrated with
            ⟨e, rfl, htree⟩ | ⟨report, j, rfl, hjstore, hjid, hnoted⟩
          · rw [migrate_of_run_error hsetup hmigrated] at hrun
            cases hrun
            exact absurd htree hsame
          · have hnoted : (env.store c.localState).Noted env.newRunId m w₁.tree j.changes
                w₂.tree := hnoted
            obtain ⟨w₄, hends, htree⟩ := migrate_of_run hsetup hmigrated
            rw [hrun] at hends
            by_cases hempty : j.changes = []
            · rw [Journal.finish_of_isEmpty (by simp [hempty])] at hends htree
              cases hends
              rw [htree, hnoted.differsAt_iff hstore.wellFormed List.mem_cons_self hk, hempty]
                at hdiffers
              simp [LeadsTo] at hdiffers
            · obtain ⟨w₃, hfinish, hrecords⟩ :=
                hnoted.finish hjstore hjid hstore hisId hlength hspared hready
                hempty hnow
              rw [hfinish] at hends htree
              cases hends
              exact ⟨rfl, hrecords _ htree⟩

theorem perform_eq_migrate (hc : c.invocation = .migrate root true)
    (hformat : PreviewFormat.ofName? c.format = some format) :
    perform env recorded c = migrate env c format recorded root true := by
  unfold perform
  rw [hformat]
  simp only [hc]

theorem perform_recordsSince (h : Prepared env c root w) (hc : c.invocation = .migrate root true)
    {r : Except Error Unit} (hrun : (perform env recorded c).run.run w = (r, w'))
    (hchanged : (env.store c.localState).ChangesFile env.newRunId w.tree w'.tree) :
    r = .ok () ∧ (env.store c.localState).RecordsSince env.newRunId w.tree w' := by
  cases hformat : PreviewFormat.ofName? c.format with
  | none =>
      unfold perform at hrun
      rw [hformat] at hrun
      cases hrun
      obtain ⟨k, -, hdiffers⟩ := hchanged
      exact absurd rfl hdiffers
  | some format =>
      rw [perform_eq_migrate hc hformat] at hrun
      exact migrate_recordsSince h hrun hchanged

/-- The program records every migration that changes a file, if the store is ready for the run. -/
theorem program_recordsSince (h : Prepared env c root w) {words : List String}
    (hwords : CommandLine.ofWords words = .ok c) (hc : c.invocation = .migrate root true)
    {code : Nat} (hrun : (program env words).run w = (code, w'))
    (hchanged : (env.store c.localState).ChangesFile env.newRunId w.tree w'.tree) :
    code = 0 ∧ (env.store c.localState).RecordsSince env.newRunId w.tree w' := by
  unfold program at hrun
  rw [hwords] at hrun
  simp only at hrun
  rw [Action.run_bind] at hrun
  cases hperform : (perform env (" ".intercalate (programName :: words)) c).run.run w with
  | mk r w₁ =>
    rw [hperform] at hrun
    cases r with
    | ok _ =>
        cases hrun
        obtain ⟨-, hrecords⟩ := perform_recordsSince h hc hperform hchanged
        exact ⟨rfl, hrecords⟩
    | error e =>
        -- only the message is written after a failure
        simp only [Action.run_bind] at hrun
        have htree : w'.tree = w₁.tree := by rw [← (Prod.mk.inj hrun).2]; rfl
        rw [htree] at hchanged
        obtain ⟨herror, -⟩ := perform_recordsSince h hc hperform hchanged
        cases herror

/-! ## A page and a command -/

/-- The files after a command that finds one file and writes it. -/
theorem program_of_single {words : List String} {w₁ : World} {t₁ t₂ t₃ : FileTree}
    {p name : Path} {before : Text} {r : Swapped} (hwords : CommandLine.ofWords words = .ok c)
    (hc : c.invocation = .migrate root true)
    (hformat : PreviewFormat.ofName? c.format = some .quiet)
    (hsetup : (migrationOf env c root).run.run w = (.ok m, w))
    (hdiscover : m.discover.run.run w = (.ok ⟨[p], []⟩, w₁))
    (hsource : w₁.source p = .ok before) (happly : m.swap.apply before = .ok r)
    (hchanged : r.changed = true) (hallowed : w₁.faults.unwritable.contains p = false)
    (hname : backupName p = name)
    (hfolders : w₁.tree.createFolders ((env.store c.localState).backupFolder env.newRunId) =
      (.ok (), t₁))
    (hbackup : t₁.write (((env.store c.localState).backupFolder env.newRunId).join name)
      before.toBytes = (.ok (), t₂))
    (hwrite : t₂.write p r.text.toBytes = (.ok (), t₃)) :
    ((program env words).run w).2.tree =
      (((⟨env.store c.localState, env.newRunId, " ".intercalate (programName :: words), root,
          [⟨p, before.hash, r.text.hash, name⟩]⟩ : Journal).finish env.newRunTime).run.run
        { w₁ with sourcesRead := p :: w₁.sourcesRead, out := w₁.out ++ "", tree :=
          t₃ }).2.tree := by
  have hmigrated := Migration.run_of_single
    (j := ⟨env.store c.localState, env.newRunId, " ".intercalate (programName :: words), root,
      []⟩) hdiscover
    hsource happly hchanged hallowed hname hfolders hbackup hwrite
  obtain ⟨w', hmigrate, htree⟩ := migrate_of_run hsetup hmigrated
  unfold program
  rw [hwords]
  simp only [Action.run_bind, perform_eq_migrate hc hformat, hmigrate]
  refine Eq.trans ?_ htree
  split
  · rfl
  · rfl

/-- The text of a page with a guard. -/
def guardedText : Text :=
  "import NavBar from \"@/components/NavBar\";\n<AdminRoute></AdminRoute>".toList

/-- The page below a folder of sources, beside what is stored. -/
def pageBeside (stored : List (Place × Entry)) : FileTree :=
  ⟨[], (["src"], .folder) :: (["src", "a.ts"], .file guardedText.toBytes) :: stored⟩

/-- The surroundings of a command that is run while the clock stands at zero. -/
def atZero : Environment :=
  ⟨⟨"/"⟩, some ⟨"/s"⟩, ⟨"/d"⟩, ⟨2024, 1, 31, 12, 0, 0, 0⟩, "e572dff",
    ⟨2024, 1, 31, 12, 0, 0, 0⟩⟩

/-- The command that migrates the page. -/
def migrateWords : List String := ["migrate", "/src", "--apply"]

def migrateLine : CommandLine := { invocation := .migrate ⟨"/src"⟩ true }

def pageMigration : Migration := ⟨⟨"/src"⟩, .default, .ofSpec {} ⟨⟨"/"⟩, [], []⟩⟩

theorem ofWords_migrateWords : CommandLine.ofWords migrateWords = .ok migrateLine := by decide

theorem migrationOf_page (w : World) :
    (migrationOf atZero migrateLine ⟨"/src"⟩).run.run w = (.ok pageMigration, w) := rfl

/-- The text of the page after the swap. -/
def swappedText : Text :=
  "import AppShell from \"@/components/AppShell\";\n<AdminRoute>\n  <AppShell></AppShell></AdminRoute>".toList

theorem apply_guardedText :
    Swap.default.apply guardedText =
      .ok ⟨swappedText, true, some (.guarded "AdminRoute"), 1, 0⟩ := by cbv

theorem differsAt_page : (pageBeside []).DiffersAt
    ((program atZero migrateWords).run { tree := pageBeside [] }).2.tree ["src", "a.ts"] := by
  have htree := program_of_single (w := { tree := pageBeside [] }) ofWords_migrateWords rfl rfl
    (migrationOf_page _) (Except.pair_of_fst (by decide +kernel)) (by decide +kernel)
      apply_guardedText rfl
    (by decide +kernel) RunStore.backupName_page (Except.pair_of_fst (by decide +kernel))
    (Except.pair_of_fst (by decide +kernel)) (Except.pair_of_fst (by decide +kernel))
  rw [htree]
  decide +kernel

theorem not_owns_page {stored : List (Place × Entry)}
    (hfolder : (pageBeside stored).leadOf ⟨"/s"⟩ = some ["s"]) (names : Place) :
    ¬(atZero.store false).Owns (pageBeside stored) ["e572dff"] ("src" :: names) := by
  rintro ⟨S, r, hS, -, heq⟩
  rw [show (atZero.store false).folder = ⟨"/s"⟩ from rfl, hfolder] at hS
  cases hS
  simp at heq

theorem ready_page : (atZero.store false).Ready "e572dff" (pageBeside []) := by
  have hfolder : (pageBeside []).leadOf (atZero.store false).folder = some ["s"] := by decide
  have hentries : ∀ k e, k ≠ [] → (pageBeside []).get? k = some e →
      ∃ names, k = "src" :: names := by
    intro k e hk he
    have hmem := FileTree.mem_of_get? hk he
    simp only [pageBeside, List.mem_cons, Prod.mk.injEq, List.not_mem_nil, or_false] at hmem
    rcases hmem with ⟨rfl, -⟩ | ⟨rfl, -⟩
    · exact ⟨_, rfl⟩
    · exact ⟨_, rfl⟩
  refine ⟨?_, fun S b hS hb => ?_⟩
  · rintro k ⟨S, r, hS, hr, rfl⟩
    rw [hfolder] at hS
    cases hS
    obtain ⟨n, rfl⟩ : ∃ n, r = [n] := by
      rcases hr with (rfl | rfl) | (rfl | rfl)
      all_goals exact ⟨_, rfl⟩
    refine ⟨fun hfolder => ?_, ?_⟩
    · obtain ⟨names, heq⟩ := hentries _ _ (by simp) hfolder
      simp at heq
    · rintro ⟨steps, hsteps, hlead⟩
      have hcomponents : (atZero.store false).folder.components = [.root, .name "s"] := by decide
      have hway : ∀ steps ∈ [[], [.root], [.root, .name "s"]],
          (pageBeside []).lead false FileTree.linkLimit (pageBeside []).cwd steps ∈
            [some [], some ["s"]] := by
        decide
      rw [hcomponents] at hsteps
      have := hway steps hsteps
      rw [hlead] at this
      simp at this
  · rw [hfolder] at hS
    cases hS
    obtain ⟨names, heq⟩ := hentries _ _ (by simp) hb
    simp at heq

theorem prepared_page : Prepared atZero migrateLine ⟨"/src"⟩ { tree := pageBeside [] } where
  guarded := by
    have hplain : (pageBeside []).isPlain = true := by decide
    exact ⟨.of_isPlain hplain, fun k _ => FileTree.get?_ne_link_of_isPlain hplain k⟩
  ready := ready_page
  spared := by
    have hroot : (pageBeside []).leadOf pageMigration.root = some ["src"] := by decide
    intro m w' hm p k hp
    rw [migrationOf_page] at hm
    cases hm
    obtain ⟨⟨R, names, b, hR, rfl, -, -⟩, -⟩ := hp
    rw [hroot] at hR
    cases hR
    exact not_owns_page (by decide) names
  id := ⟨0, Journal.idAt_zero.symm⟩
  time := ⟨by decide, by decide, by decide, by decide, by decide⟩
  faults := by simp [Faults.AreHonest]

/-- The page is migrated and recorded. -/
theorem program_recordsSince_page :
    ∃ code w', (program atZero migrateWords).run { tree := pageBeside [] } = (code, w') ∧
      (atZero.store false).ChangesFile "e572dff" (pageBeside []) w'.tree ∧ code = 0 ∧
      (atZero.store false).RecordsSince "e572dff" (pageBeside []) w' := by
  have hchanged : (atZero.store false).ChangesFile "e572dff" (pageBeside [])
      ((program atZero migrateWords).run { tree := pageBeside [] }).2.tree :=
    ⟨_, not_owns_page (by decide) ["a.ts"], differsAt_page⟩
  exact ⟨_, _, rfl, hchanged,
    program_recordsSince prepared_page ofWords_migrateWords rfl rfl hchanged⟩

/-- An index of an older format, in the folder of the store. -/
def olderIndex : List (Place × Entry) :=
  [(["s"], .folder), (["s", "runs.json"], .file (Text.toBytes "\x7b\x7d".toList))]

/-- Where the index is of an older format, the page is migrated, but not recorded. -/
theorem program_not_recordsSince :
    ¬∀ env words c root w w' code, CommandLine.ofWords words = .ok c →
    c.invocation = .migrate root true → (program env words).run w = (code, w') →
    (env.store c.localState).ChangesFile env.newRunId w.tree w'.tree →
    (env.store c.localState).RecordsSince env.newRunId w.tree w' := by
  intro hall
  have htree := program_of_single (w := { tree := pageBeside olderIndex })
    ofWords_migrateWords rfl rfl
    (migrationOf_page _) (Except.pair_of_fst (by decide +kernel)) (by decide +kernel)
      apply_guardedText rfl
    (by decide +kernel) RunStore.backupName_page (Except.pair_of_fst (by decide +kernel))
    (Except.pair_of_fst (by decide +kernel)) (Except.pair_of_fst (by decide +kernel))
  have hdiffers : (pageBeside olderIndex).DiffersAt
      ((program atZero migrateWords).run { tree := pageBeside olderIndex }).2.tree
        ["src", "a.ts"] := by
    rw [htree]
    decide +kernel
  have hindex : ((program atZero migrateWords).run { tree := pageBeside olderIndex }).2.tree.read
      (atZero.store false).indexPath = .ok (Text.toBytes "\x7b\x7d".toList) := by
    rw [htree]
    decide +kernel
  exact not_recordsSince_of_malformed hindex (by decide)
    (hall atZero migrateWords migrateLine ⟨"/src"⟩ { tree := pageBeside olderIndex } _ _
        ofWords_migrateWords rfl rfl
      ⟨_, not_owns_page (by decide) ["a.ts"], hdiffers⟩)

end Command

end Rewrap
