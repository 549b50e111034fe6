import Rewrap.Migration.Basic
import Rewrap.Proofs.Action.Attempts
import Rewrap.Proofs.Except

/-! # Migrating one file

What a migration does that finds one file, can make the swap in it and can write it. -/

namespace Rewrap

theorem RunStore.saveBackup_of_ok {s : RunStore} {id : String} {w : World} {p name : Path}
    {before : Text} (hname : backupName p = name) {t u : FileTree}
    (hfolders : w.tree.createFolders (s.backupFolder id) = (.ok (), t))
    (hwrite : t.write ((s.backupFolder id).join name) before.toBytes = (.ok (), u)) :
    (s.saveBackup id p before).run.run w = (.ok name, { w with tree := u }) := by
  subst hname
  unfold saveBackup
  rw [Attempt.bind_of_ok (Attempt.createFolders_of_ok hfolders),
    Attempt.bind_of_ok (Attempt.writeText_of_ok (w := { w with tree := t }) hwrite)]
  rfl

namespace Migration

variable {m : Migration} {w w₁ : World} {p name : Path} {before : Text}

theorem writeFile_of_ok {j : Journal} {after : Text}
    (hbackup : (j.store.saveBackup j.runId p before).run.run w = (.ok name, w₁))
    (hallowed : w₁.faults.unwritable.contains p = false) {u : FileTree}
    (hwrite : w₁.tree.write p after.toBytes = (.ok (), u)) :
    (writeFile (some j) p before after).run.run w =
      (.ok (some (j.commit ⟨p, before.hash, after.hash, name⟩)), { w₁ with tree := u }) := by
  unfold writeFile Journal.backup
  simp only
  rw [Attempt.run_bind, Attempt.run_adapt, Attempt.bind_of_ok hbackup]
  simp only [Attempt.run_pure, Except.mapError]
  rw [Attempt.run_bind, Attempt.run_writeSource, hallowed, hwrite]
  rfl

theorem migrateFile_of_apply {journal : Option Journal} {r : Swapped}
    (hsource : w.source p = .ok before) (happly : m.swap.apply before = .ok r)
    (hchanged : r.changed = true) {written : Except FileFailure (Option Journal)}
    (hwrite : (writeFile journal p before r.text).run.run
      { w with sourcesRead := p :: w.sourcesRead, out := w.out ++ "" } = (written, w₁)) :
    (m.migrateFile ⟨true, .quiet⟩ journal p).run w =
      (((concluded journal written).1, {}, (concluded journal written).2), w₁) := by
  have hprint : ((Action.print (PreviewFormat.quiet.preview (m.relative p) before r.text).1).run
      { w with sourcesRead := p :: w.sourcesRead }).2 =
        { w with sourcesRead := p :: w.sourcesRead, out := w.out ++ "" } := rfl
  unfold migrateFile
  rw [Action.run_bind, Action.run_ask]
  simp only [World.reply, hsource, happly, hchanged, Bool.not_true, Bool.false_eq_true,
    if_false, if_true, Action.run_bind]
  rw [hprint, hwrite]
  rfl

/-- A migration that finds one file and makes the swap in it writes that file, and enters it into
its journal. -/
theorem run_of_single {j : Journal} (hdiscover : m.discover.run.run w = (.ok ⟨[p], []⟩, w₁))
    (hsource : w₁.source p = .ok before) {r : Swapped} (happly : m.swap.apply before = .ok r)
    (hchanged : r.changed = true) (hallowed : w₁.faults.unwritable.contains p = false)
    (hname : RunStore.backupName p = name) {t u v : FileTree}
    (hfolders : w₁.tree.createFolders (j.store.backupFolder j.runId) = (.ok (), t))
    (hbackup : t.write ((j.store.backupFolder j.runId).join name) before.toBytes = (.ok (), u))
    (hwrite : u.write p r.text.toBytes = (.ok (), v)) :
    (m.run ⟨true, .quiet⟩ (some j)).run.run w =
      (.ok (⟨false, 1, [(m.relative p, .migrated)], {}, none⟩,
        some (j.commit ⟨p, before.hash, r.text.hash, name⟩)),
        { w₁ with sourcesRead := p :: w₁.sourcesRead, out := w₁.out ++ "", tree := v }) := by
  have hkept : (j.store.saveBackup j.runId p before).run.run
      { w₁ with sourcesRead := p :: w₁.sourcesRead, out := w₁.out ++ "" } = (.ok name, _) :=
    RunStore.saveBackup_of_ok hname hfolders hbackup
  have hfile := migrateFile_of_apply (m := m) hsource happly hchanged
    (writeFile_of_ok hkept hallowed hwrite)
  unfold run
  rw [Attempt.bind_of_ok hdiscover, Attempt.run_bind, Attempt.run_always]
  simp only [migrateAll, List.map_nil, Action.run_bind, hfile]
  rfl

end Migration

/-! ## A page at time zero -/

theorem Journal.idAt_zero : idAt 0 = "e572dff" := by decide +kernel

theorem RunStore.backupName_page :
    backupName ⟨"/src/a.ts"⟩ = ⟨"1a4f417f2577f9b2-a.ts.orig"⟩ := by decide +kernel

end Rewrap
