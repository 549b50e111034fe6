import Rewrap.Proofs.Migration.Classes
import Rewrap.Proofs.Migration.Prediction

/-! # Files are migrated apart

What becomes of a file depends on what is read from it, on whether it can be written, and on nothing
else: whatever the other files hold, and whatever fails for them, its outcome and its content are
the same. -/

namespace Rewrap

open FileTree (Frame Anywhere)

/-- The bytes of the file to which a path leads. -/
def FileTree.content? (t : FileTree) (p : Path) : Option ByteArray := (t.leadOf p).bind t.fileAt?

/-- Every request is fulfilled but for those to write source files. -/
abbrev Action.KeepsBackups {α : Type} (x : Action α) (w : World) : Prop :=
  x.Each (fun w r => r.written? = none → w.fulfils r = true) w

/-- No backup of a run is written over a file. -/
def RunStore.Spares (run : Option (RunStore × String)) (t : FileTree) (g : Path) : Prop :=
  ∀ s id, run = some (s, id) → ∀ p, t.leadOf (s.backupPath id p) ≠ t.leadOf g

theorem RunStore.Spares.congr {run : Option (RunStore × String)} {t u : FileTree} {g : Path}
    (h : RunStore.Spares run t g) (hlead : ∀ p, u.leadOf p = t.leadOf p) :
    RunStore.Spares run u g := by
  intro s id hrun p
  rw [hlead, hlead]
  exact h s id hrun p

/-- The backups of a fresh run are written over no file. -/
theorem RunStore.IsFresh.spares {s : RunStore} {id : String} {t : FileTree} {g : Path}
    (h : s.IsFresh id t) (ht : t.WellFormed) (hid : Run.IsId id) {k : Place} {b : ByteArray}
    (hg : t.leadOf g = some k) (hfile : t.get? k = some (.file b)) :
    RunStore.Spares (some (s, id)) t g := by
  rintro _ _ ⟨⟩ p hlead
  have hlead : t.leadOf (s.backupPath id p) = some k := hlead.trans hg
  obtain ⟨T, hT⟩ := FileTree.exists_leadOf_of_join (RunStore.isName_backupName p) hlead
  obtain ⟨S, hS⟩ := FileTree.exists_leadOf_of_join (RunStore.isName_of_isId hid) hT
  have hfolder : t.leadOf (s.backupFolder id) = some (S ++ [id]) :=
    FileTree.leadOf_join (RunStore.isName_of_isId hid) hS fun q => by simp [h.get?_eq_none ht hS]
  have hvacant : t.get? (S ++ [id] ++ [(RunStore.backupName p).text]) = none := by
    rw [List.append_assoc]
    exact h.get?_eq_none ht hS
  have hbackup : t.leadOf (s.backupPath id p) =
      some (S ++ [id] ++ [(RunStore.backupName p).text]) :=
    FileTree.leadOf_join (RunStore.isName_backupName p) hfolder fun q hq => by
      cases hvacant.symm.trans hq
  rw [hbackup] at hlead
  cases hlead
  rw [hvacant] at hfile
  cases hfile

/-! ## Leaving a file alone -/

/-- What changes from one world to another leaves a file alone: it has the same content, and can be
read if it could. -/
structure World.LeavesAlone (g : Path) (w v : World) : Prop where
  wellFormed : v.tree.WellFormed
  faults : v.faults = w.faults
  sourcesRead : g ∈ w.sourcesRead → g ∈ v.sourcesRead
  leadOf : ∀ p, v.tree.leadOf p = w.tree.leadOf p
  content : v.tree.content? g = w.tree.content? g
  read : ∀ b, w.tree.read g = .ok b → v.tree.read g = .ok b

namespace World.LeavesAlone

variable {g : Path} {w v u : World}

theorem trans (h : LeavesAlone g w v) (h' : LeavesAlone g v u) : LeavesAlone g w u where
  wellFormed := h'.wellFormed
  faults := h'.faults.trans h.faults
  sourcesRead := fun hmem => h'.sourcesRead (h.sourcesRead hmem)
  leadOf := fun p => (h'.leadOf p).trans (h.leadOf p)
  content := h'.content.trans h.content
  read := fun b hb => h'.read b (h.read b hb)

theorem of_frame (hv : v.tree.WellFormed) (hfaults : v.faults = w.faults)
    (hread : g ∈ w.sourcesRead → g ∈ v.sourcesRead) {files folders : Place → Prop}
    (hframe : Frame files folders w.tree v.tree)
    (hother : ∀ k, w.tree.leadOf g = some k → ¬files k) : LeavesAlone g w v where
  wellFormed := hv
  faults := hfaults
  sourcesRead := hread
  leadOf := hframe.leadOf
  content := by
    rw [FileTree.content?, FileTree.content?, hframe.leadOf]
    cases hlead : w.tree.leadOf g with
    | none => rfl
    | some k => exact hframe.fileAt?_eq (hother k hlead)
  read := by
    intro b hb
    obtain ⟨k, hk, hfile⟩ := FileTree.read_eq_ok hb
    have hk' := hother k (FileTree.leadOf_of_resolve hk)
    exact FileTree.read_of_resolve (hframe.resolve hk) ((hframe.file k hk' b).mpr hfile)

theorem source_eq (h : LeavesAlone g w v) (hseen : g ∈ w.sourcesRead) {b : ByteArray}
    (hread : w.tree.read g = .ok b) : v.source g = w.source g := by
  have hcontains : w.sourcesRead.contains g = true := by simpa using hseen
  have hcontains' : v.sourcesRead.contains g = true := by simpa using h.sourcesRead hseen
  unfold World.source
  rw [h.faults, hcontains, hcontains', hread, h.read b hread]

end World.LeavesAlone

/-- What changes from one world to another leaves a file as it is, or a text is written to the
file. -/
structure World.Settles (g : Path) (text : Option Text) (w v : World) : Prop where
  wellFormed : v.tree.WellFormed
  leadOf : ∀ p, v.tree.leadOf p = w.tree.leadOf p
  content : v.tree.content? g = (text.map Text.toBytes).or (w.tree.content? g)

namespace World

variable {g : Path} {text : Option Text} {w v u : World}

theorem leavesAlone_readSource (hw : w.tree.WellFormed) (p : Path) :
    LeavesAlone g w (w.reply (.readSource p)).2 where
  wellFormed := hw
  faults := rfl
  sourcesRead := List.mem_cons_of_mem p
  leadOf := fun _ => rfl
  content := rfl
  read := fun _ h => h

theorem leavesAlone_print (hw : w.tree.WellFormed) (shown : String) :
    LeavesAlone g w (w.reply (.print shown)).2 where
  wellFormed := hw
  faults := rfl
  sourcesRead := id
  leadOf := fun _ => rfl
  content := rfl
  read := fun _ h => h

theorem LeavesAlone.settles (h : LeavesAlone g w v) : Settles g none w v where
  wellFormed := h.wellFormed
  leadOf := h.leadOf
  content := h.content

theorem LeavesAlone.trans_settles (h : LeavesAlone g w v) (h' : Settles g text v u) :
    Settles g text w u where
  wellFormed := h'.wellFormed
  leadOf := fun p => (h'.leadOf p).trans (h.leadOf p)
  content := h.content ▸ h'.content

theorem Settles.trans_leavesAlone (h : Settles g text w v) (h' : LeavesAlone g v u) :
    Settles g text w u where
  wellFormed := h'.wellFormed
  leadOf := fun p => (h'.leadOf p).trans (h.leadOf p)
  content := h'.content.trans h.content

theorem reply_writeSource (hw : w.tree.WellFormed) {b : ByteArray} (hread : w.tree.read g = .ok b)
    (y : Text) :
    (w.reply (.writeSource g y)).1 =
        (if w.faults.unwritable.contains g then .error Faults.error else .ok ()) ∧
      Settles g (if w.faults.unwritable.contains g then none else some y) w
        (w.reply (.writeSource g y)).2 := by
  simp only [reply]
  split
  · exact ⟨rfl, hw, fun _ => rfl, rfl⟩
  · obtain ⟨k, hk, hfile, hwrite⟩ := FileTree.write_of_read hw hread y.toBytes
    have hlead := FileTree.leadOf_of_resolve hk
    obtain ⟨hwf, hframe⟩ := FileTree.frame_write hw g y.toBytes
    have hplace : k ≠ [] := by
      rintro rfl
      cases hfile
    rw [hwrite] at hwf hframe
    rw [changed, hwrite]
    refine ⟨rfl, hwf, hframe.leadOf, ?_⟩
    rw [FileTree.content?, hframe.leadOf, hlead]
    exact FileTree.fileAt?_eq_some.mpr (FileTree.get?_put_self hplace)

end World

namespace Migration

variable {m : Migration} {o : Options} {run : Option (RunStore × String)} {w v : World} {g : Path}

theorem leavesAlone_of_asksFor (hw : w.tree.WellFormed) {rs : List Request} {ps : List Path}
    (hrs : ∀ r ∈ rs, ∃ p ∈ ps, AsksFor run p r)
    (hps : ∀ p ∈ ps, p ∈ Request.written rs → w.tree.leadOf p ≠ w.tree.leadOf g)
    (hspares : RunStore.Spares run w.tree g) : World.LeavesAlone g w (w.after rs) := by
  obtain ⟨hwf, hframe⟩ := frame_of_asksFor hw hrs
  refine .of_frame hwf (w.after_faults rs) (World.mem_sourcesRead_after rs) hframe ?_
  rintro k hk ⟨p, hp, ⟨hwritten, hlead⟩ | ⟨s, id, hrun, hlead⟩⟩
  · exact hps p hp hwritten (hlead.trans hk.symm)
  · exact hspares s id hrun p (hlead.trans hk.symm)

/-! ## Writing a file -/

variable {journal : Option Journal} {x y : Text} {b : ByteArray}

theorem backup_of_keepsBackups {j : Journal} (hw : w.tree.WellFormed)
    (hspares : RunStore.Spares (some j.key) w.tree g) (h : (j.backup g x y).run.KeepsBackups w) :
    ∃ c v, (j.backup g x y).run.run w = (.ok c, v) ∧ World.LeavesAlone g w v := by
  have hasks := each_backup j g x y w
  have hsave : Fulfilled (j.store.saveBackup j.runId g x).run w :=
    (Attempt.each_of_bind h).map₂ (Attempt.each_of_bind hasks) fun _ _ hr hasks => hr hasks.2
  obtain ⟨v, hsaved⟩ := saveBackup_of_fulfilled hsave
  have hrun : (j.backup g x y).run.run w =
      (.ok ⟨g, x.hash, y.hash, RunStore.backupName g⟩, v) :=
    (Attempt.bind_of_ok hsaved).trans (Attempt.run_pure _ _)
  have hafter : w.after ((j.backup g x y).run.requests w) = v := by
    rw [Action.after_requests, hrun]
  have hasks := (Action.each_iff_requests _ _).mp hasks
  have hquiet : Request.written ((j.backup g x y).run.requests w) = [] :=
    List.filterMap_eq_nil_iff.mpr fun r hr => (hasks r hr).2
  refine ⟨_, v, hrun, hafter ▸ leavesAlone_of_asksFor hw
    (fun r hr => ⟨g, List.mem_singleton_self g, (hasks r hr).1⟩)
      (fun p _ hwritten => ?_) hspares⟩
  rw [hquiet] at hwritten
  cases hwritten

/-- What comes of writing a file that can be read, once its backup is kept. -/
theorem run_writeSource_bind (hw : w.tree.WellFormed) (hread : w.tree.read g = .ok b) (y : Text)
    (journal : Option Journal) :
    (Attempt.orFail (Action.ask (.writeSource g y)) (FileFailure.unwritable g) >>=
        fun _ => pure journal).run.run w =
      (if w.faults.unwritable.contains g then .error (.unwritable g Faults.error) else .ok journal,
        (w.reply (.writeSource g y)).2) := by
  obtain ⟨hreply, -⟩ := World.reply_writeSource hw hread y
  rw [Attempt.run_bind, Attempt.run_orFail, Action.run_ask, hreply]
  cases w.faults.unwritable.contains g <;> rfl

/-- A file that can be read is written unless that is refused, if its backup is kept. -/
theorem writeFile_settles (hw : w.tree.WellFormed)
    (hspares : RunStore.Spares (journal.map Journal.key) w.tree g) (hread : w.tree.read g = .ok b)
    (h : (writeFile journal g x y).run.KeepsBackups w) :
    (concluded journal ((writeFile journal g x y).run.run w).1).1 =
        (if w.faults.unwritable.contains g
            then .errored (FileFailure.unwritable g Faults.error).message
          else .migrated) ∧
      World.Settles g (if w.faults.unwritable.contains g then none else some y) w
        ((writeFile journal g x y).run.run w).2 := by
  cases journal with
  | none =>
      have hrun := run_writeSource_bind hw hread y none
      obtain ⟨-, hsettles⟩ := World.reply_writeSource hw hread y
      have hrun : (writeFile none g x y).run.run w = _ := hrun
      rw [hrun]
      refine ⟨?_, hsettles⟩
      split <;> rfl
  | some j =>
      obtain ⟨c, v, hkept, halone⟩ := backup_of_keepsBackups hw hspares
        ((Attempt.each_adapt _ _).mp (Attempt.each_of_bind h))
      have hadapt : ((j.backup g x y).adapt FileFailure.notBackedUp).run.run w = (.ok c, v) := by
        rw [Attempt.run_adapt, hkept]
        rfl
      have hread := halone.read b hread
      have hrun : (writeFile (some j) g x y).run.run w = _ :=
        (Attempt.bind_of_ok hadapt).trans
          (run_writeSource_bind halone.wellFormed hread y (some (j.commit c)))
      obtain ⟨-, hsettles⟩ := World.reply_writeSource halone.wellFormed hread y
      rw [hrun]
      rw [halone.faults] at hsettles ⊢
      refine ⟨?_, halone.trans_settles hsettles⟩
      split <;> rfl

/-! ## What becomes of a candidate -/

/-- What becomes of a candidate in which the swap is made, and the text that is written to it;
`refused` says whether it cannot be written. -/
def changeFate (o : Options) (g : Path) (refused : Bool) (after : Text) : Outcome × Option Text :=
  if !o.apply then (.migrated, none)
  else if refused then (.errored (FileFailure.unwritable g Faults.error).message, none)
  else (.migrated, some after)

/-- What becomes of a candidate, and the text that is written to it, by what it gives when it is
read again. -/
def candidateFate (m : Migration) (o : Options) (g : Path) (refused : Bool) :
    Except FileError Text → Outcome × Option Text
  | .error e => (.errored (FileFailure.unreadable g e).message, none)
  | .ok before =>
      match m.swap.apply before with
      | .error f => (.errored (FileFailure.misfit f).message, none)
      | .ok r => if !r.changed then (.skipped, none) else changeFate o g refused r.text

theorem makeChange_settles (hw : w.tree.WellFormed)
    (hspares : RunStore.Spares (journal.map Journal.key) w.tree g) (hread : w.tree.read g = .ok b)
    (h : (m.makeChange o journal g x y).KeepsBackups w) :
    ((m.makeChange o journal g x y).run w).1.1 =
        (changeFate o g (w.faults.unwritable.contains g) y).1 ∧
      World.Settles g (changeFate o g (w.faults.unwritable.contains g) y).2 w
        ((m.makeChange o journal g x y).run w).2 := by
  unfold makeChange at h ⊢
  unfold changeFate
  generalize o.format.preview (m.relative g) x y = preview at h ⊢
  obtain ⟨shown, stats⟩ := preview
  have hprint : World.LeavesAlone g w (w.reply (.print shown)).2 := World.leavesAlone_print hw shown
  cases happlied : o.apply with
  | false => exact ⟨rfl, hprint.settles⟩
  | true =>
      simp only [happlied, if_true, Action.run_bind] at h ⊢
      have hkeeps := ((Action.each_bind _ _ _).mp ((Action.each_bind _ _ _).mp h).2).1
      obtain ⟨houtcome, hsettles⟩ :=
        writeFile_settles hprint.wellFormed hspares (hprint.read b hread) hkeeps
      have hsettles := hprint.trans_settles hsettles
      rw [hprint.faults] at houtcome hsettles
      cases hrefused : w.faults.unwritable.contains g with
      | true =>
          rw [hrefused] at houtcome hsettles
          exact ⟨houtcome, hsettles⟩
      | false =>
          rw [hrefused] at houtcome hsettles
          exact ⟨houtcome, hsettles⟩

theorem useReading_settles (hw : w.tree.WellFormed)
    (hspares : RunStore.Spares (journal.map Journal.key) w.tree g) (hread : w.tree.read g = .ok b)
    {reading : Except FileError Text} (h : (m.useReading o journal g reading).KeepsBackups w) :
    ((m.useReading o journal g reading).run w).1.1 =
        (m.candidateFate o g (w.faults.unwritable.contains g) reading).1 ∧
      World.Settles g (m.candidateFate o g (w.faults.unwritable.contains g) reading).2 w
        ((m.useReading o journal g reading).run w).2 := by
  have hsame : World.Settles g none w w := ⟨hw, fun _ => rfl, rfl⟩
  cases reading with
  | error e => exact ⟨rfl, hsame⟩
  | ok before =>
      cases happly : m.swap.apply before with
      | error f =>
          simp only [useReading, candidateFate, happly]
          exact ⟨rfl, hsame⟩
      | ok r =>
          cases hchanged : r.changed with
          | false =>
              simp only [useReading, candidateFate, happly, hchanged, Bool.not_false, if_true]
              exact ⟨rfl, hsame⟩
          | true =>
              rw [useReading_of_apply happly hchanged] at h ⊢
              simp only [candidateFate, happly, hchanged, Bool.not_true,
                Bool.false_eq_true, if_false]
              exact makeChange_settles hw hspares hread h

theorem migrateFile_settles (hw : w.tree.WellFormed)
    (hspares : RunStore.Spares (journal.map Journal.key) w.tree g) (hread : w.tree.read g = .ok b)
    (h : (m.migrateFile o journal g).KeepsBackups w) :
    ((m.migrateFile o journal g).run w).1.1 =
        (m.candidateFate o g (w.faults.unwritable.contains g) (w.source g)).1 ∧
      World.Settles g (m.candidateFate o g (w.faults.unwritable.contains g) (w.source g)).2 w
        ((m.migrateFile o journal g).run w).2 := by
  rw [migrateFile_eq] at h
  rw [run_migrateFile]
  obtain ⟨houtcome, hsettles⟩ :=
    useReading_settles (w := (w.reply (.readSource g)).2) hw hspares hread
    ((Action.each_bind _ _ _).mp h).2
  exact ⟨houtcome, (World.leavesAlone_readSource hw g).trans_settles hsettles⟩

/-! ## Among other candidates -/

theorem migrateAll_cons (m : Migration) (o : Options) (progress : Progress) (p : Path)
    (ps : List Path) :
    m.migrateAll o progress (p :: ps) = m.migrateFile o progress.journal p >>= fun x =>
      m.migrateAll o ⟨progress.results ++ [(m.relative p, x.1)], progress.stats.add x.2.1,
        x.2.2⟩ ps := rfl

/-- Files are migrated one after the other, in parts as in one go. -/
theorem migrateAll_append (m : Migration) (o : Options) (progress : Progress) (ps qs : List Path) :
    m.migrateAll o progress (ps ++ qs) = m.migrateAll o progress ps >>= fun progress =>
      m.migrateAll o progress qs := by
  induction ps generalizing progress with
  | nil => rfl
  | cons p ps ih =>
      rw [List.cons_append, migrateAll_cons, migrateAll_cons, bind_assoc]
      exact congrArg _ (funext fun _ => ih _)

theorem migrateAll_results (m : Migration) (o : Options) (progress : Progress) (ps : List Path)
    (w : World) : progress.results <+: ((m.migrateAll o progress ps).run w).1.results := by
  induction ps generalizing progress w with
  | nil => exact List.prefix_rfl
  | cons p ps ih =>
      rw [migrateAll_cons, Action.run_bind]
      refine List.IsPrefix.trans ?_ (ih _ _)
      exact List.prefix_append _ _

theorem migrateAll_key (m : Migration) (o : Options) (progress : Progress) (ps : List Path)
    (w : World) :
    ((m.migrateAll o progress ps).run w).1.journal.map Journal.key =
      progress.journal.map Journal.key := by
  induction ps generalizing progress w with
  | nil => rfl
  | cons p ps ih =>
      obtain ⟨-, -, hkey⟩ := m.migrateFile_asks o progress.journal p w
      unfold migrateAll
      rw [Action.run_bind]
      exact (ih _ _).trans hkey

theorem leavesAlone_migrateAll (hw : w.tree.WellFormed) {progress : Progress} {ps : List Path}
    (hps : ∀ p ∈ ps, w.tree.leadOf p ≠ w.tree.leadOf g)
    (hspares : RunStore.Spares (progress.journal.map Journal.key) w.tree g) :
    World.LeavesAlone g w ((m.migrateAll o progress ps).run w).2 := by
  obtain ⟨hasks, -⟩ := m.migrateAll_asks o progress ps w
  rw [← Action.after_requests]
  exact leavesAlone_of_asksFor hw hasks (fun p hp _ => hps p hp) hspares

/-- What becomes of a candidate does not depend on those before and after it. -/
theorem migrateAll_settles (hw : w.tree.WellFormed) {progress : Progress} {before after : List Path}
    (hother : ∀ p ∈ before ++ after, w.tree.leadOf p ≠ w.tree.leadOf g)
    (hspares : RunStore.Spares (progress.journal.map Journal.key) w.tree g)
    (hseen : g ∈ w.sourcesRead) (hread : w.tree.read g = .ok b)
    (h : (m.migrateAll o progress (before ++ g :: after)).KeepsBackups w) :
    (m.relative g, (m.candidateFate o g (w.faults.unwritable.contains g) (w.source g)).1) ∈
        ((m.migrateAll o progress (before ++ g :: after)).run w).1.results ∧
      World.Settles g (m.candidateFate o g (w.faults.unwritable.contains g) (w.source g)).2 w
        ((m.migrateAll o progress (before ++ g :: after)).run w).2 := by
  have hfirst : World.LeavesAlone g w ((m.migrateAll o progress before).run w).2 :=
    leavesAlone_migrateAll hw (fun p hp => hother p (List.mem_append_left _ hp)) hspares
  have hkey := m.migrateAll_key o progress before w
  rw [migrateAll_append] at h ⊢
  have hkeeps := ((Action.each_bind _ _ _).mp h).2
  rw [Action.run_bind]
  generalize (m.migrateAll o progress before).run w = result at hfirst hkey hkeeps
  obtain ⟨progress', v⟩ := result
  rw [migrateAll_cons] at hkeeps ⊢
  rw [Action.run_bind]
  have hsource := hfirst.source_eq hseen hread
  have hspares := hspares.congr hfirst.leadOf
  rw [← hkey] at hspares
  obtain ⟨houtcome, hsettles⟩ :=
    migrateFile_settles hfirst.wellFormed hspares (hfirst.read b hread)
    ((Action.each_bind _ _ _).mp hkeeps).1
  obtain ⟨-, -, hkey⟩ := m.migrateFile_asks o progress'.journal g v
  rw [hfirst.faults, hsource] at houtcome hsettles
  have hspares := hspares.congr hsettles.leadOf
  rw [← hkey] at hspares
  constructor
  · rw [← houtcome]
    exact (m.migrateAll_results _ _ _ _).subset (List.mem_append_right _ List.mem_cons_self)
  · have hafter : ∀ p ∈ after,
        ((m.migrateFile o progress'.journal g).run v).2.tree.leadOf p ≠
        ((m.migrateFile o progress'.journal g).run v).2.tree.leadOf g := by
      intro p hp
      rw [hsettles.leadOf, hsettles.leadOf, hfirst.leadOf, hfirst.leadOf]
      exact hother p (List.mem_append_right _ hp)
    exact (hfirst.trans_settles hsettles).trans_leavesAlone
      (leavesAlone_migrateAll hsettles.wellFormed hafter hspares)

/-! ## Whole runs -/

/-- What becomes of a listed file, and the text that is written to it, by what it gives when files
are discovered and when it is read again. There is nothing to report of a file that is excluded or
not selected. -/
def fate (m : Migration) (o : Options) (g : Path) (refused : Bool)
    (first second : Except FileError Text) : Option Outcome × Option Text :=
  if m.selector.isExcluded g then (none, none)
  else
    match first with
    | .error e => (some (.errored (FileFailure.undiscoverable g e).message), none)
    | .ok x =>
        if m.selector.accepts x then (m.candidateFate o g refused second).map some id
          else (none, none)

variable {files : List Path}

/-- Of results for different paths, one at most is for a given path. -/
theorem results_of_mem {results : List (Path × Outcome)} (hnodup : (results.map Prod.fst).Nodup)
    {outcome : Outcome} (hmem : (g, outcome) ∈ results) :
    results.filter (·.1 = g) = [(g, outcome)] := by
  refine List.perm_singleton.mp
    ((List.perm_ext_iff_of_nodup (hnodup.of_map.filter _) (List.nodup_singleton _)).mpr ?_)
  rintro ⟨q, outcome'⟩
  rw [List.mem_filter, List.mem_singleton, decide_eq_true_eq]
  constructor
  · rintro ⟨hq, rfl⟩
    exact List.inj_on_of_nodup_map hnodup hq hmem rfl
  · intro heq
    cases heq
    exact ⟨hmem, rfl⟩

theorem results_of_not_mem {results : List (Path × Outcome)} (hno : g ∉ results.map Prod.fst) :
    results.filter (·.1 = g) = [] := by
  refine List.filter_eq_nil_iff.mpr fun e he heq => hno ?_
  rw [← of_decide_eq_true heq]
  exact List.mem_map_of_mem he

/-- A file that was not read before and gives a text can be read. -/
theorem read_of_source_new (h : w.source g = .ok x) (hnew : g ∉ w.sourcesRead) :
    ∃ b, w.tree.read g = .ok b := by
  have hcontains : w.sourcesRead.contains g = false := by simpa using hnew
  unfold World.source at h
  rw [hcontains] at h
  split at h
  · cases h
  · obtain ⟨b, hb, -⟩ := Except.bind_eq_ok.mp h
    exact ⟨b, hb⟩

/-- What holds where a migration begins to go through its candidates. -/
structure Discovered (m : Migration) (w : World) (files : List Path) (d : Discovery)
    (start : World) : Prop where
  lists : m.Lists w files
  wellFormed : w.tree.WellFormed
  classifies : m.Classifies w files d
  nodup : (d.errors.map Prod.fst ++ d.candidates).Nodup
  tree : start.tree = w.tree
  faults : start.faults = w.faults
  seen : ∀ p ∈ w.sourcesRead ++ m.included files, p ∈ start.sourcesRead

theorem Lists.discovered (h : m.Lists w files) (hw : w.tree.WellFormed) :
    ∃ d start, m.discover.run.run w = (.ok d, start) ∧ m.Discovered w files d start := by
  obtain ⟨hdiscover, -⟩ := h.discover (h.nodup hw)
  obtain ⟨-, -, hfinds⟩ := discover_finds hw hdiscover
  refine ⟨_, _, hdiscover, h, hw, h.classifies hw, (hfinds _ rfl).1, rfl, rfl, fun p hp => ?_⟩
  rcases List.mem_append.mp hp with hp | hp
  · exact List.mem_append_right _ hp
  · exact List.mem_append_left _ (List.mem_reverse.mpr hp)

namespace Discovered

variable {d : Discovery} {start : World}

theorem mem_files (h : m.Discovered w files d start) {p : Path}
    (hp : p ∈ d.errors.map Prod.fst ++ d.candidates) : p ∈ files := by
  rcases List.mem_append.mp hp with hp | hp
  · exact h.classifies.errors.subset hp
  · exact ((h.classifies.mem_candidates p).mp hp).1

/-- The results of a run are for the files that failed while files were discovered and for the
candidates. -/
theorem results_paths (h : m.Discovered w files d start) (o : Options) (journal : Option Journal) :
    ((m.migrateAll o ⟨m.unread d, {}, journal⟩ d.candidates).run start).1.results.map Prod.fst =
        (d.errors.map Prod.fst ++ d.candidates).map m.relative ∧
      ((d.errors.map Prod.fst ++ d.candidates).map m.relative).Nodup := by
  refine ⟨?_, h.nodup.map_on fun p hp q hq heq => ?_⟩
  · rw [migrateAll_paths, unread_paths, List.map_append]
  · exact h.lists.relative_inj h.wellFormed (h.mem_files hp) (h.mem_files hq) heq

theorem results_of_unreported (h : m.Discovered w files d start) (hg : g ∈ files)
    (hno : g ∉ d.errors.map Prod.fst ++ d.candidates) :
    ((m.migrateAll o ⟨m.unread d, {}, journal⟩ d.candidates).run start).1.results.filter
      (·.1 = m.relative g) = [] := by
  refine results_of_not_mem fun hmem => hno ?_
  rw [(h.results_paths o journal).1] at hmem
  obtain ⟨p, hp, heq⟩ := List.mem_map.mp hmem
  obtain rfl := h.lists.relative_inj h.wellFormed (h.mem_files hp) hg heq
  exact hp

theorem results_of_mem (h : m.Discovered w files d start) {outcome : Outcome}
    (hmem : (m.relative g, outcome) ∈
      ((m.migrateAll o ⟨m.unread d, {}, journal⟩ d.candidates).run start).1.results) :
    ((m.migrateAll o ⟨m.unread d, {}, journal⟩ d.candidates).run start).1.results.filter
        (·.1 = m.relative g) =
      [(m.relative g, outcome)] := by
  obtain ⟨hpaths, hnodup⟩ := h.results_paths o journal
  exact Migration.results_of_mem (hpaths ▸ hnodup) hmem

theorem leavesAlone (h : m.Discovered w files d start) : World.LeavesAlone g w start where
  wellFormed := h.tree ▸ h.wellFormed
  faults := h.faults
  sourcesRead := fun hmem => h.seen g (List.mem_append_left _ hmem)
  leadOf := fun p => congrArg (·.leadOf p) h.tree
  content := congrArg (·.content? g) h.tree
  read := fun _ hb => h.tree ▸ hb

theorem leadOf_ne (h : m.Discovered w files d start) (hg : g ∈ files) {p : Path}
    (hp : p ∈ d.candidates) (hne : p ≠ g) : start.tree.leadOf p ≠ start.tree.leadOf g := by
  rw [h.tree]
  exact fun heq => hne
    (h.lists.leadOf_inj h.wellFormed (h.mem_files (List.mem_append_right _ hp)) hg heq)

theorem settles_of_not_mem (h : m.Discovered w files d start) (hg : g ∈ files)
    (hno : g ∉ d.candidates) (hspares : RunStore.Spares (journal.map Journal.key) w.tree g) :
    World.Settles g none w
      ((m.migrateAll o ⟨m.unread d, {}, journal⟩ d.candidates).run start).2 := by
  have halone : World.LeavesAlone g w start := h.leavesAlone
  have hrest : World.LeavesAlone g start
      ((m.migrateAll o ⟨m.unread d, {}, journal⟩ d.candidates).run start).2 :=
    leavesAlone_migrateAll halone.wellFormed
      (fun p hp => h.leadOf_ne hg hp fun heq => hno (heq ▸ hp))
      (hspares.congr halone.leadOf)
  exact (halone.trans hrest).settles

theorem settles_of_mem (h : m.Discovered w files d start) (hg : g ∈ d.candidates)
    (hread : w.tree.read g = .ok b) (hspares : RunStore.Spares (journal.map Journal.key) w.tree g)
    (hkeeps : (m.migrateAll o ⟨m.unread d, {}, journal⟩ d.candidates).KeepsBackups start) :
    (m.relative g, (m.candidateFate o g (w.faults.unwritable.contains g)
      ((w.reply (.readSource g)).2.source g)).1) ∈
        ((m.migrateAll o ⟨m.unread d, {}, journal⟩ d.candidates).run start).1.results ∧
      World.Settles g
        (m.candidateFate o g (w.faults.unwritable.contains g)
          ((w.reply (.readSource g)).2.source g)).2 w
        ((m.migrateAll o ⟨m.unread d, {}, journal⟩ d.candidates).run start).2 := by
  have halone : World.LeavesAlone g w start := h.leavesAlone
  have hfile := h.mem_files (List.mem_append_right _ hg)
  have hincluded := ((h.classifies.mem_candidates g).mp hg).2.1
  have hseen : g ∈ start.sourcesRead :=
    h.seen g (List.mem_append_right _ (mem_included.mpr ⟨hfile, hincluded⟩))
  have hsecond : World.LeavesAlone g (w.reply (.readSource g)).2 start :=
    ⟨halone.wellFormed, halone.faults, fun _ => hseen, halone.leadOf,
      halone.content, halone.read⟩
  have hsource := hsecond.source_eq List.mem_cons_self hread
  have hnodup := (List.nodup_append.mp h.nodup).2.1
  obtain ⟨before, after, hsplit⟩ := List.append_of_mem hg
  have hother : ∀ p ∈ before ++ after, start.tree.leadOf p ≠ start.tree.leadOf g := by
    intro p hp
    rw [hsplit] at hnodup
    have hperm : (g :: (before ++ after)).Nodup := List.perm_middle.nodup_iff.mp hnodup
    have hcandidate : p ∈ d.candidates := by
      rw [hsplit]
      exact List.perm_middle.mem_iff.mpr (List.mem_cons_of_mem g hp)
    exact h.leadOf_ne hfile hcandidate fun heq => (List.nodup_cons.mp hperm).1 (heq ▸ hp)
  rw [hsplit] at hkeeps ⊢
  obtain ⟨hresult, hsettles⟩ :=
    migrateAll_settles halone.wellFormed hother (hspares.congr halone.leadOf) hseen
    (halone.read b hread) hkeeps
  rw [halone.faults, hsource] at hresult hsettles
  exact ⟨hresult, halone.trans_settles hsettles⟩

end Discovered

/-- What becomes of a listed file in a run: it has the result and the content that its fate
tells. -/
theorem run_settles (hw : w.tree.WellFormed) (hlists : m.Lists w files) (hg : g ∈ files)
    (hnew : g ∉ w.sourcesRead) (hspares : RunStore.Spares (journal.map Journal.key) w.tree g)
    (h : (m.run o journal).run.KeepsBackups w) :
    ∃ d start report journal' v, m.discover.run.run w = (.ok d, start) ∧
      (g ∈ d.candidates ↔ m.IsOf w g .candidate) ∧
      (m.run o journal).run.run w = (.ok (report, journal'), v) ∧
      report.results.filter (·.1 = m.relative g) =
          (m.fate o g (w.faults.unwritable.contains g) (w.source g)
        ((w.reply (.readSource g)).2.source g)).1.toList.map (m.relative g, ·) ∧
      World.Settles g (m.fate o g (w.faults.unwritable.contains g) (w.source g)
        ((w.reply (.readSource g)).2.source g)).2 w v := by
  obtain ⟨d, start, hdiscover, hd⟩ := hlists.discovered hw
  obtain ⟨-, hmigrated⟩ := run_discovered hdiscover o journal
  have hkeeps := (Attempt.each_always _).mp
    (Attempt.each_of_bind ((Attempt.each_bind hdiscover).mp h).2)
  have hcandidate : g ∈ d.candidates ↔ m.IsOf w g .candidate :=
    (hd.classifies.mem_candidates g).trans (and_iff_right hg)
  have herror : ∀ e, (g, e) ∈ d.errors ↔ m.selector.isExcluded g = false ∧
      w.source g = .error e := fun e =>
    (hd.classifies.mem_errors g e).trans (and_iff_right hg)
  refine ⟨d, start, _, _, _, hdiscover, hcandidate, hmigrated, ?_⟩
  obtain ⟨c, hc, hunique⟩ := m.existsUnique_isOf w g
  have hunreported : (∀ e, (g, e) ∉ d.errors) → g ∉ d.candidates →
      g ∉ d.errors.map Prod.fst ++ d.candidates := by
    intro hnone hno hmem
    rcases List.mem_append.mp hmem with hmem | hmem
    · obtain ⟨⟨p, e⟩, he, rfl⟩ := List.mem_map.mp hmem
      exact hnone e he
    · exact hno hmem
  cases c with
  | excluded =>
      have hno : g ∉ d.candidates := fun hmem => nomatch hunique _ (hcandidate.mp hmem)
      have hexcluded : m.selector.isExcluded g = true := hc
      have hnone : ∀ e, (g, e) ∉ d.errors := by simp [herror, hexcluded]
      simp only [fate, hexcluded, if_true]
      exact ⟨hd.results_of_unreported hg (hunreported hnone hno),
        hd.settles_of_not_mem hg hno hspares⟩
  | unreadable =>
      have hno : g ∉ d.candidates := fun hmem => nomatch hunique _ (hcandidate.mp hmem)
      obtain ⟨hexcluded, e, hsource⟩ := hc
      simp only [fate, hexcluded, hsource, Bool.false_eq_true, if_false]
      refine ⟨hd.results_of_mem ((m.migrateAll_results _ _ _ _).subset ?_),
        hd.settles_of_not_mem hg hno hspares⟩
      exact List.mem_map.mpr ⟨(g, e), (herror e).mpr ⟨hexcluded, hsource⟩, rfl⟩
  | unselected =>
      have hno : g ∉ d.candidates := fun hmem => nomatch hunique _ (hcandidate.mp hmem)
      obtain ⟨hexcluded, x, hsource, haccepts⟩ := hc
      have hnone : ∀ e, (g, e) ∉ d.errors := by simp [herror, hsource]
      simp only [fate, hexcluded, hsource, haccepts, Bool.false_eq_true, if_false]
      exact ⟨hd.results_of_unreported hg (hunreported hnone hno),
        hd.settles_of_not_mem hg hno hspares⟩
  | candidate =>
      obtain ⟨hexcluded, x, hsource, haccepts⟩ := hc
      obtain ⟨b, hread⟩ := read_of_source_new hsource hnew
      obtain ⟨hresult, hsettles⟩ :=
        hd.settles_of_mem (hcandidate.mpr ⟨hexcluded, x, hsource, haccepts⟩) hread hspares
        hkeeps
      simp only [fate, hexcluded, hsource, haccepts, Bool.false_eq_true, if_false, if_true]
      exact ⟨hd.results_of_mem hresult, hsettles⟩

end Migration

/-! ## Two runs -/

namespace World

/-- Two worlds agree on a file: it has the same content, gives the same when it is read, and can be
written in both or in none. -/
structure AgreeOn (g : Path) (w v : World) : Prop where
  content : v.tree.content? g = w.tree.content? g
  read : v.tree.read g = w.tree.read g
  unreadable : v.faults.unreadable.contains g = w.faults.unreadable.contains g
  altered : v.faults.altered.lookup g = w.faults.altered.lookup g
  unwritable : v.faults.unwritable.contains g = w.faults.unwritable.contains g

theorem AgreeOn.source_eq {g : Path} {w v : World} (h : AgreeOn g w v)
    (hseen : v.sourcesRead.contains g = w.sourcesRead.contains g) : v.source g = w.source g := by
  unfold World.source
  rw [h.unreadable, h.altered, h.read, hseen]

end World

namespace Migration

variable {m : Migration} {o : Options} {journal : Option Journal} {files : List Path} {w v : World}
  {g : Path}

/-- A migration begins where it lists a file that was not read before, and no backup will fail or be
written over the file. -/
structure BeginsApart (m : Migration) (o : Options) (journal : Option Journal) (files : List Path)
    (g : Path) (w : World) : Prop where
  wellFormed : w.tree.WellFormed
  lists : m.Lists w files
  new : g ∉ w.sourcesRead
  spares : RunStore.Spares (journal.map Journal.key) w.tree g
  keepsBackups : (m.run o journal).run.KeepsBackups w

/-- Two migrations do the same with a file: it is a candidate of both or of none, the same is
reported of it, and it has the same content in the end. -/
def RunAlike (m : Migration) (o : Options) (journal journal' : Option Journal) (g : Path)
    (w v : World) : Prop :=
  ∃ d d' start start' report report' j j' w' v',
    m.discover.run.run w = (.ok d, start) ∧ m.discover.run.run v = (.ok d', start') ∧
    (g ∈ d.candidates ↔ g ∈ d'.candidates) ∧
    (m.run o journal).run.run w = (.ok (report, j), w') ∧
    (m.run o journal').run.run v = (.ok (report', j'), v') ∧
    report.results.filter (·.1 = m.relative g) = report'.results.filter (·.1 = m.relative g) ∧
    w'.tree.content? g = v'.tree.content? g

theorem BeginsApart.runAlike {journal' : Option Journal} (h : m.BeginsApart o journal files g w)
    (h' : m.BeginsApart o journal' files g v) (hg : g ∈ files) (hagree : World.AgreeOn g w v) :
    m.RunAlike o journal journal' g w v := by
  have hnew : v.sourcesRead.contains g = w.sourcesRead.contains g := by simp [h.new, h'.new]
  have hfirst := hagree.source_eq hnew
  have hsecond : (v.reply (.readSource g)).2.source g = (w.reply (.readSource g)).2.source g :=
    World.AgreeOn.source_eq
      ⟨hagree.content, hagree.read, hagree.unreadable, hagree.altered, hagree.unwritable⟩
      (by simp [World.reply])
  have hclass : m.IsOf v g .candidate ↔ m.IsOf w g .candidate := by
    unfold IsOf
    rw [hfirst]
  obtain ⟨d, start, report, j, w', hdiscover, hmem, hrun, hresults, hsettles⟩ :=
    run_settles h.wellFormed h.lists hg h.new h.spares h.keepsBackups
  obtain ⟨d', start', report', j', v', hdiscover', hmem', hrun', hresults', hsettles'⟩ :=
    run_settles h'.wellFormed h'.lists hg h'.new h'.spares h'.keepsBackups
  rw [hagree.unwritable, hfirst, hsecond] at hresults' hsettles'
  exact ⟨d, d', start, start', report, report', j, j', w', v', hdiscover, hdiscover',
    hmem.trans (hclass.symm.trans hmem'.symm), hrun, hrun', hresults.trans hresults'.symm,
    hsettles.content.trans (hagree.content ▸ hsettles'.content.symm)⟩

/-- Where two worlds agree on a file, it is a candidate in both or in none, the same is reported of
it, and it has the same content in the end, whatever the other files hold and whatever fails for
them. -/
theorem run_isolated {journal' : Option Journal} (h : m.BeginsApart o journal files g w)
    (h' : m.BeginsApart o journal' files g v) (hg : g ∈ files) (hagree : World.AgreeOn g w v) :
    ∃ d d' start start' report report' j j' w' v',
      m.discover.run.run w = (.ok d, start) ∧ m.discover.run.run v = (.ok d', start') ∧
      (g ∈ d.candidates ↔ g ∈ d'.candidates) ∧
      (m.run o journal).run.run w = (.ok (report, j), w') ∧
      (m.run o journal').run.run v = (.ok (report', j'), v') ∧
      report.results.filter (·.1 = m.relative g) = report'.results.filter (·.1 = m.relative g) ∧
      w'.tree.content? g = v'.tree.content? g :=
  h.runAlike h' hg hagree

/-- A migration begins under a new id, so that no backup is written over a file. -/
structure BeginsFresh (m : Migration) (o : Options) (journal : Option Journal) (files : List Path)
    (w : World) : Prop where
  wellFormed : w.tree.WellFormed
  lists : m.Lists w files
  fresh : ∀ j, journal = some j → Run.IsId j.runId ∧ j.store.IsFresh j.runId w.tree
  keepsBackups : (m.run o journal).run.KeepsBackups w

theorem BeginsFresh.beginsApart (h : m.BeginsFresh o journal files w) (hg : g ∈ files)
    (hnew : g ∉ w.sourcesRead) : m.BeginsApart o journal files g w where
  wellFormed := h.wellFormed
  lists := h.lists
  new := hnew
  spares := by
    intro s id hrun
    obtain ⟨j, hj, heq⟩ := Option.map_eq_some_iff.mp hrun
    cases heq
    obtain ⟨hid, hfresh⟩ := h.fresh j hj
    obtain ⟨k, hsource⟩ := h.lists.isSource h.wellFormed hg
    have hlead := hsource.leadOf h.wellFormed
    obtain ⟨-, -, b, -, -, -, hfile⟩ := hsource
    exact hfresh.spares h.wellFormed hid hlead hfile j.store j.runId rfl
  keepsBackups := h.keepsBackups

/-- Under new ids, what becomes of a file does not depend on the others. -/
theorem runAlike_of_beginsFresh {journal' : Option Journal} (h : m.BeginsFresh o journal files w)
    (h' : m.BeginsFresh o journal' files v) (hg : g ∈ files) (hnew : g ∉ w.sourcesRead)
    (hnew' : g ∉ v.sourcesRead) (hagree : World.AgreeOn g w v) :
    m.RunAlike o journal journal' g w v :=
  (h.beginsApart hg hnew).runAlike (h'.beginsApart hg hnew') hg hagree

/-! ## Backups that are kept -/

/-- No backup fails if none does once the candidates are discovered. -/
theorem keepsBackups_of_discover {d : Discovery} {start : World} (hlists : m.Lists w files)
    (hw : w.tree.WellFormed) (hdiscover : m.discover.run.run w = (.ok d, start))
    (h : (m.migrateAll o ⟨m.unread d, {}, journal⟩ d.candidates).KeepsBackups start) :
    (m.run o journal).run.KeepsBackups w := by
  obtain ⟨-, hrequests⟩ := hlists.discover (hlists.nodup hw)
  have hasks : m.discover.run.Each (fun _ r => ∃ p, r = .walk p ∨ r = .readSource p) w := by
    refine (Action.each_iff_requests _ _).mpr fun r hr => ?_
    rw [hrequests] at hr
    rcases List.mem_cons.mp hr with rfl | hr
    · exact ⟨_, .inl rfl⟩
    · obtain ⟨p, -, rfl⟩ := List.mem_map.mp hr
      exact ⟨p, .inr rfl⟩
  have hkept : m.discover.run.KeepsBackups w := hasks.map₂ hasks fun w r hr _ _ => by
    obtain ⟨p, rfl | rfl⟩ := hr <;> rfl
  unfold run
  refine (Attempt.each_bind hdiscover).mpr
    ⟨hkept, (Attempt.each_bind (Attempt.run_always _ _)).mpr ⟨?_, trivial⟩⟩
  exact (Attempt.each_always _).mpr h

/-- Without a journal there are no backups that could fail. -/
theorem keepsBackups_of_no_journal (hlists : m.Lists w files) (hw : w.tree.WellFormed) :
    (m.run o none).run.KeepsBackups w := by
  obtain ⟨hdiscover, -⟩ := hlists.discover (hlists.nodup hw)
  refine keepsBackups_of_discover hlists hw hdiscover ?_
  obtain ⟨hasks, -⟩ := m.migrateAll_asks o ⟨m.unread _, {}, none⟩ _ _
  have hasks := (Action.each_iff_requests _ _).mpr hasks
  refine hasks.map₂ hasks fun w r hr _ hwritten => ?_
  obtain ⟨p, -, hr⟩ := hr
  cases hr with
  | read => rfl
  | print shown => rfl
  | createFolders hrun => cases hrun
  | backup hrun b => cases hrun
  | write y => cases hwritten

/-! ## Four pages and others -/

/-- Four pages of which the first is as before; the others differ, the second cannot be written and
the last cannot be read. -/
def otherPages : World where
  tree := ⟨[], [(["src"], .folder),
    (["src", "a.ts"], .file (Text.toBytes "import A from 'a'\n<P></P>".toList)),
    (["src", "b.ts"], .file (Text.toBytes "".toList)),
    (["src", "c.ts"], .file (Text.toBytes "import A from 'a'".toList)),
    (["src", "d.ts"], .file (Text.toBytes "import A from 'a'\n<P></P>".toList))]⟩
  faults := { unreadable := [⟨"/src/d.ts"⟩], unwritable := [⟨"/src/b.ts"⟩] }

theorem lists_otherPages :
    sparing.Lists otherPages [⟨"/src/a.ts"⟩, ⟨"/src/b.ts"⟩, ⟨"/src/c.ts"⟩,
      ⟨"/src/d.ts"⟩] :=
  Lists.of_pairwise (k := ["src"]) (.of_isPlain (by decide)) (by decide) rfl (by decide)

theorem keepsBackups_fourPages (hw : fourPages.tree.WellFormed) :
    (sparing.run ⟨true, .quiet⟩ (some (guardedRun.journal RunStore.beside))).run.KeepsBackups
      fourPages := by
  obtain ⟨hdiscover, -⟩ := lists_fourPages.discover (lists_fourPages.nodup hw)
  have hd : sparing.discoveryOf
      ((sparing.included [⟨"/src/a.ts"⟩, ⟨"/src/b.ts"⟩, ⟨"/src/c.ts"⟩,
      ⟨"/src/d.ts"⟩]).map
      fun p => (p, fourPages.source p)) =
        ⟨[⟨"/src/a.ts"⟩], [(⟨"/src/c.ts"⟩, Faults.error)]⟩ := by decide +kernel
  have hseen : (sparing.included [⟨"/src/a.ts"⟩, ⟨"/src/b.ts"⟩, ⟨"/src/c.ts"⟩,
      ⟨"/src/d.ts"⟩]).reverse ++
      fourPages.sourcesRead = [⟨"/src/d.ts"⟩, ⟨"/src/c.ts"⟩, ⟨"/src/a.ts"⟩] := by decide
  rw [hd, hseen] at hdiscover
  rw [journal_guardedRun]
  refine keepsBackups_of_discover lists_fourPages hw hdiscover ?_
  rw [migrateAll_cons, migrateFile_eq]
  refine (Action.each_bind _ _ _).mpr
    ⟨(Action.each_bind _ _ _).mpr ⟨(Action.each_ask _ _).mpr fun _ => rfl, ?_⟩, trivial⟩
  have hsource : World.source
      { fourPages with sourcesRead := [⟨"/src/d.ts"⟩, ⟨"/src/c.ts"⟩, ⟨"/src/a.ts"⟩] }
      ⟨"/src/a.ts"⟩ = .ok "import A from 'a'\n<P></P>".toList := by decide
  have hmake : (sparing.makeChange ⟨true, .quiet⟩
      (some ⟨RunStore.beside, "e572dff", "migrate", ⟨"/src"⟩, []⟩)
      ⟨"/src/a.ts"⟩ "import A from 'a'\n<P></P>".toList
        "import B from \"b\";\n<P>\n  <B></B></P>".toList).KeepsBackups
      (World.reply
        { fourPages with sourcesRead := [⟨"/src/d.ts"⟩, ⟨"/src/c.ts"⟩, ⟨"/src/a.ts"⟩] }
        (.readSource ⟨"/src/a.ts"⟩)).2 := by decide +kernel
  have huse := useReading_of_apply (m := sparing) guardedRun_apply rfl ⟨true, .quiet⟩
    (some ⟨RunStore.beside, "e572dff", "migrate", ⟨"/src"⟩, []⟩) ⟨"/src/a.ts"⟩
  rw [← huse, ← hsource] at hmake
  exact hmake

/-- The first page is migrated with a journal among its three pages as it is without one among the
others. -/
theorem run_isolated_fourPages :
    ∃ report report' j j' w v,
      (sparing.run ⟨true, .quiet⟩ (some (guardedRun.journal RunStore.beside))).run.run
          fourPages =
        (.ok (report, j), w) ∧
      (sparing.run ⟨true, .quiet⟩ none).run.run otherPages = (.ok (report', j'), v) ∧
      report.results.filter (·.1 = sparing.relative ⟨"/src/a.ts"⟩) =
        report'.results.filter (·.1 = sparing.relative ⟨"/src/a.ts"⟩) ∧
      w.tree.content? ⟨"/src/a.ts"⟩ = v.tree.content? ⟨"/src/a.ts"⟩ := by
  have hplain : fourPages.tree.isPlain = true := by decide
  have hplain' : otherPages.tree.isPlain = true := by decide
  have hw := FileTree.WellFormed.of_isPlain hplain
  have hlead : fourPages.tree.leadOf ⟨"/src/a.ts"⟩ = some ["src", "a.ts"] := by decide
  have hstore : fourPages.tree.leadOf RunStore.beside.folder = some ["s"] := by decide
  have hfresh : RunStore.beside.IsFresh guardedRun.id fourPages.tree := by
    intro S hS
    rw [hstore] at hS
    cases hS
    rfl
  have hbegins : sparing.BeginsApart ⟨true, .quiet⟩ (some (guardedRun.journal RunStore.beside))
      [⟨"/src/a.ts"⟩, ⟨"/src/b.ts"⟩, ⟨"/src/c.ts"⟩, ⟨"/src/d.ts"⟩]
        ⟨"/src/a.ts"⟩ fourPages :=
    ⟨hw, lists_fourPages, by simp [fourPages], hfresh.spares hw guardedRun.isId_id hlead rfl,
      keepsBackups_fourPages hw⟩
  have hbegins' : sparing.BeginsApart ⟨true, .quiet⟩ none
      [⟨"/src/a.ts"⟩, ⟨"/src/b.ts"⟩, ⟨"/src/c.ts"⟩, ⟨"/src/d.ts"⟩]
        ⟨"/src/a.ts"⟩ otherPages :=
    ⟨.of_isPlain hplain', lists_otherPages, by simp [otherPages], nofun,
      keepsBackups_of_no_journal lists_otherPages (.of_isPlain hplain')⟩
  have hagree : World.AgreeOn ⟨"/src/a.ts"⟩ fourPages otherPages := by
    constructor
    all_goals decide
  obtain ⟨-, -, -, -, report, report', j, j', w, v, -, -, -, hrun, hrun', hresults, hcontent⟩ :=
    run_isolated hbegins hbegins' (by simp) hagree
  exact ⟨report, report', j, j', w, v, hrun, hrun', hresults, hcontent⟩

end Migration

end Rewrap
