import Rewrap.Proofs.Migration.Steps

/-! # What a migration asks for

To discover, a migration lists files and reads those that are not excluded. It then goes through its
candidates: it reads each of them, shows its change, keeps its backup if there is a journal, and
writes it, at most once. -/

namespace Rewrap

variable {run : Option (RunStore × String)} {w w' : World} {p : Path}

/-- The store and the id of the run that a journal collects. -/
def Journal.key (j : Journal) : RunStore × String := (j.store, j.runId)

/-- The path of a file's backup. -/
def RunStore.backupPath (s : RunStore) (id : String) (p : Path) : Path :=
  (s.backupFolder id).join (RunStore.backupName p)

namespace Migration

variable {m : Migration} {o : Options} {journal : Option Journal} {x y : Text}

/-- What a migration can ask for when it goes through a file, given the run that it keeps backups
for. -/
inductive AsksFor (run : Option (RunStore × String)) (p : Path) : Request → Prop
  | read : AsksFor run p (.readSource p)
  | print (shown : String) : AsksFor run p (.print shown)
  | createFolders {s : RunStore} {id : String} (h : run = some (s, id)) :
      AsksFor run p (.createFolders (s.backupFolder id))
  | backup {s : RunStore} {id : String} (h : run = some (s, id)) (b : ByteArray) :
      AsksFor run p (.write (s.backupPath id p) b)
  | write (y : Text) : AsksFor run p (.writeSource p y)

theorem AsksFor.isKeeping {r : Request} (h : AsksFor run p r) : r.isKeeping = true := by
  cases h <;> rfl

theorem AsksFor.overwritten {r : Request} {q : Path} (h : AsksFor run p r)
    (hq : r.overwritten? = some q) :
    q = p ∧ r.written? = some p ∨ ∃ s id, run = some (s, id) ∧ q = s.backupPath id p := by
  cases h with
  | read => cases hq
  | print shown => cases hq
  | createFolders hrun => cases hq
  | backup hrun b => exact .inr ⟨_, _, hrun, (Option.some.inj hq).symm⟩
  | write y =>
      cases hq
      exact .inl ⟨rfl, rfl⟩

/-! ## One file -/

theorem each_backup (j : Journal) (p : Path) (x y : Text) (w : World) :
    (j.backup p x y).run.Each (fun _ r => AsksFor (some j.key) p r ∧ r.written? = none) w := by
  unfold Journal.backup RunStore.saveBackup
  refine Attempt.each_bind_of (Attempt.each_bind_of ?_ fun _ w₁ _ => ?_) fun _ _ _ => trivial
  · exact (Attempt.each_orFail _ _).mpr ((Action.each_ask _ _).mpr ⟨.createFolders rfl, rfl⟩)
  · refine Attempt.each_bind_of ?_ fun _ _ _ => trivial
    exact (Attempt.each_orFail _ _).mpr ((Action.each_ask _ _).mpr ⟨.backup rfl _, rfl⟩)

theorem each_writeSource (run : Option (RunStore × String)) (p : Path) (y : Text) (w : World) :
    (Attempt.orFail (Action.ask (.writeSource p y)) (FileFailure.unwritable p)).run.Each
      (fun _ r => AsksFor run p r) w :=
  (Attempt.each_orFail _ _).mpr ((Action.each_ask _ _).mpr (.write y))

theorem each_writeFile (journal : Option Journal) (p : Path) (x y : Text) (w : World) :
    (writeFile journal p x y).run.Each (fun _ r => AsksFor (journal.map Journal.key) p r) w := by
  cases journal with
  | none => exact Attempt.each_bind_of (each_writeSource none p y w) fun _ _ _ => trivial
  | some j =>
      refine Attempt.each_bind_of ((Attempt.each_adapt _ _).mpr ?_) fun _ w₁ _ => ?_
      · exact (Action.each_iff_requests _ _).mpr fun r hr => ((Action.each_iff_requests _ _).mp
          (each_backup j p x y w) r hr).1
      · exact Attempt.each_bind_of (each_writeSource _ p y w₁) fun _ _ _ => trivial

/-- While a file is written no other source file is, and this one at most once. -/
theorem written_writeFile (journal : Option Journal) (p : Path) (x y : Text) (w : World) :
    (Request.written ((writeFile journal p x y).run.requests w)).Sublist [p] := by
  have hsource : ∀ (f : Unit → Attempt FileFailure (Option Journal)) w,
      (∀ a w, (f a).run.requests w = []) →
      (Request.written ((Attempt.orFail (Action.ask (.writeSource p y))
          (FileFailure.unwritable p) >>= f).run.requests
        w)).Sublist [p] := by
    intro f w hf
    rw [ExceptT.run_bind, Action.requests_bind, Attempt.requests_orFail, Action.requests_ask]
    split
    · rw [hf]
      exact .refl _
    · exact .refl _
  cases journal with
  | none => exact hsource _ w fun _ _ => rfl
  | some j =>
      have hbackup : Request.written
          (((j.backup p x y).adapt FileFailure.notBackedUp).run.requests w) = [] := by
        rw [Attempt.requests_adapt]
        exact List.filterMap_eq_nil_iff.mpr fun r hr =>
          ((Action.each_iff_requests _ _).mp (each_backup j p x y w) r hr).2
      unfold writeFile
      rw [ExceptT.run_bind, Action.requests_bind, Request.written_append, hbackup, List.nil_append]
      split
      · exact hsource _ _ fun _ _ => rfl
      · exact List.nil_sublist _

theorem concluded_key (journal : Option Journal) (p : Path) (x y : Text) (w : World) :
    (concluded journal ((writeFile journal p x y).run.run w).1).2.map Journal.key =
      journal.map Journal.key := by
  cases hwrite : ((writeFile journal p x y).run.run w).1 with
  | error f => rfl
  | ok journal' =>
      cases journal with
      | none =>
          obtain ⟨_, w₁, -, hdone⟩ := Attempt.bind_eq_ok (Prod.ext hwrite rfl)
          cases hdone
          rfl
      | some j =>
          obtain ⟨c, w₁, -, hrest⟩ := Attempt.bind_eq_ok (Prod.ext hwrite rfl)
          obtain ⟨_, w₂, -, hdone⟩ := Attempt.bind_eq_ok hrest
          cases hdone
          rfl

theorem useReading_asks (m : Migration) (o : Options) (journal : Option Journal) (p : Path)
    (reading : Except FileError Text) (w : World) :
    (∀ r ∈ (m.useReading o journal p reading).requests w,
      AsksFor (journal.map Journal.key) p r) ∧
      (Request.written ((m.useReading o journal p reading).requests w)).Sublist [p] ∧
      ((m.useReading o journal p reading).run w).1.2.2.map Journal.key =
        journal.map Journal.key := by
  rcases m.useReading_cases p reading with ⟨outcome, -, huse⟩ | ⟨x, r, -, -, -, huse⟩
  · rw [huse]
    exact ⟨by simp, List.nil_sublist _, rfl⟩
  · rw [huse]
    unfold makeChange
    simp only [Action.requests_bind, Action.run_bind]
    cases o.apply with
    | false =>
        refine ⟨fun r' hr' => ?_, List.nil_sublist _, rfl⟩
        obtain rfl := List.mem_singleton.mp hr'
        exact .print _
    | true =>
        simp only [if_true, Action.requests_bind, Action.run_bind, Action.pure_eq,
          Action.requests_done, List.append_nil]
        refine ⟨fun r' hr' => ?_, written_writeFile _ _ _ _ _, concluded_key _ _ _ _ _⟩
        rcases List.mem_append.mp hr' with hr' | hr'
        · obtain rfl := List.mem_singleton.mp hr'
          exact .print _
        · exact (Action.each_iff_requests _ _).mp (each_writeFile journal p x r.text _) r' hr'

/-- What is asked for when a file is migrated. -/
theorem migrateFile_asks (m : Migration) (o : Options) (journal : Option Journal) (p : Path)
    (w : World) :
    (∀ r ∈ (m.migrateFile o journal p).requests w, AsksFor (journal.map Journal.key) p r) ∧
      (Request.written ((m.migrateFile o journal p).requests w)).Sublist [p] ∧
      ((m.migrateFile o journal p).run w).1.2.2.map Journal.key = journal.map Journal.key := by
  obtain ⟨hasks, hwritten, hkey⟩ :=
    m.useReading_asks o journal p (w.source p) (w.reply (.readSource p)).2
  rw [run_migrateFile, migrateFile_eq, Action.requests_bind]
  refine ⟨fun r hr => ?_, hwritten, hkey⟩
  rcases List.mem_append.mp hr with hr | hr
  · obtain rfl := List.mem_singleton.mp hr
    exact .read
  · exact hasks r hr

/-! ## All files -/

/-- What is asked for when files are migrated one after the other. -/
theorem migrateAll_asks (m : Migration) (o : Options) (progress : Progress) (ps : List Path)
    (w : World) :
    (∀ r ∈ (m.migrateAll o progress ps).requests w, ∃ p ∈ ps,
      AsksFor (progress.journal.map Journal.key) p r) ∧
      (Request.written ((m.migrateAll o progress ps).requests w)).Sublist ps := by
  induction ps generalizing progress w with
  | nil => exact ⟨by simp [migrateAll], List.nil_sublist _⟩
  | cons p ps ih =>
      obtain ⟨hasks, hwritten, hkey⟩ := m.migrateFile_asks o progress.journal p w
      obtain ⟨hrest, hwritten'⟩ := ih _ _
      unfold migrateAll
      rw [Action.requests_bind, Request.written_append]
      refine ⟨fun r hr => ?_, hwritten.append hwritten'⟩
      rcases List.mem_append.mp hr with hr | hr
      · exact ⟨p, List.mem_cons_self, hasks r hr⟩
      · obtain ⟨q, hq, hr⟩ := hrest r hr
        exact ⟨q, List.mem_cons_of_mem _ hq, hkey ▸ hr⟩

/-- Going through files changes at most these and their backups. -/
theorem frame_of_asksFor {rs : List Request} {ps : List Path} (hw : w.tree.WellFormed)
    (hrs : ∀ r ∈ rs, ∃ p ∈ ps, AsksFor run p r) :
    (w.after rs).tree.WellFormed ∧
      FileTree.Frame (fun k => ∃ p ∈ ps,
        (p ∈ Request.written rs ∧ w.tree.leadOf p = some k) ∨
        ∃ s id, run = some (s, id) ∧ w.tree.leadOf (s.backupPath id p) = some k)
          FileTree.Anywhere w.tree
        (w.after rs).tree := by
  have hkeeping : ∀ r ∈ rs, r.isKeeping = true := by
    intro r hr
    obtain ⟨p, -, hasks⟩ := hrs r hr
    exact hasks.isKeeping
  obtain ⟨hwf, hframe⟩ := World.frame_after hw hkeeping
  refine ⟨hwf, hframe.mono (fun k hk => ?_) fun _ hk => hk⟩
  obtain ⟨q, hq, hlead⟩ := hk
  obtain ⟨r, hr, hq⟩ := List.mem_filterMap.mp hq
  obtain ⟨p, hp, hasks⟩ := hrs r hr
  refine ⟨p, hp, ?_⟩
  rcases hasks.overwritten hq with ⟨rfl, hwritten⟩ | ⟨s, id, hrun, heq⟩
  · exact .inl ⟨List.mem_filterMap.mpr ⟨r, hr, hwritten⟩, hlead⟩
  · exact .inr ⟨s, id, hrun, heq ▸ hlead⟩

end Migration

end Rewrap
