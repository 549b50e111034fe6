import Rewrap.Proofs.Migration.Invariants
import Rewrap.Proofs.Run.Undoing

/-! # What a journal holds

While a migration goes on, its journal holds a change for each file that was written: the file's
text from before is kept as a backup, and the hash of the change is that of the text that stands
there now. A file that could not be read, backed up or written is as it was, and is not in the
journal. -/

namespace Rewrap

open FileTree (Frame Nowhere)

variable {s : RunStore} {ids : List String} {id : String} {w w' : World} {t u v : FileTree}
  {root : Path}

namespace RunStore

/-! ## Changes -/

/-- The backups of a run, seen from the store's folder. -/
def IsBackup (id : String) (r : Place) : Prop := ∃ n, r = [id, n]

/-- What holds while a migration goes on that began at `t`: only backups and the files in the
journal have changed, and these files can be restored. -/
structure Journaled (s : RunStore) (id : String) (root : Path) (t : FileTree)
    (changes : List Change) (u : FileTree) : Prop where
  wellFormed : u.WellFormed
  frame : Frame (fun k => s.Below t (IsBackup id) k ∨ LeadsTo t changes k)
    (s.MakesFolder t (· = [id])) t u
  made : ∀ c ∈ changes, ∃ k x y, t.IsSource root c.path k ∧
    t.get? k = some (.file x.toBytes) ∧ s.Restorable id u c k x y
  nodup : (changes.map Change.path).Nodup

/-- Nothing of the store lies at or below a root, and the backups of the files below the root have
different names. -/
structure Apart (s : RunStore) (ids : List String) (t : FileTree) (root : Path) : Prop where
  outside : ∀ R k, t.leadOf root = some R → R <+: k → ¬s.Owns t ids k
  names : ∀ p q k k', t.IsSource root p k → t.IsSource root q k' →
    backupName p = backupName q → p = q

theorem Apart.not_owns (h : s.Apart ids t root) {p : Path} {k : Place} (hp : t.IsSource root p k) :
    ¬s.Owns t ids k := by
  obtain ⟨R, hR, hprefix⟩ := hp.root_prefix
  exact h.outside R k hR hprefix

theorem Journaled.start (h : t.WellFormed) : s.Journaled id root t [] t :=
  ⟨h, .refl _ _ _, by simp, List.nodup_nil⟩

theorem Journaled.guarded {changes : List Change} (h : s.Journaled id root t changes u)
    (ht : s.Guarded ids t) : s.Guarded ids u :=
  ht.frame h.wellFormed h.frame

theorem isOwn_of_isBackup (hid : id ∈ ids) {r : Place} (hr : IsBackup id r) : IsOwn ids r := by
  obtain ⟨n, rfl⟩ := hr
  exact ⟨id, [n], mem_ownNames hid, rfl⟩

section

variable {changes : List Change} {p : Path} {k : Place} {folders : Place → Prop}

/-! What changes while a journal grows: the places of backups, and those of the files in the
journal. -/

/-- A source file is at the place of a change only if it is the change's. -/
theorem not_leadsTo_of_new (hmade : ∀ c ∈ changes, ∃ k, t.IsSource root c.path k)
    (ht : t.WellFormed) (hp : t.IsSource root p k) (hnew : p ∉ changes.map Change.path) :
    ¬LeadsTo t changes k := by
  rintro ⟨c, hc, hlead⟩
  obtain ⟨k', hsource⟩ := hmade c hc
  rw [hsource.leadOf ht] at hlead
  cases hlead
  exact hnew (hsource.inj hp ▸ List.mem_map_of_mem hc)

theorem frame_keep
    (h : Frame (fun k => s.Below t (IsBackup id) k ∨ LeadsTo t changes k) folders t u)
    {name : String} {folders' : Place → Prop}
    (hkeep : Frame (s.Below u (· = [id, name])) folders' u v)
    (hfolders : ∀ k, folders' k → folders k) :
    Frame (fun k => s.Below t (IsBackup id) k ∨ LeadsTo t changes k) folders t v := by
  refine h.trans (hkeep.mono (fun k hk => .inl ?_) hfolders)
  exact ((Below.frame h).mp hk).mono fun r hr => ⟨_, hr⟩

theorem frame_commit
    (h : Frame (fun k => s.Below t (IsBackup id) k ∨ LeadsTo t changes k) folders t u)
    {c : Change} (hc : t.leadOf c.path = some k) (hfolder : u.get? k ≠ some .folder)
    (hlink : ∀ q, u.get? k ≠ some (.link q)) (b : ByteArray) :
    Frame (fun k => s.Below t (IsBackup id) k ∨ LeadsTo t (changes ++ [c]) k) folders t
      (u.put k (.file b)) := by
  refine (h.mono (fun k' hk' => hk'.imp_right ?_) fun _ hk => hk).trans
    ((FileTree.frame_put_file hfolder hlink).mono ?_ fun _ hk => hk.elim)
  · rintro ⟨c', hc', hlead⟩
    exact ⟨c', List.mem_append_left _ hc', hlead⟩
  · rintro _ rfl
    exact .inr ⟨c, List.mem_append_right _ List.mem_cons_self, hc⟩

theorem nodup_commit (h : (changes.map Change.path).Nodup) {c : Change}
    (hnew : c.path ∉ changes.map Change.path) : ((changes ++ [c]).map Change.path).Nodup := by
  rw [List.map_append, List.map_singleton, ← List.concat_eq_append]
  exact h.concat hnew

theorem index_not_changed
    (hmade : ∀ c ∈ changes, ∃ k, t.IsSource root c.path k ∧ ¬s.Owns t ids k)
    (ht : t.WellFormed) {S : Place} (hS : t.leadOf s.folder = some S) :
    ¬(s.Below t (IsBackup id) (S ++ ["runs.json"]) ∨
      LeadsTo t changes (S ++ ["runs.json"])) := by
  have hindexName : "runs.json" ∈ fileNames ids := List.mem_cons_self
  rintro (hbelow | ⟨c, hc, hlead⟩)
  · obtain ⟨n, hn⟩ := (below_append hS).mp hbelow
    simp at hn
  · obtain ⟨k, hsource, hk⟩ := hmade c hc
    rw [hsource.leadOf ht] at hlead
    cases hlead
    exact hk ⟨S, _, hS,
      ⟨"runs.json", [], (mem_ownNames_of_mem_fileNames hindexName).1, rfl⟩, rfl⟩

/-! The journal's files, one after the other. -/

theorem Journaled.isSource (h : s.Journaled id root t changes u) :
    ∀ c ∈ changes, ∃ k, t.IsSource root c.path k := by
  intro c hc
  obtain ⟨k, -, -, hsource, -⟩ := h.made c hc
  exact ⟨k, hsource⟩

theorem Journaled.get?_eq (h : s.Journaled id root t changes u) (ht : t.WellFormed)
    (hapart : s.Apart ids t root) (hid : id ∈ ids) (hp : t.IsSource root p k)
    (hnew : p ∉ changes.map Change.path) (b : ByteArray) :
    u.get? k = some (.file b) ↔ t.get? k = some (.file b) := by
  refine h.frame.file k ?_ b
  rintro (hbelow | hleads)
  · exact hapart.not_owns hp (hbelow.mono fun _ hr => isOwn_of_isBackup hid hr)
  · exact not_leadsTo_of_new h.isSource ht hp hnew hleads

/-- Keeping the backup of another file keeps the invariant. -/
theorem Journaled.keep (h : s.Journaled id root t changes w.tree) (ht : s.Guarded ids t)
    (hids : ∀ id ∈ ids, Run.IsId id) (hid : id ∈ ids) (hapart : s.Apart ids t root)
    (hp : t.IsSource root p k) (hnew : p ∉ changes.map Change.path)
    (hkept : s.Kept (· = [id, (backupName p).text]) (· = [id]) w w') :
    s.Journaled id root t changes w'.tree where
  wellFormed := hkept.wellFormed
  frame := frame_keep h.frame hkept.frame fun _ hk => hk.of_frame h.frame
  made := by
    intro c hc
    obtain ⟨k', x, y, hsource, hbefore, hrestorable⟩ := h.made c hc
    refine ⟨k', x, y, hsource, hbefore,
      hrestorable.keep (h.guarded ht) hids hid hkept.frame ?_ fun S hS hbelow => ?_⟩
    · intro hbelow
      refine hapart.not_owns hsource (((Below.frame h.frame).mp hbelow).mono fun r hr => ?_)
      exact isOwn_of_isBackup hid ⟨_, hr⟩
    · have heq := (below_append hS).mp hbelow
      simp only [List.cons.injEq, and_true, true_and] at heq
      have hname : backupName c.path = backupName p := by
        rw [← hrestorable.backup]
        exact congrArg Path.mk heq
      exact hnew (hapart.names _ _ _ _ hsource hp hname ▸ List.mem_map_of_mem hc)
  nodup := h.nodup

/-- Writing a file whose backup is kept adds it to the journal. -/
theorem Journaled.commit (h : s.Journaled id root t changes u) (ht : s.Guarded ids t)
    (hids : ∀ id ∈ ids, Run.IsId id) (hid : id ∈ ids) (hapart : s.Apart ids t root)
    (hp : t.IsSource root p k) (hnew : p ∉ changes.map Change.path) {x : Text}
    (hx : t.get? k = some (.file x.toBytes)) (hbackup : s.BackedUp u id (backupName p) x)
    (hk : u.resolve true p = .ok k) (hslash : p.text.toList.getLast? ≠ some '/')
    (hfolder : u.get? k ≠ some .folder) (hlink : ∀ q, u.get? k ≠ some (.link q)) {y : Text}
    (hwf : (u.put k (.file y.toBytes)).WellFormed) :
    s.Journaled id root t (changes ++ [⟨p, x.hash, y.hash, backupName p⟩])
      (u.put k (.file y.toBytes)) := by
  have hput := FileTree.frame_put_file (b := y.toBytes) hfolder hlink
  have hne : k ≠ [] := by
    rintro rfl
    exact hfolder rfl
  have hnotOwn : ∀ name S, u.leadOf s.folder = some S → S ++ [id, name] ≠ k := by
    rintro name S hS rfl
    rw [h.frame.leadOf] at hS
    exact hapart.not_owns hp ⟨S, _, hS, isOwn_of_isBackup hid ⟨name, rfl⟩, rfl⟩
  have hframe := frame_commit (c := ⟨p, x.hash, y.hash, backupName p⟩) h.frame
    (hp.leadOf ht.wellFormed) hfolder
    hlink y.toBytes
  refine ⟨hwf, hframe, fun c hc => ?_, nodup_commit h.nodup hnew⟩
  rcases List.mem_append.mp hc with hc | hc
  · obtain ⟨k', x', y', hsource, hbefore, hrestorable⟩ := h.made c hc
    refine ⟨k', x', y', hsource, hbefore,
      hrestorable.keep (h.guarded ht) hids hid hput ?_ fun S hS => hnotOwn c.backup.text S hS⟩
    rintro rfl
    exact hnew (hsource.inj hp ▸ List.mem_map_of_mem hc)
  · obtain rfl := List.mem_singleton.mp hc
    refine ⟨k, x, y, hp, hx, FileTree.get?_put_self hne, hput.resolve hk, hslash, rfl, rfl, ?_⟩
    exact hbackup.frame ((h.guarded ht).unlinked hid) (isName_of_isId (hids id hid))
      (isName_backupName p) hput fun S hS =>
      hnotOwn (backupName p).text S hS

end

end RunStore

/-! ## Migrating files -/

namespace Migration

open RunStore

variable {m : Migration} {j : Journal}

theorem isJournalKept_journaled (ht : s.Guarded ids t) (hids : ∀ id ∈ ids, Run.IsId id)
    (hid : id ∈ ids) (hapart : s.Apart ids t m.root) :
    m.IsJournalKept s ids id t (s.Journaled id m.root t) where
  guarded := fun h => h.guarded ht
  leadOf := fun h => h.frame.leadOf
  same := fun h hp hnew => h.get?_eq ht.wellFormed hapart hid hp.1 hnew
  backup := fun h hp hnew hkept _ => h.keep ht hids hid hapart hp.1 hnew hkept
  commit := fun h hp hnew hx _ hbackup hk hslash hfolder hlink hwf =>
    h.commit ht hids hid hapart hp.1 hnew hx hbackup hk hslash hfolder hlink hwf

/-- A migration with a new journal ends with the invariant. -/
theorem run_journaled (ht : s.Guarded ids w.tree) (hids : ∀ id ∈ ids, Run.IsId id)
    (m : Migration) (hapart : s.Apart ids w.tree m.root) (hfaults : w.faults.AreHonest)
    {format : PreviewFormat} (hstore : j.store = s) (hid : j.runId ∈ ids) (hnone : j.changes = [])
    {report : Report} {journal : Option Journal}
    (hrun : (m.run ⟨true, format⟩ (some j)).run.run w = (.ok (report, journal), w')) :
    ∃ j', journal = some j' ∧ j'.store = s ∧ j'.runId = j.runId ∧
      s.Journaled j.runId m.root w.tree j'.changes w'.tree := by
  subst hstore
  rcases (isJournalKept_journaled ht hids hid hapart).run hids hid hfaults hnone
    (.start ht.wellFormed) hrun with
    ⟨e, herror, -⟩ | ⟨report', j', hok, hstore, hrunId, hjournaled⟩
  · cases herror
  · cases hok
    exact ⟨j', rfl, hstore, hrunId, hjournaled⟩

end Migration

end Rewrap
