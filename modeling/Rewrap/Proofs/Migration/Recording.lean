import Rewrap.Proofs.Migration.Journaling
import Rewrap.Proofs.Run.Room

/-! # What is recorded of a migration

The journal of a migration holds just the files that were changed. Once it holds one, the run can be
saved if the store was ready for it: no folder is in the way of the run's texts, and an index that
is there can be loaded. -/

namespace Rewrap

open FileTree (Frame Nowhere Anywhere)

variable {s : RunStore} {ids : List String} {id : String} {w w' : World} {t u v : FileTree}
  {m : Migration} {changes : List Change}

/-! ## Differences -/

/-- The bytes of the file at a place. -/
def FileTree.fileAt? (t : FileTree) (k : Place) : Option ByteArray :=
  match t.get? k with
  | some (.file b) => some b
  | _ => none

/-- At a place there is not the same file in both trees. -/
def FileTree.DiffersAt (t u : FileTree) (k : Place) : Prop := t.fileAt? k ≠ u.fileAt? k

instance {k : Place} : Decidable (t.DiffersAt u k) := inferInstanceAs (Decidable (_ ≠ _))

theorem FileTree.fileAt?_eq_some {k : Place} {b : ByteArray} :
    t.fileAt? k = some b ↔ t.get? k = some (.file b) := by
  unfold fileAt?
  split
  · next b' hb' => simp [hb']
  · next hno => exact iff_of_false (by simp) fun hb => hno b hb

theorem FileTree.Frame.fileAt?_eq {files folders : Place → Prop} (h : Frame files folders t u)
    {k : Place} (hk : ¬files k) : u.fileAt? k = t.fileAt? k :=
  Option.ext fun b => by rw [fileAt?_eq_some, fileAt?_eq_some, h.file k hk b]

theorem FileTree.Frame.of_differsAt {files folders : Place → Prop} (h : Frame files folders t u)
    {k : Place} (hk : t.DiffersAt u k) : files k := by
  by_contra hno
  exact hk (h.fileAt?_eq hno).symm

theorem FileTree.Frame.differsAt_iff {files folders : Place → Prop} (h : Frame files folders u v)
    {k : Place} (hk : ¬files k) : t.DiffersAt v k ↔ t.DiffersAt u k := by
  rw [DiffersAt, h.fileAt?_eq hk, DiffersAt]

theorem Text.toBytes_ne {x y : Text} (h : y ≠ x) : y.toBytes ≠ x.toBytes := by
  intro heq
  have hread := Text.ofBytes_toBytes y
  rw [heq, Text.ofBytes_toBytes] at hread
  exact h (Except.ok.inj hread).symm

namespace RunStore

/-! ## While the migration goes on -/

/-- What holds while a migration goes on that began at `t`: the journal holds just the files that
differ, and once it holds one, backups are found. -/
structure Noted (s : RunStore) (id : String) (m : Migration) (t : FileTree) (changes : List Change)
    (u : FileTree) : Prop where
  wellFormed : u.WellFormed
  frame : Frame (fun k => s.Below t (IsBackup id) k ∨ LeadsTo t changes k) (s.MakesWay t id) t u
  made : ∀ c ∈ changes, ∃ k b b', m.Reads t c.path k ∧ t.get? k = some (.file b) ∧
    u.get? k = some (.file b') ∧ b' ≠ b
  nodup : (changes.map Change.path).Nodup
  found : changes ≠ [] →
    ∃ p K, u.resolve true ((s.backupFolder id).join (backupName p)) = .ok K

/-- None of the files that a migration reads is the store's own. -/
def Spared (s : RunStore) (ids : List String) (m : Migration) (t : FileTree) : Prop :=
  ∀ p k, m.Reads t p k → ¬s.Owns t ids k

theorem Noted.start (h : t.WellFormed) : s.Noted id m t [] t :=
  ⟨h, .refl _ _ _, by simp, List.nodup_nil, by simp⟩

section

variable {p : Path} {k : Place}

theorem Noted.isSource (h : s.Noted id m t changes u) :
    ∀ c ∈ changes, ∃ k, t.IsSource m.root c.path k := by
  intro c hc
  obtain ⟨k, -, -, hsource, -⟩ := h.made c hc
  exact ⟨k, hsource.1⟩

/-- A file that is not in the journal is as it was. -/
theorem Noted.get?_eq (h : s.Noted id m t changes u) (ht : t.WellFormed)
    (hspared : s.Spared ids m t) (hid : id ∈ ids) (hp : m.Reads t p k)
    (hnew : p ∉ changes.map Change.path) (b : ByteArray) :
    u.get? k = some (.file b) ↔ t.get? k = some (.file b) := by
  refine h.frame.file k ?_ b
  rintro (hbelow | hleads)
  · exact hspared p k hp (hbelow.mono fun _ hr => isOwn_of_isBackup hid hr)
  · exact not_leadsTo_of_new h.isSource ht hp.1 hnew hleads

/-- Keeping a backup keeps the invariant. -/
theorem Noted.keep (h : s.Noted id m t changes w.tree) (hspared : s.Spared ids m t)
    (hid : id ∈ ids) (hkept : s.Kept (· = [id, (backupName p).text]) (· = [id]) w w')
    (hway : Frame Anywhere (s.MakesWay w.tree id) w.tree w'.tree) :
    s.Noted id m t changes w'.tree where
  wellFormed := hkept.wellFormed
  frame := frame_keep h.frame ((hkept.frame.inter hway).mono (fun _ hk => hk.1) fun _ hk => hk)
    fun _ hk => hk.2.of_frame h.frame
  made := by
    intro c hc
    obtain ⟨k, b, b', hsource, hbefore, hafter, hne⟩ := h.made c hc
    refine ⟨k, b, b', hsource, hbefore,
      (hkept.frame.file k (fun hbelow => ?_) b').mpr hafter, hne⟩
    refine hspared _ k hsource (((Below.frame h.frame).mp hbelow).mono fun r hr => ?_)
    exact isOwn_of_isBackup hid ⟨_, hr⟩
  nodup := h.nodup
  found := by
    intro hne
    obtain ⟨q, K, hK⟩ := h.found hne
    exact ⟨q, K, hway.resolve hK⟩

/-- Writing another text to a file whose backup is kept adds it to the journal. -/
theorem Noted.commit (h : s.Noted id m t changes u) (ht : t.WellFormed) (hp : m.Reads t p k)
    (hnew : p ∉ changes.map Change.path) {x y : Text} (hx : t.get? k = some (.file x.toBytes))
    (hne : y ≠ x) (hbackup : s.BackedUp u id (backupName p) x)
    (hfolder : u.get? k ≠ some .folder) (hlink : ∀ q, u.get? k ≠ some (.link q))
    (hwf : (u.put k (.file y.toBytes)).WellFormed) :
    s.Noted id m t (changes ++ [⟨p, x.hash, y.hash, backupName p⟩])
      (u.put k (.file y.toBytes)) := by
  have hput := FileTree.frame_put_file (b := y.toBytes) hfolder hlink
  have hplace : k ≠ [] := by
    rintro rfl
    exact hfolder rfl
  have hframe := frame_commit (c := ⟨p, x.hash, y.hash, backupName p⟩) h.frame
    (hp.1.leadOf ht) hfolder hlink
    y.toBytes
  refine ⟨hwf, hframe, fun c hc => ?_, nodup_commit h.nodup hnew, fun _ => ?_⟩
  · rcases List.mem_append.mp hc with hc | hc
    · obtain ⟨k', b, b', hsource, hbefore, hafter, hdiffers⟩ := h.made c hc
      refine ⟨k', b, b', hsource, hbefore, (hput.file k' ?_ b').mpr hafter, hdiffers⟩
      rintro rfl
      exact hnew (hsource.1.inj hp.1 ▸ List.mem_map_of_mem hc)
    · obtain rfl := List.mem_singleton.mp hc
      exact ⟨k, _, _, hp, hx, FileTree.get?_put_self hplace, Text.toBytes_ne hne⟩
  · obtain ⟨K, hK, -⟩ := hbackup
    exact ⟨p, K, hput.resolve hK⟩

end

theorem isJournalKept_noted (ht : s.Guarded ids t) (hid : id ∈ ids) (hspared : s.Spared ids m t) :
    m.IsJournalKept s ids id t (s.Noted id m t) where
  guarded := fun h => ht.frame h.wellFormed h.frame
  leadOf := fun h => h.frame.leadOf
  same := fun h hp hnew => h.get?_eq ht.wellFormed hspared hid hp hnew
  backup := fun h _ _ hkept hway => h.keep hspared hid hkept hway
  commit := fun h hp hnew hx hne hbackup _ _ hfolder hlink hwf =>
    h.commit ht.wellFormed hp hnew hx hne hbackup hfolder hlink hwf

/-- The files that differ are those in the journal. -/
theorem Noted.differsAt_iff (h : s.Noted id m t changes u) (ht : t.WellFormed) (hid : id ∈ ids)
    {k : Place} (hk : ¬s.Owns t ids k) : t.DiffersAt u k ↔ LeadsTo t changes k := by
  constructor
  · intro hdiffers
    refine (h.frame.of_differsAt hdiffers).resolve_left fun hbelow => hk ?_
    exact hbelow.mono fun _ => isOwn_of_isBackup hid
  · rintro ⟨c, hc, hlead⟩
    obtain ⟨k', b, b', hsource, hbefore, hafter, hne⟩ := h.made c hc
    rw [hsource.1.leadOf ht] at hlead
    cases hlead
    rw [FileTree.DiffersAt, FileTree.fileAt?_eq_some.mpr hbefore,
      FileTree.fileAt?_eq_some.mpr hafter]
    simpa using hne.symm

/-! ## When it ends -/

/-- A store that is ready for a run: no folder stands in the place of one of the run's texts, or
will be made there on the way to the store's folder, and the index can be loaded. -/
structure Ready (s : RunStore) (id : String) (t : FileTree) : Prop where
  room : ∀ k, s.Below t (IsRunText id) k → t.get? k ≠ some .folder ∧ ¬t.OnWay s.folder k
  index : s.IndexLoads t

/-- Once a file is written, the run can be saved. -/
theorem Noted.saveRun (h : s.Noted id m t changes w.tree) (ht : s.Guarded ids t)
    (hids : ∀ id ∈ ids, Run.IsId id) (hid : id ∈ ids) (hlength : id.toList.length = 7)
    (hspared : s.Spared ids m t) (hready : s.Ready id t) (hne : changes ≠ []) {r : Run}
    (hr : r.id = id) : ∃ w', (s.saveRun r).run.run w = (.ok (), w') := by
  subst hr
  obtain ⟨p, K, hK⟩ := h.found hne
  have hindexName : "runs.json" ∈ fileNames ids := List.mem_cons_self
  refine saveRun_of_backup (ht.frame h.wellFormed h.frame) hids hid hlength hK
    (fun k hk hfolder => ?_) ?_
  · have hk := (Below.frame h.frame).mp hk
    obtain ⟨hvacant, hway⟩ := hready.room k hk
    rcases h.frame.newFolder k hfolder with hold | hmakes | hbelow
    · exact hvacant hold
    · exact hway hmakes
    · -- the folder of the backups is named by the id, and no text is
      obtain ⟨S, _, hS, rfl, rfl⟩ := hbelow
      have htext := (below_append hS).mp hk
      have hnotId : ∀ name ∈ fileNames ids, ¬IsText name [r.id] := by
        rintro name hname (heq | heq)
        · exact not_isId_of_mem_fileNames hname (.inl (List.cons.inj heq).1) (hids _ hid)
        · exact not_isId_of_mem_fileNames hname (.inr (List.cons.inj heq).1) (hids _ hid)
      exact htext.elim (hnotId _ (mem_fileNames hid)) (hnotId _ hindexName)
  · have hmade : ∀ c ∈ changes, ∃ k, t.IsSource m.root c.path k ∧ ¬s.Owns t ids k := by
      intro c hc
      obtain ⟨k, -, -, hsource, -⟩ := h.made c hc
      exact ⟨k, hsource.1, hspared _ _ hsource⟩
    exact hready.index.frame h.frame fun S hS => index_not_changed hmade ht.wellFormed hS

/-- A file that is not the store's own is not as it was. -/
def ChangesFile (s : RunStore) (id : String) (t u : FileTree) : Prop :=
  ∃ k, ¬s.Owns t [id] k ∧ t.DiffersAt u k

/-- A run is recorded for what was changed since `t`: the index can be loaded and holds it, the run
itself can be loaded, and its files are just those that differ, what is the store's own left
aside. -/
def RecordsSince (s : RunStore) (id : String) (t : FileTree) (w : World) : Prop :=
  ∃ i r, s.loadIndex.run.run w = (.ok i, w) ∧ i.find? id = some r ∧
    (s.loadRun id).run.run w = (.ok r, w) ∧ (r.changes.map Change.path).Nodup ∧
    ∀ k, ¬s.Owns t [id] k → (t.DiffersAt w.tree k ↔ LeadsTo t r.changes k)

/-- Nothing is recorded beside an index that cannot be read. -/
theorem not_recordsSince_of_malformed {x : Text} (hread : w.tree.read s.indexPath = .ok x.toBytes)
    (hx : (RunIndex.ofText x).toOption = none) : ¬s.RecordsSince id t w := by
  rintro ⟨i, -, hload, -⟩
  obtain ⟨k, hk, hfile⟩ := FileTree.read_eq_ok hread
  unfold loadIndex at hload
  rw [Attempt.bind_of_ok (Attempt.run_isPresent _ _),
    if_pos (FileTree.isPresent_of_resolve hk hfile),
    Attempt.bind_of_ok (Attempt.readText_of_ok hread)] at hload
  cases hindex : RunIndex.ofText x with
  | ok i => simp [hindex, Except.toOption] at hx
  | error f =>
      simp only [hindex] at hload
      split at hload
      · cases hload
      · cases hload

/-- Finishing a journal that holds a file records the run. -/
theorem Noted.finish {j : Journal} (h : s.Noted id m t j.changes w.tree) (hstore : j.store = s)
    (hrunId : j.runId = id) (ht : s.Guarded [id] t) (hid : Run.IsId id)
    (hlength : id.toList.length = 7) (hspared : s.Spared [id] m t) (hready : s.Ready id t)
    (hne : j.changes ≠ []) {now : Timestamp} (hnow : now.IsValid) :
    ∃ w₁, (j.finish now).run.run w = (.ok (some id), w₁) ∧ ∀ w', w'.tree = w₁.tree →
      s.RecordsSince id t w' := by
  subst hstore hrunId
  have hids : ∀ id ∈ [j.runId], Run.IsId id := by simpa using hid
  have hmem : j.runId ∈ [j.runId] := List.mem_cons_self
  have hguarded := ht.frame h.wellFormed h.frame
  have hsaved : (j.toRun now).id ∈ [j.runId] := hmem
  obtain ⟨w₁, hsave⟩ :=
    h.saveRun ht hids hmem hlength hspared hready hne (show (j.toRun now).id = j.runId from rfl)
  obtain ⟨hkept, hstored⟩ := saveRun_spec (hguarded.receives hids hsaved) hnow hsave
  obtain ⟨-, hrecords, -, i, -, -, hsound, hindex⟩ := hstored rfl
  refine ⟨w₁, ?_, fun w' htree => ⟨i.add (j.toRun now), j.toRun now,
    loadIndex_of_stores hsound (htree ▸ hindex),
    RunIndex.find?_add i _, loadRun_of_stores hnow (htree ▸ hrecords.stored), h.nodup,
      fun k hk => ?_⟩⟩
  · rw [Journal.finish_of_changes (by simpa using hne), Attempt.bind_of_ok hsave]
    rfl
  · have hother : ¬j.store.Below w.tree (IsRunText j.runId) k := fun hbelow =>
      hk (((Below.frame h.frame).mp hbelow).mono fun _ => isOwn_of_isRunText hmem)
    rw [htree, hkept.frame.differsAt_iff hother]
    exact h.differsAt_iff ht.wellFormed hmem hk

end RunStore

end Rewrap
