import Rewrap.Proofs.FileTree.Plain
import Rewrap.Proofs.Migration.Journaling
import Rewrap.Proofs.Migration.Single

/-! # Undoing migrations

Any number of migrations, each with a journal that is stored afterwards, can be undone by reverting
the recorded runs, the newest first: every file outside the store is then as it was before the first
of them. -/

namespace Rewrap

open FileTree (Frame Nowhere)
open RunStore

/-- A migration that is carried out with a journal: the failures of source files during it, the
clock at its start, and the command and the time that are recorded. -/
structure AppliedRun where
  migration : Migration
  format : PreviewFormat
  faults : Faults
  clock : Nat
  command : String
  now : Timestamp

namespace AppliedRun

@[irreducible] def id (a : AppliedRun) : String := Journal.idAt a.clock

theorem isId_id (a : AppliedRun) : Run.IsId a.id := by
  unfold id
  exact Journal.isId_idAt a.clock

def journal (a : AppliedRun) (s : RunStore) : Journal :=
  ⟨s, a.id, a.command, a.migration.root, []⟩

/-- Carries out the migration and stores its journal. If both succeed, gives the id under which the
run is recorded, unless it wrote nothing, and the tree. -/
def perform (s : RunStore) (a : AppliedRun) (t : FileTree) : Option (Option String × FileTree) :=
  match (a.migration.run ⟨true, a.format⟩ (some (a.journal s))).run.run { tree := t, faults :=
    a.faults } with
  | (.ok (_, some j), w) =>
      match (j.finish a.now).run.run w with
      | (.ok id, w) => some (id, w.tree)
      | (.error _, _) => none
  | _ => none

/-- Carries out runs one after the other, and gives the ids of the recorded ones, the oldest
first. -/
def performAll (s : RunStore) : List AppliedRun → FileTree → Option (List String × FileTree)
  | [], t => some ([], t)
  | a :: as, t => do
      let (id, t) ← a.perform s t
      let (ids, t) ← performAll s as t
      return (id.toList ++ ids, t)

end AppliedRun

/-- Reverts a run without force. If that succeeds, gives the tree. -/
def RunStore.undo (s : RunStore) (t : FileTree) (id : String) : Option FileTree :=
  match (s.revert id false).run.run { tree := t } with
  | (.ok _, w) => some w.tree
  | (.error _, _) => none

/-- Reverts runs one after the other. -/
def RunStore.undoAll (s : RunStore) (ids : List String) (t : FileTree) : Option FileTree :=
  ids.foldlM s.undo t

variable {s : RunStore} {ids : List String} {t u v : FileTree} {a : AppliedRun}

/-! ## One run -/

/-- What a run that was carried out has done. -/
structure Performed (s : RunStore) (a : AppliedRun) (t : FileTree) (changes : List Change)
    (recorded : Option String) (u : FileTree) : Prop where
  wellFormed : u.WellFormed
  frame : Frame (fun k => s.Owns t [a.id] k ∨ LeadsTo t changes k)
    (s.MakesFolder t (· = [a.id])) t u
  made : ∀ c ∈ changes, ∃ k x y, t.IsSource a.migration.root c.path k ∧
    t.get? k = some (.file x.toBytes) ∧ s.Restorable a.id u c k x y
  nodup : (changes.map Change.path).Nodup
  indexed : s.Indexed t → s.Indexed u
  recorded : recorded = none ∧ changes = [] ∨
    recorded = some a.id ∧ s.Indexed u ∧ ∃ r : Run, r.id = a.id ∧ r.changes = changes ∧
      r.status = .applied ∧ r.canRevert = true ∧ r.timestamp.IsValid ∧ s.Records u r

theorem RunStore.Journaled.indexed {root : Path} {id : String} {changes : List Change}
    (h : s.Journaled id root t changes u) (ht : s.Guarded ids t)
    (hids : ∀ id ∈ ids, Run.IsId id) (hid : id ∈ ids) (hapart : s.Apart ids t root)
    (hindexed : s.Indexed t) : s.Indexed u := by
  have hindexName : "runs.json" ∈ fileNames ids := List.mem_cons_self
  have hmade : ∀ c ∈ changes, ∃ k, t.IsSource root c.path k ∧ ¬s.Owns t ids k := by
    intro c hc
    obtain ⟨k, -, -, hsource, -⟩ := h.made c hc
    exact ⟨k, hsource, hapart.not_owns hsource⟩
  refine hindexed.frame ht hids h.frame (fun S hS => index_not_changed hmade ht.wellFormed hS)
    fun S n hS hn hmakes => ?_
  rcases hmakes with hno | hbelow
  · exact hno hindexed.again.folder
  · have heq := (below_append hS).mp hbelow
    simp only [List.cons.injEq, and_true] at heq
    exact not_isId_of_mem_fileNames hindexName hn (heq ▸ hids id hid)

theorem RunStore.Journaled.within {root : Path} {id : String} {changes : List Change}
    (h : s.Journaled id root t changes u) :
    Frame (fun k => s.Owns t [id] k ∨ LeadsTo t changes k) (s.MakesFolder t (· = [id])) t u :=
  h.frame.mono (fun _ hk => hk.imp_left fun hbelow => hbelow.mono
    fun _ => isOwn_of_isBackup List.mem_cons_self)
    fun _ hk => hk

theorem RunStore.Journaled.restorable {root : Path} {id : String} {changes : List Change}
    (h : s.Journaled id root t changes u) (ht : s.Guarded ids t)
    (hids : ∀ id ∈ ids, Run.IsId id) (hid : id ∈ ids) (hapart : s.Apart ids t root)
    {folders : Place → Prop} (hframe : Frame (s.Below u (IsRunText id)) folders u v) :
    ∀ c ∈ changes, ∃ k x y, t.IsSource root c.path k ∧ t.get? k = some (.file x.toBytes) ∧
      s.Restorable id v c k x y := by
  intro c hc
  obtain ⟨k, x, y, hsource, hbefore, hrestorable⟩ := h.made c hc
  refine ⟨k, x, y, hsource, hbefore,
    hrestorable.keep (h.guarded ht) hids hid hframe (fun hbelow => ?_) ?_⟩
  · refine hapart.not_owns hsource (((Below.frame h.frame).mp hbelow).mono fun _ => ?_)
    exact isOwn_of_isRunText hid
  · intro S hS hbelow
    have htext := (below_append hS).mp hbelow
    rcases htext with (h | h) | (h | h) <;> simp at h

/-- A run whose journal was stored. -/
theorem Performed.of_saved {changes : List Change} {w w₁ : World} {r : Run} (ht : s.Guarded ids t)
    (hids : ∀ id ∈ ids, Run.IsId id) (hid : a.id ∈ ids)
    (hapart : s.Apart ids t a.migration.root)
    (h : s.Journaled a.id a.migration.root t changes w.tree) (hrid : r.id = a.id)
    (hchanges : r.changes = changes) (hstatus : r.status = .applied) (hcan : r.canRevert = true)
    (hvalid : r.timestamp.IsValid) (hsave : (s.saveRun r).run.run w = (.ok (), w₁)) :
    Performed s a t changes (some a.id) w₁.tree := by
  obtain ⟨hkept, hstored⟩ :=
    saveRun_spec (r := r) ((h.guarded ht).receives hids (hrid ▸ hid)) hvalid hsave
  rw [hrid] at hkept
  obtain ⟨hindexed, hrecords, -⟩ := hstored rfl
  refine ⟨hkept.wellFormed,
    h.within.trans (hkept.frame.mono (fun k hk => .inl ?_) fun k hk => ?_),
    h.restorable ht hids hid hapart hkept.frame, h.nodup, fun _ => hindexed,
    .inr ⟨rfl, hindexed, r, hrid, hchanges, hstatus, hcan, hvalid, hrecords⟩⟩
  · exact ((Below.frame h.frame).mp hk).mono fun _ => isOwn_of_isRunText List.mem_cons_self
  · exact (hk.of_frame h.frame).mono fun _ hno => hno.elim

/-- A run that was carried out, whatever happened to its files. -/
theorem performed_of_perform (ht : s.Guarded ids t) (hids : ∀ id ∈ ids, Run.IsId id)
    (hid : a.id ∈ ids) (hapart : s.Apart ids t a.migration.root) (hfaults : a.faults.AreHonest)
    (hnow : a.now.IsValid) {recorded : Option String} (h : a.perform s t = some (recorded, u)) :
    ∃ changes, Performed s a t changes recorded u := by
  unfold AppliedRun.perform at h
  split at h
  · next report j w hrun =>
      obtain ⟨j', hj, hstore, hrunId, hjournaled⟩ :=
        Migration.run_journaled ht hids a.migration hapart hfaults rfl hid rfl hrun
      cases hj
      have hstore : j.store = s := hstore
      have hrunId : j.runId = a.id := hrunId
      have hjournaled : s.Journaled a.id a.migration.root t j.changes w.tree := hjournaled
      by_cases hempty : j.changes.isEmpty = true
      · rw [Journal.finish_of_isEmpty hempty] at h
        cases h
        exact ⟨j.changes, hjournaled.wellFormed, hjournaled.within, hjournaled.made,
          hjournaled.nodup, fun hindexed => hjournaled.indexed ht hids hid hapart hindexed,
          .inl ⟨rfl, List.isEmpty_iff.mp hempty⟩⟩
      · rw [Journal.finish_of_changes hempty, Attempt.run_bind, hstore] at h
        cases hsave : (s.saveRun (j.toRun a.now)).run.run w with
        | mk res w₁ =>
          rw [hsave] at h
          cases res with
          | error e => cases h
          | ok _ =>
              cases h
              rw [hrunId]
              exact ⟨j.changes, .of_saved ht hids hid hapart hjournaled hrunId rfl rfl
                rfl hnow hsave⟩
  · cases h

/-! ## What one run means for another -/

theorem Performed.isFile {changes : List Change} {recorded : Option String}
    (h : Performed s a t changes recorded u) (ht : t.WellFormed) (hid : a.id ∈ ids) {k : Place}
    (hk : ¬s.Owns t ids k) {b : ByteArray} (hb : u.get? k = some (.file b)) :
    ∃ b, t.get? k = some (.file b) := by
  by_cases hleads : LeadsTo t changes k
  · obtain ⟨c, hc, hlead⟩ := hleads
    obtain ⟨k', x, y, hsource, hbefore, -⟩ := h.made c hc
    rw [hsource.leadOf ht] at hlead
    cases hlead
    exact ⟨_, hbefore⟩
  · refine ⟨b, (h.frame.file k ?_ b).mp hb⟩
    rintro (hown | hleads')
    · exact hk (hown.mono fun _ => IsOwn.mono (by simpa using hid))
    · exact hleads hleads'

theorem Performed.isSource {changes : List Change} {recorded : Option String}
    (h : Performed s a t changes recorded u) (ht : t.WellFormed) (hid : a.id ∈ ids)
    {root p : Path} (houtside : ∀ R k, t.leadOf root = some R → R <+: k → ¬s.Owns t ids k)
    {k : Place} (hp : u.IsSource root p k) : t.IsSource root p k := by
  obtain ⟨R, names, b, hR, rfl, rfl, hb⟩ := hp
  rw [h.frame.leadOf] at hR
  obtain ⟨b', hb'⟩ := h.isFile ht hid (houtside R _ hR (List.prefix_append R names)) hb
  exact ⟨R, names, b', hR, rfl, rfl, hb'⟩

theorem Performed.apart {changes : List Change} {recorded : Option String}
    (h : Performed s a t changes recorded u) (ht : t.WellFormed) (hid : a.id ∈ ids) {root : Path}
    (hapart : s.Apart ids t root) : s.Apart ids u root := by
  refine ⟨fun R k hR hprefix hown => ?_, fun p q k k' hp hq hname => ?_⟩
  · rw [h.frame.leadOf] at hR
    exact hapart.outside R k hR hprefix ((Below.frame h.frame).mp hown)
  · exact hapart.names p q k k' (h.isSource ht hid hapart.outside hp)
      (h.isSource ht hid hapart.outside hq) hname

/-- The changes of a run lead to different places. -/
theorem Performed.nodup_places {changes : List Change} {recorded : Option String}
    (h : Performed s a t changes recorded u) (ht : t.WellFormed) :
    (changes.map fun c => t.leadOf c.path).Nodup := by
  refine List.Nodup.map_on (fun c hc c' hc' heq => ?_) (List.Nodup.of_map _ h.nodup)
  obtain ⟨k, -, -, hsource, -⟩ := h.made c hc
  obtain ⟨k', -, -, hsource', -⟩ := h.made c' hc'
  rw [hsource.leadOf ht, hsource'.leadOf ht] at heq
  cases heq
  exact List.inj_on_of_nodup_map h.nodup hc hc' (hsource.inj hsource')

/-! ## Undoing runs -/

/-- Where runs make folders, seen from the store's folder. -/
def IsRunFolder (ids : List String) (r : Place) : Prop := ∃ id ∈ ids, r = [id]

theorem not_owns_runFile (hids : ∀ id ∈ ids, Run.IsId id) {id : String} (hid : Run.IsId id)
    (hno : id ∉ ids) {S : Place} (hS : t.leadOf s.folder = some S) :
    ¬s.Owns t ids (S ++ [runFileName id]) := by
  intro hown
  obtain ⟨n, rest, hn, heq⟩ := (below_append hS).mp hown
  obtain ⟨rfl, -⟩ := List.cons.inj heq
  exact notMem_ownNames hids hid hno (stem_runFileName hid) hn

theorem not_owns_backup (hids : ∀ id ∈ ids, Run.IsId id) {id n : String} (hid : Run.IsId id)
    (hno : id ∉ ids) {S : Place} (hS : t.leadOf s.folder = some S) :
    ¬s.Owns t ids (S ++ [id, n]) := by
  intro hown
  obtain ⟨m, rest, hm, heq⟩ := (below_append hS).mp hown
  obtain ⟨rfl, -⟩ := List.cons.inj heq
  exact notMem_ownNames hids hid hno (stem_of_isId hid) hm

theorem not_makesFolder_runFile (hids : ∀ id ∈ ids, Run.IsId id) {name n : String}
    (hname : name ∈ fileNames ids) (hn : n = name ∨ n = temporaryName name)
    (hfolder : t.HasFolder s.folder) {later : List String} (hlater : ∀ id ∈ later, id ∈ ids)
    {S : Place} (hS : t.leadOf s.folder = some S) :
    ¬s.MakesFolder t (IsRunFolder later) (S ++ [n]) := by
  rintro (hno | hbelow)
  · exact hno hfolder
  · obtain ⟨id, hid, heq⟩ := (below_append hS).mp hbelow
    obtain ⟨rfl, -⟩ := List.cons.inj heq
    exact not_isId_of_mem_fileNames hname hn (hids n (hlater n hid))

/-- A run and the undone later ones change only the run's files, and what is the store's for these
runs. -/
theorem Performed.within {changes : List Change} {recorded : Option String}
    (h : Performed s a t changes recorded u) {later : List String}
    (hframe : Frame (s.Owns u later) (s.MakesFolder u (IsRunFolder later)) u v) :
    Frame (fun k => s.Owns t (a.id :: later) k ∨ LeadsTo t changes k)
      (s.MakesFolder t (IsRunFolder (a.id :: later))) t v := by
  refine (h.frame.mono (fun k hk => hk.imp_left ?_) fun k => ?_).trans
    (hframe.mono (fun k hk => .inl ?_) fun k hk => (hk.of_frame h.frame).mono ?_)
  · exact Below.mono fun _ => IsOwn.mono (by simp)
  · exact MakesFolder.mono fun r hr => ⟨a.id, List.mem_cons_self, hr⟩
  · exact ((Below.frame h.frame).mp hk).mono fun _ => IsOwn.mono fun _ => List.mem_cons_of_mem _
  · exact fun r ⟨id, hmem, hr⟩ => ⟨id, List.mem_cons_of_mem _ hmem, hr⟩

/-- A run is on record as it was after later ones were undone. -/
theorem Performed.records {changes : List Change} (h : Performed s a t changes (some a.id) u)
    (ht : s.Guarded ids t) (hids : ∀ id ∈ ids, Run.IsId id) (hid : a.id ∈ ids)
    {later : List String} (hlater : ∀ id ∈ later, id ∈ ids) (hno : a.id ∉ later)
    (hframe : Frame (s.Owns u later) (s.MakesFolder u (IsRunFolder later)) u v) :
    ∃ r : Run, r.id = a.id ∧ r.changes = changes ∧ r.status = .applied ∧
      r.canRevert = true ∧ r.timestamp.IsValid ∧ s.Records v r := by
  rcases h.recorded with ⟨hnone, -⟩ |
    ⟨-, -, r, hrid, hchanges, hstatus, hcan, hvalid, hrecords⟩
  · cases hnone
  · have hr : r.id ∈ ids := hrid ▸ hid
    refine ⟨r, hrid, hchanges, hstatus, hcan, hvalid, ?_⟩
    refine hrecords.frame (ht.frame h.wellFormed h.frame) hids hr hframe (fun S hS => ?_)
      fun S n hS hn => ?_
    · exact not_owns_runFile (fun id hmem => hids id (hlater id hmem)) (hids _ hr)
        (hrid ▸ hno) hS
    · exact not_makesFolder_runFile hids (mem_fileNames hr) hn hrecords.again.folder hlater hS

/-- The files of a run are as it left them after later ones were undone. -/
theorem Performed.restorable {changes : List Change} {recorded : Option String}
    (h : Performed s a t changes recorded u) (ht : s.Guarded ids t)
    (hids : ∀ id ∈ ids, Run.IsId id) (hid : a.id ∈ ids)
    (hapart : s.Apart ids t a.migration.root) {later : List String}
    (hlater : ∀ id ∈ later, id ∈ ids) (hno : a.id ∉ later)
    (hframe : Frame (s.Owns u later) (s.MakesFolder u (IsRunFolder later)) u v) :
    ∀ c ∈ changes, ∃ k x y, t.IsSource a.migration.root c.path k ∧
      t.get? k = some (.file x.toBytes) ∧ s.Restorable a.id v c k x y := by
  intro c hc
  obtain ⟨k, x, y, hsource, hbefore, hchange⟩ := h.made c hc
  refine ⟨k, x, y, hsource, hbefore, hchange.keep (ht.frame h.wellFormed h.frame) hids hid hframe
    (fun hown => ?_) fun S hS => ?_⟩
  · exact hapart.not_owns hsource (((Below.frame h.frame).mp hown).mono fun _ => IsOwn.mono hlater)
  · exact not_owns_backup (fun id hmem => hids id (hlater id hmem)) (hids _ hid) hno hS

/-- Reverting a run after later ones were undone. -/
theorem Performed.revert {changes : List Change} (h : Performed s a t changes (some a.id) u)
    (ht : s.Guarded ids t) (hids : ∀ id ∈ ids, Run.IsId id) (hid : a.id ∈ ids)
    (hapart : s.Apart ids t a.migration.root) {later : List String}
    (hlater : ∀ id ∈ later, id ∈ ids) (hno : a.id ∉ later) (hv : v.WellFormed)
    (hindexed : s.Indexed v)
    (hframe : Frame (s.Owns u later) (s.MakesFolder u (IsRunFolder later)) u v) :
    ∃ w, (s.revert a.id false).run.run { tree := v } = (.ok (), w) ∧ w.tree.WellFormed ∧
      s.Indexed w.tree ∧
      Frame (s.Owns t (a.id :: later)) (s.MakesFolder t (IsRunFolder (a.id :: later)))
        t w.tree := by
  obtain ⟨r, hrid, rfl, hstatus, hcan, hvalid, hrecords⟩ :=
    h.records ht hids hid hlater hno hframe
  have hrestorable := h.restorable ht hids hid hapart hlater hno hframe
  rw [← hrid] at hrestorable
  have houtside : ∀ c ∈ r.changes, ∃ k x y, s.Restorable r.id v c k x y ∧
      ¬s.Owns v ids k := by
    intro c hc
    obtain ⟨k, x, y, hsource, -, hchange⟩ := hrestorable c hc
    refine ⟨k, x, y, hchange, fun hown => hapart.not_owns hsource ?_⟩
    exact (Below.frame h.frame).mp ((Below.frame hframe).mp hown)
  have hplaces : (r.changes.map fun c => v.leadOf c.path).Nodup := by
    simpa only [hframe.leadOf, h.frame.leadOf] using h.nodup_places ht.wellFormed
  obtain ⟨w, hrevert, hwf, hindexed', hreverted, hrestored⟩ := revert_ok (w := { tree := v })
    ((ht.frame h.wellFormed h.frame).frame hv hframe) hids (hrid ▸ hid) hvalid hrecords
      hindexed hstatus hcan
    houtside hplaces
  -- all three changes stay within what is the store's and the files of the run
  have hafter : Frame (fun k => s.Owns t (a.id :: later) k ∨ LeadsTo t r.changes k)
      (s.MakesFolder t (IsRunFolder (a.id :: later))) v w.tree := by
    refine hreverted.mono (fun k hk => hk.imp (fun hbelow => ?_) fun hleads => ?_)
      fun _ hno => hno.elim
    · refine ((Below.frame h.frame).mp ((Below.frame hframe).mp hbelow)).mono fun _ => ?_
      exact isOwn_of_isRunText (hrid ▸ List.mem_cons_self)
    · exact (LeadsTo.frame h.frame).mp ((LeadsTo.frame hframe).mp hleads)
  refine ⟨w, hrid ▸ hrevert, hwf, hindexed', ((h.within hframe).trans hafter).narrow
    fun k hk hown b => ?_⟩
  obtain ⟨c, hc, hlead⟩ := hk.resolve_left hown
  obtain ⟨k', x, y, hsource, hold, hchange⟩ := hrestorable c hc
  rw [hsource.leadOf ht.wellFormed] at hlead
  cases hlead
  rw [hrestored c hc k x y hchange, hold]

/-- Undoing runs one after the other, from the last to the first. -/
theorem undoAll_spec {as : List AppliedRun} (ht : s.Guarded ids t)
    (hids : ∀ id ∈ ids, Run.IsId id) (hsub : ∀ id ∈ as.map AppliedRun.id, id ∈ ids)
    (hnodup : (as.map AppliedRun.id).Nodup) (hapart : ∀ a ∈ as, s.Apart ids t a.migration.root)
    (hfaults : ∀ a ∈ as, a.faults.AreHonest) (hnow : ∀ a ∈ as, a.now.IsValid)
    {recorded : List String} (h : AppliedRun.performAll s as t = some (recorded, u)) :
    ∃ v, s.undoAll recorded.reverse u = some v ∧ v.WellFormed ∧
      (s.Indexed t → s.Indexed v) ∧
      Frame (s.Owns t (as.map AppliedRun.id))
        (s.MakesFolder t (IsRunFolder (as.map AppliedRun.id))) t v := by
  induction as generalizing t recorded with
  | nil =>
      cases h
      exact ⟨u, rfl, ht.wellFormed, fun hi => hi, .refl _ _ _⟩
  | cons a as ih =>
      simp only [AppliedRun.performAll, Option.bind_eq_bind, Option.bind_eq_some_iff,
        Option.pure_def] at h
      obtain ⟨⟨name, t₁⟩, hperform, ⟨names, t₂⟩, hrest, heq⟩ := h
      cases heq
      have hid : a.id ∈ ids := hsub _ (by simp)
      have hlater : ∀ id ∈ as.map AppliedRun.id, id ∈ ids := fun id hmem =>
        hsub id (List.mem_cons_of_mem _ hmem)
      rw [List.map_cons, List.nodup_cons] at hnodup
      have ha := hapart a List.mem_cons_self
      obtain ⟨changes, hdone⟩ :=
        performed_of_perform ht hids hid ha (hfaults a List.mem_cons_self)
        (hnow a List.mem_cons_self) hperform
      obtain ⟨v, hundo, hv, hindexed, hframe⟩ :=
        ih (ht.frame hdone.wellFormed hdone.frame) hlater hnodup.2
        (fun b hb => hdone.apart ht.wellFormed hid (hapart b (List.mem_cons_of_mem _ hb)))
        (fun b hb => hfaults b (List.mem_cons_of_mem _ hb))
          (fun b hb => hnow b (List.mem_cons_of_mem _ hb)) hrest
      unfold RunStore.undoAll at hundo ⊢
      rw [List.reverse_append, List.foldlM_append, hundo, List.map_cons]
      rcases hdone.recorded with ⟨rfl, rfl⟩ | ⟨rfl, hindexed₁, -⟩
      · refine ⟨v, rfl, hv, fun hi => hindexed (hdone.indexed hi), ?_⟩
        exact (hdone.within hframe).mono (fun k hk => hk.resolve_right (by simp [LeadsTo]))
          fun _ hk => hk
      · obtain ⟨w, hlast, hw, hindexed', hframe'⟩ :=
          hdone.revert ht hids hid ha hlater hnodup.1 hv
          (hindexed hindexed₁) hframe
        refine ⟨w.tree, ?_, hw, fun _ => hindexed', hframe'⟩
        have hundone : s.undo v a.id = some w.tree := by
          unfold RunStore.undo
          rw [hlast]
        simp [hundone]

/-- Runs that were carried out can be undone, the newest first, and every file outside the store is
then as it was before the first of them. That `t` is guarded says of the store that none of its own
places (the index, the files of these runs, their backups, and the names under which they are stored
first) is a link; there may be links anywhere else. -/
theorem undoAll_performAll {as : List AppliedRun} (ht : s.Guarded (as.map AppliedRun.id) t)
    (hnodup : (as.map AppliedRun.id).Nodup)
    (hapart : ∀ a ∈ as, s.Apart (as.map AppliedRun.id) t a.migration.root)
    (hfaults : ∀ a ∈ as, a.faults.AreHonest) (hnow : ∀ a ∈ as, a.now.IsValid)
    {recorded : List String} (h : AppliedRun.performAll s as t = some (recorded, u)) :
    ∃ v, s.undoAll recorded.reverse u = some v ∧ ∀ k, ¬s.Owns t (as.map AppliedRun.id) k →
      ∀ b, v.get? k = some (.file b) ↔ t.get? k = some (.file b) := by
  have hids : ∀ id ∈ as.map AppliedRun.id, Run.IsId id := by
    intro id hid
    obtain ⟨a, -, rfl⟩ := List.mem_map.mp hid
    exact a.isId_id
  obtain ⟨v, hundo, -, -, hframe⟩ :=
    undoAll_spec ht hids (fun _ hid => hid) hnodup hapart hfaults hnow h
  exact ⟨v, hundo, hframe.file⟩

/-! ## A page and a run -/

/-- A run that finds one file, and can write and record it, is carried out. -/
theorem AppliedRun.perform_of_single {id : String} {t₁ t₂ t₃ : FileTree} {w₁ w₂ : World}
    {p name : Path} {before : Text} {r : Swapped} (hid : a.id = id) (hformat : a.format = .quiet)
    (hdiscover : a.migration.discover.run.run { tree := t, faults := a.faults } =
      (.ok ⟨[p], []⟩, w₁))
    (hsource : w₁.source p = .ok before)
    (happly : a.migration.swap.apply before = .ok r) (hchanged : r.changed = true)
    (hallowed : w₁.faults.unwritable.contains p = false) (hname : backupName p = name)
    (hfolders : w₁.tree.createFolders (s.backupFolder id) = (.ok (), t₁))
    (hbackup : t₁.write ((s.backupFolder id).join name) before.toBytes = (.ok (), t₂))
    (hwrite : t₂.write p r.text.toBytes = (.ok (), t₃)) {recorded : Option String}
    (hfinish : ((⟨s, id, a.command, a.migration.root,
      [⟨p, before.hash, r.text.hash, name⟩]⟩ : Journal).finish a.now).run.run
      { w₁ with sourcesRead := p :: w₁.sourcesRead, out := w₁.out ++ "", tree := t₃ } =
      (.ok recorded, w₂)) : a.perform s t = some (recorded, w₂.tree) := by
  subst hid
  have hrun := Migration.run_of_single (j := a.journal s) hdiscover hsource happly hchanged
    hallowed hname
    hfolders hbackup hwrite
  have hfinish : (((a.journal s).commit ⟨p, before.hash, r.text.hash, name⟩).finish
      a.now).run.run
      { w₁ with sourcesRead := p :: w₁.sourcesRead, out := w₁.out ++ "", tree := t₃ } =
    (.ok recorded, w₂) := hfinish
  unfold perform
  rw [hformat, hrun]
  simp only [hfinish]

/-- A page with a guard, below a folder of sources. -/
def guardedPage : FileTree :=
  ⟨[], [(["src"], .folder),
    (["src", "a.ts"], .file (Text.toBytes "import A from 'a'\n<P></P>".toList))]⟩

/-- A run that swaps `A` for `B` in that folder. -/
def guardedRun : AppliedRun where
  migration :=
    ⟨⟨"/src"⟩, ⟨⟨"A", "a", "B", "b", ["P"], ["ts"], []⟩, by decide⟩,
      ⟨⟨"A", "a"⟩, ⟨⟨"/"⟩, [], []⟩⟩⟩
  format := .quiet
  faults := {}
  clock := 0
  command := "migrate"
  now := ⟨2024, 1, 31, 12, 0, 0, 0⟩

theorem guardedRun_id : guardedRun.id = "e572dff" := by
  unfold AppliedRun.id
  exact Journal.idAt_zero

theorem guardedRun_apply : guardedRun.migration.swap.apply "import A from 'a'\n<P></P>".toList =
    .ok ⟨"import B from \"b\";\n<P>\n  <B></B></P>".toList, true, some (.guarded "P"),
      1, 0⟩ := by cbv

theorem performAll_guardedRun :
    ∃ u, AppliedRun.performAll beside [guardedRun] guardedPage = some (["e572dff"], u) := by
  have hperform : ∃ u, guardedRun.perform beside guardedPage = some (some "e572dff", u) := by
    refine ⟨_, AppliedRun.perform_of_single guardedRun_id rfl (Except.pair_of_fst ?_) ?_
      guardedRun_apply rfl ?_
      backupName_page (Except.pair_of_fst ?_) (Except.pair_of_fst ?_) (Except.pair_of_fst ?_)
      (Except.pair_of_fst ?_)⟩
    all_goals decide +kernel
  obtain ⟨u, hu⟩ := hperform
  exact ⟨u, by simp [AppliedRun.performAll, hu]⟩

theorem apart_guardedPage : beside.Apart [guardedRun.id] guardedPage guardedRun.migration.root := by
  have hroot : guardedPage.leadOf guardedRun.migration.root = some ["src"] := by decide
  have hstore : guardedPage.leadOf beside.folder = some ["s"] := by decide
  refine ⟨?_, ?_⟩
  · rintro R k hR hprefix ⟨S, r, hS, ⟨n, rest, -, rfl⟩, rfl⟩
    rw [hroot] at hR
    rw [hstore] at hS
    cases hR
    cases hS
    simp [List.cons_prefix_cons] at hprefix
  · -- the page is the only file
    have honly : ∀ p k, guardedPage.IsSource guardedRun.migration.root p k →
        k = ["src", "a.ts"] := by
      rintro p k ⟨R, names, b, hR, rfl, rfl, hb⟩
      have hmem := FileTree.mem_of_get? (fun hnil => by simp [hnil] at hb) hb
      simp only [guardedPage, List.mem_cons, Prod.mk.injEq, List.not_mem_nil,
        or_false, reduceCtorEq, and_false, false_or] at hmem
      exact hmem.1
    intro p q k k' hp hq _
    obtain rfl := honly p k hp
    obtain rfl := honly q k' hq
    exact hp.inj hq

/-- The run on the page can be undone. -/
theorem undoAll_performAll_guardedRun :
    ∃ u v, AppliedRun.performAll beside [guardedRun] guardedPage = some (["e572dff"], u) ∧
      beside.undoAll ["e572dff"] u = some v ∧
        ∀ k, ¬beside.Owns guardedPage [guardedRun.id] k →
        ∀ b, v.get? k = some (.file b) ↔ guardedPage.get? k = some (.file b) := by
  obtain ⟨u, hu⟩ := performAll_guardedRun
  have hplain : guardedPage.isPlain = true := by decide
  have hguarded : beside.Guarded ([guardedRun].map AppliedRun.id) guardedPage :=
    ⟨.of_isPlain hplain, fun k _ => FileTree.get?_ne_link_of_isPlain hplain k⟩
  have hvalid : guardedRun.now.IsValid :=
    ⟨by decide, by decide, by decide, by decide, by decide⟩
  obtain ⟨v, hundo, hfiles⟩ := undoAll_performAll hguarded (by simp)
    (by simpa using apart_guardedPage) (by simp [Faults.AreHonest, guardedRun])
      (by simpa using hvalid) hu
  exact ⟨u, v, hu, hundo, hfiles⟩

end Rewrap
