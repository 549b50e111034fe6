import Mathlib.Logic.Function.Basic
import Rewrap.Proofs.Run.Upkeep

/-! # Sessions with a store

A store is used by many calls: journals are opened, written and finished, runs are reverted and
listed, and old ones are cleaned away. Each call may fail at a file outside of the store's folder.
After every call the index, the files of the runs and the backups agree, each backup holds the text
that was kept last under its name, and no run is reverted twice. -/

namespace Rewrap

/-- A journal that is open, with the changes for which it keeps a backup, whether or not they are
committed. -/
structure Draft where
  journal : Journal
  kept : List Change := []

/-- What was done with a store: the ids that were used, the journals that are open, the texts that
were kept last under the name of each backup of an id, and the ids of the runs that were
reverted. -/
structure Sessions where
  used : List String := []
  drafts : String → Option Draft := fun _ => none
  texts : String → Path → Option Text := fun _ _ => none
  undone : List String := []

namespace Sessions

/-- Goes on with the open journal of an id, if there is one. -/
def onDraft (o : Sessions) (id : String) (f : Draft → Attempt Run.Error Sessions) :
    Attempt Run.Error Sessions :=
  match o.drafts id with
  | none => return o
  | some d => f d

/-- What an id has after a step of its journal. -/
def goOn (o : Sessions) (id : String) (texts : Path → Option Text)
    (d? : Option Draft) : Sessions :=
  { o with
    drafts := Function.update o.drafts id d?
    texts := Function.update o.texts id texts }

/-- The texts kept for an id, once the text of a file is kept. -/
def withBackup (o : Sessions) (id : String) (p : Path) (before : Text) : Path → Option Text :=
  Function.update (o.texts id) (RunStore.backupName p) (some before)

/-- What is done with a store. -/
inductive Call where
  | start (id command : String) (root : Path)
  | backup (id : String) (p : Path) (before after : Text)
  | commit (id : String) (c : Change)
  | record (id : String) (p : Path) (before after : Text)
  | finish (id : String) (now : Timestamp)
  | revert (id : String) (force : Bool)
  | showHistory (limit : Nat)
  | clean (keepDays : Nat) (now : Timestamp)

/-- Makes the call. -/
def Call.attempt (s : RunStore) (o : Sessions) : Call → Attempt Run.Error Sessions
  | start id command root =>
      return { o with
        used := id :: o.used
        drafts := Function.update o.drafts id (some ⟨⟨s, id, command, root, []⟩, []⟩) }
  | backup id p before after => o.onDraft id fun d => do
      let c ← d.journal.backup p before after
      return o.goOn id (o.withBackup id p before) (some { d with kept := c :: d.kept })
  | commit id c => o.onDraft id fun d =>
      return o.goOn id (o.texts id) (some { d with journal := d.journal.commit c })
  | record id p before after => o.onDraft id fun d => do
      let j ← d.journal.record p before after
      return o.goOn id (o.withBackup id p before) (some ⟨j, j.changes ++ d.kept⟩)
  | finish id now => o.onDraft id fun d => do
      let _ ← d.journal.finish now
      return o.goOn id (o.texts id) none
  | revert id force => do
      s.revert id force
      return { o with undone := id :: o.undone }
  | showHistory limit => do
      s.showHistory limit
      return o
  | clean keepDays now => do
      let _ ← s.clean keepDays now
      return o

/-- A journal has an id of its own, keeps files outside of the store's folder, and commits what it
has kept. The id of a run to revert is the plain name of a file. -/
def Call.Allowed (S : Place) (o : Sessions) (t : FileTree) : Call → Prop
  | start id _ _ => Run.IsId id ∧ id ∉ o.used
  | backup _ p _ _ | record _ p _ _ => RunStore.LeadsOutside S t p
  | commit id c => ∃ d, o.drafts id = some d ∧ c ∈ d.kept
  | finish _ now => now.IsValid
  | revert id _ => '/' ∉ id.toList
  | showHistory _ | clean _ _ => True

end Sessions

namespace RunStore

open FileTree (Nowhere)
open Sessions (Call)

variable {s : RunStore} {S : Place} {id : String} {t u : FileTree} {w w' : World} {i i' : RunIndex}
  {c : Change} {r : Run} {o : Sessions} {d : Draft} {texts : Path → Option Text}
  {changed : Place → Prop}

/-- What is reached from an empty store by calls whose requests in the store's folder are fulfilled,
while others change what is outside of it. -/
inductive Reached (s : RunStore) (S : Place) : Sessions → World → Prop
  | start {w : World} (hempty : s.IsEmpty S w.tree) : Reached s S {} w
  | elsewhere {o : Sessions} {w w' : World} (h : Reached s S o w)
      (hothers : s.Alters S Nowhere w.tree w'.tree) :
      Reached s S o w'
  | call {o : Sessions} {w w' : World} {res : Except Run.Error Sessions}
      (h : Reached s S o w) (c : Call)
      (hallowed : c.Allowed S o w.tree) (hgrants : (c.attempt s o).run.Each (World.Grants S) w)
      (hrun : (c.attempt s o).run.run w = (res, w')) : Reached s S (res.toOption.getD o) w'

/-! ## Open journals -/

/-- The backup of a change holds the text that was kept last under its name. -/
def IsLatest (s : RunStore) (texts : Path → Option Text) (t : FileTree) (id : String)
    (c : Change) : Prop :=
  ∃ x, texts c.backup = some x ∧ s.BackedUp t id c.backup x

theorem IsLatest.alters (hx : s.IsLatest texts t id c) (hc : s.Backed S t id c) (ht : s.Placed S t)
    (hu : s.Alters S changed t u) (hid : Run.IsId id) (hno : ¬changed [id, c.backup.text]) :
    s.IsLatest texts u id c := by
  obtain ⟨x, hlast, hbackup⟩ := hx
  exact ⟨x, hlast, hbackup.alters ht hu hid (hc.backup ▸ isName_backupName c.path) hno⟩

/-- An open journal of a run that the index does not have yet. -/
structure Drafted (s : RunStore) (S : Place) (texts : Path → Option Text) (t : FileTree)
    (i : RunIndex) (id : String) (d : Draft) : Prop where
  store : d.journal.store = s
  runId : d.journal.runId = id
  isId : Run.IsId id
  new : i.find? id = none
  backed : ∀ c ∈ d.kept, s.Backed S t id c
  latest : ∀ c ∈ d.kept, s.IsLatest texts t id c
  changes : d.journal.changes ⊆ d.kept

theorem Drafted.alters (h : s.Drafted S texts t i id d) (ht : s.Placed S t)
    (hu : s.Alters S changed t u) (hno : ∀ n, ¬changed [id, n]) (hnew : i'.find? id = none) :
    s.Drafted S texts u i' id d where
  store := h.store
  runId := h.runId
  isId := h.isId
  new := hnew
  backed := fun c hc => (h.backed c hc).alters ht hu h.isId (hno _)
  latest := fun c hc => (h.latest c hc).alters (h.backed c hc) ht hu h.isId (hno _)
  changes := h.changes

/-- The places, seen from the store's folder, that are no backups of other runs. -/
def SparesOthers (id : String) (k : Place) : Prop := ∀ id' n, k = [id', n] → id' = id

theorem SparesOthers.not (h : id' ≠ id) (n : String) : ¬SparesOthers id [id', n] :=
  fun hspares => h (hspares id' n rfl)

/-- What one step of the journal of an id leads to. -/
structure Advances (s : RunStore) (S : Place) (id : String) (t u : FileTree) (i i' : RunIndex)
    (texts : Path → Option Text) (d? : Option Draft) : Prop where
  alters : s.Alters S (SparesOthers id) t u
  inOrder : s.InOrder S u i'
  find?_eq : ∀ id', id' ≠ id → i'.find? id' = i.find? id'
  drafted : ∀ d', d? = some d' → s.Drafted S texts u i' id d'
  latest : ∀ r, i'.find? id = some r → ∀ c ∈ r.changes, s.IsLatest texts u id c

theorem Advances.still {d? : Option Draft} (h : s.InOrder S t i) (hnew : i.find? id = none)
    (hd : ∀ d', d? = some d' → s.Drafted S texts t i id d') :
    s.Advances S id t t i i texts d? where
  alters := .refl h.placed
  inOrder := h
  find?_eq := fun _ _ => rfl
  drafted := hd
  latest := by simp [hnew]

theorem Backed.keep (hc : s.Backed S t id c) (ht : s.Placed S t) (hid : Run.IsId id) {p : Path}
    {x : Text} (hu : s.Alters S (fun r => r = [id] ∨ r = [id, (backupName p).text]) t u)
    (hlast : s.IsLatest texts t id c) (hbackup : s.BackedUp u id (backupName p) x) :
    s.Backed S u id c ∧ s.IsLatest (Function.update texts (backupName p) (some x)) u id c := by
  by_cases hsame : c.backup = backupName p
  · refine ⟨⟨hc.backup, ⟨x, hsame ▸ hbackup⟩, hu.outside _ hc.outside⟩, x, ?_,
      hsame ▸ hbackup⟩
    rw [hsame, Function.update_self]
  · have hno : ¬([id, c.backup.text] = [id] ∨
        [id, c.backup.text] = [id, (backupName p).text]) := by
      rintro (heq | heq)
      · simp at heq
      · simp only [List.cons.injEq, and_true, true_and] at heq
        exact hsame (congrArg Path.mk heq)
    obtain ⟨y, hy, hkept⟩ := hlast.alters hc ht hu hid hno
    exact ⟨hc.alters ht hu hid hno, y, (Function.update_of_ne hsame _ _).trans hy, hkept⟩

/-- Keeping a backup adds a change to those that can be committed, and spoils no other. -/
theorem Drafted.backup (h : s.Drafted S texts w.tree i id d) (hi : s.InOrder S w.tree i) {p : Path}
    {x y : Text} (hp : LeadsOutside S w.tree p)
    (hgrants : (d.journal.backup p x y).run.Each (World.Grants S) w) :
    ∃ c w', (d.journal.backup p x y).run.run w = (.ok c, w') ∧
      s.Advances S id w.tree w'.tree i i (Function.update texts (backupName p) (some x))
        (some { d with kept := c :: d.kept }) := by
  obtain rfl := h.store
  obtain rfl := h.runId
  unfold Journal.backup at hgrants ⊢
  obtain ⟨w', hsave, halters, hbackedUp⟩ :=
    saveBackup_of_grants hi.placed h.isId (Attempt.each_of_bind hgrants)
  refine ⟨⟨p, x.hash, y.hash, backupName p⟩, w', Attempt.bind_of_ok hsave, halters.mono ?_,
    hi.alters halters ?_ ?_, fun _ _ => rfl, ?_, by simp [h.new]⟩
  · rintro r (rfl | rfl) id' n heq
    · simp at heq
    · exact (List.cons.inj heq).1.symm
  · rintro id' (heq | heq)
    · exact runFileName_ne_of_isId h.isId id' (List.singleton_inj.mp heq)
    · simp at heq
  · rintro id' n hsome (heq | heq)
    · simp at heq
    · obtain ⟨rfl, -⟩ := List.cons.inj heq
      rw [h.new] at hsome
      cases hsome
  · rintro d' hd'
    obtain rfl := Option.some.inj hd'
    have hkept : ∀ c ∈ d.kept, d.journal.store.Backed S w'.tree d.journal.runId c ∧
        d.journal.store.IsLatest (Function.update texts (backupName p) (some x)) w'.tree
          d.journal.runId c := fun c hc =>
      (h.backed c hc).keep hi.placed h.isId halters (h.latest c hc) hbackedUp
    refine ⟨rfl, rfl, h.isId, h.new, fun c hc => ?_, fun c hc => ?_,
      fun c hc => List.mem_cons_of_mem _ (h.changes hc)⟩
    · rcases List.mem_cons.mp hc with rfl | hc
      · exact ⟨rfl, ⟨x, hbackedUp⟩, halters.outside p hp⟩
      · exact (hkept c hc).1
    · rcases List.mem_cons.mp hc with rfl | hc
      · exact ⟨x, Function.update_self _ _ _, hbackedUp⟩
      · exact (hkept c hc).2

/-- Changes that are kept can be committed, in any order and number. -/
theorem Drafted.commit (h : s.Drafted S texts t i id d) {j : Journal} {kept : List Change}
    (hstore : j.store = d.journal.store) (hrunId : j.runId = d.journal.runId)
    (hkept : ∀ c ∈ kept, c ∈ d.kept) (hchanges : j.changes ⊆ kept) :
    s.Drafted S texts t i id ⟨j, kept⟩ where
  store := hstore.trans h.store
  runId := hrunId.trans h.runId
  isId := h.isId
  new := h.new
  backed := fun c hc => h.backed c (hkept c hc)
  latest := fun c hc => h.latest c (hkept c hc)
  changes := hchanges

/-- Recording a change keeps its backup and commits it. -/
theorem Drafted.record (h : s.Drafted S texts w.tree i id d) (hi : s.InOrder S w.tree i) {p : Path}
    {x y : Text} (hp : LeadsOutside S w.tree p)
    (hgrants : (d.journal.record p x y).run.Each (World.Grants S) w) :
    ∃ j w', (d.journal.record p x y).run.run w = (.ok j, w') ∧
      s.Advances S id w.tree w'.tree i i (Function.update texts (backupName p) (some x))
        (some ⟨j, j.changes ++ d.kept⟩) := by
  obtain ⟨c, w', hbackup, hadvances⟩ := h.backup hi hp (Attempt.each_of_bind hgrants)
  refine ⟨d.journal.commit c, w', Attempt.bind_of_ok hbackup, hadvances.alters, hadvances.inOrder,
    hadvances.find?_eq, ?_, hadvances.latest⟩
  rintro d' hd'
  obtain rfl := Option.some.inj hd'
  refine (hadvances.drafted _ rfl).commit rfl rfl (fun c' hc' => ?_)
    (List.subset_append_left _ _)
  rw [Journal.commit, List.append_assoc, List.mem_append, List.mem_append,
    List.mem_singleton] at hc'
  rcases hc' with hc' | rfl | hc'
  · exact List.mem_cons_of_mem _ (h.changes hc')
  · exact List.mem_cons_self
  · exact List.mem_cons_of_mem _ hc'

/-- Finishing a journal enters its run into the index, unless it wrote nothing. -/
theorem Drafted.finish (h : s.Drafted S texts w.tree i id d) (hi : s.InOrder S w.tree i)
    {now : Timestamp} (hnow : now.IsValid)
    (hgrants : (d.journal.finish now).run.Each (World.Grants S) w) :
    ∃ recorded w' i', (d.journal.finish now).run.run w = (.ok recorded, w') ∧
      s.Advances S id w.tree w'.tree i i' texts none := by
  by_cases hempty : d.journal.changes.isEmpty = true
  · exact ⟨none, w, i, Journal.finish_of_isEmpty hempty now w, .still hi h.new nofun⟩
  · rw [Journal.finish_of_changes hempty] at hgrants ⊢
    obtain rfl := h.store
    obtain rfl := h.runId
    obtain ⟨w', hsave, halters, hinOrder⟩ :=
      saveRun_of_grants (r := d.journal.toRun now) hi h.isId
      hnow (fun c hc => h.backed c (h.changes hc)) (by simp [Journal.toRun])
      (Attempt.each_of_bind hgrants)
    refine ⟨_, w', _, (Attempt.bind_of_ok hsave).trans (Attempt.run_pure _ _), halters.mono ?_,
      hinOrder, fun id' hne => RunIndex.find?_add_of_ne i hne, nofun, fun r hr c hc => ?_⟩
    · rintro r hr id' n rfl
      exact absurd hr (not_isRunText_pair _ _ _)
    · have hfind : (i.add (d.journal.toRun now)).find? d.journal.runId =
          some (d.journal.toRun now) :=
        RunIndex.find?_add i (d.journal.toRun now)
      rw [hfind] at hr
      cases hr
      have hkept := h.changes hc
      exact (h.latest c hkept).alters (h.backed c hkept) hi.placed halters h.isId
        (not_isRunText_pair _ _ _)

/-! ## All calls -/

/-- What holds after each call: the runs are in order and their backups the latest, each open
journal is of a run of its own, and a run that was reverted stays so, if it is still there. -/
structure Accounted (s : RunStore) (S : Place) (o : Sessions) (t : FileTree)
    (i : RunIndex) : Prop where
  inOrder : s.InOrder S t i
  latest : ∀ id r, i.find? id = some r → ∀ c ∈ r.changes, s.IsLatest (o.texts id) t id c
  drafted : ∀ id d, o.drafts id = some d → s.Drafted S (o.texts id) t i id d
  used : ∀ id, (i.find? id).isSome = true ∨ (o.drafts id).isSome = true ∨
    id ∈ o.undone → id ∈ o.used
  undone : ∀ id ∈ o.undone, o.drafts id = none ∧ ∀ r, i.find? id = some r →
    r.canRevert = false
  nodup : o.undone.Nodup

theorem Accounted.latest_alters (h : s.Accounted S o t i) (hu : s.Alters S changed t u)
    (hr : i.find? id = some r) (hno : ∀ n, ¬changed [id, n]) (hc : c ∈ r.changes) :
    s.IsLatest (o.texts id) u id c :=
  have hfiled := h.inOrder.filed id r hr
  (h.latest id r hr c hc).alters (hfiled.backed c hc) h.inOrder.placed hu hfiled.isId (hno _)

/-- What changes nothing in the store's folder spoils nothing. -/
theorem Accounted.alters (h : s.Accounted S o t i) (hu : s.Alters S Nowhere t u) :
    s.Accounted S o u i where
  inOrder := h.inOrder.alters hu (fun _ hno => hno) fun _ _ _ hno => hno
  latest := fun _ _ hr _ hc => h.latest_alters hu hr (fun _ hno => hno) hc
  drafted := fun id d hd => (h.drafted id d hd).alters h.inOrder.placed hu (fun _ hno => hno)
    (h.drafted id d hd).new
  used := h.used
  undone := h.undone
  nodup := h.nodup

/-- A step of one journal leaves the others as they are. -/
theorem Accounted.advance {d? : Option Draft} (h : s.Accounted S o t i)
    (hid : (o.drafts id).isSome = true) (hu : s.Advances S id t u i i' texts d?) :
    s.Accounted S (o.goOn id texts d?) u i' where
  inOrder := hu.inOrder
  latest := by
    intro id' r hr c hc
    change s.IsLatest (Function.update o.texts id texts id') u id' c
    by_cases heq : id' = id
    · subst heq
      rw [Function.update_self]
      exact hu.latest r hr c hc
    · rw [Function.update_of_ne heq]
      rw [hu.find?_eq id' heq] at hr
      exact h.latest_alters hu.alters hr (SparesOthers.not heq) hc
  drafted := by
    intro id' d hd
    change Function.update o.drafts id d? id' = some d at hd
    change s.Drafted S (Function.update o.texts id texts id') u i' id' d
    by_cases heq : id' = id
    · subst heq
      rw [Function.update_self] at hd ⊢
      exact hu.drafted d hd
    · rw [Function.update_of_ne heq] at hd ⊢
      have hdrafted := h.drafted id' d hd
      refine hdrafted.alters h.inOrder.placed hu.alters (SparesOthers.not heq) ?_
      rw [hu.find?_eq id' heq, hdrafted.new]
  used := by
    intro id' hused
    by_cases heq : id' = id
    · exact heq ▸ h.used id (.inr (.inl hid))
    · simp only [Sessions.goOn, Function.update_of_ne heq, hu.find?_eq id' heq] at hused
      exact h.used id' hused
  undone := by
    intro id' hundone
    obtain ⟨hnone, hreverted⟩ := h.undone id' hundone
    have heq : id' ≠ id := by
      rintro rfl
      simp [hnone] at hid
    rw [hu.find?_eq id' heq]
    exact ⟨(Function.update_of_ne heq _ _).trans hnone, hreverted⟩
  nodup := h.nodup

/-- What is done with an open journal is a step of that journal. -/
theorem Accounted.onDraft (h : s.Accounted S o w.tree i) {f : Draft → Attempt Run.Error Sessions}
    (hf : ∀ d, o.drafts id = some d → (f d).run.Each (World.Grants S) w →
      ∃ texts d? w' i', (f d).run.run w = (.ok (o.goOn id texts d?), w') ∧
        s.Advances S id w.tree w'.tree i i' texts d?)
    (hgrants : (o.onDraft id f).run.Each (World.Grants S) w) {res : Except Run.Error Sessions}
    (hrun : (o.onDraft id f).run.run w = (res, w')) :
    ∃ i', s.Accounted S (res.toOption.getD o) w'.tree i' := by
  unfold Sessions.onDraft at hgrants hrun
  cases hd : o.drafts id with
  | none =>
      simp only [hd] at hrun
      cases hrun
      exact ⟨i, h⟩
  | some d =>
      simp only [hd] at hgrants hrun
      obtain ⟨texts, d?, w₁, i', hstep, hadvances⟩ := hf d hd hgrants
      rw [hstep] at hrun
      cases hrun
      exact ⟨i', h.advance (by simp [hd]) hadvances⟩

/-- A revert that succeeds is the first one of its run. -/
theorem Accounted.revert (h : s.Accounted S o w.tree i) (hid : '/' ∉ id.toList) {force : Bool}
    (hgrants : (s.revert id force).run.Each (World.Grants S) w) {res : Except Run.Error Unit}
    (hrun : (s.revert id force).run.run w = (res, w')) :
    ∃ i', s.Accounted S (if res.isOk then { o with undone := id :: o.undone } else o)
      w'.tree i' := by
  obtain ⟨w₁, ⟨e, herror, halters⟩ | ⟨r, hr, hcan, hok, halters, hinOrder⟩⟩ :=
    revert_of_grants h.inOrder hid hgrants
  · rw [herror] at hrun
    cases hrun
    exact ⟨i, h.alters halters⟩
  · rw [hok] at hrun
    cases hrun
    have hrid : r.reverted.id = id := (h.inOrder.filed id r hr).id_eq
    have hfind : (i.add r.reverted).find? id = some r.reverted :=
      hrid ▸ RunIndex.find?_add i r.reverted
    have hother : ∀ id', id' ≠ id →
        (i.add r.reverted).find? id' = i.find? id' := fun id' hne =>
      RunIndex.find?_add_of_ne i (hrid.symm ▸ hne)
    have hused : id ∈ o.used := h.used id (.inl (by simp [hr]))
    have hfirst : id ∉ o.undone := by
      intro hundone
      rw [(h.undone id hundone).2 r hr] at hcan
      cases hcan
    have hnoDraft : o.drafts id = none := by
      cases hd : o.drafts id with
      | none => rfl
      | some d =>
          rw [(h.drafted id d hd).new] at hr
          cases hr
    refine ⟨i.add r.reverted, hinOrder, fun id' r' hr' c hc => ?_, fun id' d hd => ?_,
      fun id' hid' => ?_, fun id' hundone => ?_, List.nodup_cons.mpr ⟨hfirst, h.nodup⟩⟩
    · by_cases heq : id' = id
      · subst heq
        rw [hfind] at hr'
        cases hr'
        exact h.latest_alters halters hr (fun n => not_isRunText_pair _ _ _) hc
      · rw [hother id' heq] at hr'
        exact h.latest_alters halters hr' (fun n => not_isRunText_pair _ _ _) hc
    · have hdrafted := h.drafted id' d hd
      have hne : id' ≠ id := by
        rintro rfl
        exact absurd (hnoDraft.symm.trans hd) nofun
      exact hdrafted.alters h.inOrder.placed halters (fun n => not_isRunText_pair _ _ _)
        ((hother id' hne).trans hdrafted.new)
    · by_cases heq : id' = id
      · exact heq ▸ hused
      · rw [hother id' heq] at hid'
        refine h.used id' (hid'.imp_right fun hd => hd.imp_right fun hundone => ?_)
        exact (List.mem_cons.mp hundone).resolve_left heq
    · by_cases heq : id' = id
      · subst heq
        refine ⟨hnoDraft, fun r' hr' => ?_⟩
        rw [hfind] at hr'
        cases hr'
        rfl
      · rw [hother id' heq]
        exact h.undone id' ((List.mem_cons.mp hundone).resolve_left heq)

/-- A journal that is opened has an id of its own. -/
theorem Accounted.start (h : s.Accounted S o t i) (hid : Run.IsId id) (hnew : id ∉ o.used)
    {command : String} {root : Path} :
    s.Accounted S
      { o with
        used := id :: o.used
        drafts := Function.update o.drafts id (some ⟨⟨s, id, command, root, []⟩, []⟩) }
      t i where
  inOrder := h.inOrder
  latest := h.latest
  drafted := by
    intro id' d hd
    change Function.update o.drafts id _ id' = some d at hd
    by_cases heq : id' = id
    · subst heq
      rw [Function.update_self, Option.some.injEq] at hd
      subst hd
      have hnone : i.find? id' = none := by
        by_contra hsome
        exact hnew (h.used id' (.inl (Option.isSome_iff_ne_none.mpr hsome)))
      exact ⟨rfl, rfl, hid, hnone, nofun, nofun, nofun⟩
    · rw [Function.update_of_ne heq] at hd
      exact h.drafted id' d hd
  used := by
    intro id' hused
    by_cases heq : id' = id
    · exact heq ▸ List.mem_cons_self
    · simp only [Function.update_of_ne heq] at hused
      exact List.mem_cons_of_mem _ (h.used id' hused)
  undone := by
    intro id' hundone
    have heq : id' ≠ id := by
      rintro rfl
      exact hnew (h.used id' (.inr (.inr hundone)))
    exact ⟨(Function.update_of_ne heq _ _).trans (h.undone id' hundone).1,
      (h.undone id' hundone).2⟩
  nodup := h.nodup

/-- Cleaning takes away no journal that is open. -/
theorem Accounted.clean (h : s.Accounted S o w.tree i) {keepDays : Nat} {now : Timestamp}
    (hgrants : (s.clean keepDays now).run.Each (World.Grants S) w) {res : Except Run.Error Nat}
    (hrun : (s.clean keepDays now).run.run w = (res, w')) : ∃ i', s.Accounted S o w'.tree i' := by
  obtain ⟨res', w₁, i', hclean, halters, hinOrder, hsub⟩ := clean_of_grants h.inOrder hgrants
  rw [hclean] at hrun
  cases hrun
  have hnew : ∀ id, i.find? id = none → i'.find? id = none := by
    intro id hnone
    cases hr : i'.find? id with
    | none => rfl
    | some r => simp [hsub id r hr] at hnone
  have hspares : ∀ {id}, (i.find? id).isSome = false ∨ (i'.find? id).isSome = true → ∀ n,
      ¬(IsText "runs.json" [id, n] ∨
        ∃ id', (i.find? id').isSome = true ∧ i'.find? id' = none ∧ IsOf id' [id, n]) := by
    rintro id hid n (htext | ⟨id', hsome, hgone, hof⟩)
    · rcases htext with htext | htext
      all_goals simp at htext
    · obtain rfl := eq_of_isOf_pair hof
      simp [hsome, hgone] at hid
  refine ⟨i', hinOrder, fun id r hr c hc => ?_, fun id d hd => ?_, fun id hid => h.used id ?_,
    fun id hundone => ?_, h.nodup⟩
  · exact h.latest_alters halters (hsub id r hr) (hspares (.inr (by simp [hr]))) hc
  · have hdrafted := h.drafted id d hd
    exact hdrafted.alters h.inOrder.placed halters (hspares (.inl (by simp [hdrafted.new])))
      (hnew id hdrafted.new)
  · refine hid.imp_left fun hsome => ?_
    obtain ⟨r, hr⟩ := Option.isSome_iff_exists.mp hsome
    simp [hsub id r hr]
  · obtain ⟨hnone, hreverted⟩ := h.undone id hundone
    exact ⟨hnone, fun r hr => hreverted r (hsub id r hr)⟩

/-- Every call leaves the store accounted for, whether or not it succeeds. -/
theorem Accounted.call (h : s.Accounted S o w.tree i) {c : Call} (hallowed : c.Allowed S o w.tree)
    (hgrants : (c.attempt s o).run.Each (World.Grants S) w) {res : Except Run.Error Sessions}
    (hrun : (c.attempt s o).run.run w = (res, w')) :
    ∃ i', s.Accounted S (res.toOption.getD o) w'.tree i' := by
  cases c with
  | start id command root =>
      cases hrun
      exact ⟨i, h.start hallowed.1 hallowed.2⟩
  | backup id p before after =>
      refine h.onDraft (fun d hd hgrants => ?_) hgrants hrun
      obtain ⟨c, w₁, hbackup, hadvances⟩ :=
        (h.drafted id d hd).backup h.inOrder hallowed (Attempt.each_of_bind hgrants)
      exact ⟨_, _, w₁, i, Attempt.bind_of_ok hbackup, hadvances⟩
  | commit id c =>
      refine h.onDraft (fun d hd _ => ?_) hgrants hrun
      have hdrafted := h.drafted _ d hd
      refine ⟨_, _, w, i, rfl, .still h.inOrder hdrafted.new ?_⟩
      rintro d' hd'
      obtain rfl := Option.some.inj hd'
      obtain ⟨d', hd', hc⟩ := hallowed
      obtain rfl := Option.some.inj (hd.symm.trans hd')
      refine hdrafted.commit rfl rfl (fun c' hc' => hc') fun c' hc' => ?_
      rcases List.mem_append.mp hc' with hc' | hc'
      · exact hdrafted.changes hc'
      · exact List.mem_singleton.mp hc' ▸ hc
  | record id p before after =>
      refine h.onDraft (fun d hd hgrants => ?_) hgrants hrun
      obtain ⟨j, w₁, hrecord, hadvances⟩ :=
        (h.drafted id d hd).record h.inOrder hallowed (Attempt.each_of_bind hgrants)
      exact ⟨_, _, w₁, i, Attempt.bind_of_ok hrecord, hadvances⟩
  | finish id now =>
      refine h.onDraft (fun d hd hgrants => ?_) hgrants hrun
      obtain ⟨recorded, w₁, i', hfinish, hadvances⟩ :=
        (h.drafted id d hd).finish h.inOrder hallowed (Attempt.each_of_bind hgrants)
      exact ⟨_, none, w₁, i', Attempt.bind_of_ok hfinish, hadvances⟩
  | revert id force =>
      simp only [Call.attempt] at hgrants hrun
      cases hrevert : (s.revert id force).run.run w with
      | mk res' w₁ =>
          have hafter := h.revert hallowed (Attempt.each_of_bind hgrants) hrevert
          rw [Attempt.run_bind, hrevert] at hrun
          cases res' with
          | ok _ =>
              cases hrun
              exact hafter
          | error e =>
              cases hrun
              exact hafter
  | showHistory limit =>
      have hshow : (s.showHistory limit).run.run w =
          (.ok (), { w with out := w.out ++ i.history limit }) :=
        (Attempt.bind_of_ok (loadIndexOrReset_of_inOrder h.inOrder)).trans (Attempt.run_print _ _)
      rw [Call.attempt, Attempt.bind_of_ok hshow] at hrun
      cases hrun
      exact ⟨i, h⟩
  | clean keepDays now =>
      simp only [Call.attempt] at hgrants hrun
      cases hclean : (s.clean keepDays now).run.run w with
      | mk res' w₁ =>
          have hafter := h.clean (Attempt.each_of_bind hgrants) hclean
          rw [Attempt.run_bind, hclean] at hrun
          cases res' with
          | ok _ =>
              cases hrun
              exact hafter
          | error e =>
              cases hrun
              exact hafter

theorem InOrder.of_isEmpty (h : s.IsEmpty S t) : s.InOrder S t .empty where
  placed := .inr h
  sound := ⟨List.nodup_nil, nofun⟩
  listed := .inr ⟨rfl, h.vacant _ (FileTree.isInside_cons _ _ _)⟩
  filed := nofun
  only := fun _ hsome => absurd (h.vacant _ (FileTree.isInside_cons _ _ _)) hsome

/-- However a world is reached, the store is accounted for. -/
theorem Reached.accounted (h : s.Reached S o w) : ∃ i, s.Accounted S o w.tree i := by
  induction h with
  | start hempty =>
      exact ⟨.empty, .of_isEmpty hempty, nofun, nofun, by simp [RunIndex.find?, RunIndex.empty],
        nofun, List.nodup_nil⟩
  | elsewhere _ hothers ih =>
      obtain ⟨i, hi⟩ := ih
      exact ⟨i, hi.alters hothers⟩
  | call _ c hallowed hgrants hrun ih =>
      obtain ⟨i, hi⟩ := ih
      exact hi.call hallowed hgrants hrun

/-- After any calls that the store's folder grants, whatever became of them: the index can be
loaded, it has exactly the runs that have a file, each is stored there as the index has it, each of
its backups holds the text that was kept last under that name, and it is reverted exactly if it
cannot be reverted. No run was reverted twice. -/
theorem index_of_reached (h : s.Reached S o w) :
    ∃ i, s.loadIndex.run.run w = (.ok i, w) ∧
      (∀ id, '/' ∉ id.toList → id ≠ "runs" →
        (w.tree.isPresent (s.runPath id) = true ↔ (i.find? id).isSome = true)) ∧
      (∀ id r, i.find? id = some r →
        (s.loadRun id).run.run w = (.ok r, w) ∧ r.id = id ∧
          (∀ c ∈ r.changes, c.backup = backupName c.path ∧
            ∃ x, o.texts id c.backup = some x ∧ s.BackedUp w.tree id c.backup x) ∧
          (r.status = .reverted ↔ r.canRevert = false)) ∧
      o.undone.Nodup := by
  obtain ⟨i, hi⟩ := h.accounted
  refine ⟨i, loadIndex_of_listed hi.inOrder.placed hi.inOrder.sound hi.inOrder.listed,
    fun id hid hruns => hi.inOrder.isPresent_iff hid hruns, fun id r hr => ?_, hi.nodup⟩
  have hfiled := hi.inOrder.filed id r hr
  exact ⟨loadRun_of_stores hfiled.valid hfiled.stored, hfiled.id_eq,
    fun c hc => ⟨(hfiled.backed c hc).backup, hi.latest id r hr c hc⟩, hfiled.status⟩

/-! ## A journal from its start to its end -/

/-- Goes on with a call. -/
def perform (s : RunStore) (before : Sessions × World) (c : Call) : Sessions × World :=
  let (res, w') := (c.attempt s before.1).run.run before.2
  (res.toOption.getD before.1, w')

theorem Reached.perform {before : Sessions × World} (h : s.Reached S before.1 before.2) {c : Call}
    (hallowed : c.Allowed S before.1 before.2.tree)
    (hgrants : (c.attempt s before.1).run.Each (World.Grants S) before.2) :
    s.Reached S (s.perform before c).1 (s.perform before c).2 :=
  h.call c hallowed hgrants rfl

/-- A page beside an empty store. -/
def onePage : World :=
  { tree := ⟨[], [(["a.tsx"], .file (Text.toBytes "new".toList)), (["s"], .folder)]⟩ }

theorem isEmpty_onePage : beside.IsEmpty ["s"] onePage.tree where
  wellFormed := .of_isPlain (by decide)
  lead := by decide
  vacant := by
    rintro k ⟨⟨rest, rfl⟩, hne⟩
    cases rest with
    | nil => simp at hne
    | cons n rest => rfl
  way := .inl (.inr ⟨by decide, ["s"], by decide, rfl⟩)

def pageStarted : Sessions × World :=
  beside.perform ({}, onePage) (.start "0a1b2c3" "migrate" ⟨"/"⟩)

def pageRecorded : Sessions × World :=
  beside.perform pageStarted (.record "0a1b2c3" ⟨"/a.tsx"⟩ "old".toList "new".toList)

def pageFinished : Sessions × World :=
  beside.perform pageRecorded (.finish "0a1b2c3" ⟨2024, 1, 31, 12, 0, 0, 0⟩)

theorem reached_pageFinished : beside.Reached ["s"] pageFinished.1 pageFinished.2 := by
  have hempty : beside.Reached ["s"] (({}, onePage) : Sessions × World).1
      (({}, onePage) : Sessions × World).2 :=
    .start isEmpty_onePage
  have hstarted : beside.Reached ["s"] pageStarted.1 pageStarted.2 :=
    hempty.perform ⟨⟨by decide, List.forall_iff_forall_mem.mp (by decide)⟩,
      by decide⟩ (by decide)
  have hrecorded : beside.Reached ["s"] pageRecorded.1 pageRecorded.2 := by
    refine hstarted.perform (fun k hk => ?_) (by decide +kernel)
    have hlead : pageStarted.2.tree.leadOf ⟨"/a.tsx"⟩ = some ["a.tsx"] := by decide
    rw [hlead] at hk
    cases hk
    decide
  exact hrecorded.perform ⟨by decide, by decide, by decide, by decide, by decide⟩
    (by decide +kernel)

/-- The finished run is found in the index, and its backup holds what the page held. -/
theorem index_of_reached_pageFinished :
    ∃ i r, beside.loadIndex.run.run pageFinished.2 = (.ok i, pageFinished.2) ∧
      i.find? "0a1b2c3" = some r ∧
      (beside.loadRun "0a1b2c3").run.run pageFinished.2 = (.ok r, pageFinished.2) ∧
      pageFinished.1.texts "0a1b2c3" (backupName ⟨"/a.tsx"⟩) = some "old".toList ∧
      ∀ c ∈ r.changes, c.backup = backupName c.path ∧
        ∃ x, pageFinished.1.texts "0a1b2c3" c.backup = some x ∧
          beside.BackedUp pageFinished.2.tree "0a1b2c3" c.backup x := by
  obtain ⟨i, hload, hids, hruns, -⟩ := index_of_reached reached_pageFinished
  have hpresent : pageFinished.2.tree.isPresent (beside.runPath "0a1b2c3") = true := by
    decide +kernel
  obtain ⟨r, hr⟩ := Option.isSome_iff_exists.mp
    ((hids "0a1b2c3" (by decide) (by decide)).mp hpresent)
  have hlast : pageFinished.1.texts "0a1b2c3" (backupName ⟨"/a.tsx"⟩) = some "old".toList := by
    decide +kernel
  exact ⟨i, r, hload, hr, (hruns _ r hr).1, hlast, (hruns _ r hr).2.2.1⟩

end RunStore

end Rewrap
