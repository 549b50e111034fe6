import Rewrap.Proofs.FileTree.Plain
import Rewrap.Proofs.Run.Recording
import Rewrap.Run.Journal
import Rewrap.Run.Revert

/-! # Reverting

A revert checks all files first, then restores them one after the other, and then stores the run
again. It can fail between any two steps; what was restored before stays restored. -/

namespace Rewrap.RunStore

open FileTree (Frame Nowhere)

variable {s : RunStore} {ids : List String} {id : String} {w w' : World} {t u v : FileTree}
  {r : Run} {c : Change}

/-! ## The parts of a revert -/

/-- What a revert does once all is checked. -/
def restoreAll (s : RunStore) (id : String) (r : Run) : Attempt Run.Error Unit := do
  Attempt.always (Action.print ("Reverting " ++ toString r.changes.length ++ " file(s)...\n"))
  r.changes.forM (s.restore id)
  s.saveRun r.reverted
  Attempt.always (Action.print ("✓ Run " ++ id ++ " reverted successfully\n"))

theorem revert_eq (s : RunStore) (id : String) (force : Bool) :
    s.revert id force = (do
      let r ← s.loadRun id
      if r.status = .reverted then throw (.alreadyReverted id)
      else if r.canRevert = false then throw (.notRevertible id)
      else if force = true then s.restoreAll id r
      else do
        r.changes.forM (checkUnchanged id)
        s.restoreAll id r) := by
  unfold revert
  congr 1
  funext r
  by_cases hreverted : r.status = .reverted
  · cases force with
    | true => simp only [hreverted, if_true]; rfl
    | false => simp only [hreverted, if_true]; rfl
  · cases hcan : r.canRevert with
    | false =>
        cases force with
        | true => simp only [hreverted, if_false]; rfl
        | false => simp only [hreverted, if_false]; rfl
    | true =>
        cases force with
        | true => simp only [hreverted, if_false]; rfl
        | false => simp only [hreverted, if_false]; rfl

/-! ## Checking -/

/-- The file of a change can be read, and its content is the one that the run wrote. -/
def IsUnchanged (t : FileTree) (c : Change) : Prop :=
  ∃ b, t.read c.path = .ok b ∧ Blake3.hexDigest b = c.hashAfter

/-- What the check of a file fails with. -/
inductive CheckFails (t : FileTree) (id : String) (c : Change) : Run.Error → Prop
  | gone (absent : t.isPresent c.path = false) : CheckFails t id c (.fileGone c.path)
  | unhashable {f : FileError} (unread : t.read c.path = .error f) :
      CheckFails t id c (.unhashable c.path f)
  | changed {b : ByteArray} (read : t.read c.path = .ok b)
      (differs : Blake3.hexDigest b ≠ c.hashAfter) :
      CheckFails t id c (.fileChanged c.path id c.hashAfter (Blake3.hexDigest b))

theorem CheckFails.not_isUnchanged {e : Run.Error} (h : CheckFails t id c e) :
    ¬IsUnchanged t c := by
  rintro ⟨b, hread, hsame⟩
  cases h with
  | gone absent =>
      obtain ⟨k, hk, hfile⟩ := FileTree.read_eq_ok hread
      rw [FileTree.isPresent_of_resolve hk hfile] at absent
      cases absent
  | unhashable unread =>
      rw [hread] at unread
      cases unread
  | changed read differs =>
      obtain rfl := Except.ok.inj (hread.symm.trans read)
      exact differs hsame

theorem checkUnchanged_cases (id : String) (c : Change) (w : World) :
    (IsUnchanged w.tree c ∧ (checkUnchanged id c).run.run w = (.ok (), w)) ∨
      ∃ e, CheckFails w.tree id c e ∧ (checkUnchanged id c).run.run w = (.error e, w) := by
  unfold checkUnchanged
  rw [Attempt.bind_of_ok (Attempt.run_isPresent _ _)]
  cases hpresent : w.tree.isPresent c.path with
  | false => exact .inr ⟨_, .gone hpresent, rfl⟩
  | true =>
      rw [if_pos rfl]
      unfold hashFile
      cases hread : w.tree.read c.path with
      | error f =>
          refine .inr ⟨.unhashable c.path f, .unhashable hread, ?_⟩
          rw [Attempt.run_bind, Attempt.run_bind, Attempt.run_read, hread]
          rfl
      | ok b =>
          have hhash : (do
              let content ← Attempt.orFail (Action.ask (.read c.path))
                (Run.Error.unhashable c.path)
              return Blake3.hexDigest content).run.run w = (.ok (Blake3.hexDigest b), w) := by
            rw [Attempt.run_bind, Attempt.run_read, hread]
            rfl
          rw [Attempt.bind_of_ok hhash]
          by_cases hsame : Blake3.hexDigest b = c.hashAfter
          · rw [hsame]
            exact .inl ⟨⟨b, hread, hsame⟩, by simp⟩
          · refine .inr ⟨_, .changed hread hsame, ?_⟩
            rw [if_pos (by simpa using hsame)]
            rfl

/-- The files are checked up to the first that is not as the run left it, and nothing happens while
they are. -/
theorem forM_checkUnchanged_cases (id : String) (cs : List Change) (w : World) :
    ((∀ c ∈ cs, IsUnchanged w.tree c) ∧ (cs.forM (checkUnchanged id)).run.run w =
        (.ok (), w)) ∨
      ∃ pre c post e, cs = pre ++ c :: post ∧ (∀ c' ∈ pre, IsUnchanged w.tree c') ∧
        CheckFails w.tree id c e ∧ (cs.forM (checkUnchanged id)).run.run w = (.error e, w) := by
  induction cs with
  | nil => exact .inl ⟨nofun, rfl⟩
  | cons c cs ih =>
      rw [Attempt.run_forM_cons]
      rcases checkUnchanged_cases id c w with ⟨hc, hrun⟩ | ⟨e, hfails, hrun⟩
      · rw [hrun]
        rcases ih with ⟨hcs, hforM⟩ | ⟨pre, c', post, e, rfl, hpre, hfails, hforM⟩
        · exact .inl ⟨List.forall_mem_cons.mpr ⟨hc, hcs⟩, hforM⟩
        · exact .inr ⟨c :: pre, c', post, e, rfl, List.forall_mem_cons.mpr ⟨hc, hpre⟩,
            hfails, hforM⟩
      · rw [hrun]
        exact .inr ⟨[], c, cs, e, rfl, nofun, hfails, rfl⟩

theorem forM_checkUnchanged_world (id : String) (cs : List Change) (w : World) :
    ((cs.forM (checkUnchanged id)).run.run w).2 = w := by
  rcases forM_checkUnchanged_cases id cs w with ⟨-, hrun⟩ | ⟨_, _, _, e, -, -, -, hrun⟩
  · rw [hrun]
  · rw [hrun]

/-- A revert without force of a run whose files are unchanged restores all of them. -/
theorem revert_of_unchanged (hload : (s.loadRun id).run.run w = (.ok r, w))
    (hstatus : r.status = .applied) (hcan : r.canRevert = true)
    (h : ∀ c ∈ r.changes, IsUnchanged w.tree c) :
    (s.revert id false).run.run w = (s.restoreAll id r).run.run w := by
  rw [revert_eq, Attempt.bind_of_ok hload, hstatus, hcan]
  rcases forM_checkUnchanged_cases id r.changes w with
    ⟨-, hcheck⟩ | ⟨pre, c, post, e, hchanges, -, hfails, -⟩
  · exact Attempt.bind_of_ok hcheck
  · have hc : c ∈ r.changes := by
      rw [hchanges]
      exact List.mem_append_right _ List.mem_cons_self
    exact absurd (h c hc) hfails.not_isUnchanged

/-! ## Restoring -/

/-- The tree after the files of some changes were restored, one after the other. -/
inductive Restored (s : RunStore) (id : String) : List Change → FileTree → FileTree → Prop
  | nil (t : FileTree) : Restored s id [] t t
  | cons {c : Change} {cs : List Change} {t u v : FileTree} {x : Text}
      (backup : s.BackedUp t id c.backup x) (write : t.write c.path x.toBytes = (.ok (), u))
      (rest : Restored s id cs u v) : Restored s id (c :: cs) t v

/-- What restoring a file fails with. -/
inductive RestoreFails (s : RunStore) (t : FileTree) (id : String) (c : Change) : Run.Error → Prop
  | backup {f : FileError}
      (unread : (t.read ((s.backupFolder id).join c.backup)).bind Text.ofBytes = .error f) :
      RestoreFails s t id c (.backupMissing c.path f)
  | file {x : Text} {f : FileError} (backup : s.BackedUp t id c.backup x)
      (unwritten : (t.write c.path x.toBytes).1 = .error f) :
      RestoreFails s t id c (.restoreFailed c.path f)

/-- Restoring a file writes the text of its backup to its place, or changes nothing. -/
theorem restore_cases (h : w.tree.WellFormed) (id : String) (c : Change) :
    (∃ e w₁, (s.restore id c).run.run w = (.error e, w₁) ∧ w₁.tree = w.tree ∧
        s.RestoreFails w.tree id c e) ∨
      ∃ x w₁, (s.restore id c).run.run w = (.ok (), w₁) ∧
        s.BackedUp w.tree id c.backup x ∧
        w.tree.write c.path x.toBytes = (.ok (), w₁.tree) ∧ w₁.tree.WellFormed := by
  unfold restore
  rw [Attempt.run_bind, Attempt.run_readText]
  cases hread : (w.tree.read ((s.backupFolder id).join c.backup)).bind Text.ofBytes with
  | error f => exact .inl ⟨_, _, rfl, rfl, .backup hread⟩
  | ok x =>
      simp only [Except.mapError]
      rw [Attempt.run_bind, Attempt.run_writeText]
      obtain ⟨b, hb, hx⟩ := Except.bind_eq_ok.mp hread
      obtain ⟨K, hK, hfile⟩ := FileTree.read_eq_ok hb
      have hbackup : s.BackedUp w.tree id c.backup x :=
        ⟨K, hK, by rw [hfile, Text.toBytes_of_ofBytes hx]⟩
      rcases FileTree.write_cases h c.path x.toBytes with
        ⟨f, herror⟩ | ⟨k, -, -, -, -, hwrite, hwf⟩
      · have hfails : s.RestoreFails w.tree id c (.restoreFailed c.path f) :=
          .file hbackup (congrArg Prod.fst herror)
        rw [herror]
        exact .inl ⟨_, _, rfl, rfl, hfails⟩
      · rw [hwrite]
        exact .inr ⟨x, _, rfl, hbackup, hwrite, hwf⟩

/-- The files of changes are restored up to the first that cannot be. -/
theorem forM_restore_cases (h : w.tree.WellFormed) (id : String) (cs : List Change) :
    ∃ done rest w₁, cs = done ++ rest ∧ s.Restored id done w.tree w₁.tree ∧
      w₁.tree.WellFormed ∧
      ((rest = [] ∧ (cs.forM (s.restore id)).run.run w = (.ok (), w₁)) ∨
        ∃ c rest' e, rest = c :: rest' ∧
          (cs.forM (s.restore id)).run.run w = (.error e, w₁) ∧
          s.RestoreFails w₁.tree id c e) := by
  induction cs generalizing w with
  | nil => exact ⟨[], [], w, rfl, .nil _, h, .inl ⟨rfl, rfl⟩⟩
  | cons c cs ih =>
      rcases restore_cases (s := s) h id c with
        ⟨e, w₁, hrun, htree, hfails⟩ | ⟨x, w₁, hrun, hbackup, hwrite, hwf⟩
      · refine ⟨[], c :: cs, w₁, rfl, htree ▸ .nil _, htree ▸ h,
          .inr ⟨c, cs, e, rfl, ?_, htree ▸ hfails⟩⟩
        rw [Attempt.run_forM_cons, hrun]
      · obtain ⟨done, rest, w₂, rfl, hrestored, hwf₂, hcases⟩ := ih hwf
        have hforM : (((c :: (done ++ rest)).forM (s.restore id)).run.run w) =
            ((done ++ rest).forM (s.restore id)).run.run w₁ := by
          rw [Attempt.run_forM_cons, hrun]
        refine ⟨c :: done, rest, w₂, rfl, .cons hbackup hwrite hrestored, hwf₂, ?_⟩
        rw [hforM]
        exact hcases

/-- A place that the path of one of the changes leads to. -/
def LeadsTo (t : FileTree) (cs : List Change) (k : Place) : Prop :=
  ∃ c ∈ cs, t.leadOf c.path = some k

theorem LeadsTo.frame {files folders : Place → Prop} (h : Frame files folders t u)
    {cs : List Change} {k : Place} : LeadsTo u cs k ↔ LeadsTo t cs k := by
  unfold LeadsTo
  simp only [h.leadOf]

/-- Restoring changes only the files of the changes. -/
theorem Restored.frame {cs : List Change} (h : s.Restored id cs t u) (ht : t.WellFormed) :
    u.WellFormed ∧ Frame (LeadsTo t cs) Nowhere t u := by
  induction h with
  | nil t => exact ⟨ht, .refl _ _ _⟩
  | @cons c cs t u v x backup write rest ih =>
      rcases FileTree.write_cases ht c.path x.toBytes with ⟨e, herror⟩ |
        ⟨k, hk, -, hfolder, hlink, hwrite, hwf⟩
      · rw [herror] at write
        cases write
      · rw [hwrite] at write
        cases write
        obtain ⟨hv, hrest⟩ := ih hwf
        have hput := FileTree.frame_put_file (b := x.toBytes) hfolder hlink
        refine ⟨hv, (hput.mono ?_ fun _ hk => hk).trans (hrest.mono ?_ fun _ hk => hk)⟩
        · rintro _ rfl
          exact ⟨c, List.mem_cons_self, FileTree.leadOf_of_resolve hk⟩
        · rintro k' ⟨c', hc', hlead⟩
          rw [hput.leadOf] at hlead
          exact ⟨c', List.mem_cons_of_mem _ hc', hlead⟩

theorem Restored.append {cs cs' : List Change} (h : s.Restored id (cs ++ cs') t v) :
    ∃ u, s.Restored id cs t u ∧ s.Restored id cs' u v := by
  induction cs generalizing t with
  | nil => exact ⟨t, .nil t, h⟩
  | cons c cs ih =>
      cases h with
      | cons backup write rest =>
          obtain ⟨u, hu, hv⟩ := ih rest
          exact ⟨u, .cons backup write hu, hv⟩

/-- A restored file holds the text of its backup, unless a later change leads to it too. -/
theorem Restored.get? {pre post : List Change} {c : Change} {k : Place} (ht : t.WellFormed)
    (h : s.Restored id (pre ++ c :: post) t u)
    (hapart : ∀ k, t.resolve true ((s.backupFolder id).join c.backup) = .ok k →
      ¬LeadsTo t pre k)
    (hk : t.leadOf c.path = some k) (hlast : ¬LeadsTo t post k) :
    ∃ x, s.BackedUp t id c.backup x ∧ u.get? k = some (.file x.toBytes) := by
  obtain ⟨t₁, hpre, hrest⟩ := h.append
  obtain ⟨ht₁, hframe⟩ := hpre.frame ht
  cases hrest with
  | @cons _ _ _ t₂ _ x backup write rest =>
      rcases FileTree.write_cases ht₁ c.path x.toBytes with ⟨e, herror⟩ |
        ⟨k', hk', -, hfolder, hlink, hwrite, hwf⟩
      · rw [herror] at write
        cases write
      · rw [hwrite] at write
        cases write
        have hput := FileTree.frame_put_file (b := x.toBytes) hfolder hlink
        obtain rfl : k' = k := by
          have hlead := FileTree.leadOf_of_resolve hk'
          rw [hframe.leadOf, hk] at hlead
          exact (Option.some.inj hlead).symm
        obtain ⟨-, hrest⟩ := rest.frame hwf
        refine ⟨x, ?_, ?_⟩
        · obtain ⟨K, hK, hfile⟩ := backup
          have hK := hframe.symm.resolve hK
          exact ⟨K, hK, (hframe.file K (hapart K hK) _).mp hfile⟩
        · have hnot : ¬LeadsTo (t₁.put k' (.file x.toBytes)) post k' := by
            rintro ⟨c', hc', hlead⟩
            rw [hput.leadOf, hframe.leadOf] at hlead
            exact hlast ⟨c', hc', hlead⟩
          refine (hrest.file k' hnot _).mpr (FileTree.get?_put_self ?_)
          rintro rfl
          exact hfolder rfl

/-! ## Failing -/

theorem isOwn_of_isRunText {r : Place} (hid : id ∈ ids) (hr : IsRunText id r) : IsOwn ids r := by
  have htext : ∀ name ∈ fileNames ids, IsText name r → IsOwn ids r := by
    intro name hname htext
    obtain ⟨hown, hownTmp⟩ := mem_ownNames_of_mem_fileNames hname
    rcases htext with rfl | rfl
    · exact ⟨_, [], hown, rfl⟩
    · exact ⟨_, [], hownTmp, rfl⟩
  rcases hr with hr | hr
  · exact htext _ (mem_fileNames hid) hr
  · exact htext _ List.mem_cons_self hr

/-- How the revert of a run fails, after some of its changes were put back and before the others. A
run that is refused, or whose files are checked in vain, is left as it is. -/
inductive FailsAt (s : RunStore) (r : Run) (force : Bool) (w w' : World) :
    Run.Error → List Change → List Change → Prop
  | reverted (same : w'.tree = w.tree) (status : r.status = .reverted) :
      FailsAt s r force w w' (.alreadyReverted r.id) [] r.changes
  | notRevertible (same : w'.tree = w.tree) (status : r.canRevert = false) :
      FailsAt s r force w w' (.notRevertible r.id) [] r.changes
  | check {e : Run.Error} {pre post : List Change} {c : Change} (same : w'.tree = w.tree)
      (unforced : force = false) (changes : r.changes = pre ++ c :: post)
      (unchanged : ∀ c' ∈ pre, IsUnchanged w.tree c') (fails : CheckFails w.tree r.id c e) :
      FailsAt s r force w w' e [] r.changes
  | restore {e : Run.Error} {done rest : List Change} {c : Change}
      (fails : s.RestoreFails w'.tree r.id c e) : FailsAt s r force w w' e done (c :: rest)
  | save {e : Run.Error} {v : World} (restored : s.Restored r.id r.changes w.tree v.tree)
      (fails : (s.saveRun r.reverted).run.run v = (.error e, w')) :
      FailsAt s r force w w' e r.changes []

/-- What a failing attempt to restore a recorded run leaves behind: the files up to some change are
restored, and all others are as they were. -/
theorem restoreAll_error {r : Run} (hw : s.Guarded [r.id] w.tree) (hid : Run.IsId r.id)
    (hvalid : r.timestamp.IsValid) {force : Bool} {e : Run.Error}
    (hrun : (s.restoreAll r.id r).run.run w = (.error e, w')) :
    ∃ done rest u, r.changes = done ++ rest ∧ s.Restored r.id done w.tree u ∧
      s.FailsAt r force w w' e done rest ∧
      ∀ k, ¬s.Owns u [r.id] k → ∀ b, w'.tree.get? k = some (.file b) ↔
        u.get? k = some (.file b) := by
  have hids : ∀ id ∈ [r.id], Run.IsId id := by simpa using hid
  unfold restoreAll at hrun
  rw [Attempt.bind_of_ok (Attempt.run_print _ _)] at hrun
  generalize hprinted : ({ w with out := _ } : World) = w₀ at hrun
  have htree : w₀.tree = w.tree := by rw [← hprinted]
  obtain ⟨done, rest, w₁, hchanges, hrestored, hwf,
      ⟨rfl, hforM⟩ | ⟨c, rest', e', rfl, hforM, hfails⟩⟩ :=
    forM_restore_cases (s := s) (htree ▸ hw.wellFormed) r.id r.changes
  · rw [List.append_nil] at hchanges
    subst hchanges
    rw [Attempt.bind_of_ok hforM, Attempt.run_bind] at hrun
    rw [htree] at hrestored
    obtain ⟨-, hframe⟩ := hrestored.frame hw.wellFormed
    cases hsave : (s.saveRun r.reverted).run.run w₁ with
    | mk res w₂ =>
      obtain ⟨hkept, -⟩ :=
        saveRun_spec (r := r.reverted) ((hw.frame hwf hframe).receives hids List.mem_cons_self)
          hvalid hsave
      rw [hsave] at hrun
      cases res with
      | ok _ => exact absurd (Prod.mk.inj hrun).1 (by simp)
      | error e' =>
          obtain ⟨he, rfl⟩ := Prod.mk.inj hrun
          obtain rfl : e' = e := Except.error.inj he
          refine ⟨r.changes, [], w₁.tree, (List.append_nil _).symm, hrestored,
            .save hrestored hsave, fun k hk => ?_⟩
          refine hkept.frame.file k fun hbelow => hk (hbelow.mono fun _ hr => ?_)
          exact isOwn_of_isRunText List.mem_cons_self hr
  · rw [Attempt.run_bind, hforM] at hrun
    rw [htree] at hrestored
    obtain ⟨rfl, rfl⟩ : e' = e ∧ w₁ = w' := by
      obtain ⟨h₁, h₂⟩ := Prod.mk.inj hrun
      exact ⟨Except.error.inj h₁, h₂⟩
    exact ⟨done, c :: rest', w₁.tree, hchanges, hrestored, .restore hfails,
      fun _ _ _ => Iff.rfl⟩

theorem Guarded.not_leadsTo_backup {cs : List Change} {c : Change} {k : Place}
    (ht : s.Guarded [id] t) (hid : Run.IsId id) (hbackup : c.backup = backupName c.path)
    (houtside : ∀ k, LeadsTo t cs k → ¬s.Owns t [id] k)
    (hk : t.resolve true ((s.backupFolder id).join c.backup) = .ok k) : ¬LeadsTo t cs k := by
  rw [hbackup] at hk
  obtain ⟨S, hS, rfl⟩ :=
    (ht.unlinked List.mem_cons_self).eq_of_resolve (isName_of_isId hid)
      (isName_backupName c.path) hk
  exact fun hleads =>
    houtside _ hleads ⟨S, _, hS, ⟨id, _, mem_ownNames List.mem_cons_self, rfl⟩, rfl⟩

/-- Of the files outside the store, exactly those of the given changes were put back: each holds the
text of its backup (of the last one, if several changes lead to it), and all others are as they
were. -/
structure PutBack (s : RunStore) (id : String) (done : List Change) (t u : FileTree) : Prop where
  others : ∀ k, ¬s.Owns t [id] k → ¬LeadsTo t done k →
    ∀ b, u.get? k = some (.file b) ↔ t.get? k = some (.file b)
  restored : ∀ pre c post k, done = pre ++ c :: post → t.leadOf c.path = some k →
    ¬LeadsTo t post k → ∃ x, s.BackedUp t id c.backup x ∧ u.get? k = some (.file x.toBytes)

theorem Restored.putBack {done : List Change} (ht : s.Guarded [id] t) (hid : Run.IsId id)
    (h : s.Restored id done t u) (hbackup : ∀ c ∈ done, c.backup = backupName c.path)
    (houtside : ∀ k, LeadsTo t done k → ¬s.Owns t [id] k)
    (hsame : ∀ k, ¬s.Owns u [id] k → ∀ b, v.get? k = some (.file b) ↔
      u.get? k = some (.file b)) :
    s.PutBack id done t v := by
  obtain ⟨-, hframe⟩ := h.frame ht.wellFormed
  have houter : ∀ k, ¬s.Owns t [id] k →
      ¬s.Owns u [id] k := fun k hk hown => hk ((Below.frame hframe).mp hown)
  refine ⟨fun k hk hleads b => (hsame k (houter k hk) b).trans (hframe.file k hleads b), ?_⟩
  rintro pre c post k rfl hk hlast
  have hc : c ∈ pre ++ c :: post := List.mem_append_right _ List.mem_cons_self
  have hpre : ∀ k, LeadsTo t pre k → ¬s.Owns t [id] k := fun k ⟨c', hc', hlead⟩ =>
    houtside k ⟨c', List.mem_append_left _ hc', hlead⟩
  obtain ⟨x, hx, hfile⟩ :=
    Restored.get? ht.wellFormed h (fun k => ht.not_leadsTo_backup hid (hbackup c hc) hpre) hk
    hlast
  exact ⟨x, hx, (hsame k (houter k (houtside k ⟨c, hc, hk⟩)) _).mpr hfile⟩

/-- If the revert of a recorded run fails, only the files of the run's changes up to some change
were put back, and all others are as they were. Either nothing was changed at all, since the run can
no longer be reverted or the check of a file failed; or the backup of the next change could not be
read, or its file not be written; or all files were put back, and storing the run again failed. -/
theorem revert_error {r : Run} (hw : s.Guarded [r.id] w.tree) (hid : Run.IsId r.id)
    (hvalid : r.timestamp.IsValid) (hstored : s.Stores w.tree (runFileName r.id) r.text)
    (hbackup : ∀ c ∈ r.changes, c.backup = backupName c.path)
    (houtside : ∀ k, LeadsTo w.tree r.changes k → ¬s.Owns w.tree [r.id] k) {force : Bool}
    {e : Run.Error} (hrun : (s.revert r.id force).run.run w = (.error e, w')) :
    ∃ done rest, r.changes = done ++ rest ∧ s.PutBack r.id done w.tree w'.tree ∧
      s.FailsAt r force w w' e done rest := by
  have hnothing : w'.tree = w.tree → s.PutBack r.id [] w.tree w'.tree := by
    intro htree
    refine ⟨fun k _ _ b => by rw [htree], fun pre c post k hdone => ?_⟩
    simp at hdone
  have hrestoring : (s.restoreAll r.id r).run.run w = (.error e, w') →
      ∃ done rest, r.changes = done ++ rest ∧ s.PutBack r.id done w.tree w'.tree ∧
        s.FailsAt r force w w' e done rest := by
    intro h
    obtain ⟨done, rest, u, hchanges, hrestored, hfails, hsame⟩ :=
      restoreAll_error hw hid hvalid h
    have hdone : ∀ c ∈ done, c ∈ r.changes := by
      rw [hchanges]
      exact fun c hc => List.mem_append_left _ hc
    exact ⟨done, rest, hchanges, hrestored.putBack hw hid (fun c hc => hbackup c (hdone c hc))
      (fun k ⟨c, hc, hlead⟩ => houtside k ⟨c, hdone c hc, hlead⟩) hsame, hfails⟩
  rw [revert_eq, Attempt.bind_of_ok (loadRun_of_stores hvalid hstored)] at hrun
  split at hrun
  · next hstatus =>
      cases hrun
      exact ⟨[], r.changes, rfl, hnothing rfl, .reverted rfl hstatus⟩
  · split at hrun
    · next hcan =>
        cases hrun
        exact ⟨[], r.changes, rfl, hnothing rfl, .notRevertible rfl hcan⟩
    · split at hrun
      · exact hrestoring hrun
      · next hforce =>
          rcases forM_checkUnchanged_cases r.id r.changes w with
            ⟨-, hcheck⟩ | ⟨pre, c, post, e', hchanges, hpre, hfails, hcheck⟩
          · rw [Attempt.bind_of_ok hcheck] at hrun
            exact hrestoring hrun
          · rw [Attempt.run_bind, hcheck] at hrun
            cases hrun
            exact ⟨[], r.changes, rfl, hnothing rfl,
              .check rfl (by simpa using hforce) hchanges hpre hfails⟩

/-! ## A folder in the place of a file -/

/-- A store in a folder of its own. -/
def beside : RunStore := ⟨⟨"/s"⟩⟩

/-- A change as a journal records it. -/
def rewritten (p : Path) : Change :=
  ⟨p, Text.hash "old".toList, Text.hash "new".toList, backupName p⟩

/-- A run that wrote two files. -/
def bothWritten : Run :=
  (Journal.mk beside "0a1b2c3" "migrate" ⟨"/"⟩
    [rewritten ⟨"/a.tsx"⟩, rewritten ⟨"/b.tsx"⟩]).toRun
    ⟨2024, 1, 31, 12, 0, 0, 0⟩

/-- The recorded run with its files, where a folder has taken the place of the second. -/
def secondReplaced : World :=
  { tree := ⟨[], [(["a.tsx"], .file (Text.toBytes "new".toList)), (["b.tsx"], .folder),
    (["s"], .folder),
      (["s", "runs.json"], .file (RunIndex.empty.add bothWritten).text.toBytes),
      (["s", "0a1b2c3.json"], .file bothWritten.text.toBytes), (["s", "0a1b2c3"], .folder),
      (["s", "0a1b2c3", (backupName ⟨"/a.tsx"⟩).text], .file (Text.toBytes "old".toList)),
      (["s", "0a1b2c3", (backupName ⟨"/b.tsx"⟩).text], .file (Text.toBytes "old".toList))]⟩ }

theorem isPlain_secondReplaced : secondReplaced.tree.isPlain = true := by decide +kernel

theorem stores_bothWritten :
    beside.Stores secondReplaced.tree (runFileName bothWritten.id) bothWritten.text :=
  ⟨["s", "0a1b2c3.json"], by decide, rfl⟩

theorem isValid_bothWritten : bothWritten.timestamp.IsValid :=
  ⟨by decide, by decide, by decide, by decide, by decide⟩

theorem restoreAll_secondReplaced :
    ((beside.restoreAll bothWritten.id bothWritten).run.run secondReplaced).1 =
        .error (.restoreFailed ⟨"/b.tsx"⟩ .isFolder) ∧
      ((beside.restoreAll bothWritten.id bothWritten).run.run secondReplaced).2.tree.read
          ⟨"/a.tsx"⟩ =
        .ok (Text.toBytes "old".toList) := by
  decide +kernel

theorem revert_secondReplaced : (beside.revert bothWritten.id true).run.run secondReplaced =
    (beside.restoreAll bothWritten.id bothWritten).run.run secondReplaced := by
  rw [revert_eq, Attempt.bind_of_ok (loadRun_of_stores isValid_bothWritten stores_bothWritten)]
  rfl

/-- A forced revert fails at the second file after it has written the first one. -/
theorem revert_error_not_atomic :
    ∃ e w', (beside.revert bothWritten.id true).run.run secondReplaced = (.error e, w') ∧
      secondReplaced.tree.read ⟨"/a.tsx"⟩ = .ok (Text.toBytes "new".toList) ∧
      w'.tree.read ⟨"/a.tsx"⟩ = .ok (Text.toBytes "old".toList) := by
  obtain ⟨herror, hread⟩ := restoreAll_secondReplaced
  rw [revert_secondReplaced]
  generalize (beside.restoreAll bothWritten.id bothWritten).run.run secondReplaced =
    result at herror hread ⊢
  exact ⟨_, result.2, Prod.ext herror rfl, by decide, hread⟩

/-- What the failing revert leaves behind is what it always leaves behind. -/
theorem revert_error_secondReplaced :
    ∃ e w', (beside.revert bothWritten.id true).run.run secondReplaced = (.error e, w') ∧
      ∃ done rest, bothWritten.changes = done ++ rest ∧
        beside.PutBack bothWritten.id done secondReplaced.tree w'.tree ∧
        beside.FailsAt bothWritten true secondReplaced w' e done rest := by
  have hguarded : beside.Guarded [bothWritten.id] secondReplaced.tree :=
    ⟨.of_isPlain isPlain_secondReplaced,
      fun k _ => FileTree.get?_ne_link_of_isPlain isPlain_secondReplaced k⟩
  have hid : Run.IsId bothWritten.id := ⟨by decide, List.forall_iff_forall_mem.mp (by decide)⟩
  have hbackup : ∀ c ∈ bothWritten.changes, c.backup = backupName c.path := by
    intro c hc
    simp only [bothWritten, Journal.toRun, List.mem_cons, List.not_mem_nil, or_false] at hc
    rcases hc with rfl | rfl
    · rfl
    · rfl
  have houtside : ∀ k, LeadsTo secondReplaced.tree bothWritten.changes k →
      ¬beside.Owns secondReplaced.tree [bothWritten.id] k := by
    rintro k ⟨c, hc, hlead⟩ ⟨S, r, hS, ⟨n, rest, -, rfl⟩, rfl⟩
    have hstore : secondReplaced.tree.leadOf beside.folder = some ["s"] := by decide
    have hfirst : secondReplaced.tree.leadOf ⟨"/a.tsx"⟩ = some ["a.tsx"] := by decide
    have hsecond : secondReplaced.tree.leadOf ⟨"/b.tsx"⟩ = some ["b.tsx"] := by decide
    rw [hstore] at hS
    cases hS
    simp only [bothWritten, Journal.toRun, List.mem_cons, List.not_mem_nil, or_false] at hc
    rcases hc with rfl | rfl
    · simp [rewritten, hfirst] at hlead
    · simp [rewritten, hsecond] at hlead
  obtain ⟨herror, -⟩ := restoreAll_secondReplaced
  have hrun : (beside.revert bothWritten.id true).run.run secondReplaced =
      (.error (.restoreFailed ⟨"/b.tsx"⟩ .isFolder),
        ((beside.restoreAll bothWritten.id bothWritten).run.run secondReplaced).2) := by
    rw [revert_secondReplaced, ← herror]
  exact ⟨_, _, hrun,
    revert_error hguarded hid isValid_bothWritten stores_bothWritten hbackup houtside hrun⟩

end Rewrap.RunStore
