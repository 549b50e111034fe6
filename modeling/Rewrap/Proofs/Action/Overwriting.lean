import Rewrap.Proofs.Action.Trace
import Rewrap.Proofs.FileTree.Changes
import Rewrap.Proofs.FileTree.Leading

/-! # What requests write over

Requests that take nothing away change at most the files to which the paths lead that are written.
They leave all links as they are, so these places are known before the first of the requests is
made. -/

namespace Rewrap

open FileTree (Frame Nowhere Anywhere)

namespace Request

/-- The path that a request writes, of a source file or of one of the tool's own. -/
def overwritten? : Request → Option Path
  | .writeSource p _ | .write p _ => some p
  | _ => none

/-- The paths that requests write, in their order. -/
def overwritten (rs : List Request) : List Path := rs.filterMap overwritten?

/-- Whether a request takes no file or folder away. -/
def isKeeping : Request → Bool
  | .removeFile _ | .removeFolder _ | .rename .. => false
  | _ => true

end Request

/-- Writing a file changes at most the one to which its path leads. -/
theorem FileTree.frame_write {t : FileTree} (h : t.WellFormed) (p : Path) (b : ByteArray) :
    (t.write p b).2.WellFormed ∧ Frame (t.leadOf p = some ·) Nowhere t (t.write p b).2 := by
  rcases write_cases h p b with ⟨e, herror⟩ | ⟨k, hk, -, hfolder, hlink, hok, hwf⟩
  · rw [herror]
    exact ⟨h, .refl _ _ _⟩
  · rw [hok]
    refine ⟨hwf, (frame_put_file hfolder hlink).mono ?_ fun _ hk => hk⟩
    rintro _ rfl
    exact leadOf_of_resolve hk

namespace World

variable {w : World} {p : Path}

/-- Writing a source file changes at most the file to which its path leads. -/
theorem frame_writeSource (h : w.tree.WellFormed) {k : Place} (hk : w.tree.leadOf p = some k)
    (y : Text) :
    (w.reply (.writeSource p y)).2.tree.WellFormed ∧
      Frame (· = k) Nowhere w.tree (w.reply (.writeSource p y)).2.tree := by
  simp only [reply]
  split
  · exact ⟨h, .refl _ _ _⟩
  · obtain ⟨hwf, hframe⟩ := FileTree.frame_write h p y.toBytes
    refine ⟨hwf, hframe.mono (fun k' hk' => ?_) fun _ hk => hk⟩
    exact Option.some.inj (hk'.symm.trans hk)

/-- A request that takes nothing away changes at most the file to which the path leads that it
writes. -/
theorem frame_reply (h : w.tree.WellFormed) {r : Request} (hr : r.isKeeping = true) :
    (w.reply r).2.tree.WellFormed ∧
      Frame (fun k => ∃ p, r.overwritten? = some p ∧ w.tree.leadOf p = some k) Anywhere w.tree
        (w.reply r).2.tree := by
  have hwrite : ∀ p b, (w.tree.write p b).2.WellFormed ∧
      Frame (fun k => ∃ q, some p = some q ∧ w.tree.leadOf q = some k) Anywhere w.tree
        (w.tree.write p b).2 := by
    intro p b
    obtain ⟨hwf, hframe⟩ := FileTree.frame_write h p b
    exact ⟨hwf, hframe.mono (fun k hk => ⟨p, rfl, hk⟩) fun _ hk => hk.elim⟩
  cases r with
  | writeSource p y =>
      simp only [reply]
      split
      · exact ⟨h, .refl _ _ _⟩
      · exact hwrite p y.toBytes
  | write p b => exact hwrite p b
  | createFolders p =>
      obtain ⟨hwf, hframe⟩ := (FileTree.createFolders_spec h p).1
      exact ⟨hwf, hframe.mono (fun _ hk => hk.elim) fun _ hk => hk⟩
  | removeFile p => cases hr
  | removeFolder p => cases hr
  | rename p q => cases hr
  | _ => exact ⟨h, .refl _ _ _⟩

/-- Requests that take nothing away change at most the files to which the paths lead that they
write. -/
theorem frame_after (h : w.tree.WellFormed) {rs : List Request}
    (hrs : ∀ r ∈ rs, r.isKeeping = true) :
    (w.after rs).tree.WellFormed ∧
      Frame (fun k => ∃ p ∈ Request.overwritten rs, w.tree.leadOf p = some k) Anywhere w.tree
        (w.after rs).tree := by
  induction rs generalizing w with
  | nil => exact ⟨h, .refl _ _ _⟩
  | cons r rs ih =>
      obtain ⟨hwf, hframe⟩ := frame_reply h (hrs r List.mem_cons_self)
      obtain ⟨hwf', hframe'⟩ := ih hwf fun r hr => hrs r (List.mem_cons_of_mem _ hr)
      refine ⟨hwf', (hframe.mono (fun k hk => ?_) fun _ hk => hk).trans
        (hframe'.mono (fun k hk => ?_) fun _ hk => hk)⟩
      · obtain ⟨p, hp, hlead⟩ := hk
        exact ⟨p, List.mem_filterMap.mpr ⟨r, List.mem_cons_self, hp⟩, hlead⟩
      · obtain ⟨p, hp, hlead⟩ := hk
        obtain ⟨r', hr', hp⟩ := List.mem_filterMap.mp hp
        rw [hframe.leadOf] at hlead
        exact ⟨p, List.mem_filterMap.mpr ⟨r', List.mem_cons_of_mem _ hr', hp⟩, hlead⟩

/-! ## What else a world holds -/

theorem after_faults (w : World) (rs : List Request) : (w.after rs).faults = w.faults := by
  induction rs generalizing w with
  | nil => rfl
  | cons r rs ih =>
      have hr : (w.reply r).2.faults = w.faults := by
        by_cases hquiet : r.isQuiet = true
        · exact (w.reply_of_isQuiet hquiet).1
        · cases r <;> first | rfl | exact absurd rfl hquiet
      exact (ih _).trans hr

/-- A source file that was read stays read. -/
theorem mem_sourcesRead_after (rs : List Request) (h : p ∈ w.sourcesRead) :
    p ∈ (w.after rs).sourcesRead := by
  induction rs generalizing w with
  | nil => exact h
  | cons r rs ih =>
      refine ih ?_
      by_cases hquiet : r.isQuiet = true
      · rw [(w.reply_of_isQuiet hquiet).2.1]
        exact h
      · cases r with
        | readSource q => exact List.mem_cons_of_mem _ h
        | print shown => exact h
        | warn shown => exact h
        | _ => exact absurd rfl hquiet

end World

end Rewrap
