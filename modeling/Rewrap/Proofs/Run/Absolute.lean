import Rewrap.Proofs.Action.Absolute
import Rewrap.Proofs.Run.Upkeep

/-! # A store with an absolute path

Where the path of the store is absolute, so are all paths that are asked for to load and store the
index and to take runs away. -/

namespace Rewrap.RunStore

variable {s : RunStore} {w : World} {i : RunIndex} (hs : s.folder.isAbsolute = true)

include hs

theorem isAbsolute_join (name : String) : (s.folder.join ⟨name⟩).isAbsolute = true :=
  Path.isAbsolute_join _ _ hs

theorem isAbsolute_loadIndex : s.loadIndex.run.IsAbsolute := by
  have hindex := isAbsolute_join hs "runs.json"
  unfold loadIndex
  refine Attempt.isAbsolute_bind (Attempt.isAbsolute_always (Action.isAbsolute_isPresent hindex))
    fun present => ?_
  split
  · refine Attempt.isAbsolute_bind
      (Attempt.isAbsolute_orFail (Action.isAbsolute_readText hindex) _) fun x => ?_
    split
    · exact Attempt.isAbsolute_pure _
    · split
      · exact Attempt.isAbsolute_bind (Attempt.isAbsolute_warn _) fun _ =>
          Attempt.isAbsolute_throw _
      · exact Attempt.isAbsolute_throw _
  · exact Attempt.isAbsolute_pure _

theorem isAbsolute_reset : s.reset.run.IsAbsolute := by
  unfold reset
  refine Attempt.isAbsolute_bind (Attempt.isAbsolute_warn _) fun _ => ?_
  refine Attempt.isAbsolute_bind (Attempt.isAbsolute_always (Action.isAbsolute_isPresent hs))
    fun present => ?_
  split
  · exact Attempt.isAbsolute_bind
      (Attempt.isAbsolute_orFail (Action.isAbsolute_ask (by simpa using hs)) _)
      fun _ => Attempt.isAbsolute_warn _
  · exact Attempt.isAbsolute_warn _

theorem isAbsolute_loadIndexOrReset : s.loadIndexOrReset.run.IsAbsolute := by
  unfold loadIndexOrReset
  refine Attempt.isAbsolute_bind (Attempt.isAbsolute_always (isAbsolute_loadIndex hs))
    fun loaded => ?_
  split
  · exact Attempt.isAbsolute_pure _
  · split
    · exact Attempt.isAbsolute_bind (isAbsolute_reset hs) fun _ => Attempt.isAbsolute_pure _
    · exact Attempt.isAbsolute_throw _
  · exact Attempt.isAbsolute_throw _

theorem isAbsolute_saveIndex (i : RunIndex) : (s.saveIndex i).run.IsAbsolute := by
  have htemporary := isAbsolute_join hs ("runs.json" ++ ".tmp")
  have hindex := isAbsolute_join hs "runs.json"
  unfold saveIndex store
  refine Attempt.isAbsolute_bind
    (Attempt.isAbsolute_orFail (Action.isAbsolute_ask (by simpa using hs)) _) fun _ => ?_
  refine Attempt.isAbsolute_bind
    (Attempt.isAbsolute_orFail (Action.isAbsolute_ask (by simpa using htemporary)) _) fun _ => ?_
  exact Attempt.isAbsolute_orFail
    (Action.isAbsolute_ask (by simpa using ⟨htemporary, hindex⟩)) _

theorem isAbsolute_discard (r : Run) : (s.discard r).run.IsAbsolute := by
  have hfolder : (s.backupFolder r.id).isAbsolute = true := isAbsolute_join hs r.id
  have hfile : (s.runPath r.id).isAbsolute = true := isAbsolute_join hs (runFileName r.id)
  have hrest : (s.discardFile r).run.IsAbsolute := by
    unfold discardFile
    refine Attempt.isAbsolute_bind (Attempt.isAbsolute_always (Action.isAbsolute_isPresent hfile))
      fun present => ?_
    split
    · exact Attempt.isAbsolute_orFail (Action.isAbsolute_ask (by simpa using hfile)) _
    · exact Attempt.isAbsolute_pure _
  rw [discard_eq]
  refine Attempt.isAbsolute_bind (Attempt.isAbsolute_always (Action.isAbsolute_isPresent hfolder))
    fun present => ?_
  split
  · exact Attempt.isAbsolute_bind
      (Attempt.isAbsolute_orFail (Action.isAbsolute_ask (by simpa using hfolder)) _)
      fun _ => hrest
  · exact hrest

/-- An index that can be loaded from elsewhere can be loaded from here. -/
theorem loadIndex_of_seenFrom {d : Place}
    (hload : s.loadIndex.run.run (w.seenFrom d) = (.ok i, w.seenFrom d)) :
    s.loadIndex.run.run w = (.ok i, w) := by
  have hback := (isAbsolute_loadIndex hs).run_of_seenFrom hload
  rwa [World.seenFrom_seenFrom, World.seenFrom_cwd] at hback

end Rewrap.RunStore
