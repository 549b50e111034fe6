import Rewrap.Proofs.Action.Trace
import Rewrap.Proofs.FileTree.Absolute

/-! # Actions on absolute paths

An action that asks only for absolute paths does the same wherever the tree is looked at from. -/

namespace Rewrap

/-- The paths that a request is about. -/
@[simp] def Request.paths : Request → List Path
  | .walk p | .readSource p | .writeSource p _ | .isPresent p | .read p | .write p _ |
      .createFolders p
  | .removeFile p | .removeFolder p => [p]
  | .rename p q => [p, q]
  | .print _ | .warn _ => []

/-- A request that is about absolute paths only. -/
@[simp] def Request.IsAbsolute (r : Request) : Prop := ∀ p ∈ r.paths, p.isAbsolute = true

namespace World

/-- The world, with its tree looked at from another folder. -/
def seenFrom (w : World) (d : Place) : World := { w with tree := w.tree.seenFrom d }

variable {w : World} {d : Place} {p : Path}

@[simp] theorem tree_seenFrom : (w.seenFrom d).tree = w.tree.seenFrom d := rfl

@[simp] theorem seenFrom_seenFrom (d' : Place) : (w.seenFrom d).seenFrom d' = w.seenFrom d' := rfl

@[simp] theorem seenFrom_cwd : w.seenFrom w.tree.cwd = w := rfl

theorem source_seenFrom (hp : p.isAbsolute = true) : (w.seenFrom d).source p = w.source p := by
  unfold source
  rw [tree_seenFrom, FileTree.read_seenFrom hp]
  rfl

/-- A request about absolute paths has the same reply, and leaves the same tree behind. -/
theorem reply_seenFrom {r : Request} (hr : r.IsAbsolute) :
    (w.seenFrom d).reply r = ((w.reply r).1, (w.reply r).2.seenFrom d) := by
  cases r with
  | walk p => exact Prod.ext (FileTree.walk_seenFrom (hr p List.mem_cons_self)) rfl
  | readSource p => exact Prod.ext (source_seenFrom (hr p List.mem_cons_self)) rfl
  | isPresent p => exact Prod.ext (FileTree.isPresent_seenFrom (hr p List.mem_cons_self)) rfl
  | read p => exact Prod.ext (FileTree.read_seenFrom (hr p List.mem_cons_self)) rfl
  | writeSource p x =>
      have hfaults : (w.seenFrom d).faults = w.faults := rfl
      have hwrite := FileTree.write_seenFrom (t := w.tree) (d := d)
        (hr p List.mem_cons_self) x.toBytes
      simp only [reply, tree_seenFrom, hfaults, hwrite]
      split
      · rfl
      · rfl
  | write p b =>
      have hwrite := FileTree.write_seenFrom (t := w.tree) (d := d) (hr p List.mem_cons_self) b
      exact congrArg (w.seenFrom d).changed hwrite
  | createFolders p =>
      have hmade := FileTree.createFolders_seenFrom (t := w.tree) (d := d) (hr p List.mem_cons_self)
      exact congrArg (w.seenFrom d).changed hmade
  | removeFile p =>
      have hgone := FileTree.removeFile_seenFrom (t := w.tree) (d := d) (hr p List.mem_cons_self)
      exact congrArg (w.seenFrom d).changed hgone
  | removeFolder p =>
      have hgone := FileTree.removeFolder_seenFrom (t := w.tree) (d := d) (hr p List.mem_cons_self)
      exact congrArg (w.seenFrom d).changed hgone
  | rename p q =>
      have hmoved := FileTree.rename_seenFrom (t := w.tree) (d := d) (hr p List.mem_cons_self)
        (hr q (List.mem_cons_of_mem _ List.mem_cons_self))
      exact congrArg (w.seenFrom d).changed hmoved
  | print x => rfl
  | warn x => rfl

end World

namespace Action

variable {α β : Type}

theorem run_seenFrom {x : Action α} {w : World} (hx : x.Each (fun _ r => r.IsAbsolute) w)
    (d : Place) : x.run (w.seenFrom d) = ((x.run w).1, (x.run w).2.seenFrom d) := by
  induction x generalizing w with
  | done a => rfl
  | request r next ih =>
      unfold run
      rw [World.reply_seenFrom hx.1]
      exact ih _ hx.2

/-- An action that asks only for absolute paths, whatever the replies are. -/
def IsAbsolute (x : Action α) : Prop := ∀ w, x.Each (fun _ r => r.IsAbsolute) w

/-- What such an action does where the tree is looked at from elsewhere, it does here. -/
theorem IsAbsolute.run_of_seenFrom {x : Action α} (hx : x.IsAbsolute) {w w' : World} {d : Place}
    {a : α} (h : x.run (w.seenFrom d) = (a, w')) : x.run w = (a, w'.seenFrom w.tree.cwd) := by
  have hback := run_seenFrom (hx (w.seenFrom d)) w.tree.cwd
  rwa [World.seenFrom_seenFrom, World.seenFrom_cwd, h] at hback

theorem isAbsolute_ask {r : Request} (hr : r.IsAbsolute) : (ask r).IsAbsolute := fun w =>
  (each_ask r w).mpr hr

theorem isAbsolute_isPresent {p : Path} (hp : p.isAbsolute = true) : (isPresent p).IsAbsolute :=
  isAbsolute_ask (by simpa using hp)

theorem isAbsolute_readText {p : Path} (hp : p.isAbsolute = true) : (readText p).IsAbsolute := by
  intro w
  unfold readText
  have hask : (ask (.read p)).IsAbsolute := isAbsolute_ask (by simpa using hp)
  exact (each_bind _ _ _).mpr ⟨hask w, trivial⟩

end Action

namespace Attempt

variable {α β ε : Type} {x : Attempt ε α} {f : α → Attempt ε β}

theorem isAbsolute_bind (hx : x.run.IsAbsolute) (hf : ∀ a, (f a).run.IsAbsolute) :
    (x >>= f).run.IsAbsolute := fun w => each_bind_of (hx w) fun a w' _ => hf a w'

theorem isAbsolute_pure (a : α) : (pure a : Attempt ε α).run.IsAbsolute := fun _ => trivial

theorem isAbsolute_throw (e : ε) : (throw e : Attempt ε α).run.IsAbsolute := fun _ => trivial

theorem isAbsolute_orFail {a : Action (Except FileError α)} (ha : a.IsAbsolute)
    (failure : FileError → ε) :
    (orFail a failure).run.IsAbsolute := fun w => (each_orFail a failure).mpr (ha w)

theorem isAbsolute_always {a : Action α} (ha : a.IsAbsolute) :
    (always a : Attempt ε α).run.IsAbsolute := fun w => (each_always a).mpr (ha w)

theorem isAbsolute_warn (s : String) : (always (Action.warn s) : Attempt ε Unit).run.IsAbsolute :=
  isAbsolute_always (Action.isAbsolute_ask (by simp))

theorem isAbsolute_forM {f : α → Attempt ε PUnit} (as : List α)
    (hf : ∀ a ∈ as, (f a).run.IsAbsolute) : (as.forM f).run.IsAbsolute := by
  induction as with
  | nil => exact isAbsolute_pure _
  | cons a as ih =>
      exact isAbsolute_bind (hf a List.mem_cons_self) fun _ => ih fun b hb =>
        hf b (List.mem_cons_of_mem _ hb)

end Attempt

end Rewrap
