import Rewrap.Action.World

/-! # Running attempts

An attempt that is run in a world either succeeds, and then each of its parts does, or fails at one
of them; what was done before stays done. -/

namespace Rewrap.Attempt

variable {α β ε : Type} {w w' : World}

theorem run_bind (x : Attempt ε α) (f : α → Attempt ε β) (w : World) :
    (x >>= f).run.run w =
      match x.run.run w with
      | (.ok a, w') => (f a).run.run w'
      | (.error e, w') => (.error e, w') := by
  rw [ExceptT.run_bind, Action.run_bind]
  obtain ⟨r, w'⟩ := x.run.run w
  cases r <;> rfl

@[simp] theorem run_pure (a : α) (w : World) :
    (pure a : Attempt ε α).run.run w = (.ok a, w) := rfl

@[simp] theorem run_throw (e : ε) (w : World) :
    (throw e : Attempt ε α).run.run w = (.error e, w) := rfl

@[simp] theorem run_orFail (a : Action (Except FileError α)) (failure : FileError → ε)
    (w : World) : (orFail a failure).run.run w = ((a.run w).1.mapError failure, (a.run w).2) := by
  unfold orFail
  simp

@[simp] theorem run_always (a : Action α) (w : World) :
    (always a : Attempt ε α).run.run w = (.ok (a.run w).1, (a.run w).2) := by
  unfold always
  rw [ExceptT.run_lift, map_eq_pure_bind, Action.run_bind]
  rfl

@[simp] theorem run_ofExcept (x : Except ε α) (w : World) :
    (MonadExcept.ofExcept x : Attempt ε α).run.run w = (x, w) := by
  cases x <;> rfl

@[simp] theorem run_forM_nil (f : α → Attempt ε PUnit) (w : World) :
    (([] : List α).forM f).run.run w = (.ok ⟨⟩, w) := rfl

/-- A loop goes on as long as its steps succeed. -/
theorem run_forM_cons (f : α → Attempt ε PUnit) (a : α) (as : List α) (w : World) :
    ((a :: as).forM f).run.run w =
      match (f a).run.run w with
      | (.ok _, w') => (as.forM f).run.run w'
      | (.error e, w') => (.error e, w') := by
  have hcons : (a :: as).forM f = (f a >>= fun _ => as.forM f) := rfl
  rw [hcons, run_bind]
  obtain ⟨r, w'⟩ := (f a).run.run w
  cases r <;> rfl

theorem bind_eq_ok {x : Attempt ε α} {f : α → Attempt ε β} {b : β}
    (h : (x >>= f).run.run w = (.ok b, w')) :
    ∃ a w₁, x.run.run w = (.ok a, w₁) ∧ (f a).run.run w₁ = (.ok b, w') := by
  rw [run_bind] at h
  split at h
  · next a w₁ hx => exact ⟨a, w₁, hx, h⟩
  · simp at h

theorem bind_eq_error {x : Attempt ε α} {f : α → Attempt ε β} {e : ε}
    (h : (x >>= f).run.run w = (.error e, w')) :
    x.run.run w = (.error e, w') ∨
      ∃ a w₁, x.run.run w = (.ok a, w₁) ∧ (f a).run.run w₁ = (.error e, w') := by
  rw [run_bind] at h
  split at h
  · next a w₁ hx => exact .inr ⟨a, w₁, hx, h⟩
  · next e' w₁ hx =>
      cases h
      exact .inl hx

theorem bind_of_ok {x : Attempt ε α} {f : α → Attempt ε β} {a : α}
    (h : x.run.run w = (.ok a, w')) : (x >>= f).run.run w = (f a).run.run w' := by
  rw [run_bind, h]

theorem run_adapt {ε' : Type} (x : Attempt ε α) (f : ε → ε') (w : World) :
    (x.adapt f).run.run w = ((x.run.run w).1.mapError f, (x.run.run w).2) := by
  have hmap : (x.adapt f).run = (x.run >>= fun r => pure (r.mapError f)) :=
    map_eq_pure_bind (Except.mapError f) x.run
  rw [hmap, Action.run_bind]
  rfl

/-! ## Requests -/

@[simp] theorem run_createFolders (p : Path) (failure : FileError → ε) (w : World) :
    (orFail (Action.ask (.createFolders p)) failure).run.run w =
      ((w.tree.createFolders p).1.mapError failure,
        { w with tree := (w.tree.createFolders p).2 }) := rfl

@[simp] theorem run_rename (p q : Path) (failure : FileError → ε) (w : World) :
    (orFail (Action.ask (.rename p q)) failure).run.run w =
      ((w.tree.rename p q).1.mapError failure, { w with tree := (w.tree.rename p q).2 }) := rfl

@[simp] theorem run_writeText (p : Path) (t : Text) (failure : FileError → ε) (w : World) :
    (orFail (Action.writeText p t) failure).run.run w =
      ((w.tree.write p t.toBytes).1.mapError failure,
        { w with tree := (w.tree.write p t.toBytes).2 }) := rfl

theorem run_writeSource (p : Path) (t : Text) (failure : FileError → ε) (w : World) :
    (orFail (Action.ask (.writeSource p t)) failure).run.run w =
      if w.faults.unwritable.contains p then (.error (failure Faults.error), w)
      else ((w.tree.write p t.toBytes).1.mapError failure,
        { w with tree := (w.tree.write p t.toBytes).2 }) := by
  rw [run_orFail, Action.run_ask]
  simp only [World.reply]
  split
  · rfl
  · rfl

@[simp] theorem run_read (p : Path) (failure : FileError → ε) (w : World) :
    (orFail (Action.ask (.read p)) failure).run.run w = ((w.tree.read p).mapError failure, w) := rfl

@[simp] theorem run_readText (p : Path) (failure : FileError → ε) (w : World) :
    (orFail (Action.readText p) failure).run.run w =
      (((w.tree.read p).bind Text.ofBytes).mapError failure, w) := rfl

@[simp] theorem run_isPresent (p : Path) (w : World) :
    (always (Action.isPresent p) : Attempt ε Bool).run.run w = (.ok (w.tree.isPresent p), w) := rfl

@[simp] theorem run_print (s : String) (w : World) :
    (always (Action.print s) : Attempt ε Unit).run.run w =
      (.ok (), { w with out := w.out ++ s }) := rfl

@[simp] theorem run_warn (s : String) (w : World) :
    (always (Action.warn s) : Attempt ε Unit).run.run w =
      (.ok (), { w with err := w.err ++ s }) := rfl

/-! ## Requests that succeed -/

variable {p q : Path} {u : FileTree} {failure : FileError → ε}

theorem createFolders_of_ok (h : w.tree.createFolders p = (.ok (), u)) :
    (orFail (Action.ask (.createFolders p)) failure).run.run w =
      (.ok (), { w with tree := u }) := by
  rw [run_createFolders, h]
  rfl

theorem rename_of_ok (h : w.tree.rename p q = (.ok (), u)) :
    (orFail (Action.ask (.rename p q)) failure).run.run w = (.ok (), { w with tree := u }) := by
  rw [run_rename, h]
  rfl

theorem writeText_of_ok {x : Text} (h : w.tree.write p x.toBytes = (.ok (), u)) :
    (orFail (Action.writeText p x) failure).run.run w = (.ok (), { w with tree := u }) := by
  rw [run_writeText, h]
  rfl

theorem readText_of_ok {x : Text} (h : w.tree.read p = .ok x.toBytes) :
    (orFail (Action.readText p) failure).run.run w = (.ok x, w) := by
  have hx : (Except.ok x.toBytes).bind Text.ofBytes = .ok x := Text.ofBytes_toBytes x
  rw [run_readText, h, hx]
  rfl

end Rewrap.Attempt
