import Rewrap.Proofs.Action.Attempts

/-! # The requests of a run

An action that is run in a world makes its requests one after the other, and can be stopped after
any of them. What holds at each of these points, and what holds of each request, is found part by
part. -/

namespace Rewrap

/-- What a request reads from a source file. -/
def Action.readingOf (w : World) : Request → List (Path × Except FileError Text)
  | .readSource p => [(p, w.source p)]
  | _ => []

/-! ## Worlds after requests -/

namespace World

/-- The world after some requests. -/
def after (w : World) (rs : List Request) : World := rs.foldl (fun w r => (w.reply r).2) w

@[simp] theorem after_nil (w : World) : w.after [] = w := rfl

@[simp] theorem after_cons (w : World) (r : Request) (rs : List Request) :
    w.after (r :: rs) = (w.reply r).2.after rs := rfl

theorem after_append (w : World) (rs rs' : List Request) :
    w.after (rs ++ rs') = (w.after rs).after rs' :=
  List.foldl_append

/-- The source files that requests read, with what the readings give. -/
def readings (w : World) : List Request → List (Path × Except FileError Text)
  | [] => []
  | r :: rs => Action.readingOf w r ++ (w.reply r).2.readings rs

theorem readings_append (w : World) (rs rs' : List Request) :
    w.readings (rs ++ rs') = w.readings rs ++ (w.after rs).readings rs' := by
  induction rs generalizing w with
  | nil => rfl
  | cons r rs ih => simp only [List.cons_append, readings, ih, after_cons, List.append_assoc]

end World

/-- The source file that a request writes. -/
def Request.written? : Request → Option Path
  | .writeSource p _ => some p
  | _ => none

/-- The source files that requests write, in their order. -/
def Request.written (rs : List Request) : List Path := rs.filterMap written?

theorem Request.written_append (rs rs' : List Request) :
    Request.written (rs ++ rs') = Request.written rs ++ Request.written rs' := List.filterMap_append

/-- The paths at which a request asks for a change. -/
def Request.targets : Request → List Path
  | .writeSource p _ | .write p _ | .createFolders p | .removeFile p | .removeFolder p => [p]
  | .rename p q => [p, q]
  | .walk _ | .readSource _ | .isPresent _ | .read _ | .print _ | .warn _ => []

/-- Whether a request reads no source file and writes to no output. -/
def Request.isQuiet : Request → Bool
  | .readSource _ | .print _ | .warn _ => false
  | _ => true

theorem World.reply_of_isQuiet (w : World) {r : Request} (h : r.isQuiet = true) :
    (w.reply r).2.faults = w.faults ∧ (w.reply r).2.sourcesRead = w.sourcesRead ∧
      (w.reply r).2.out = w.out := by
  cases r with
  | readSource p => cases h
  | print s => cases h
  | warn s => cases h
  | writeSource p t =>
      simp only [reply]
      split
      · exact ⟨rfl, rfl, rfl⟩
      · exact ⟨rfl, rfl, rfl⟩
  | _ => exact ⟨rfl, rfl, rfl⟩

/-- Whether a request to change something is fulfilled. Other requests are. -/
def World.fulfils (w : World) : Request → Bool
  | .writeSource p t => (w.reply (.writeSource p t)).1.toBool
  | .write p content => (w.reply (.write p content)).1.toBool
  | .createFolders p => (w.reply (.createFolders p)).1.toBool
  | .removeFile p => (w.reply (.removeFile p)).1.toBool
  | .removeFolder p => (w.reply (.removeFolder p)).1.toBool
  | .rename p q => (w.reply (.rename p q)).1.toBool
  | .walk _ | .readSource _ | .isPresent _ | .read _ | .print _ | .warn _ => true

namespace Action

variable {α β : Type}

/-! ## Requests -/

/-- The requests that an action makes when it is run. -/
def requests : Action α → World → List Request
  | .done _, _ => []
  | .request r next, w => r :: (next (w.reply r).1).requests (w.reply r).2

@[simp] theorem requests_done (a : α) (w : World) : (Action.done a).requests w = [] := rfl

@[simp] theorem requests_ask (r : Request) (w : World) : (ask r).requests w = [r] := rfl

theorem requests_bind (x : Action α) (f : α → Action β) (w : World) :
    (x >>= f).requests w = x.requests w ++ (f (x.run w).1).requests (x.run w).2 := by
  induction x generalizing w with
  | done a => rfl
  | request r next ih => exact congrArg (r :: ·) (ih (w.reply r).1 (w.reply r).2)

/-- The world after all requests is the one that the action leaves behind. -/
theorem after_requests (x : Action α) (w : World) : w.after (x.requests w) = (x.run w).2 := by
  induction x generalizing w with
  | done a => rfl
  | request r next ih => exact ih (w.reply r).1 (w.reply r).2

/-- The source files that an action reads when it is run, with what the readings give. -/
def readings : Action α → World → List (Path × Except FileError Text)
  | .done _, _ => []
  | .request r next, w => readingOf w r ++ (next (w.reply r).1).readings (w.reply r).2

theorem readings_eq (x : Action α) (w : World) : x.readings w = w.readings (x.requests w) := by
  induction x generalizing w with
  | done a => rfl
  | request r next ih => exact congrArg _ (ih (w.reply r).1 (w.reply r).2)

theorem readings_bind (x : Action α) (f : α → Action β) (w : World) :
    (x >>= f).readings w = x.readings w ++ (f (x.run w).1).readings (x.run w).2 := by
  simp only [readings_eq, requests_bind, World.readings_append, after_requests]

/-! ## Each request -/

/-- Something holds of each request that an action makes, in the world in which it is made. -/
def Each (Holds : World → Request → Prop) : Action α → World → Prop
  | .done _, _ => True
  | .request r next, w => Holds w r ∧ (next (w.reply r).1).Each Holds (w.reply r).2

variable {Holds : World → Request → Prop}

instance decidableEach [∀ w r, Decidable (Holds w r)] : (x : Action α) → (w : World) →
    Decidable (x.Each Holds w)
  | .done _, _ => isTrue trivial
  | .request r next, w =>
      have := decidableEach (next (w.reply r).1) (w.reply r).2
      inferInstanceAs (Decidable (Holds w r ∧ (next (w.reply r).1).Each Holds (w.reply r).2))

@[simp] theorem each_ask (r : Request) (w : World) : (ask r).Each Holds w ↔ Holds w r :=
  and_iff_left trivial

theorem each_bind (x : Action α) (f : α → Action β) (w : World) :
    (x >>= f).Each Holds w ↔ x.Each Holds w ∧ (f (x.run w).1).Each Holds (x.run w).2 := by
  induction x generalizing w with
  | done a => exact (and_iff_right trivial).symm
  | request r next ih =>
      exact (and_congr_right fun _ => ih (w.reply r).1 (w.reply r).2).trans and_assoc.symm

theorem Each.map₂ {Holds' Holds'' : World → Request → Prop} {x : Action α} {w : World}
    (h : x.Each Holds w) (h' : x.Each Holds' w)
    (hboth : ∀ w r, Holds w r → Holds' w r → Holds'' w r) : x.Each Holds'' w := by
  induction x generalizing w with
  | done a => trivial
  | request r next ih => exact ⟨hboth w r h.1 h'.1, ih _ h.2 h'.2⟩

/-- What holds of each request whatever the world holds of all requests that are made. -/
theorem each_iff_requests {Holds : Request → Prop} (x : Action α) (w : World) :
    x.Each (fun _ r => Holds r) w ↔ ∀ r ∈ x.requests w, Holds r := by
  induction x generalizing w with
  | done a => simp [Each]
  | request r next ih =>
      rw [requests, List.forall_mem_cons]
      exact and_congr_right fun _ => ih _ _

/-! ## Each point -/

/-- Something holds at each point of an action, from its start to its end, given the requests that
were made before. -/
def Along (Holds : List Request → World → Prop) : List Request → Action α → World → Prop
  | past, .done _, w => Holds past w
  | past, .request r next, w =>
      Holds past w ∧ (next (w.reply r).1).Along Holds (past ++ [r]) (w.reply r).2

variable {Point : List Request → World → Prop} {past : List Request}

@[simp] theorem along_done (a : α) (w : World) :
    (Action.done a).Along Point past w ↔ Point past w := Iff.rfl

@[simp] theorem along_ask (r : Request) (w : World) :
    (ask r).Along Point past w ↔ Point past w ∧ Point (past ++ [r]) (w.reply r).2 := Iff.rfl

theorem Along.start {x : Action α} {w : World} (h : x.Along Point past w) : Point past w := by
  cases x with
  | done a => exact h
  | request r next => exact h.1

theorem Along.finish {x : Action α} {w : World} (h : x.Along Point past w) :
    Point (past ++ x.requests w) (x.run w).2 := by
  induction x generalizing w past with
  | done a => simpa [requests] using h
  | request r next ih =>
      have hend := ih _ h.2
      rwa [List.append_assoc] at hend

theorem Along.mono {x : Action α} {w : World} (h : x.Along Point past w)
    {Point' : List Request → World → Prop} (hmono : ∀ rs w, Point rs w → Point' rs w) :
    x.Along Point' past w := by
  induction x generalizing w past with
  | done a => exact hmono _ _ h
  | request r next ih => exact ⟨hmono _ _ h.1, ih _ h.2⟩

theorem Along.of_prefix {x : Action α} {w : World} (h : x.Along Point past w) {pre : List Request}
    (hpre : pre <+: x.requests w) : Point (past ++ pre) (w.after pre) := by
  induction x generalizing w past pre with
  | done a =>
      obtain rfl := List.prefix_nil.mp hpre
      simpa using h
  | request r next ih =>
      cases pre with
      | nil => simpa using h.1
      | cons r' pre =>
          obtain ⟨rfl, hpre⟩ := List.cons_prefix_cons.mp hpre
          have hrest := ih _ h.2 hpre
          rwa [List.append_assoc] at hrest

theorem along_bind (x : Action α) (f : α → Action β) (w : World) :
    (x >>= f).Along Point past w ↔
      x.Along Point past w ∧ (f (x.run w).1).Along Point (past ++ x.requests w) (x.run w).2 := by
  induction x generalizing w past with
  | done a =>
      rw [requests_done, List.append_nil]
      exact ⟨fun h => ⟨h.start, h⟩, fun h => h.2⟩
  | request r next ih =>
      have hrest : (next (w.reply r).1 >>= f).Along Point (past ++ [r]) (w.reply r).2 ↔ _ :=
        ih _ _
      rw [List.append_assoc] at hrest
      exact (and_congr_right fun _ => hrest).trans and_assoc.symm

end Action

/-! ## Attempts -/

namespace Attempt

variable {α β ε : Type} {w w' : World} {past : List Request}

theorem requests_bind {x : Attempt ε α} {f : α → Attempt ε β} {a : α}
    (h : x.run.run w = (.ok a, w')) :
    (x >>= f).run.requests w = x.run.requests w ++ (f a).run.requests w' := by
  rw [ExceptT.run_bind, Action.requests_bind, h]

theorem readings_bind {x : Attempt ε α} {f : α → Attempt ε β} {a : α}
    (h : x.run.run w = (.ok a, w')) :
    (x >>= f).run.readings w = x.run.readings w ++ (f a).run.readings w' := by
  rw [ExceptT.run_bind, Action.readings_bind, h]

theorem readings_bind_eq_nil {x : Attempt ε α} {f : α → Attempt ε β}
    (hx : x.run.readings w = []) (hf : ∀ a w', (f a).run.readings w' = []) :
    (x >>= f).run.readings w = [] := by
  rw [ExceptT.run_bind, Action.readings_bind, hx, List.nil_append]
  obtain ⟨r, w'⟩ := x.run.run w
  cases r with
  | ok a => exact hf a w'
  | error e => rfl

theorem each_bind {Holds : World → Request → Prop} {x : Attempt ε α}
    {f : α → Attempt ε β} {a : α} (h : x.run.run w = (.ok a, w')) :
    (x >>= f).run.Each Holds w ↔ x.run.Each Holds w ∧ (f a).run.Each Holds w' := by
  rw [ExceptT.run_bind, Action.each_bind, h]

/-- What holds of each request holds of those of the first part, whatever comes of it. -/
theorem each_of_bind {Holds : World → Request → Prop} {x : Attempt ε α}
    {f : α → Attempt ε β} (h : (x >>= f).run.Each Holds w) : x.run.Each Holds w := by
  rw [ExceptT.run_bind, Action.each_bind] at h
  exact h.1

/-- Something holds of each request if it does of those of the first part and, if that succeeds, of
those of the second. -/
theorem each_bind_of {Holds : World → Request → Prop} {x : Attempt ε α}
    {f : α → Attempt ε β} (hx : x.run.Each Holds w)
    (hf : ∀ a w', x.run.run w = (.ok a, w') → (f a).run.Each Holds w') :
    (x >>= f).run.Each Holds w := by
  rw [ExceptT.run_bind, Action.each_bind]
  refine ⟨hx, ?_⟩
  cases hrun : x.run.run w with
  | mk r w' =>
      cases r with
      | ok a => exact hf a w' hrun
      | error e => trivial

/-- Something holds at each point if it does while the first part goes on, and then, if that
succeeds, while the second does. -/
theorem along_bind {Point : List Request → World → Prop} {x : Attempt ε α}
    {f : α → Attempt ε β} (hx : x.run.Along Point past w)
    (hf : ∀ a w', x.run.run w = (.ok a, w') → Point (past ++ x.run.requests w) w' →
      (f a).run.Along Point (past ++ x.run.requests w) w') : (x >>= f).run.Along Point past w := by
  rw [ExceptT.run_bind, Action.along_bind]
  refine ⟨hx, ?_⟩
  have hend := hx.finish
  cases hrun : x.run.run w with
  | mk r w' =>
      rw [hrun] at hend
      cases r with
      | ok a => exact hf a w' hrun hend
      | error e => exact hend

/-! What only gives a result another form makes the same requests. -/

variable {ε' : Type} {Holds : World → Request → Prop} {Point : List Request → World → Prop}

theorem run_orFail_eq (a : Action (Except FileError α)) (failure : FileError → ε) :
    (orFail a failure).run = (a >>= fun r => pure (r.mapError failure)) := rfl

theorem run_always_eq (a : Action α) :
    (always a : Attempt ε α).run = (a >>= fun r => pure (.ok r)) := by
  unfold always
  rw [ExceptT.run_lift, map_eq_pure_bind]

theorem run_adapt_eq (x : Attempt ε α) (f : ε → ε') :
    (x.adapt f).run = (x.run >>= fun r => pure (r.mapError f)) :=
  map_eq_pure_bind (Except.mapError f) x.run

@[simp] theorem requests_pure (a : α) : (pure a : Attempt ε α).run.requests w = [] := rfl

@[simp] theorem requests_orFail (a : Action (Except FileError α)) (failure : FileError → ε) :
    (orFail a failure).run.requests w = a.requests w := by
  simp [run_orFail_eq, Action.requests_bind]

@[simp] theorem requests_always (a : Action α) :
    (always a : Attempt ε α).run.requests w = a.requests w := by
  simp [run_always_eq, Action.requests_bind]

theorem requests_adapt (x : Attempt ε α) (f : ε → ε') :
    (x.adapt f).run.requests w = x.run.requests w := by
  rw [run_adapt_eq, Action.requests_bind]
  exact List.append_nil _

@[simp] theorem readings_always (a : Action α) :
    (always a : Attempt ε α).run.readings w = a.readings w := by
  simp [run_always_eq, Action.readings_bind, Action.readings]

@[simp] theorem readings_orFail (a : Action (Except FileError α)) (failure : FileError → ε) :
    (orFail a failure).run.readings w = a.readings w := by
  simp [run_orFail_eq, Action.readings_bind, Action.readings]

theorem readings_adapt (x : Attempt ε α) (f : ε → ε') :
    (x.adapt f).run.readings w = x.run.readings w := by
  rw [run_adapt_eq, Action.readings_bind]
  exact List.append_nil _

@[simp] theorem each_orFail (a : Action (Except FileError α)) (failure : FileError → ε) :
    (orFail a failure).run.Each Holds w ↔ a.Each Holds w := by
  simp [run_orFail_eq, Action.each_bind, Action.Each]

@[simp] theorem each_always (a : Action α) :
    (always a : Attempt ε α).run.Each Holds w ↔ a.Each Holds w := by
  simp [run_always_eq, Action.each_bind, Action.Each]

theorem each_adapt (x : Attempt ε α) (f : ε → ε') :
    (x.adapt f).run.Each Holds w ↔ x.run.Each Holds w := by
  rw [run_adapt_eq, Action.each_bind]
  exact and_iff_left trivial

@[simp] theorem along_orFail (a : Action (Except FileError α)) (failure : FileError → ε) :
    (orFail a failure).run.Along Point past w ↔ a.Along Point past w := by
  rw [run_orFail_eq, Action.along_bind]
  exact ⟨fun h => h.1, fun h => ⟨h, h.finish⟩⟩

@[simp] theorem along_always (a : Action α) :
    (always a : Attempt ε α).run.Along Point past w ↔ a.Along Point past w := by
  rw [run_always_eq, Action.along_bind]
  exact ⟨fun h => h.1, fun h => ⟨h, h.finish⟩⟩

theorem along_adapt (x : Attempt ε α) (f : ε → ε') :
    (x.adapt f).run.Along Point past w ↔ x.run.Along Point past w := by
  rw [run_adapt_eq, Action.along_bind]
  exact ⟨fun h => h.1, fun h => ⟨h, h.finish⟩⟩

theorem eq_ok_of_toBool {x : Except FileError Unit} (h : x.toBool = true) : x = .ok () := by
  cases x with
  | ok _ => rfl
  | error e => cases h

theorem orFail_of_fulfils (a : Action (Except FileError Unit)) (failure : FileError → ε)
    (h : (a.run w).1.toBool = true) : (orFail a failure).run.run w = (.ok (), (a.run w).2) := by
  rw [run_orFail, eq_ok_of_toBool h]
  rfl

/-! What holds of each request can make one that asks for a change succeed. -/

theorem run_of_each {a : Action (Except FileError Unit)} {failure : FileError → ε}
    (h : (orFail a failure).run.Each Holds w) (ha : a.Each Holds w → (a.run w).1.toBool = true) :
    ∃ w₁, a.run w = (.ok (), w₁) ∧ (orFail a failure).run.run w = (.ok (), w₁) := by
  have hok := ha ((each_orFail a failure).mp h)
  exact ⟨_, Prod.ext (eq_ok_of_toBool hok) rfl, orFail_of_fulfils a failure hok⟩

theorem bind_of_each {a : Action (Except FileError Unit)} {failure : FileError → ε}
    {f : Unit → Attempt ε β} (h : (orFail a failure >>= f).run.Each Holds w)
    (ha : a.Each Holds w → (a.run w).1.toBool = true) :
    ∃ w₁, a.run w = (.ok (), w₁) ∧
      (orFail a failure >>= f).run.run w = (f ()).run.run w₁ ∧ (f ()).run.Each Holds w₁ := by
  obtain ⟨w₁, hrun, hok⟩ := run_of_each (each_of_bind h) ha
  exact ⟨w₁, hrun, bind_of_ok hok, ((each_bind hok).mp h).2⟩

end Attempt

end Rewrap
