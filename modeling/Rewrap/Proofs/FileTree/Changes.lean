import Rewrap.Proofs.FileTree.Frame

/-! # Reading and changing well-formed trees

What each change does, in one lemma: it fails, and then a write or a move leaves the tree as it is;
or it succeeds, and then the tree is known. The tree stays well-formed. -/

namespace Rewrap.FileTree

variable {t u : FileTree}

/-! ## Writing -/

theorem changing_of_ok {change : Except FileError FileTree} (h : change = .ok u) :
    t.changing change = (.ok (), u) := by
  subst h
  rfl

/-- Writing puts the file where the path leads, which is no folder and no link, or changes
nothing. -/
theorem write_cases (h : t.WellFormed) (p : Path) (b : ByteArray) :
    (∃ e, t.write p b = (.error e, t)) ∨
      ∃ k, t.resolve true p = .ok k ∧ p.text.toList.getLast? ≠ some '/' ∧
        t.get? k ≠ some .folder ∧
        (∀ q, t.get? k ≠ some (.link q)) ∧ t.write p b = (.ok (), t.put k (.file b)) ∧
        (t.put k (.file b)).WellFormed := by
  unfold write changing
  split
  · next u hu =>
      right
      obtain ⟨steps, hsteps, hu⟩ := Except.bind_eq_ok.mp hu
      obtain rfl := stepsOf_eq_ok hsteps
      split at hu
      · obtain ⟨-, -, hu⟩ := Except.bind_eq_ok.mp hu
        simp at hu
      · next hslash =>
        obtain ⟨k, hk, hu⟩ := Except.bind_eq_ok.mp hu
        have hspot := placeOf_isSpot h (Path.areProper_steps p) hk
        refine ⟨k, by rw [resolve_of_placeOf hsteps, hk], hslash, ?_⟩
        rcases hspot with hfolder | ⟨k', n, rfl, hn, hparent, hlink⟩
        · simp [hfolder] at hu
        · have hfolder : t.get? (k' ++ [n]) ≠ some .folder := by
            intro hfolder
            simp [hfolder] at hu
          have hput : u = t.put (k' ++ [n]) (.file b) := by
            split at hu
            · next hfolder' => exact absurd hfolder' hfolder
            · exact (Except.ok.inj hu).symm
          subst hput
          exact ⟨hfolder, hlink rfl, rfl, h.put hn hparent hfolder⟩
  · next e he => exact .inl ⟨e, rfl⟩

/-- Writing succeeds where the path leads to no folder and its text ends in no slash. -/
theorem write_of_resolve {p : Path} {k : Place} (hk : t.resolve true p = .ok k)
    (hfolder : t.get? k ≠ some .folder) (hslash : p.text.toList.getLast? ≠ some '/')
    (b : ByteArray) : t.write p b = (.ok (), t.put k (.file b)) := by
  obtain ⟨hsteps, hplace⟩ := resolve_eq_ok hk
  apply changing_of_ok
  refine Except.bind_eq_ok.mpr ⟨p.steps, hsteps, ?_⟩
  rw [if_neg hslash]
  refine Except.bind_eq_ok.mpr ⟨k, hplace, ?_⟩
  split
  · next hfolder' => exact absurd hfolder' hfolder
  · rfl

/-! ## Reading -/

theorem find?_of_resolve {p : Path} {k : Place} {e : Entry} (hk : t.resolve true p = .ok k)
    (he : t.get? k = some e) : t.find? p = .ok e := by
  refine Except.bind_eq_ok.mpr ⟨k, hk, ?_⟩
  rw [he]

theorem read_eq_ok {p : Path} {b : ByteArray} (h : t.read p = .ok b) :
    ∃ k, t.resolve true p = .ok k ∧ t.get? k = some (.file b) := by
  obtain ⟨e, hfind, hb⟩ := Except.bind_eq_ok.mp h
  obtain ⟨k, hk, he⟩ := Except.bind_eq_ok.mp hfind
  refine ⟨k, hk, ?_⟩
  split at he
  · next e' he' =>
      cases he
      cases e with
      | file content =>
          cases hb
          exact he'
      | folder => simp at hb
      | link p => simp at hb
  · simp at he

theorem read_of_resolve {p : Path} {k : Place} {b : ByteArray} (hk : t.resolve true p = .ok k)
    (hb : t.get? k = some (.file b)) : t.read p = .ok b :=
  Except.bind_eq_ok.mpr ⟨_, find?_of_resolve hk hb, rfl⟩

/-- Steps that end in a dot lead to a folder. -/
theorem followSteps_here (h : t.WellFormed)
    {onLink : Place → Path → List Path.Component → Except FileError Place}
    (hlink : ∀ k p rest r, t.get? k = some .folder → onLink k p (rest ++ [.here]) = .ok r →
      t.get? r = some .folder)
    {k r : Place} {steps : List Path.Component} (hk : t.get? k = some .folder)
    (hr : t.followSteps true onLink k (steps ++ [.here]) = .ok r) : t.get? r = some .folder := by
  induction steps generalizing k with
  | nil =>
      cases hr
      exact hk
  | cons c rest ih =>
      cases c with
      | root => exact ih rfl hr
      | here => exact ih hk hr
      | up => exact ih (h.dropLast hk) hr
      | name n =>
          have hmore : (rest ++ [Path.Component.here]).isEmpty = false := by simp
          rw [List.cons_append] at hr
          unfold followSteps at hr
          split at hr
          · cases hr
          · split at hr
            · next hfolder => exact ih hfolder hr
            · rw [hmore] at hr
              cases hr
            · rw [hmore] at hr
              exact hlink k _ rest r hk hr
            · rw [hmore] at hr
              cases hr

theorem follow_here (h : t.WellFormed) {n : Nat} {k r : Place} {steps : List Path.Component}
    (hk : t.get? k = some .folder) (hr : t.follow true n k (steps ++ [.here]) = .ok r) :
    t.get? r = some .folder := by
  induction n generalizing k steps r with
  | zero => exact followSteps_here h (by simp) hk hr
  | succ n ih =>
      refine followSteps_here h (fun k p rest r hk hr => ?_) hk hr
      rw [← List.append_assoc] at hr
      exact ih hk hr

/-- A file that can be read can be written. -/
theorem write_of_read (h : t.WellFormed) {p : Path} {b : ByteArray} (hread : t.read p = .ok b)
    (b' : ByteArray) :
    ∃ k, t.resolve true p = .ok k ∧ t.get? k = some (.file b) ∧
      t.write p b' = (.ok (), t.put k (.file b')) := by
  obtain ⟨k, hk, hfile⟩ := read_eq_ok hread
  refine ⟨k, hk, hfile, write_of_resolve hk (by simp [hfile]) (fun hslash => ?_) b'⟩
  have hplace := (resolve_eq_ok hk).2
  rw [Path.steps_eq, if_pos hslash] at hplace
  have hfolder := follow_here h h.cwd hplace
  rw [hfile] at hfolder
  cases hfolder

theorem isPresent_of_resolve {p : Path} {k : Place} {e : Entry} (hk : t.resolve true p = .ok k)
    (he : t.get? k = some e) : t.isPresent p = true := by
  rw [isPresent, find?_of_resolve hk he]
  rfl

theorem isPresent_of_vacant {p : Path} {k : Place} (hk : t.resolve true p = .ok k)
    (hvacant : t.get? k = none) : t.isPresent p = false := by
  have hfind : t.find? p = .error .notFound := by
    unfold find?
    rw [hk, Except.bind_ok, hvacant]
  rw [isPresent, hfind]
  rfl

/-! ## A link at the end -/

/-- Whether a link at the end is followed makes no difference unless there is one. -/
theorem followSteps_true_cases
    {onLink onLink' : Place → Path → List Path.Component → Except FileError Place}
    (hlink : ∀ k p rest r, rest ≠ [] → onLink k p rest = .ok r → onLink' k p rest = .ok r ∨
      ∃ r' q, onLink' k p rest = .ok r' ∧ t.get? r' = some (.link q))
    {k r : Place} {steps : List Path.Component} (hr : t.followSteps true onLink k steps = .ok r) :
    t.followSteps false onLink' k steps = .ok r ∨
      ∃ r' q, t.followSteps false onLink' k steps = .ok r' ∧ t.get? r' = some (.link q) := by
  induction steps generalizing k with
  | nil => exact .inl hr
  | cons c rest ih =>
      cases c with
      | root => exact ih hr
      | here => exact ih hr
      | up => exact ih hr
      | name n =>
          unfold followSteps at hr ⊢
          split at hr
          · simp at hr
          · next hlength =>
              rw [if_neg hlength]
              cases hget : t.get? (k ++ [n]) with
              | none =>
                  simp only [hget] at hr
                  exact .inl hr
              | some e =>
                  cases e with
                  | folder =>
                      simp only [hget] at hr
                      exact ih hr
                  | file b =>
                      simp only [hget] at hr
                      exact .inl hr
                  | link q =>
                      simp only [hget, Bool.not_true, Bool.and_false, Bool.false_eq_true, if_false]
                        at hr
                      cases rest with
                      | nil => exact .inr ⟨k ++ [n], q, by simp, hget⟩
                      | cons c rest => simpa using hlink k q (c :: rest) r (by simp) hr

theorem follow_true_cases {n : Nat} {k r : Place} {steps : List Path.Component}
    (hr : t.follow true n k steps = .ok r) :
    t.follow false n k steps = .ok r ∨
      ∃ r' q, t.follow false n k steps = .ok r' ∧ t.get? r' = some (.link q) := by
  induction n generalizing k steps r with
  | zero => exact followSteps_true_cases (by simp) hr
  | succ n ih => exact followSteps_true_cases (fun k p rest r _ hr => ih hr) hr

theorem followSteps_true_of_false
    {onLink onLink' : Place → Path → List Path.Component → Except FileError Place}
    (hlink : ∀ k p rest r, onLink k p rest = .ok r → (∀ q, t.get? r ≠ some (.link q)) →
      onLink' k p rest = .ok r)
    {k r : Place} {steps : List Path.Component} (hr : t.followSteps false onLink k steps = .ok r)
    (hno : ∀ q, t.get? r ≠ some (.link q)) : t.followSteps true onLink' k steps = .ok r := by
  induction steps generalizing k with
  | nil => exact hr
  | cons c rest ih =>
      cases c with
      | root => exact ih hr
      | here => exact ih hr
      | up => exact ih hr
      | name n =>
          unfold followSteps at hr ⊢
          split at hr
          · simp at hr
          · next hlength =>
              rw [if_neg hlength]
              cases hget : t.get? (k ++ [n]) with
              | none =>
                  simp only [hget] at hr
                  exact hr
              | some e =>
                  cases e with
                  | folder =>
                      simp only [hget] at hr
                      exact ih hr
                  | file b =>
                      simp only [hget] at hr
                      exact hr
                  | link q =>
                      simp only [hget, Bool.not_false, Bool.and_true] at hr
                      simp only [Bool.not_true, Bool.and_false, Bool.false_eq_true, if_false]
                      split at hr
                      · cases hr
                        exact absurd hget (hno q)
                      · exact hlink k q rest r hr hno

theorem follow_true_of_false {n : Nat} {k r : Place} {steps : List Path.Component}
    (hr : t.follow false n k steps = .ok r) (hno : ∀ q, t.get? r ≠ some (.link q)) :
    t.follow true n k steps = .ok r := by
  induction n generalizing k steps r with
  | zero => exact followSteps_true_of_false (by simp) hr hno
  | succ n ih => exact followSteps_true_of_false (fun k p rest r hr hno => ih hr hno) hr hno

theorem resolve_true_of_false {p : Path} {r : Place} (hr : t.resolve false p = .ok r)
    (hno : ∀ q, t.get? r ≠ some (.link q)) : t.resolve true p = .ok r := by
  obtain ⟨hsteps, hplace⟩ := resolve_eq_ok hr
  rw [resolve_of_placeOf hsteps]
  exact follow_true_of_false hplace hno

/-! ## Folders -/

/-- The tree after a change that makes folders and nothing else. -/
def Grows (t u : FileTree) : Prop := u.WellFormed ∧ Frame Nowhere Anywhere t u

theorem Grows.refl (h : t.WellFormed) : Grows t t := ⟨h, Frame.refl _ _ t⟩

theorem Grows.trans {v : FileTree} (h : Grows t u) (h' : Grows u v) : Grows t v :=
  ⟨h'.1, h.2.trans h'.2⟩

/-- Making a folder grows the tree, and when it succeeds the steps lead to a folder. -/
theorem ensureFolder_spec (h : t.WellFormed) {steps : List Path.Component}
    (hsteps : Path.AreProper steps) :
    Grows t (t.ensureFolder steps).2 ∧
      ((t.ensureFolder steps).1 = .ok () →
        ∃ k, (t.ensureFolder steps).2.placeOf true steps = .ok k ∧
          (t.ensureFolder steps).2.get? k = some .folder) := by
  unfold ensureFolder
  split
  · next u hu =>
      obtain ⟨k, hk, hu⟩ := Except.bind_eq_ok.mp hu
      split at hu
      · simp at hu
      · next hvacant =>
          cases hu
          have hfolder : t.get? k ≠ some .folder := by simp [hvacant]
          have hlink : ∀ q, t.get? k ≠ some (.link q) := by simp [hvacant]
          rcases placeOf_isSpot h hsteps hk with hfolder' | ⟨k', n, rfl, hn, hparent, -⟩
          · exact absurd hfolder' hfolder
          · have hframe : Frame Nowhere Anywhere t (t.put (k' ++ [n]) .folder) :=
              (frame_put_folder hvacant).mono (fun _ h => h) fun _ _ => trivial
            refine ⟨⟨h.put hn hparent hfolder, hframe⟩,
              fun _ => ⟨k' ++ [n], ?_, get?_put_self (by simp)⟩⟩
            exact hframe.placeOf (follow_true_of_false hk hlink)
  · next e _ =>
      split
      · next hfolder =>
          obtain ⟨k, hk, hfolder⟩ := Option.bind_eq_some_iff.mp hfolder
          refine ⟨Grows.refl h, fun _ => ⟨k, ?_, hfolder⟩⟩
          cases hplace : t.placeOf true steps with
          | ok k' =>
              simp only [hplace, Except.toOption, Option.some.injEq] at hk
              rw [hk]
          | error e => simp [hplace, Except.toOption] at hk
      · exact ⟨Grows.refl h, by simp⟩

theorem ensureFolderBelow_spec (h : t.WellFormed) {steps : List Path.Component}
    (hsteps : Path.AreProper steps) (ensureAbove : FileTree → Changed)
    (habove : Grows t (ensureAbove t).2) :
    Grows t (t.ensureFolderBelow steps ensureAbove).2 ∧
      ((t.ensureFolderBelow steps ensureAbove).1 = .ok () →
        ∃ k, (t.ensureFolderBelow steps ensureAbove).2.placeOf true steps = .ok k ∧
          (t.ensureFolderBelow steps ensureAbove).2.get? k = some .folder) := by
  unfold ensureFolderBelow
  split
  · split
    · next u hu =>
        have hgrows : Grows t u := by
          rw [hu] at habove
          exact habove
        obtain ⟨hgrows', hplace⟩ := ensureFolder_spec hgrows.1 hsteps
        exact ⟨hgrows.trans hgrows', hplace⟩
    · next hfailed =>
        refine ⟨habove, fun hok => ?_⟩
        exact (hfailed _ (Prod.ext hok rfl)).elim
  · exact ensureFolder_spec h hsteps

theorem ensureFolders_grows (h : t.WellFormed) {above : List Path.Component}
    (hsteps : Path.AreProper above) : Grows t (t.ensureFolders above).2 := by
  induction above generalizing t with
  | nil => exact Grows.refl h
  | cons c above ih =>
      have habove : Path.AreProper above := fun n hn => hsteps n (by simp [hn])
      have hreverse : Path.AreProper (c :: above).reverse := fun n hn =>
        hsteps n (List.mem_reverse.mp hn)
      exact (ensureFolderBelow_spec h hreverse (fun t => t.ensureFolders above) (ih h habove)).1

/-- The path leads to a folder, or is empty. -/
def HasFolder (t : FileTree) (p : Path) : Prop :=
  p.components = [] ∨ (stepsOf p = .ok p.steps ∧
    ∃ k, t.placeOf true p.bareSteps = .ok k ∧ t.get? k = some .folder)

theorem HasFolder.frame {files folders : Place → Prop} {p : Path} (h : t.HasFolder p)
    (hframe : Frame files folders t u) : u.HasFolder p := by
  rcases h with h | ⟨hsteps, k, hk, hfolder⟩
  · exact .inl h
  · exact .inr ⟨hsteps, k, hframe.placeOf hk, hframe.folder k hfolder⟩

theorem bareSteps_eq (p : Path) :
    (if p.text.toList.getLast? = some '/' then p.steps.dropLast else p.steps) = p.bareSteps := by
  rw [Path.steps_eq]
  split <;> simp

/-- Making folders grows the tree, and when it succeeds the path leads to a folder. -/
theorem createFolders_spec (h : t.WellFormed) (p : Path) :
    Grows t (t.createFolders p).2 ∧
      ((t.createFolders p).1 = .ok () → (t.createFolders p).2.HasFolder p) := by
  unfold createFolders
  split
  · next hnil => exact ⟨Grows.refl h, fun _ => .inl (by simpa using hnil)⟩
  · exact ⟨Grows.refl h, by simp⟩
  · next c above steps hcomponents hsteps =>
      obtain rfl := stepsOf_eq_ok hsteps
      simp only [bareSteps_eq]
      have habove : Path.AreProper above := by
        intro n hn
        have hmem : .name n ∈ p.components := by
          rw [← List.mem_reverse, hcomponents]
          simp [hn]
        exact Path.areProper_components p n hmem
      obtain ⟨hgrows, hplace⟩ :=
        ensureFolderBelow_spec h (Path.areProper_bareSteps p) (fun t => t.ensureFolders above)
          (ensureFolders_grows h habove)
      exact ⟨hgrows, fun hok => .inr ⟨hsteps, hplace hok⟩⟩

/-- Where the folder is there, making it changes nothing. -/
theorem createFolders_of_hasFolder {p : Path} (h : t.HasFolder p) :
    t.createFolders p = (.ok (), t) := by
  unfold createFolders
  split
  · rfl
  · next e hsteps hcomponents =>
      rcases h with h | ⟨hsteps', -⟩
      · exact (hcomponents (by simp [h])).elim
      · simp [hsteps'] at hsteps
  · next c above steps hcomponents hsteps =>
      obtain rfl := stepsOf_eq_ok hsteps
      simp only [bareSteps_eq]
      rcases h with h | ⟨-, k, hk, hfolder⟩
      · simp [h] at hcomponents
      · have hadd : t.addFolder p.bareSteps = .error .alreadyThere := by
          unfold addFolder
          rcases follow_true_cases hk with hfalse | ⟨k', q, hfalse, hlink⟩
          · have hfalse : t.placeOf false p.bareSteps = .ok k := hfalse
            rw [hfalse]
            simp [bind, Except.bind, hfolder]
          · have hfalse : t.placeOf false p.bareSteps = .ok k' := hfalse
            rw [hfalse]
            simp [bind, Except.bind, hlink]
        have hensure : t.ensureFolder p.bareSteps = (.ok (), t) := by
          unfold ensureFolder
          rw [hadd]
          simp [hk, Except.toOption, hfolder]
        unfold ensureFolderBelow
        rw [hensure]

/-! ## A folder in a folder -/

theorem followSteps_append {tail : List Path.Component} {followLast : Bool}
    {onLink onLink' : Place → Path → List Path.Component → Except FileError Place} {S : Place}
    {res : Except FileError Place} (htail : tail ≠ []) (hfolder : t.get? S = some .folder)
    (hS : ∀ onLink, t.followSteps followLast onLink S tail = res)
    (hlink : ∀ k p rest, onLink k p rest = .ok S → onLink' k p (rest ++ tail) = res)
    {k : Place} {steps : List Path.Component} (h : t.followSteps true onLink k steps = .ok S) :
    t.followSteps followLast onLink' k (steps ++ tail) = res := by
  induction steps generalizing k with
  | nil =>
      cases h
      exact hS onLink'
  | cons c rest ih =>
      cases c with
      | root => exact ih h
      | here => exact ih h
      | up => exact ih h
      | name n =>
          have hmore : (rest ++ tail).isEmpty = false := by simp [htail]
          rw [List.cons_append]
          unfold followSteps at h ⊢
          split at h
          · simp at h
          · next hlength =>
              rw [if_neg hlength]
              cases hget : t.get? (k ++ [n]) with
              | none =>
                  simp only [hget] at h
                  split at h
                  · cases h
                    simp [hget] at hfolder
                  · simp at h
              | some e =>
                  cases e with
                  | folder =>
                      simp only [hget] at h
                      exact ih h
                  | file b =>
                      simp only [hget] at h
                      split at h
                      · cases h
                        simp [hget] at hfolder
                      · simp at h
                  | link q =>
                      simp only [hget, Bool.not_true, Bool.and_false, Bool.false_eq_true, if_false]
                        at h
                      simp only [hmore, Bool.false_and, Bool.false_eq_true, if_false]
                      exact hlink k q rest h

theorem follow_append {tail : List Path.Component} {followLast : Bool} {S : Place}
    {res : Except FileError Place} (htail : tail ≠ []) (hfolder : t.get? S = some .folder)
    (hS : ∀ onLink, t.followSteps followLast onLink S tail = res) {n : Nat} {k : Place}
    {steps : List Path.Component} (h : t.follow true n k steps = .ok S) :
    t.follow followLast n k (steps ++ tail) = res := by
  induction n generalizing k steps with
  | zero => exact followSteps_append htail hfolder hS (by simp) h
  | succ n ih =>
      refine followSteps_append htail hfolder hS (fun k p rest h => ?_) h
      rw [← List.append_assoc]
      exact ih h

theorem HasFolder.exists_place (h : t.WellFormed) {p : Path} (hp : t.HasFolder p) :
    ∃ S, t.placeOf true p.bareSteps = .ok S ∧ t.get? S = some .folder := by
  rcases hp with hnil | ⟨-, S, hS, hfolder⟩
  · rw [Path.bareSteps_of_components_eq_nil hnil]
    exact ⟨t.cwd, rfl, h.cwd⟩
  · exact ⟨S, hS, hfolder⟩

theorem createFolders_join {p : Path} {S : Place} {n : String} (hn : Path.IsName n)
    (hS : t.placeOf true p.bareSteps = .ok S) (hfolder : t.get? S = some .folder) :
    Frame Nowhere (· = S ++ [n]) t (t.createFolders (p.join ⟨n⟩)).2 := by
  have hstep : t.placeOf false (p.bareSteps ++ [.name n]) =
      if nameLimit < n.utf8ByteSize then .error .nameTooLong else .ok (S ++ [n]) := by
    refine follow_append (by simp) hfolder (fun onLink => ?_) hS
    unfold followSteps
    split
    · rfl
    · split <;> simp [followSteps]
  have hensure : Frame Nowhere (· = S ++ [n]) t (t.ensureFolder (p.bareSteps ++ [.name n])).2 ∧
      (t.ensureFolder (p.bareSteps ++ [.name n])).1 ≠ .error .notFound := by
    unfold ensureFolder addFolder
    rw [hstep]
    split
    · next u hu =>
        obtain ⟨k, hk, hu⟩ := Except.bind_eq_ok.mp hu
        split at hk
        · simp at hk
        · cases hk
          split at hu
          · simp at hu
          · next hvacant =>
              cases hu
              exact ⟨frame_put_folder hvacant, by simp⟩
    · next e he =>
        have hne : e ≠ .notFound := by
          rintro rfl
          rcases Except.bind_eq_error.mp he with hk | ⟨k, -, hk⟩
          · split at hk <;> simp at hk
          · split at hk <;> simp [pure, Except.pure] at hk
        split
        · exact ⟨Frame.refl _ _ t, by simp⟩
        · exact ⟨Frame.refl _ _ t, by simpa using hne⟩
  unfold createFolders
  split
  · exact Frame.refl _ _ t
  · exact Frame.refl _ _ t
  · next c above steps hcomponents hsteps =>
      obtain rfl := stepsOf_eq_ok hsteps
      simp only [bareSteps_eq, Path.bareSteps_join hn]
      unfold ensureFolderBelow
      split
      · next u hu => simp [hu] at hensure
      · exact hensure.1

/-! ## Moving -/

theorem get?_erase_of_ne {k k' : Place} (h : k' ≠ k) : (t.erase k).get? k' = t.get? k' := by
  rw [get?_erase, if_neg fun hk => h hk.2]

/-- Nothing stands below a place that is taken away. -/
theorem WellFormed.erase_of_bare (h : t.WellFormed) {k : Place} (hcwd : t.cwd ≠ k)
    (hbare : ∀ n, t.get? (k ++ [n]) = none) : (t.erase k).WellFormed where
  nodup := h.nodup.sublist (List.filter_sublist.map _)
  top := by
    have htop := h.top
    unfold FileTree.erase
    rw [lookup_filter_ne]
    simp [htop]
  cwd := (get?_erase_of_ne hcwd).trans h.cwd
  parent := by
    intro k' n' hsome
    have hsome' : t.get? (k' ++ [n']) ≠ none := by
      intro hnone
      rw [get?_erase, hnone] at hsome
      simp at hsome
    have hne : k' ≠ k := fun heq => hsome' (heq ▸ hbare n')
    rw [get?_erase_of_ne hne]
    exact h.parent k' n' hsome'
  name := by
    intro k' n' hsome
    refine h.name k' n' fun hnone => ?_
    rw [get?_erase, hnone] at hsome
    simp at hsome

theorem WellFormed.erase (h : t.WellFormed) {k : Place} (hk : t.get? k ≠ some .folder) :
    (t.erase k).WellFormed := by
  refine h.erase_of_bare (fun heq => hk (heq ▸ h.cwd)) fun n => ?_
  by_contra hsome
  exact hk (h.parent k n hsome)

theorem frame_erase_file {k : Place} {b : ByteArray} (hk : t.get? k = some (.file b)) :
    Frame (· = k) Nowhere t (t.erase k) := by
  refine ⟨rfl, fun k' hk' => ?_, fun k' q => ?_, fun k' hk' b' => ?_, fun k' hk' => ?_⟩
  · have hne : k' ≠ k := by
      rintro rfl
      simp [hk] at hk'
    rw [get?_erase_of_ne hne]
    exact hk'
  · rw [get?_erase]
    split
    · next heq => simp [heq.2, hk]
    · exact Iff.rfl
  · rw [get?_erase_of_ne hk']
  · rw [get?_erase] at hk'
    split at hk'
    · simp at hk'
    · exact .inl hk'

/-- Moving puts what stood at the one place at the other, which is no folder, or changes nothing. -/
theorem rename_cases (source target : Path) :
    (∃ e, t.rename source target = (.error e, t)) ∨
      ∃ k k' e, t.resolve false source = .ok k ∧ t.resolve false target = .ok k' ∧
        t.get? k = some e ∧ t.get? k' ≠ some .folder ∧
        t.rename source target = (.ok (), (t.erase k).put k' e) := by
  unfold rename changing
  split
  · next u hu =>
      right
      obtain ⟨k, hk, hu⟩ := Except.bind_eq_ok.mp hu
      obtain ⟨k', hk', hu⟩ := Except.bind_eq_ok.mp hu
      split at hu
      · simp at hu
      · simp at hu
      · next _ e he hfolder =>
          cases hu
          exact ⟨k, k', e, hk, hk', he, hfolder, rfl⟩
  · next e _ => exact .inl ⟨e, rfl⟩

theorem rename_of_resolve {source target : Path} {k k' : Place} {e : Entry}
    (hk : t.resolve false source = .ok k) (hk' : t.resolve false target = .ok k')
    (he : t.get? k = some e) (hfolder : t.get? k' ≠ some .folder) :
    t.rename source target = (.ok (), (t.erase k).put k' e) := by
  apply changing_of_ok
  refine Except.bind_eq_ok.mpr ⟨k, hk, ?_⟩
  refine Except.bind_eq_ok.mpr ⟨k', hk', ?_⟩
  rw [he]
  split
  · next hnone => simp at hnone
  · next hfolder' => exact absurd hfolder' hfolder
  · next hsome _ =>
      cases hsome
      rfl

end Rewrap.FileTree
