import Rewrap.FileTree.Access
import Rewrap.Proofs.FileTree.Frame
import Rewrap.Proofs.Path.Respelling

/-! # Absolute paths

A tree is looked at from one of its folders, but an absolute path is followed from the top. So it
does not matter for such paths where the tree is looked at from. -/

namespace Rewrap

namespace Path

variable {p : Path}

theorem isAbsolute_iff : p.isAbsolute = true ↔ ∃ cs, p.text.toList = '/' :: cs := by
  simp [isAbsolute, List.head?_eq_some_iff]

theorem bareSteps_of_isAbsolute (h : p.isAbsolute = true) :
    ∃ names, p.bareSteps = .root :: names := by
  unfold bareSteps
  rw [h, if_pos rfl]
  exact ⟨_, rfl⟩

theorem exists_components_of_isAbsolute (h : p.isAbsolute = true) :
    ∃ cs, p.components = .root :: cs := by
  obtain ⟨cs, hcs⟩ := isAbsolute_iff.mp h
  unfold components
  rw [hcs]
  exact ⟨_, rfl⟩

end Path

namespace FileTree

/-- The tree, looked at from another folder. -/
def seenFrom (t : FileTree) (d : Place) : FileTree := { t with cwd := d }

variable {t : FileTree} {d : Place} {p q : Path}

@[simp] theorem get?_seenFrom (k : Place) : (t.seenFrom d).get? k = t.get? k := rfl

@[simp] theorem seenFrom_seenFrom (d' : Place) : (t.seenFrom d).seenFrom d' = t.seenFrom d' := rfl

@[simp] theorem seenFrom_cwd : t.seenFrom t.cwd = t := rfl

/-! ## Following -/

theorem followSteps_seenFrom (followLast : Bool)
    (onLink : Place → Path → List Path.Component → Except FileError Place) (k : Place)
    (steps : List Path.Component) :
    (t.seenFrom d).followSteps followLast onLink k steps =
      t.followSteps followLast onLink k steps := by
  induction steps generalizing k with
  | nil => rfl
  | cons c rest ih =>
      cases c with
      | root => exact ih []
      | here => exact ih k
      | up => exact ih k.dropLast
      | name n =>
          unfold followSteps
          rw [get?_seenFrom, ih]

theorem follow_seenFrom (followLast : Bool) (n : Nat) (k : Place) (steps : List Path.Component) :
    (t.seenFrom d).follow followLast n k steps = t.follow followLast n k steps := by
  induction n generalizing k steps with
  | zero => exact followSteps_seenFrom _ _ _ _
  | succ n ih =>
      unfold follow
      simp only [ih]
      exact followSteps_seenFrom _ _ _ _

theorem placeOf_seenFrom (followLast : Bool) (rest : List Path.Component) :
    (t.seenFrom d).placeOf followLast (.root :: rest) = t.placeOf followLast (.root :: rest) :=
  follow_seenFrom followLast linkLimit [] rest

theorem resolve_seenFrom (hp : p.isAbsolute = true) (followLast : Bool) :
    (t.seenFrom d).resolve followLast p = t.resolve followLast p := by
  obtain ⟨names, hnames⟩ := Path.bareSteps_of_isAbsolute hp
  unfold resolve
  cases hsteps : stepsOf p with
  | error e => rfl
  | ok steps =>
      obtain rfl := stepsOf_eq_ok hsteps
      rw [Path.steps_eq, hnames]
      exact placeOf_seenFrom followLast _

/-! ## Looking -/

theorem find?_seenFrom (hp : p.isAbsolute = true) : (t.seenFrom d).find? p = t.find? p := by
  unfold find?
  rw [resolve_seenFrom hp]
  rfl

theorem isPresent_seenFrom (hp : p.isAbsolute = true) :
    (t.seenFrom d).isPresent p = t.isPresent p :=
  congrArg Except.toBool (find?_seenFrom hp)

theorem read_seenFrom (hp : p.isAbsolute = true) : (t.seenFrom d).read p = t.read p := by
  unfold read
  rw [find?_seenFrom hp]

theorem filesWithin_seenFrom (levels : Nat) (k : Place) :
    (t.seenFrom d).filesWithin levels k = t.filesWithin levels k := by
  induction levels generalizing k with
  | zero => rfl
  | succ levels ih =>
      unfold filesWithin
      simp only [ih]
      rfl

theorem walk_seenFrom (hp : p.isAbsolute = true) : (t.seenFrom d).walk p = t.walk p := by
  unfold walk
  rw [resolve_seenFrom hp]
  simp only [filesWithin_seenFrom]
  rfl

/-! ## Changing -/

/-- The outcome of a change, with the tree after it looked at from another folder. -/
def Changed.seenFrom (c : Changed) (d : Place) : Changed := (c.1, c.2.seenFrom d)

/-- A change that is made in the tree as it is looked at from elsewhere. -/
theorem changing_seenFrom {change change' : Except FileError FileTree}
    (h : change' = change.map (·.seenFrom d)) :
    (t.seenFrom d).changing change' = Changed.seenFrom (t.changing change) d := by
  subst h
  cases change with
  | error e => rfl
  | ok u => rfl

theorem write_seenFrom (hp : p.isAbsolute = true) (b : ByteArray) :
    (t.seenFrom d).write p b = Changed.seenFrom (t.write p b) d := by
  obtain ⟨names, hnames⟩ := Path.bareSteps_of_isAbsolute hp
  refine changing_seenFrom ?_
  cases hsteps : stepsOf p with
  | error e => rfl
  | ok steps =>
      obtain rfl := stepsOf_eq_ok hsteps
      simp only [Except.bind_ok, Path.steps_eq, hnames]
      split
      · rw [List.dropLast_concat]
        cases names with
        | nil => rfl
        | cons c names =>
            rw [List.dropLast_cons_cons, List.cons_append, placeOf_seenFrom]
            cases t.placeOf true _ with
            | error e => rfl
            | ok k => rfl
      · rw [List.append_nil, placeOf_seenFrom]
        cases t.placeOf true (.root :: names) with
        | error e => rfl
        | ok k =>
            simp only [Except.bind_ok, get?_seenFrom]
            split
            · rfl
            · rfl

theorem removeFile_seenFrom (hp : p.isAbsolute = true) :
    (t.seenFrom d).removeFile p = Changed.seenFrom (t.removeFile p) d := by
  refine changing_seenFrom ?_
  rw [resolve_seenFrom hp]
  cases t.resolve false p with
  | error e => rfl
  | ok k =>
      simp only [Except.bind_ok, get?_seenFrom]
      split
      · rfl
      · rfl
      · rfl

theorem rename_seenFrom (hp : p.isAbsolute = true) (hq : q.isAbsolute = true) :
    (t.seenFrom d).rename p q = Changed.seenFrom (t.rename p q) d := by
  refine changing_seenFrom ?_
  rw [resolve_seenFrom hp, resolve_seenFrom hq]
  cases t.resolve false p with
  | error e => rfl
  | ok k =>
      cases t.resolve false q with
      | error e => rfl
      | ok k' =>
          simp only [Except.bind_ok, get?_seenFrom]
          split
          · rfl
          · rfl
          · rfl

theorem removeFolder_seenFrom (hp : p.isAbsolute = true) :
    (t.seenFrom d).removeFolder p = Changed.seenFrom (t.removeFolder p) d := by
  unfold removeFolder
  rw [resolve_seenFrom hp]
  cases t.resolve false p with
  | error e => rfl
  | ok k =>
      simp only [get?_seenFrom]
      split
      · rfl
      · rfl
      · rfl
      · split
        · rfl
        · rfl
        · rfl

/-! ## Making folders -/

theorem ensureFolder_seenFrom (rest : List Path.Component) :
    (t.seenFrom d).ensureFolder (.root :: rest) =
      Changed.seenFrom (t.ensureFolder (.root :: rest)) d := by
  have hadd : (t.seenFrom d).addFolder (.root :: rest) =
      (t.addFolder (.root :: rest)).map (·.seenFrom d) := by
    unfold addFolder
    rw [placeOf_seenFrom]
    cases t.placeOf false (.root :: rest) with
    | error e => rfl
    | ok k =>
        simp only [Except.bind_ok, get?_seenFrom]
        split
        · rfl
        · rfl
  have hget : (t.seenFrom d).get? = t.get? := rfl
  unfold ensureFolder
  rw [hadd, placeOf_seenFrom, hget]
  cases t.addFolder (.root :: rest) with
  | ok u => rfl
  | error e =>
      simp only [Except.map]
      generalize (t.placeOf true (.root :: rest)).toOption.bind t.get? = found
      split
      · rfl
      · rfl

theorem ensureFolderBelow_seenFrom (rest : List Path.Component) {above : FileTree → Changed}
    (habove : above (t.seenFrom d) = Changed.seenFrom (above t) d) :
    (t.seenFrom d).ensureFolderBelow (.root :: rest) above =
      Changed.seenFrom (t.ensureFolderBelow (.root :: rest) above) d := by
  unfold ensureFolderBelow
  rw [ensureFolder_seenFrom]
  generalize t.ensureFolder (.root :: rest) = done
  obtain ⟨res, u⟩ := done
  cases res with
  | ok _ => rfl
  | error e =>
      cases e with
      | notFound =>
          simp only [Changed.seenFrom, habove]
          generalize above t = made
          obtain ⟨res, v⟩ := made
          cases res with
          | error e => rfl
          | ok _ => exact ensureFolder_seenFrom rest
      | _ => rfl

theorem ensureFolders_seenFrom (above : List Path.Component) :
    (t.seenFrom d).ensureFolders (above ++ [.root]) =
      Changed.seenFrom (t.ensureFolders (above ++ [.root])) d := by
  induction above generalizing t with
  | nil => exact ensureFolderBelow_seenFrom [] rfl
  | cons c above ih =>
      have hsteps : (c :: (above ++ [.root])).reverse = .root :: (above.reverse ++ [c]) := by simp
      simp only [List.cons_append, ensureFolders, hsteps]
      exact ensureFolderBelow_seenFrom _ ih

theorem createFolders_seenFrom (hp : p.isAbsolute = true) :
    (t.seenFrom d).createFolders p = Changed.seenFrom (t.createFolders p) d := by
  obtain ⟨cs, hcs⟩ := Path.exists_components_of_isAbsolute hp
  obtain ⟨names, hnames⟩ := Path.bareSteps_of_isAbsolute hp
  unfold createFolders
  rw [hcs, List.reverse_cons]
  cases hsteps : stepsOf p with
  | error e =>
      cases cs.reverse with
      | nil => rfl
      | cons c above => rfl
  | ok steps =>
      obtain rfl := stepsOf_eq_ok hsteps
      have hbare : (if p.text.toList.getLast? = some '/' then p.steps.dropLast else p.steps) =
          .root :: names := by
        rw [Path.steps_eq, hnames]
        split
        · exact List.dropLast_concat
        · exact List.append_nil _
      cases cs.reverse with
      | nil =>
          simp only [List.nil_append, hbare]
          exact ensureFolderBelow_seenFrom names rfl
      | cons c above =>
          simp only [List.cons_append, hbare]
          exact ensureFolderBelow_seenFrom names (ensureFolders_seenFrom above)

end FileTree

end Rewrap
