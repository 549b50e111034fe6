import Rewrap.Proofs.FileTree.Frame

/-! # Where a path leads

The place to which steps lead once all folders on the way are there. It depends on the links alone,
so it stays the same while folders are made and files are written. -/

namespace Rewrap.FileTree

/-! ## Leading -/

/-- Where steps lead up to a link that has to be followed, whether or not the folders are there. -/
def leadSteps (t : FileTree) (followLast : Bool)
    (onLink : Place → Path → List Path.Component → Option Place) :
    Place → List Path.Component → Option Place
  | k, [] => some k
  | _, .root :: rest => leadSteps t followLast onLink [] rest
  | k, .here :: rest => leadSteps t followLast onLink k rest
  | k, .up :: rest => leadSteps t followLast onLink k.dropLast rest
  | k, .name n :: rest =>
      match t.get? (k ++ [n]) with
      | some (.link target) =>
          if rest.isEmpty && !followLast then some (k ++ [n]) else onLink k target rest
      | _ => leadSteps t followLast onLink (k ++ [n]) rest

/-- Where steps lead through at most `n` links. -/
def lead (t : FileTree) (followLast : Bool) : Nat → Place → List Path.Component → Option Place
  | 0 => t.leadSteps followLast fun _ _ _ => none
  | n + 1 => t.leadSteps followLast fun k target rest =>
      lead t followLast n k (target.steps ++ rest)

/-- Where a path leads, through all links. -/
def leadOf (t : FileTree) (p : Path) : Option Place := t.lead true linkLimit t.cwd p.bareSteps

variable {t u : FileTree} {followLast : Bool}

theorem leadSteps_name (onLink : Place → Path → List Path.Component → Option Place)
    (k : Place) (n : String) (rest : List Path.Component) :
    t.leadSteps followLast onLink k (.name n :: rest) =
      match t.get? (k ++ [n]) with
      | some (.link target) =>
          if rest.isEmpty && !followLast then some (k ++ [n]) else onLink k target rest
      | _ => t.leadSteps followLast onLink (k ++ [n]) rest := rfl

theorem leadSteps_of_followSteps
    {onLink : Place → Path → List Path.Component → Except FileError Place}
    {onLink' : Place → Path → List Path.Component → Option Place}
    (hlink : ∀ k p rest r, onLink k p rest = .ok r → onLink' k p rest = some r)
    {k r : Place} {steps : List Path.Component}
    (hr : t.followSteps followLast onLink k steps = .ok r) :
    t.leadSteps followLast onLink' k steps = some r := by
  induction steps generalizing k with
  | nil =>
      cases hr
      rfl
  | cons c rest ih =>
      cases c with
      | root => exact ih hr
      | here => exact ih hr
      | up => exact ih hr
      | name n =>
          unfold followSteps at hr
          rw [leadSteps_name]
          split at hr
          · simp at hr
          · cases hget : t.get? (k ++ [n]) with
            | none =>
                simp only [hget] at hr ⊢
                split at hr
                · next hempty =>
                    obtain rfl := List.isEmpty_iff.mp hempty
                    cases hr
                    rfl
                · simp at hr
            | some e =>
                cases e with
                | folder =>
                    simp only [hget] at hr
                    exact ih hr
                | file b =>
                    simp only [hget] at hr ⊢
                    split at hr
                    · next hempty =>
                        obtain rfl := List.isEmpty_iff.mp hempty
                        cases hr
                        rfl
                    · simp at hr
                | link q =>
                    simp only [hget] at hr ⊢
                    split at hr
                    · next hlast =>
                        cases hr
                        rw [if_pos hlast]
                    · next hmore =>
                        rw [if_neg hmore]
                        exact hlink k q rest r hr

theorem lead_of_follow {n : Nat} {k r : Place} {steps : List Path.Component}
    (hr : t.follow followLast n k steps = .ok r) : t.lead followLast n k steps = some r := by
  induction n generalizing k steps r with
  | zero => exact leadSteps_of_followSteps (by simp) hr
  | succ n ih => exact leadSteps_of_followSteps (fun k p rest r hr => ih hr) hr

/-! ## The same links -/

theorem leadSteps_congr (hlink : ∀ k p, u.get? k = some (.link p) ↔ t.get? k = some (.link p))
    (onLink : Place → Path → List Path.Component → Option Place) (k : Place)
    (steps : List Path.Component) :
    u.leadSteps followLast onLink k steps = t.leadSteps followLast onLink k steps := by
  induction steps generalizing k with
  | nil => rfl
  | cons c rest ih =>
      cases c with
      | root => exact ih []
      | here => exact ih k
      | up => exact ih k.dropLast
      | name n =>
          rw [leadSteps_name, leadSteps_name]
          split
          · next q hq => rw [(hlink _ q).mp hq]
          · next hno =>
              split
              · next q hq => exact absurd ((hlink _ q).mpr hq) (hno q)
              · exact ih (k ++ [n])

theorem lead_congr (hlink : ∀ k p, u.get? k = some (.link p) ↔ t.get? k = some (.link p))
    (n : Nat) (k : Place) (steps : List Path.Component) :
    u.lead followLast n k steps = t.lead followLast n k steps := by
  induction n generalizing k steps with
  | zero => exact leadSteps_congr hlink _ k steps
  | succ n ih =>
      unfold lead
      rw [leadSteps_congr hlink]
      simp only [ih]

theorem Frame.leadOf {files folders : Place → Prop} (h : Frame files folders t u) (p : Path) :
    u.leadOf p = t.leadOf p := by
  unfold FileTree.leadOf
  rw [h.cwd, lead_congr h.link]

/-! ## Going on -/

/-- Steps followed by others lead where the others lead from there on, if these meet no link. -/
theorem leadSteps_append {tail : List Path.Component} (htail : tail ≠ [])
    {onLink onLink' : Place → Path → List Path.Component → Option Place} {S K : Place}
    (hS : ∀ onLink, t.leadSteps followLast onLink S tail = some K)
    (hlink : ∀ k p rest, onLink k p rest = some S → onLink' k p (rest ++ tail) = some K)
    {k : Place} {steps : List Path.Component} (h : t.leadSteps true onLink k steps = some S) :
    t.leadSteps followLast onLink' k (steps ++ tail) = some K := by
  induction steps generalizing k with
  | nil =>
      cases h
      exact hS onLink'
  | cons c rest ih =>
      cases c with
      | root => exact ih h
      | here => exact ih h
      | up => exact ih h
      | name n =>
          rw [List.cons_append]
          rw [leadSteps_name] at h ⊢
          split at h
          · next q hq =>
              have hmore : (rest ++ tail).isEmpty = false := by simp [htail]
              simp only [Bool.not_true, Bool.and_false, Bool.false_eq_true, if_false] at h
              simp only [hmore, Bool.false_and, Bool.false_eq_true, if_false]
              exact hlink k q rest h
          · exact ih h

theorem lead_append {tail : List Path.Component} (htail : tail ≠ []) {S K : Place}
    (hS : ∀ onLink, t.leadSteps followLast onLink S tail = some K) {n : Nat} {k : Place}
    {steps : List Path.Component} (h : t.lead true n k steps = some S) :
    t.lead followLast n k (steps ++ tail) = some K := by
  induction n generalizing k steps with
  | zero => exact leadSteps_append htail hS (by simp) h
  | succ n ih =>
      refine leadSteps_append htail hS (fun k p rest h => ?_) h
      rw [← List.append_assoc]
      exact ih h

theorem exists_leadSteps_of_append {tail : List Path.Component} (htail : tail ≠ [])
    {onLink onLink' : Place → Path → List Path.Component → Option Place} {K : Place}
    (hlink : ∀ k p rest, onLink k p (rest ++ tail) = some K → ∃ S, onLink' k p rest = some S)
    {k : Place} {steps : List Path.Component}
    (h : t.leadSteps followLast onLink k (steps ++ tail) = some K) :
    ∃ S, t.leadSteps true onLink' k steps = some S := by
  induction steps generalizing k with
  | nil => exact ⟨k, rfl⟩
  | cons c rest ih =>
      cases c with
      | root => exact ih h
      | here => exact ih h
      | up => exact ih h
      | name n =>
          rw [List.cons_append] at h
          rw [leadSteps_name] at h ⊢
          split at h
          · next q hq =>
              have hmore : (rest ++ tail).isEmpty = false := by simp [htail]
              simp only [hmore, Bool.false_and, Bool.false_eq_true, if_false] at h
              simp only [Bool.not_true, Bool.and_false, Bool.false_eq_true, if_false]
              exact hlink k q rest h
          · exact ih h

theorem exists_lead_of_append {tail : List Path.Component} (htail : tail ≠ []) {n : Nat}
    {k K : Place} {steps : List Path.Component}
    (h : t.lead followLast n k (steps ++ tail) = some K) :
    ∃ S, t.lead true n k steps = some S := by
  induction n generalizing k steps with
  | zero => exact exists_leadSteps_of_append htail (by simp) h
  | succ n ih =>
      refine exists_leadSteps_of_append htail (fun k p rest h => ?_) h
      rw [← List.append_assoc] at h
      exact ih h

/-! ## Paths -/

/-- Where a path is found, it leads. -/
theorem leadOf_of_placeOf {p : Path} {k : Place} (h : t.placeOf true p.steps = .ok k) :
    t.leadOf p = some k := by
  have hlead : t.lead true linkLimit t.cwd p.steps = some k := lead_of_follow h
  rw [Path.steps_eq] at hlead
  split at hlead
  · -- the step that a slash at the end stands for leads nowhere else
    obtain ⟨S, hS⟩ := exists_lead_of_append (by simp) hlead
    have hhere : t.lead true linkLimit t.cwd (p.bareSteps ++ [.here]) = some S :=
      lead_append (by simp) (fun _ => rfl) hS
    rw [hhere] at hlead
    cases hlead
    exact hS
  · rw [List.append_nil] at hlead
    exact hlead

theorem leadOf_of_resolve {p : Path} {k : Place} (h : t.resolve true p = .ok k) :
    t.leadOf p = some k :=
  leadOf_of_placeOf (resolve_eq_ok h).2

/-- A name joined to a path leads below the path's place, unless there is a link. -/
theorem leadOf_join {p : Path} {S : Place} {n : String} (hn : Path.IsName n)
    (hS : t.leadOf p = some S) (hlink : ∀ q, t.get? (S ++ [n]) ≠ some (.link q)) :
    t.leadOf (p.join ⟨n⟩) = some (S ++ [n]) := by
  unfold leadOf
  rw [Path.bareSteps_join hn]
  refine lead_append (by simp) (fun onLink => ?_) hS
  rw [leadSteps_name]
  split
  · next q hq => exact absurd hq (hlink q)
  · rfl

theorem exists_leadOf_of_join {p : Path} {n : String} {K : Place} (hn : Path.IsName n)
    (h : t.leadOf (p.join ⟨n⟩) = some K) : ∃ S, t.leadOf p = some S := by
  unfold leadOf at h
  rw [Path.bareSteps_join hn] at h
  exact exists_lead_of_append (by simp) h

/-- Where a joined path is found, whether or not a link at the end is followed. -/
theorem eq_of_resolve_join {p : Path} {S K : Place} {n : String} (hn : Path.IsName n)
    (hS : t.leadOf p = some S) (hlink : ∀ q, t.get? (S ++ [n]) ≠ some (.link q))
    (h : t.resolve followLast (p.join ⟨n⟩) = .ok K) : K = S ++ [n] := by
  have hlead : t.lead followLast linkLimit t.cwd (p.join ⟨n⟩).steps = some K :=
    lead_of_follow (resolve_eq_ok h).2
  have happend : t.lead followLast linkLimit t.cwd (p.bareSteps ++ [.name n]) =
      some (S ++ [n]) := by
    refine lead_append (by simp) (fun onLink => ?_) hS
    rw [leadSteps_name]
    split
    · next q hq => exact absurd hq (hlink q)
    · rfl
  rw [Path.steps_join hn, happend] at hlead
  cases hlead
  rfl

theorem exists_leadOf_of_resolve_join {p : Path} {K : Place} {n : String} (hn : Path.IsName n)
    (h : t.resolve followLast (p.join ⟨n⟩) = .ok K) : ∃ S, t.leadOf p = some S := by
  have hlead : t.lead followLast linkLimit t.cwd (p.join ⟨n⟩).steps = some K :=
    lead_of_follow (resolve_eq_ok h).2
  rw [Path.steps_join hn] at hlead
  exact exists_lead_of_append (by simp) hlead

end Rewrap.FileTree
