import Mathlib.Data.String.Basic
import Mathlib.Data.List.Infix
import Rewrap.Proofs.FileTree.Changes
import Rewrap.Proofs.FileTree.Leading

/-! # The way to a folder

Making a folder makes folders only at the places to which the first components of its path lead.
Once the folder is there, every name in it is found that is not too long. -/

namespace Rewrap.FileTree

variable {t u : FileTree}

/-! ## Folders that are made -/

/-- A place to which the first components of a path lead. -/
def OnWay (t : FileTree) (p : Path) (k : Place) : Prop :=
  ∃ steps ∈ p.components.inits, t.lead false linkLimit t.cwd steps = some k

theorem Frame.lead {files folders : Place → Prop} (h : Frame files folders t u)
    (followLast : Bool) (steps : List Path.Component) :
    u.lead followLast linkLimit u.cwd steps = t.lead followLast linkLimit t.cwd steps := by
  rw [h.cwd, lead_congr h.link]

theorem Frame.onWay {files folders : Place → Prop} (h : Frame files folders t u) (p : Path)
    (k : Place) : u.OnWay p k ↔ t.OnWay p k := by
  unfold OnWay
  simp only [h.lead]

theorem frame_ensureFolder (t : FileTree) (followLast : Bool) (steps : List Path.Component) :
    Frame Nowhere (fun k => t.lead followLast linkLimit t.cwd steps = some k) t
      (t.ensureFolder steps).2 := by
  unfold ensureFolder
  split
  · next u hu =>
      obtain ⟨k, hk, hu⟩ := Except.bind_eq_ok.mp hu
      split at hu
      · simp at hu
      · next hvacant =>
          cases hu
          refine (frame_put_folder hvacant).mono (fun _ h => h) ?_
          rintro _ rfl
          cases followLast with
          | false => exact lead_of_follow hk
          | true => exact lead_of_follow (follow_true_of_false hk (by simp [hvacant]))
  · split <;> exact .refl _ _ t

theorem frame_ensureFolderBelow (followLast : Bool) {steps : List Path.Component}
    {ensureAbove : FileTree → Changed} {folders : Place → Prop}
    (habove : Frame Nowhere folders t (ensureAbove t).2) :
    Frame Nowhere (fun k => folders k ∨ t.lead followLast linkLimit t.cwd steps = some k) t
      (t.ensureFolderBelow steps ensureAbove).2 := by
  unfold ensureFolderBelow
  split
  · split
    · next u hu =>
        rw [hu] at habove
        refine (habove.mono (fun _ h => h) fun _ => .inl).trans
          ((frame_ensureFolder u followLast steps).mono (fun _ h => h) fun k hk => .inr ?_)
        rwa [habove.lead] at hk
    · exact habove.mono (fun _ h => h) fun _ => .inl
  · exact (frame_ensureFolder t followLast steps).mono (fun _ h => h) fun _ => .inr

/-- Making the folders above makes them where the first steps lead. -/
theorem frame_ensureFolders (t : FileTree) (above : List Path.Component) :
    Frame Nowhere (fun k => ∃ steps ∈ above.reverse.inits,
      t.lead false linkLimit t.cwd steps = some k) t
      (t.ensureFolders above).2 := by
  induction above with
  | nil => exact .refl _ _ t
  | cons c above ih =>
      refine (frame_ensureFolderBelow false ih).mono (fun _ h => h) ?_
      rintro k (⟨steps, hsteps, hlead⟩ | hlead)
      · refine ⟨steps, (List.mem_inits _ _).mpr ?_, hlead⟩
        rw [List.reverse_cons]
        exact ((List.mem_inits _ _).mp hsteps).trans (List.prefix_append _ _)
      · exact ⟨_, (List.mem_inits _ _).mpr List.prefix_rfl, hlead⟩

/-- Making a folder makes folders only on the way, and at its own place. -/
theorem frame_createFolders (t : FileTree) (p : Path) :
    Frame Nowhere (fun k => t.OnWay p k ∨ t.leadOf p = some k) t (t.createFolders p).2 := by
  unfold createFolders
  split
  · exact .refl _ _ t
  · exact .refl _ _ t
  · next c above steps hcomponents hsteps =>
      obtain rfl := stepsOf_eq_ok hsteps
      simp only [bareSteps_eq]
      refine (frame_ensureFolderBelow true (frame_ensureFolders t above)).mono (fun _ h => h) ?_
      rintro k (⟨steps, hsteps, hlead⟩ | hlead)
      · refine .inl ⟨steps, (List.mem_inits _ _).mpr ?_, hlead⟩
        have hcomponents : p.components = above.reverse ++ [c] := by
          rw [← List.reverse_cons, ← hcomponents, List.reverse_reverse]
        rw [hcomponents]
        exact ((List.mem_inits _ _).mp hsteps).trans (List.prefix_append _ _)
      · exact .inr hlead

theorem frame_createFolders_join {p : Path} {n : String} (hn : Path.IsName n) :
    Frame Nowhere (fun k => t.OnWay p k ∨ ∃ S, t.leadOf p = some S ∧ k = S ++ [n]) t
      (t.createFolders (p.join ⟨n⟩)).2 := by
  unfold createFolders
  split
  · exact .refl _ _ t
  · exact .refl _ _ t
  · next c above steps hcomponents hsteps =>
      obtain rfl := stepsOf_eq_ok hsteps
      rw [Path.components_join hn, List.reverse_append] at hcomponents
      obtain ⟨-, rfl⟩ := List.cons.inj hcomponents
      simp only [bareSteps_eq, Path.bareSteps_join hn]
      refine (frame_ensureFolderBelow false (frame_ensureFolders t _)).mono (fun _ h => h) ?_
      rintro k (hway | hlead)
      · left
        simpa [OnWay] using hway
      · right
        obtain ⟨S, hS⟩ := exists_lead_of_append (by simp) hlead
        have hown : t.lead false linkLimit t.cwd (p.bareSteps ++ [.name n]) = some (S ++ [n]) := by
          refine lead_append (by simp) (fun onLink => ?_) hS
          unfold leadSteps
          split <;> simp [leadSteps]
        rw [hown] at hlead
        exact ⟨S, hS, (Option.some.inj hlead).symm⟩

/-! ## Names in a folder -/

theorem exists_followSteps_of_append (h : t.WellFormed) {tail : List Path.Component}
    {followLast : Bool} (htail : tail ≠ [])
    {onLink onLink' : Place → Path → List Path.Component → Except FileError Place} {K : Place}
    (hlink : ∀ k p rest, t.get? k = some .folder → onLink k p (rest ++ tail) = .ok K →
      ∃ S, onLink' k p rest = .ok S ∧ t.get? S = some .folder)
    {k : Place} {steps : List Path.Component} (hk : t.get? k = some .folder)
    (hK : t.followSteps followLast onLink k (steps ++ tail) = .ok K) :
    ∃ S, t.followSteps true onLink' k steps = .ok S ∧ t.get? S = some .folder := by
  induction steps generalizing k with
  | nil => exact ⟨k, rfl, hk⟩
  | cons c rest ih =>
      cases c with
      | root => exact ih rfl hK
      | here => exact ih hk hK
      | up => exact ih (h.dropLast hk) hK
      | name n =>
          have hmore : (rest ++ tail).isEmpty = false := by simp [htail]
          rw [List.cons_append] at hK
          unfold followSteps at hK ⊢
          split at hK
          · simp at hK
          · next hlength =>
              rw [if_neg hlength]
              cases hget : t.get? (k ++ [n]) with
              | none => simp [hget, hmore] at hK
              | some e =>
                  cases e with
                  | folder =>
                      simp only [hget] at hK
                      exact ih hget hK
                  | file b => simp [hget, hmore] at hK
                  | link q =>
                      simp only [hget, hmore, Bool.false_and, Bool.false_eq_true, if_false] at hK
                      simp only [Bool.not_true, Bool.and_false, Bool.false_eq_true, if_false]
                      exact hlink k q rest hk hK

theorem exists_follow_of_append (h : t.WellFormed) {tail : List Path.Component} {followLast : Bool}
    (htail : tail ≠ []) {n : Nat} {k K : Place} {steps : List Path.Component}
    (hk : t.get? k = some .folder) (hK : t.follow followLast n k (steps ++ tail) = .ok K) :
    ∃ S, t.follow true n k steps = .ok S ∧ t.get? S = some .folder := by
  induction n generalizing k steps with
  | zero => exact exists_followSteps_of_append h htail (by simp) hk hK
  | succ n ih =>
      refine exists_followSteps_of_append h htail (fun k p rest hk hK => ?_) hk hK
      rw [← List.append_assoc] at hK
      exact ih hk hK

/-- A path that is no longer than one that can be looked up can be looked up too, unless it has a
NUL of its own. -/
theorem stepsOf_of_le {p q : Path} {steps : List Path.Component} (hq : stepsOf q = .ok steps)
    (hne : p.text ≠ "") (hnul : '\x00' ∈ p.text.toList → '\x00' ∈ q.text.toList)
    (hle : String.utf8Len p.text.toList ≤ String.utf8Len q.text.toList) :
    stepsOf p = .ok p.steps := by
  rw [String.utf8Len_toList, String.utf8Len_toList] at hle
  unfold stepsOf at hq ⊢
  split at hq
  · simp at hq
  · split at hq
    · simp at hq
    · next hno =>
        split at hq
        · simp at hq
        · next hlimit =>
            have hno' : '\x00' ∉ p.text.toList := fun hmem => hno (by simpa using hnul hmem)
            rw [if_neg (by simpa using hne), if_neg (by simpa using hno'), if_neg (by omega)]

section

variable {p : Path} {m n : String} {K : Place} {followLast : Bool}

/-- What lies in a folder can be looked up only if the folder can. -/
theorem hasFolder_of_resolve_join (h : t.WellFormed) (hn : Path.IsName n)
    (hK : t.resolve followLast (p.join ⟨n⟩) = .ok K) :
    t.HasFolder p ∧ ∃ S, t.placeOf true p.bareSteps = .ok S ∧ t.get? S = some .folder := by
  obtain ⟨hsteps, hplace⟩ := resolve_eq_ok hK
  rw [Path.steps_join hn] at hplace
  obtain ⟨S, hS, hfolder⟩ := exists_follow_of_append h (by simp) h.cwd hplace
  refine ⟨?_, S, hS, hfolder⟩
  by_cases hempty : p.text = ""
  · left
    simp [Path.components, hempty, Path.segments, Path.componentOf?]
  · right
    obtain ⟨base, hbase, hjoin⟩ := Path.exists_join_base p
    have hsub : p.text.toList.Sublist (p.join ⟨n⟩).text.toList := by
      rw [hjoin n hn]
      exact hbase.sublist.trans (List.sublist_append_left _ _)
    exact ⟨stepsOf_of_le hsteps hempty (fun hmem => hsub.subset hmem)
      (String.utf8Len_le_of_sublist hsub), S, hS, hfolder⟩

theorem hasFolder_of_resolve_join_join (h : t.WellFormed) (hm : Path.IsName m) (hn : Path.IsName n)
    (hK : t.resolve followLast ((p.join ⟨m⟩).join ⟨n⟩) = .ok K) :
    t.HasFolder p ∧ ∃ S, t.placeOf true p.bareSteps = .ok S ∧ t.get? S = some .folder := by
  rcases (hasFolder_of_resolve_join h hn hK).1 with hnil | ⟨hsteps, k, hk, hfolder⟩
  · rw [Path.components_join hm] at hnil
    simp at hnil
  · have hresolve : t.resolve true (p.join ⟨m⟩) = .ok k := by
      rw [resolve_of_placeOf hsteps, Path.steps_join hm, ← Path.bareSteps_join hm]
      exact hk
    exact hasFolder_of_resolve_join h hm hresolve

theorem placeOf_join_iff {S : Place} (hn : Path.IsName n) (hS : t.placeOf true p.bareSteps = .ok S)
    (hfolder : t.get? S = some .folder) (hlink : ∀ q, t.get? (S ++ [n]) ≠ some (.link q)) :
    t.placeOf followLast (p.join ⟨n⟩).bareSteps = .ok K ↔ K = S ++ [n] ∧
      n.utf8ByteSize ≤ nameLimit := by
  have hplace : t.placeOf followLast (p.bareSteps ++ [.name n]) =
      if nameLimit < n.utf8ByteSize then .error .nameTooLong else .ok (S ++ [n]) := by
    refine follow_append (by simp) hfolder (fun onLink => ?_) hS
    unfold followSteps
    split
    · rfl
    · split
      · rfl
      · rfl
      · next q hq => exact absurd hq (hlink q)
      · rfl
  rw [Path.bareSteps_join hn, hplace]
  split
  · simp
    omega
  · next hshort =>
      rw [Except.ok.injEq, eq_comm]
      exact (and_iff_left (by omega)).symm

theorem resolve_join_iff {S : Place} (hn : Path.IsName n) (hS : t.placeOf true p.bareSteps = .ok S)
    (hfolder : t.get? S = some .folder) (hlink : ∀ q, t.get? (S ++ [n]) ≠ some (.link q)) :
    t.resolve followLast (p.join ⟨n⟩) = .ok K ↔
      K = S ++ [n] ∧ n.utf8ByteSize ≤ nameLimit ∧
        stepsOf (p.join ⟨n⟩) = .ok (p.join ⟨n⟩).steps := by
  have hplace : t.placeOf followLast (p.join ⟨n⟩).bareSteps = .ok K ↔ _ :=
    placeOf_join_iff hn hS hfolder hlink
  rw [Path.bareSteps_join hn, ← Path.steps_join hn] at hplace
  constructor
  · intro h
    obtain ⟨hsteps, hK⟩ := resolve_eq_ok h
    exact ⟨(hplace.mp hK).1, (hplace.mp hK).2, hsteps⟩
  · rintro ⟨hK, hshort, hsteps⟩
    rw [resolve_of_placeOf hsteps]
    exact hplace.mpr ⟨hK, hshort⟩

/-- A name in a folder is found if it is no longer than one that is found below the folder. -/
theorem resolve_join_of_le {S : Place} {n' : String} (hn' : Path.IsName n')
    (hnul : '\x00' ∉ n'.toList) (hshort : n'.utf8ByteSize ≤ nameLimit)
    (hS : t.placeOf true p.bareSteps = .ok S) (hfolder : t.get? S = some .folder)
    (hlink : ∀ q, t.get? (S ++ [n']) ≠ some (.link q)) (hm : Path.IsName m) (hn : Path.IsName n)
    (hle : String.utf8Len n'.toList ≤ String.utf8Len (m.toList ++ '/' :: n.toList))
    (hK : t.resolve followLast ((p.join ⟨m⟩).join ⟨n⟩) = .ok K) :
    t.resolve true (p.join ⟨n'⟩) = .ok (S ++ [n']) := by
  obtain ⟨hsteps, -⟩ := resolve_eq_ok hK
  obtain ⟨base, hbase, hjoin⟩ := Path.exists_join_base p
  have hbelow : ((p.join ⟨m⟩).join ⟨n⟩).text.toList =
      base ++ (m.toList ++ '/' :: n.toList) := by
    rcases Path.join_text (p := p.join ⟨m⟩) hn with ⟨hempty, -⟩ |
      ⟨q, hq, -⟩ | ⟨-, -, htext⟩
    · have hnil := hjoin m hm
      rw [hempty] at hnil
      exact absurd (String.toList_inj.mp (by simpa using (List.append_eq_nil_iff.mp hnil.symm).2))
        hm.1
    · exact absurd (by rw [hq, List.getLast?_concat]) (Path.getLast?_join (p := p) hm)
    · rw [htext, hjoin m hm, List.append_assoc]
  have hlookup : stepsOf (p.join ⟨n'⟩) = .ok (p.join ⟨n'⟩).steps := by
    refine stepsOf_of_le hsteps (fun hempty => ?_) (fun hmem => ?_) ?_
    · have hnil := hjoin n' hn'
      rw [hempty] at hnil
      exact hn'.1 (String.toList_inj.mp (by simpa using (List.append_eq_nil_iff.mp hnil.symm).2))
    · rw [hjoin n' hn'] at hmem
      rw [hbelow]
      exact List.mem_append_left _ ((List.mem_append.mp hmem).resolve_right hnul)
    · rw [hbelow, hjoin n' hn', String.utf8Len_append, String.utf8Len_append]
      omega
  exact (resolve_join_iff hn' hS hfolder hlink).mpr ⟨rfl, hshort, hlookup⟩

/-! ## A folder in a folder that is made -/

theorem exists_placeOf_of_ensureFolder {steps : List Path.Component}
    (h : (t.ensureFolder steps).1 = .ok ()) :
    ∃ followLast K, t.placeOf followLast steps = .ok K := by
  unfold ensureFolder at h
  split at h
  · next hadd =>
      obtain ⟨k, hk, -⟩ := Except.bind_eq_ok.mp hadd
      exact ⟨false, k, hk⟩
  · split at h
    · next hfolder =>
        obtain ⟨k, hk, -⟩ := Option.bind_eq_some_iff.mp hfolder
        cases hplace : t.placeOf true steps with
        | ok K => exact ⟨true, K, hplace⟩
        | error e => simp [hplace, Except.toOption] at hk
    · cases h

theorem ensureFolderBelow_of_ok {steps : List Path.Component} (above : FileTree → Changed)
    (h : (t.ensureFolder steps).1 = .ok ()) :
    t.ensureFolderBelow steps above = t.ensureFolder steps := by
  unfold ensureFolderBelow
  split
  · next hmissing =>
      rw [hmissing] at h
      cases h
  · rfl

theorem ensureFolderBelow_ok {steps : List Path.Component} {above : FileTree → Changed}
    (h : (t.ensureFolderBelow steps above).1 = .ok ()) :
    ∃ v, (v = t ∨ above t = (.ok (), v)) ∧ (v.ensureFolder steps).1 = .ok () ∧
      t.ensureFolderBelow steps above = v.ensureFolder steps := by
  unfold ensureFolderBelow at h ⊢
  split
  · next hmissing =>
      simp only [hmissing] at h
      split
      · next v habove =>
          simp only [habove] at h
          exact ⟨v, .inr habove, h, rfl⟩
      · next hfailed =>
          split at h
          · next v habove => exact absurd habove (hfailed v)
          · exact (hfailed _ (Prod.ext h rfl)).elim
  · next hdone =>
      split at h
      · next hmissing => exact absurd hmissing (hdone _)
      · exact ⟨t, .inl rfl, h, rfl⟩

theorem createFolders_join_ok (h : t.WellFormed) (hn : Path.IsName n)
    (hok : (t.createFolders (p.join ⟨n⟩)).1 = .ok ()) :
    ∃ v, v.WellFormed ∧ Frame Nowhere (t.OnWay p) t v ∧ v.HasFolder p ∧
      v.createFolders (p.join ⟨n⟩) = t.createFolders (p.join ⟨n⟩) := by
  have hcomponents : (p.join ⟨n⟩).components.reverse = .name n :: p.components.reverse := by
    rw [Path.components_join hn, List.reverse_append]
    rfl
  cases hsteps : stepsOf (p.join ⟨n⟩) with
  | error e => simp [createFolders, hcomponents, hsteps] at hok
  | ok steps =>
      obtain rfl := stepsOf_eq_ok hsteps
      have hcreate : ∀ v : FileTree, v.createFolders (p.join ⟨n⟩) =
          v.ensureFolderBelow (p.join ⟨n⟩).steps fun v =>
            v.ensureFolders p.components.reverse := by
        intro v
        unfold createFolders
        rw [hcomponents, hsteps]
        simp only [if_neg (Path.getLast?_join (p := p) hn)]
      rw [hcreate] at hok ⊢
      obtain ⟨v, hv, hmade, hsame⟩ := ensureFolderBelow_ok hok
      have hbefore : v.WellFormed ∧ Frame Nowhere (t.OnWay p) t v := by
        rcases hv with rfl | habove
        · exact ⟨h, .refl _ _ _⟩
        · have hproper : Path.AreProper p.components.reverse := fun m hm =>
            Path.areProper_components p m (List.mem_reverse.mp hm)
          have hgrows := ensureFolders_grows h hproper
          have hframe := frame_ensureFolders t p.components.reverse
          have habove : t.ensureFolders p.components.reverse = (.ok (), v) := habove
          rw [habove] at hgrows hframe
          rw [List.reverse_reverse] at hframe
          exact ⟨hgrows.1, hframe⟩
      obtain ⟨followLast, K, hK⟩ := exists_placeOf_of_ensureFolder hmade
      have hresolve : v.resolve followLast (p.join ⟨n⟩) = .ok K := by
        rw [resolve_of_placeOf hsteps, hK]
      refine ⟨v, hbefore.1, hbefore.2, (hasFolder_of_resolve_join hbefore.1 hn hresolve).1, ?_⟩
      rw [hcreate, hsame, ensureFolderBelow_of_ok _ hmade]

end

end Rewrap.FileTree
