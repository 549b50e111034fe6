import Rewrap.Proofs.FileTree.Removing
import Rewrap.Proofs.Run.Recording

/-! # The store's folder

The store may remove what it keeps in its folder, as long as the way to the folder does not lead
through what stands in it. What one change does to the folder is told by the places in it that it
touches, whether the change is one of the store's own or comes from outside. -/

namespace Rewrap.RunStore

open FileTree (Frame Nowhere IsInside)

variable {s : RunStore} {S : Place} {t u v : FileTree} {w w' : World}
  {changed changed' : Place → Prop}

/-! ## A store with its folder, and an empty one -/

/-- The path leads to no place at or below another one. -/
def LeadsOutside (S : Place) (t : FileTree) (p : Path) : Prop :=
  ∀ k, t.leadOf p = some k → ¬S <+: k

/-- The store's folder is there, at the place `S`, and its path leads there even if the folder is
empty. -/
structure Housed (s : RunStore) (S : Place) (t : FileTree) : Prop where
  wellFormed : t.WellFormed
  lead : t.leadOf s.folder = some S
  cwd : ¬IsInside S t.cwd
  noLink : ∀ k, IsInside S k → ∀ q, t.get? k ≠ some (.link q)
  found : (t.clear S).HasFolder s.folder

/-- Nothing stands in the store's folder. It may be missing itself; then its path does not lead
through its inside. -/
structure IsEmpty (s : RunStore) (S : Place) (t : FileTree) : Prop where
  wellFormed : t.WellFormed
  lead : t.leadOf s.folder = some S
  vacant : ∀ k, IsInside S k → t.get? k = none
  way : t.HasFolder s.folder ∨ ∀ k, t.OnWay s.folder k → ¬IsInside S k

/-- A store with its folder, or an empty one. -/
def Placed (s : RunStore) (S : Place) (t : FileTree) : Prop := s.Housed S t ∨ s.IsEmpty S t

theorem IsEmpty.housed (h : s.IsEmpty S t) (hfolder : t.HasFolder s.folder) : s.Housed S t where
  wellFormed := h.wellFormed
  lead := h.lead
  cwd := by
    intro hinside
    have hcwd := h.wellFormed.cwd
    rw [h.vacant _ hinside] at hcwd
    cases hcwd
  noLink := fun k hk q => by simp [h.vacant k hk]
  found := by
    refine hfolder.frame (FileTree.Frame.of_get?_eq rfl fun k => ?_)
    by_cases hk : IsInside S k
    · rw [FileTree.get?_clear_of_isInside hk, h.vacant k hk]
    · exact FileTree.get?_clear_of_not hk

theorem Housed.placeOf (h : s.Housed S t) :
    t.placeOf true s.folder.bareSteps = .ok S ∧ t.get? S = some .folder := by
  obtain ⟨S', hS', hfolder⟩ :=
    (h.found.frame (FileTree.frame_clear h.noLink)).exists_place h.wellFormed
  have hlead : t.leadOf s.folder = some S' := FileTree.lead_of_follow hS'
  rw [h.lead] at hlead
  cases hlead
  exact ⟨hS', hfolder⟩

theorem Housed.hasFolder (h : s.Housed S t) : t.HasFolder s.folder :=
  h.found.frame (FileTree.frame_clear h.noLink)

namespace Placed

theorem wellFormed (h : s.Placed S t) : t.WellFormed := h.elim Housed.wellFormed IsEmpty.wellFormed

theorem lead (h : s.Placed S t) : t.leadOf s.folder = some S := h.elim Housed.lead IsEmpty.lead

theorem noLink (h : s.Placed S t) {k : Place} (hk : IsInside S k) (q : Path) :
    t.get? k ≠ some (.link q) := by
  rcases h with h | h
  · exact h.noLink k hk q
  · simp [h.vacant k hk]

/-- Where something stands in the store's folder, the folder is there. -/
theorem housed (h : s.Placed S t) {k : Place} {e : Entry} (he : t.get? k = some e)
    (hk : IsInside S k) : s.Housed S t := by
  rcases h with h | h
  · exact h
  · rw [h.vacant k hk] at he
    cases he

theorem guarded (h : s.Placed S t) (ids : List String) : s.Guarded ids t := by
  refine ⟨h.wellFormed, ?_⟩
  rintro k ⟨S', r, hS', ⟨n, rest, -, rfl⟩, rfl⟩ q
  rw [h.lead] at hS'
  cases hS'
  exact h.noLink (FileTree.isInside_cons _ _ _) q

theorem unlinked (h : s.Placed S t) (id : String) : s.Unlinked id t :=
  (h.guarded [id]).unlinked List.mem_cons_self

theorem leadOf_join (h : s.Placed S t) {n : String} (hn : Path.IsName n) :
    t.leadOf (s.folder.join ⟨n⟩) = some (S ++ [n]) :=
  FileTree.leadOf_join hn h.lead (h.noLink (FileTree.isInside_cons _ _ _))

theorem leadOf_join_join (h : s.Placed S t) {m : String} {name : Path} (hm : Path.IsName m)
    (hn : Path.IsName name.text) :
    t.leadOf ((s.folder.join ⟨m⟩).join name) = some (S ++ [m, name.text]) := by
  have hlead := FileTree.leadOf_join hn (h.leadOf_join hm) fun q => by
    rw [List.append_assoc]
    exact h.noLink (FileTree.isInside_cons _ _ _) q
  rw [hlead, List.append_assoc]
  rfl

/-- What is found under a name in the store's folder stands there. -/
theorem eq_of_resolve (h : s.Placed S t) {n : String} (hn : Path.IsName n) {followLast : Bool}
    {k : Place} (hk : t.resolve followLast (s.folder.join ⟨n⟩) = .ok k) : k = S ++ [n] :=
  FileTree.eq_of_resolve_join hn h.lead (h.noLink (FileTree.isInside_cons _ _ _)) hk

theorem not_isPresent (h : s.Placed S t) {n : String} (hn : Path.IsName n)
    (hnone : t.get? (S ++ [n]) = none) : t.isPresent (s.folder.join ⟨n⟩) = false := by
  cases hk : t.resolve true (s.folder.join ⟨n⟩) with
  | ok k =>
      obtain rfl := h.eq_of_resolve hn hk
      exact FileTree.isPresent_of_vacant hk hnone
  | error e =>
      have hfind : t.find? (s.folder.join ⟨n⟩) = .error e := by
        unfold FileTree.find?
        rw [hk]
        rfl
      rw [FileTree.isPresent, hfind]
      rfl

end Placed

/-! ## What stays stored -/

theorem Housed.resolve_join_iff (h : s.Housed S t) {n : String} (hn : Path.IsName n) {k : Place} :
    t.resolve true (s.folder.join ⟨n⟩) = .ok k ↔ k = S ++ [n] ∧
      n.utf8ByteSize ≤ FileTree.nameLimit ∧
      FileTree.stepsOf (s.folder.join ⟨n⟩) = .ok (s.folder.join ⟨n⟩).steps :=
  FileTree.resolve_join_iff hn h.placeOf.1 h.placeOf.2
    (h.noLink _ (FileTree.isInside_cons _ _ _))

theorem Stores.of_get?_eq {name : String} {x : Text} (hx : s.Stores t name x) (ht : s.Placed S t)
    (hu : s.Placed S u) (hn : Path.IsName name)
    (hsame : u.get? (S ++ [name]) = t.get? (S ++ [name])) : s.Stores u name x := by
  obtain ⟨k, hk, hfile⟩ := hx
  obtain rfl := ht.eq_of_resolve hn hk
  have ht := ht.housed hfile (FileTree.isInside_cons _ _ _)
  have hu := hu.housed (hsame.trans hfile) (FileTree.isInside_cons _ _ _)
  exact ⟨_, (hu.resolve_join_iff hn).mpr ((ht.resolve_join_iff hn).mp hk), by rw [hsame, hfile]⟩

theorem Stores.get?_eq {name : String} {x : Text} (hx : s.Stores t name x) (ht : s.Placed S t)
    (hn : Path.IsName name) : t.get? (S ++ [name]) = some (.file x.toBytes) := by
  obtain ⟨k, hk, hfile⟩ := hx
  obtain rfl := ht.eq_of_resolve hn hk
  exact hfile

theorem BackedUp.get?_eq {id : String} {name : Path} {x : Text} (hx : s.BackedUp t id name x)
    (ht : s.Placed S t) (hid : Path.IsName id) (hn : Path.IsName name.text) :
    t.get? (S ++ [id, name.text]) = some (.file x.toBytes) := by
  obtain ⟨k, hk, hfile⟩ := hx
  obtain ⟨S', hS', rfl⟩ := (ht.unlinked id).eq_of_resolve hid hn hk
  rw [ht.lead] at hS'
  cases hS'
  exact hfile

theorem BackedUp.of_get?_eq {id : String} {name : Path} {x : Text} (hx : s.BackedUp t id name x)
    (ht : s.Placed S t) (hu : s.Placed S u) (hid : Path.IsName id) (hn : Path.IsName name.text)
    (hsame : u.get? (S ++ [id, name.text]) = t.get? (S ++ [id, name.text])) :
    s.BackedUp u id name x := by
  have hfile := hx.get?_eq ht hid hn
  obtain ⟨k, hk, -⟩ := hx
  have ht' := ht.housed hfile (FileTree.isInside_cons _ _ _)
  have hu' := hu.housed (hsame.trans hfile) (FileTree.isInside_cons _ _ _)
  have hrest : S ++ [id, name.text] = (S ++ [id]) ++ [name.text] := by simp
  have hlink : ∀ {v : FileTree}, s.Placed S v → ∀ q, v.get? ((S ++ [id]) ++ [name.text]) ≠
      some (.link q) := by
    intro v hv q
    rw [← hrest]
    exact hv.noLink (FileTree.isInside_cons _ _ _) q
  -- the run's folder is found in both trees
  obtain ⟨-, S', hS', hfolder⟩ := FileTree.hasFolder_of_resolve_join ht.wellFormed hn hk
  have hplaceOf : ∀ {v : FileTree}, s.Housed S v →
      ∀ {K}, v.placeOf true (s.backupFolder id).bareSteps = .ok K ↔ _ :=
    fun hv => FileTree.placeOf_join_iff hid hv.placeOf.1 hv.placeOf.2
      (hv.noLink _ (FileTree.isInside_cons _ _ _))
  obtain ⟨rfl, hshort⟩ := (hplaceOf ht').mp hS'
  have hu'' : u.get? (S ++ [id]) = some .folder := hu.wellFormed.parent _ name.text (by
    rw [← hrest, hsame, hfile]
    simp)
  have hresolved := (FileTree.resolve_join_iff hn hS' hfolder (hlink ht)).mp hk
  refine ⟨_, (FileTree.resolve_join_iff hn ((hplaceOf hu').mpr ⟨rfl, hshort⟩) hu''
    (hlink hu)).mpr hresolved, ?_⟩
  rw [hresolved.1, ← hrest, hsame, hfile]

/-! ## What a change touches -/

/-- A change that touches only the given places in the store's folder. Paths that led outside of it
still do. -/
structure Alters (s : RunStore) (S : Place) (changed : Place → Prop) (t u : FileTree) : Prop where
  placed : s.Placed S u
  inside : ∀ r, r ≠ [] → ¬changed r → u.get? (S ++ r) = t.get? (S ++ r)
  outside : ∀ p, LeadsOutside S t p → LeadsOutside S u p

theorem Alters.refl (h : s.Placed S t) : s.Alters S changed t t :=
  ⟨h, fun _ _ _ => rfl, fun _ hp => hp⟩

theorem Alters.mono (h : s.Alters S changed t u) (hchanged : ∀ r, changed r → changed' r) :
    s.Alters S changed' t u :=
  ⟨h.placed, fun r hr hno => h.inside r hr fun hr' => hno (hchanged r hr'), h.outside⟩

theorem Alters.trans (h : s.Alters S changed t u) (h' : s.Alters S changed u v) :
    s.Alters S changed t v :=
  ⟨h'.placed, fun r hr hno => (h'.inside r hr hno).trans (h.inside r hr hno),
    fun p hp => h'.outside p (h.outside p hp)⟩

theorem LeadsOutside.frame {files folders : Place → Prop} {p : Path}
    (hframe : Frame files folders t u) : LeadsOutside S u p ↔ LeadsOutside S t p := by
  unfold LeadsOutside
  rw [hframe.leadOf]

theorem Housed.frame {files folders : Place → Prop} (h : s.Housed S t) (hu : u.WellFormed)
    (hframe : Frame files folders t u) : s.Housed S u where
  wellFormed := hu
  lead := (hframe.leadOf _).trans h.lead
  cwd := by
    rw [hframe.cwd]
    exact h.cwd
  noLink := fun k hk q hq => h.noLink k hk q ((hframe.link k q).mp hq)
  found := h.found.frame (hframe.clear S)

/-- A change that makes or writes files and folders. -/
theorem Housed.alters {files folders : Place → Prop} (h : s.Housed S t) (hu : u.WellFormed)
    (hframe : Frame files folders t u)
    (hchanged : ∀ r, r ≠ [] → files (S ++ r) ∨ folders (S ++ r) → changed r) :
    s.Alters S changed t u where
  placed := .inl (h.frame hu hframe)
  inside := fun r hr hno => hframe.get?_eq (fun hfile => hno (hchanged r hr (.inl hfile)))
    fun hfolder => hno (hchanged r hr (.inr hfolder))
  outside := fun _ => (LeadsOutside.frame hframe).mpr

/-- A change that the store makes in its folder. -/
theorem Kept.alters {files folders : Place → Prop} (hkept : s.Kept files folders w w')
    (h : s.Housed S w.tree) : s.Alters S (fun r => files r ∨ folders r) w.tree w'.tree := by
  refine h.alters hkept.wellFormed hkept.frame fun r _ hr => ?_
  rcases hr with hr | hno | hr
  · exact .inl ((below_append h.lead).mp hr)
  · exact absurd h.hasFolder hno
  · exact .inr ((below_append h.lead).mp hr)

/-- A change that takes away something in the store's folder, and makes nothing. -/
theorem Housed.alters_of_removed (h : s.Housed S t) (hu : u.WellFormed) (hcwd : u.cwd = t.cwd)
    (hkept : ∀ k, ¬IsInside S k → u.get? k = t.get? k)
    (hremoved : ∀ r, r ≠ [] → u.get? (S ++ r) = t.get? (S ++ r) ∨
      (changed r ∧ u.get? (S ++ r) = none)) :
    s.Alters S changed t u := by
  have hnoLink : ∀ k, IsInside S k → ∀ q, u.get? k ≠ some (.link q) := by
    intro k hk q
    obtain ⟨r, hr, rfl⟩ := hk.exists_append
    rcases hremoved r hr with hsame | ⟨-, hnone⟩
    · rw [hsame]
      exact h.noLink _ hk q
    · simp [hnone]
  have hlink : ∀ k q, u.get? k = some (.link q) ↔ t.get? k = some (.link q) := by
    intro k q
    by_cases hk : IsInside S k
    · exact iff_of_false (hnoLink k hk q) (h.noLink k hk q)
    · rw [hkept k hk]
  have hlead : ∀ p, u.leadOf p = t.leadOf p := by
    intro p
    unfold FileTree.leadOf
    rw [hcwd, FileTree.lead_congr hlink]
  refine ⟨.inl ⟨hu, (hlead _).trans h.lead, hcwd ▸ h.cwd, hnoLink, ?_⟩, fun r hr hno => ?_,
    fun p hp k hk => ?_⟩
  · exact h.found.frame (FileTree.Frame.of_get?_eq hcwd (FileTree.get?_clear_congr hkept))
  · exact (hremoved r hr).resolve_right fun hgone => hno hgone.1
  · rw [hlead] at hk
    exact hp k hk

theorem Stores.alters {name : String} {x : Text} (hx : s.Stores t name x) (ht : s.Placed S t)
    (hu : s.Alters S changed t u) (hn : Path.IsName name) (hno : ¬changed [name]) :
    s.Stores u name x :=
  hx.of_get?_eq ht hu.placed hn (hu.inside _ (by simp) hno)

theorem BackedUp.alters {id : String} {name : Path} {x : Text} (hx : s.BackedUp t id name x)
    (ht : s.Placed S t) (hu : s.Alters S changed t u) (hid : Run.IsId id)
    (hn : Path.IsName name.text) (hno : ¬changed [id, name.text]) : s.BackedUp u id name x :=
  hx.of_get?_eq ht hu.placed (isName_of_isId hid) hn (hu.inside _ (by simp) hno)

/-! ## Making the folder -/

theorem IsEmpty.alters {folders : Place → Prop} (h : s.IsEmpty S t) (hu : u.WellFormed)
    (hframe : Frame Nowhere folders t u) (hfolders : ∀ k, folders k → ¬IsInside S k)
    (hfolder : u.HasFolder s.folder) : s.Housed S u ∧ s.Alters S Nowhere t u := by
  have hvacant : ∀ k, IsInside S k → u.get? k = t.get? k := fun k hk =>
    hframe.get?_eq (fun hno => hno) fun hmade => hfolders k hmade hk
  have hempty : s.IsEmpty S u :=
    ⟨hu, (hframe.leadOf _).trans h.lead,
      fun k hk => (hvacant k hk).trans (h.vacant k hk), .inl hfolder⟩
  have hhoused := hempty.housed hfolder
  exact ⟨hhoused, .inl hhoused, fun r hr _ => hvacant _ (FileTree.isInside_append.mpr hr),
    fun _ => (LeadsOutside.frame hframe).mpr⟩

theorem Placed.createFolders (h : s.Placed S t) (hok : (t.createFolders s.folder).1 = .ok ()) :
    s.Housed S (t.createFolders s.folder).2 ∧
      s.Alters S Nowhere t (t.createFolders s.folder).2 := by
  by_cases hfolder : t.HasFolder s.folder
  · have hhoused := h.elim (fun h => h) fun h => h.housed hfolder
    rw [FileTree.createFolders_of_hasFolder hfolder]
    exact ⟨hhoused, .refl h⟩
  · have hempty := h.resolve_left fun h => hfolder h.hasFolder
    obtain ⟨⟨hwf, -⟩, hmade⟩ := FileTree.createFolders_spec h.wellFormed s.folder
    refine hempty.alters hwf (FileTree.frame_createFolders t s.folder) ?_ (hmade hok)
    rintro k (hway | hlead)
    · exact hempty.way.resolve_left hfolder k hway
    · rw [h.lead] at hlead
      cases hlead
      exact fun hinside => hinside.2 rfl

theorem Placed.createFolders_join (h : s.Placed S t) {n : String} (hn : Path.IsName n)
    (hok : (t.createFolders (s.folder.join ⟨n⟩)).1 = .ok ()) :
    ∃ v, s.Housed S v ∧ s.Alters S Nowhere t v ∧
      v.createFolders (s.folder.join ⟨n⟩) = t.createFolders (s.folder.join ⟨n⟩) := by
  by_cases hfolder : t.HasFolder s.folder
  · exact ⟨t, h.elim (fun h => h) fun h => h.housed hfolder, .refl h, rfl⟩
  · have hempty := h.resolve_left fun h => hfolder h.hasFolder
    obtain ⟨v, hwf, hframe, hmade, hsame⟩ := FileTree.createFolders_join_ok h.wellFormed hn hok
    obtain ⟨hhoused, halters⟩ :=
      hempty.alters hwf hframe (hempty.way.resolve_left hfolder) hmade
    exact ⟨v, hhoused, halters, hsame⟩

/-! ## Removing what is in the folder -/

/-- A folder in the store's folder is taken away with all that stands in it. -/
theorem Housed.removeFolder (h : s.Housed S t) {n : String} (hn : Path.IsName n)
    (hok : t.removeFolder (s.folder.join ⟨n⟩) = (.ok (), u)) :
    s.Alters S (fun r => ∃ rest, r = n :: rest) t u := by
  obtain ⟨k, hk, hcases⟩ := FileTree.removeFolder_ok hok
  obtain rfl := Placed.eq_of_resolve (.inl h) hn hk
  have hbelow : ∀ {k}, S ++ [n] <+: k → IsInside S k := by
    rintro _ ⟨rest, rfl⟩
    rw [List.append_assoc]
    exact FileTree.isInside_cons _ _ _
  rcases hcases with ⟨q, hq⟩ | ⟨-, hu⟩
  · exact absurd hq (h.noLink _ (FileTree.isInside_cons _ _ _) q)
  · obtain ⟨hwf, hcwd, hget⟩ := h.wellFormed.removed (fun hcwd => h.cwd (hbelow hcwd)) hu
    refine h.alters_of_removed hwf hcwd (fun k hk => ?_) fun r _ => (hget (S ++ r)).imp_right ?_
    · exact (hget k).resolve_right fun hgone => hk (hbelow hgone.1)
    · rintro ⟨⟨rest, hrest⟩, hnone⟩
      rw [List.append_assoc] at hrest
      exact ⟨⟨rest, (List.append_cancel_left hrest).symm⟩, hnone⟩

theorem Housed.removeFile (h : s.Housed S t) {n : String} (hn : Path.IsName n)
    (hok : t.removeFile (s.folder.join ⟨n⟩) = (.ok (), u)) :
    s.Alters S (· = [n]) t u ∧ u.get? (S ++ [n]) = none := by
  rcases FileTree.removeFile_cases t (s.folder.join ⟨n⟩) with ⟨e, herror⟩ |
    ⟨k, hk, hfolder, hremoved⟩
  · rw [herror] at hok
    cases hok
  · obtain rfl := Placed.eq_of_resolve (.inl h) hn hk
    rw [hremoved] at hok
    cases hok
    have hgone : (t.erase (S ++ [n])).get? (S ++ [n]) = none := by
      rw [FileTree.get?_erase]
      simp
    refine ⟨h.alters_of_removed (h.wellFormed.erase hfolder) rfl (fun k hk => ?_)
      fun r _ => ?_, hgone⟩
    · refine FileTree.get?_erase_of_ne fun heq => hk ?_
      rw [heq]
      exact FileTree.isInside_cons _ _ _
    · by_cases hr : r = [n]
      · exact .inr ⟨hr, hr ▸ hgone⟩
      · exact .inl (FileTree.get?_erase_of_ne fun heq => hr (List.append_cancel_left heq))

end Rewrap.RunStore
