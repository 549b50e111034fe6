import Mathlib.Data.List.Induction
import Mathlib.Data.List.TakeWhile
import Rewrap.Proofs.Action.Attempts
import Rewrap.Proofs.FileTree.Ways
import Rewrap.Proofs.Run.Ids

/-! # The store's own places

For given runs a store uses only some names in its folder. Everything at and below these places is
its own, and what it does to its own leaves all other files alone. -/

namespace Rewrap

/-! ## Names -/

namespace RunStore

/-- The names under which texts are stored: the index, and a file for each run. -/
def fileNames (ids : List String) : List String := "runs.json" :: ids.map runFileName

/-- The name under which a text is stored first. -/
def temporaryName (name : String) : String := name ++ ".tmp"

/-- All names that the store uses in its folder. -/
def ownNames (ids : List String) : List String :=
  ids ++ fileNames ids ++ (fileNames ids).map temporaryName

theorem isName_runFileName {id : String} (h : '/' ∉ id.toList) :
    Path.IsName (runFileName id) := by
  have hslash : '/' ∉ (runFileName id).toList := by
    have hjson : '/' ∉ ".json".toList := by decide
    simp only [runFileName, String.toList_append, List.mem_append, not_or]
    exact ⟨h, hjson⟩
  have hlength : 5 ≤ (runFileName id).toList.length := by
    simp [runFileName, String.toList_append]
  refine ⟨fun hname => ?_, fun hname => ?_, fun hname => ?_, hslash⟩
  · simp [hname] at hlength
  · simp [hname] at hlength
  · simp [hname] at hlength

theorem runFileName_inj {id id' : String} (h : runFileName id = runFileName id') : id = id' := by
  have hlist := congrArg String.toList h
  simp only [runFileName, String.toList_append] at hlist
  exact String.toList_inj.mp (List.append_cancel_right hlist)

theorem runFileName_ne_temporaryName (id name : String) :
    runFileName id ≠ temporaryName name := by
  intro h
  have hlast := congrArg (fun n => n.toList.getLast?) h
  simp [runFileName, temporaryName, String.toList_append] at hlast

/-- The part of a name before its first dot. -/
def stem (name : String) : List Char := name.toList.takeWhile (· != '.')

theorem stem_of_isId {id : String} (h : Run.IsId id) : stem id = id.toList := by
  refine List.takeWhile_eq_self_iff.mpr fun c hc => ?_
  have hdigit := h.2 c hc
  simp only [bne_iff_ne, ne_eq]
  rintro rfl
  exact absurd hdigit (by decide)

theorem stem_append_dot (name rest : String) : stem (name ++ ("." ++ rest)) = stem name := by
  have hlist : ∀ cs ds : List Char, (cs ++ '.' :: ds).takeWhile (· != '.') =
      cs.takeWhile (· != '.') := by
    intro cs ds
    induction cs with
    | nil => simp
    | cons c cs ih => simp only [List.cons_append, List.takeWhile_cons, ih]
  have hdot : (name ++ ("." ++ rest)).toList = name.toList ++ '.' :: rest.toList := by
    simp [String.toList_append]
  rw [stem, hdot, hlist, stem]

theorem stem_runFileName {id : String} (h : Run.IsId id) : stem (runFileName id) = id.toList := by
  have hjson : runFileName id = id ++ ("." ++ "json") := rfl
  rw [hjson, stem_append_dot, stem_of_isId h]

theorem stem_temporaryName (name : String) : stem (temporaryName name) = stem name := by
  have htmp : temporaryName name = name ++ ("." ++ "tmp") := rfl
  rw [htmp, stem_append_dot]

theorem stem_of_mem_fileNames {ids : List String} (hids : ∀ id ∈ ids, Run.IsId id) {n : String}
    (hn : n ∈ fileNames ids) : stem n = "runs".toList ∨ ∃ id ∈ ids, stem n = id.toList := by
  rcases List.mem_cons.mp hn with rfl | hn
  · exact .inl (by decide)
  · obtain ⟨id, hid, rfl⟩ := List.mem_map.mp hn
    exact .inr ⟨id, hid, stem_runFileName (hids id hid)⟩

theorem stem_of_mem_ownNames {ids : List String} (hids : ∀ id ∈ ids, Run.IsId id) {n : String}
    (hn : n ∈ ownNames ids) : stem n = "runs".toList ∨ ∃ id ∈ ids, stem n = id.toList := by
  simp only [ownNames, List.mem_append] at hn
  rcases hn with (hn | hn) | hn
  · exact .inr ⟨n, hn, stem_of_isId (hids n hn)⟩
  · exact stem_of_mem_fileNames hids hn
  · obtain ⟨m, hm, rfl⟩ := List.mem_map.mp hn
    rw [stem_temporaryName]
    exact stem_of_mem_fileNames hids hm

theorem mem_ownNames_of_mem_fileNames {ids : List String} {n : String} (hn : n ∈ fileNames ids) :
    n ∈ ownNames ids ∧ temporaryName n ∈ ownNames ids := by
  simp only [ownNames, List.mem_append]
  exact ⟨.inl (.inr hn), .inr (List.mem_map_of_mem hn)⟩

theorem ownNames_mono {ids ids' : List String} (h : ∀ id ∈ ids, id ∈ ids') {n : String}
    (hn : n ∈ ownNames ids) : n ∈ ownNames ids' := by
  have hfile : ∀ m ∈ fileNames ids, m ∈ fileNames ids' := by
    intro m hm
    rcases List.mem_cons.mp hm with rfl | hm
    · exact List.mem_cons_self
    · obtain ⟨id, hid, rfl⟩ := List.mem_map.mp hm
      exact List.mem_cons_of_mem _ (List.mem_map_of_mem (h id hid))
  simp only [ownNames, List.mem_append] at hn ⊢
  rcases hn with (hn | hn) | hn
  · exact .inl (.inl (h n hn))
  · exact .inl (.inr (hfile n hn))
  · obtain ⟨m, hm, rfl⟩ := List.mem_map.mp hn
    exact .inr (List.mem_map_of_mem (hfile m hm))

/-- A name that begins with an id is not used for others. -/
theorem notMem_ownNames {ids : List String} (hids : ∀ id ∈ ids, Run.IsId id) {id n : String}
    (hid : Run.IsId id) (hno : id ∉ ids) (hn : stem n = id.toList) : n ∉ ownNames ids := by
  intro hmem
  rcases stem_of_mem_ownNames hids hmem with h | ⟨id', hid', h⟩
  · rw [hn] at h
    exact absurd (hid.2 'r' (by simp [h])) (by decide)
  · rw [hn] at h
    exact hno (String.toList_inj.mp h ▸ hid')

theorem not_isId_of_mem_fileNames {ids : List String} {name n : String}
    (hname : name ∈ fileNames ids) (hn : n = name ∨ n = temporaryName name) : ¬Run.IsId n := by
  have hdot : '.' ∈ n.toList := by
    have hfile : '.' ∈ name.toList := by
      rcases List.mem_cons.mp hname with rfl | hname
      · decide
      · obtain ⟨id, -, rfl⟩ := List.mem_map.mp hname
        simp [runFileName, String.toList_append]
    rcases hn with rfl | rfl
    · exact hfile
    · simp [temporaryName, String.toList_append]
  exact fun hid => absurd (hid.2 '.' hdot) (by decide)

theorem isName_of_stem {n : String} (hstem : stem n ≠ []) (hslash : '/' ∉ n.toList) :
    Path.IsName n := by
  refine ⟨?_, ?_, ?_, hslash⟩
  · rintro rfl
    exact hstem rfl
  · rintro rfl
    exact hstem rfl
  · rintro rfl
    exact hstem rfl

theorem isName_of_mem_ownNames {ids : List String} (hids : ∀ id ∈ ids, Run.IsId id) {n : String}
    (hn : n ∈ ownNames ids) : Path.IsName n := by
  have hid : ∀ id ∈ ids, '/' ∉ id.toList := fun id hid hmem =>
    absurd ((hids id hid).2 '/' hmem) (by decide)
  have hfile : ∀ m ∈ fileNames ids, '/' ∉ m.toList := by
    intro m hm
    rcases List.mem_cons.mp hm with rfl | hm
    · decide
    · obtain ⟨id, hmem, rfl⟩ := List.mem_map.mp hm
      have hjson : '/' ∉ ".json".toList := by decide
      simp only [runFileName, String.toList_append, List.mem_append, not_or]
      exact ⟨hid id hmem, hjson⟩
  have hslash : '/' ∉ n.toList := by
    simp only [ownNames, List.mem_append] at hn
    rcases hn with (hn | hn) | hn
    · exact hid n hn
    · exact hfile n hn
    · obtain ⟨m, hm, rfl⟩ := List.mem_map.mp hn
      have htmp : '/' ∉ ".tmp".toList := by decide
      simp only [temporaryName, String.toList_append, List.mem_append, not_or]
      exact ⟨hfile m hm, htmp⟩
  refine isName_of_stem (fun hnil => ?_) hslash
  rcases stem_of_mem_ownNames hids hn with h | ⟨id, hmem, h⟩
  · rw [hnil] at h
    exact absurd h (by decide)
  · rw [hnil] at h
    exact (hids id hmem).1 (String.toList_inj.mp (by simpa using h.symm))

/-! ## Places -/

/-- Places that are given as they are seen from the store's folder. -/
def Below (s : RunStore) (t : FileTree) (inside : Place → Prop) (k : Place) : Prop :=
  ∃ S r, t.leadOf s.folder = some S ∧ inside r ∧ k = S ++ r

/-- What the store uses for the runs with the given ids, as it is seen from its folder. -/
def IsOwn (ids : List String) (r : Place) : Prop := ∃ n rest, n ∈ ownNames ids ∧ r = n :: rest

/-- A place that the store uses for the runs with the given ids. -/
def Owns (s : RunStore) (t : FileTree) (ids : List String) : Place → Prop := s.Below t (IsOwn ids)

/-- Where the store makes folders: anywhere until its own folder is there, and then at the given
places. -/
def MakesFolder (s : RunStore) (t : FileTree) (inside : Place → Prop) (k : Place) : Prop :=
  ¬t.HasFolder s.folder ∨ s.Below t inside k

/-- Where the folder of a run's backups is made: on the way to the store's folder, and in it. -/
def MakesWay (s : RunStore) (t : FileTree) (id : String) (k : Place) : Prop :=
  t.OnWay s.folder k ∨ s.Below t (· = [id]) k

/-- A well-formed tree in which the store's own places are no links. -/
structure Guarded (s : RunStore) (ids : List String) (t : FileTree) : Prop where
  wellFormed : t.WellFormed
  noLink : ∀ k, s.Owns t ids k → ∀ q, t.get? k ≠ some (.link q)

variable {s : RunStore} {ids ids' : List String} {t u v : FileTree} {files folders : Place → Prop}

theorem Below.mono {inside inside' : Place → Prop} (h : ∀ r, inside r → inside' r) {k : Place}
    (hk : s.Below t inside k) : s.Below t inside' k := by
  obtain ⟨S, r, hS, hr, rfl⟩ := hk
  exact ⟨S, r, hS, h r hr, rfl⟩

theorem Below.frame (h : FileTree.Frame files folders t u) {inside : Place → Prop} {k : Place} :
    s.Below u inside k ↔ s.Below t inside k := by
  unfold Below
  rw [h.leadOf]

theorem below_append {S r : Place} (hS : t.leadOf s.folder = some S) {inside : Place → Prop} :
    s.Below t inside (S ++ r) ↔ inside r := by
  constructor
  · rintro ⟨S', r', hS', hr', heq⟩
    rw [hS] at hS'
    cases hS'
    rw [List.append_cancel_left heq]
    exact hr'
  · exact fun hr => ⟨S, r, hS, hr, rfl⟩

theorem IsOwn.mono (h : ∀ id ∈ ids, id ∈ ids') {r : Place} (hr : IsOwn ids r) :
    IsOwn ids' r := by
  obtain ⟨n, rest, hn, rfl⟩ := hr
  exact ⟨n, rest, ownNames_mono h hn, rfl⟩

theorem MakesFolder.mono {inside inside' : Place → Prop} (h : ∀ r, inside r → inside' r)
    {k : Place} (hk : s.MakesFolder t inside k) : s.MakesFolder t inside' k :=
  hk.imp_right (Below.mono h)

theorem MakesFolder.of_frame (h : FileTree.Frame files folders t u) {inside : Place → Prop}
    {k : Place} (hk : s.MakesFolder u inside k) : s.MakesFolder t inside k := by
  rcases hk with hno | hbelow
  · exact .inl fun hfolder => hno (hfolder.frame h)
  · exact .inr ((Below.frame h).mp hbelow)

theorem MakesWay.of_frame (h : FileTree.Frame files folders t u) {id : String} {k : Place}
    (hk : s.MakesWay u id k) : s.MakesWay t id k :=
  hk.imp (h.onWay s.folder k).mp (Below.frame h).mp

theorem Guarded.mono (h : s.Guarded ids' t) (hids : ∀ id ∈ ids, id ∈ ids') :
    s.Guarded ids t :=
  ⟨h.wellFormed, fun k hk => h.noLink k (hk.mono fun _ => IsOwn.mono hids)⟩

theorem Guarded.frame (h : s.Guarded ids t) (hu : u.WellFormed)
    (hframe : FileTree.Frame files folders t u) : s.Guarded ids u := by
  refine ⟨hu, fun k hk q hq => ?_⟩
  exact h.noLink k ((Below.frame hframe).mp hk) q ((hframe.link k q).mp hq)

theorem Guarded.not_link (h : s.Guarded ids t) {S rest : Place} {n : String}
    (hS : t.leadOf s.folder = some S) (hn : n ∈ ownNames ids) (q : Path) :
    t.get? (S ++ n :: rest) ≠ some (.link q) :=
  h.noLink _ ⟨S, n :: rest, hS, ⟨n, rest, hn, rfl⟩, rfl⟩ q

theorem mem_ownNames {id : String} (hid : id ∈ ids) : id ∈ ownNames ids := by
  simp only [ownNames, List.mem_append]
  exact .inl (.inl hid)

/-- A name at which no link stands in the store's folder. -/
structure Bare (s : RunStore) (t : FileTree) (n : String) : Prop where
  isName : Path.IsName n
  noLink : ∀ S q, t.leadOf s.folder = some S → t.get? (S ++ [n]) ≠ some (.link q)

theorem Bare.frame {n : String} (h : s.Bare t n)
    (hframe : FileTree.Frame files folders t u) : s.Bare u n := by
  refine ⟨h.isName, fun S q hS hq => ?_⟩
  rw [hframe.leadOf] at hS
  exact h.noLink S q hS ((hframe.link _ q).mp hq)

theorem Bare.eq_of_resolve {n : String} (h : s.Bare t n) {followLast : Bool} {k : Place}
    (hk : t.resolve followLast (s.folder.join ⟨n⟩) = .ok k) :
    ∃ S, t.leadOf s.folder = some S ∧ k = S ++ [n] := by
  obtain ⟨S, hS⟩ := FileTree.exists_leadOf_of_resolve_join h.isName hk
  exact ⟨S, hS, FileTree.eq_of_resolve_join h.isName hS (fun q => h.noLink S q hS) hk⟩

theorem Bare.resolve_false {n : String} (h : s.Bare t n) {k : Place}
    (hk : t.resolve true (s.folder.join ⟨n⟩) = .ok k) :
    t.resolve false (s.folder.join ⟨n⟩) = .ok k := by
  obtain ⟨hsteps, hplace⟩ := FileTree.resolve_eq_ok hk
  rw [FileTree.resolve_of_placeOf hsteps]
  rcases FileTree.follow_true_cases hplace with hsame | ⟨r, q, hr, hlink⟩
  · exact hsame
  · have hresolve : t.resolve false (s.folder.join ⟨n⟩) = .ok r := by
      rw [FileTree.resolve_of_placeOf hsteps]
      exact hr
    obtain ⟨S, hS, rfl⟩ := h.eq_of_resolve hresolve
    exact absurd hlink (h.noLink S q hS)

theorem Guarded.bare (h : s.Guarded ids t) (hids : ∀ id ∈ ids, Run.IsId id) {n : String}
    (hn : n ∈ ownNames ids) : s.Bare t n :=
  ⟨isName_of_mem_ownNames hids hn, fun _ q hS => h.not_link hS hn q⟩

theorem Guarded.eq_of_resolve (h : s.Guarded ids t) (hids : ∀ id ∈ ids, Run.IsId id)
    {n : String} (hn : n ∈ ownNames ids) {followLast : Bool} {k : Place}
    (hk : t.resolve followLast (s.folder.join ⟨n⟩) = .ok k) :
    ∃ S, t.leadOf s.folder = some S ∧ k = S ++ [n] :=
  (h.bare hids hn).eq_of_resolve hk

/-! ## Backups -/

theorem isName_of_isId {id : String} (h : Run.IsId id) : Path.IsName id := by
  have hids : ∀ id' ∈ [id], Run.IsId id' := by simpa using h
  exact isName_of_mem_ownNames hids (mem_ownNames List.mem_cons_self)

/-- A well-formed tree in which no link stands at or below the folder of a run's backups. -/
structure Unlinked (s : RunStore) (id : String) (t : FileTree) : Prop where
  wellFormed : t.WellFormed
  noLink : ∀ S rest q, t.leadOf s.folder = some S → t.get? (S ++ id :: rest) ≠ some (.link q)

/-- Nothing stands where the folder of a run's backups belongs. -/
def IsFresh (s : RunStore) (id : String) (t : FileTree) : Prop :=
  ∀ S, t.leadOf s.folder = some S → t.get? (S ++ [id]) = none

theorem Guarded.unlinked (h : s.Guarded ids t) {id : String} (hid : id ∈ ids) : s.Unlinked id t :=
  ⟨h.wellFormed, fun _ _ q hS => h.not_link hS (mem_ownNames hid) q⟩

theorem IsFresh.get?_eq_none {id : String} (h : s.IsFresh id t) (ht : t.WellFormed) {S rest : Place}
    (hS : t.leadOf s.folder = some S) : t.get? (S ++ id :: rest) = none := by
  induction rest using List.reverseRecOn with
  | nil => exact h S hS
  | append_singleton rest n ih =>
      by_contra hsome
      rw [← List.cons_append, ← List.append_assoc] at hsome
      have hfolder := ht.parent (S ++ id :: rest) n hsome
      rw [ih] at hfolder
      cases hfolder

theorem IsFresh.unlinked {id : String} (h : s.IsFresh id t) (ht : t.WellFormed) : s.Unlinked id t :=
  ⟨ht, fun S rest q hS => by simp [h.get?_eq_none ht hS]⟩

theorem Unlinked.frame {id : String} (h : s.Unlinked id t) (hu : u.WellFormed)
    (hframe : FileTree.Frame files folders t u) : s.Unlinked id u := by
  refine ⟨hu, fun S rest q hS hq => ?_⟩
  rw [hframe.leadOf] at hS
  exact h.noLink S rest q hS ((hframe.link _ q).mp hq)

theorem Unlinked.eq_of_resolve {id n : String} (h : s.Unlinked id t) (hid : Path.IsName id)
    (hn : Path.IsName n) {followLast : Bool} {k : Place}
    (hk : t.resolve followLast ((s.backupFolder id).join ⟨n⟩) = .ok k) :
    ∃ S, t.leadOf s.folder = some S ∧ k = S ++ [id, n] := by
  obtain ⟨K, hK⟩ := FileTree.exists_leadOf_of_resolve_join hn hk
  obtain ⟨S, hS⟩ := FileTree.exists_leadOf_of_join hid hK
  have hfolder := FileTree.leadOf_join hid hS fun q => h.noLink S [] q hS
  have hlink : ∀ q, t.get? ((S ++ [id]) ++ [n]) ≠ some (.link q) := by
    intro q
    rw [List.append_assoc]
    exact h.noLink S [n] q hS
  refine ⟨S, hS, ?_⟩
  rw [FileTree.eq_of_resolve_join hn hfolder hlink hk]
  simp

/-! ## Worlds -/

/-- The world after the store has worked: below its folder, files were changed only at the given
places, and folders were made only at the given places. -/
structure Kept (s : RunStore) (files folders : Place → Prop) (w w' : World) : Prop where
  wellFormed : w'.tree.WellFormed
  frame : FileTree.Frame (s.Below w.tree files) (s.MakesFolder w.tree folders) w.tree w'.tree
  faults : w'.faults = w.faults

variable {w w' w'' : World}

theorem Kept.mono {files' folders' : Place → Prop} (h : s.Kept files folders w w')
    (hfiles : ∀ r, files r → files' r) (hfolders : ∀ r, folders r → folders' r) :
    s.Kept files' folders' w w' :=
  ⟨h.wellFormed, h.frame.mono (fun _ => Below.mono hfiles) fun _ => MakesFolder.mono hfolders,
    h.faults⟩

theorem Kept.refl (h : w.tree.WellFormed) : s.Kept files folders w w :=
  ⟨h, .refl _ _ _, rfl⟩

theorem Kept.trans (h : s.Kept files folders w w') (h' : s.Kept files folders w' w'') :
    s.Kept files folders w w'' where
  wellFormed := h'.wellFormed
  frame := h.frame.trans (h'.frame.mono (fun _ hk => (Below.frame h.frame).mp hk)
    fun _ hk => hk.of_frame h.frame)
  faults := h'.faults.trans h.faults

theorem Kept.guarded (h : s.Kept files folders w w') (hw : s.Guarded ids w.tree) :
    s.Guarded ids w'.tree :=
  hw.frame h.wellFormed h.frame

theorem Kept.of_tree_eq (h : w.tree.WellFormed) (htree : w'.tree = w.tree)
    (hfaults : w'.faults = w.faults) : s.Kept files folders w w' := by
  refine ⟨?_, ?_, hfaults⟩
  · rw [htree]
    exact h
  · rw [htree]
    exact .refl _ _ _

theorem Kept.createFolders (h : w.tree.WellFormed) :
    s.Kept FileTree.Nowhere FileTree.Nowhere w
        { w with tree := (w.tree.createFolders s.folder).2 } ∧
      ((w.tree.createFolders s.folder).1 = .ok () →
        (w.tree.createFolders s.folder).2.HasFolder s.folder) := by
  obtain ⟨⟨hwellFormed, hframe⟩, hfolder⟩ := FileTree.createFolders_spec h s.folder
  by_cases hthere : w.tree.HasFolder s.folder
  · rw [FileTree.createFolders_of_hasFolder hthere]
    exact ⟨Kept.refl h, fun _ => hthere⟩
  · exact ⟨⟨hwellFormed, hframe.mono (fun _ hk => hk.elim) fun _ _ => .inl hthere, rfl⟩,
      hfolder⟩

theorem Kept.createBackupFolder (h : w.tree.WellFormed) {id : String} (hid : Run.IsId id) :
    s.Kept FileTree.Nowhere (· = [id]) w
      { w with tree := (w.tree.createFolders (s.backupFolder id)).2 } := by
  obtain ⟨⟨hwellFormed, hframe⟩, -⟩ := FileTree.createFolders_spec h (s.backupFolder id)
  refine ⟨hwellFormed, ?_, rfl⟩
  by_cases hthere : w.tree.HasFolder s.folder
  · have hname := isName_of_isId hid
    obtain ⟨S, hS, hfolder⟩ := hthere.exists_place h
    have hlead : w.tree.leadOf s.folder = some S := FileTree.lead_of_follow hS
    refine (FileTree.createFolders_join hname hS hfolder).mono (fun _ hk => hk.elim) fun k hk => ?_
    exact .inr ⟨S, [id], hlead, rfl, hk⟩
  · exact hframe.mono (fun _ hk => hk.elim) fun _ _ => .inl hthere

theorem Kept.write (h : w.tree.WellFormed) {p : Path}
    (hown : ∀ k, w.tree.resolve true p = .ok k → s.Below w.tree files k) (b : ByteArray) :
    s.Kept files folders w { w with tree := (w.tree.write p b).2 } := by
  rcases FileTree.write_cases h p b with ⟨e, hwrite⟩ |
    ⟨k, hk, -, hfolder, hlink, hwrite, hwf⟩
  · rw [hwrite]
    exact Kept.refl h
  · rw [hwrite]
    refine ⟨hwf, (FileTree.frame_put_file hfolder hlink).mono ?_ fun _ hk => hk.elim, rfl⟩
    rintro k' rfl
    exact hown k' hk

end RunStore

end Rewrap
