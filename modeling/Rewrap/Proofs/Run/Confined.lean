import Rewrap.Proofs.Run.Upkeep

/-! # What succeeds in the store's folder

Storing the index and taking away runs, told from their success alone: which places of the store's
folder they touch, what stands there afterwards, and that nothing is touched that stands
elsewhere. -/

namespace Rewrap

/-! ## Names that are no longer than another one -/

namespace Path

theorem getLast?_segments_join {p : Path} {n : String} (hn : IsName n) :
    ((segments (p.join ⟨n⟩).text.toList).filter (· ≠ [])).getLast? = some n.toList := by
  have hne : n.toList ≠ [] := fun h => hn.1 (String.toList_inj.mp (by simpa using h))
  have hname : (segments n.toList).filter (· ≠ []) = [n.toList] := by
    rw [segments_of_no_slash hn.2.2.2]
    simp [hne]
  rcases join_text (p := p) hn with ⟨-, h⟩ | ⟨q, -, h⟩ | ⟨-, -, h⟩
  · rw [h, hname]
    rfl
  · rw [h, segments_append_slash, List.filter_append, hname, List.getLast?_concat]
  · rw [h, segments_append_slash, List.filter_append, hname, List.getLast?_concat]

end Path

namespace FileTree

variable {t u : FileTree} {p : Path} {n n' : String}

/-- A name in a folder can be looked up if it is no longer than one that can. -/
theorem stepsOf_join_of_le {steps : List Path.Component} (hn : Path.IsName n) (hn' : Path.IsName n')
    (hnul : '\x00' ∉ n'.toList) (hle : String.utf8Len n'.toList ≤ String.utf8Len n.toList)
    (hsteps : stepsOf (p.join ⟨n⟩) = .ok steps) :
    stepsOf (p.join ⟨n'⟩) = .ok (p.join ⟨n'⟩).steps := by
  obtain ⟨base, -, hjoin⟩ := Path.exists_join_base p
  refine stepsOf_of_le hsteps (fun hempty => ?_) (fun hmem => ?_) ?_
  · have hnil := hjoin n' hn'
    rw [hempty] at hnil
    exact hn'.1 (String.toList_inj.mp (by simpa using (List.append_eq_nil_iff.mp hnil.symm).2))
  · rw [hjoin n' hn'] at hmem
    rw [hjoin n hn]
    exact List.mem_append_left _ ((List.mem_append.mp hmem).resolve_right hnul)
  · rw [hjoin n hn, hjoin n' hn', String.utf8Len_append, String.utf8Len_append]
    omega

theorem Frame.get?_of_some {files folders : Place → Prop} (h : Frame files folders t u)
    {k : Place} (hfile : ¬files k) (hsome : t.get? k ≠ none) : u.get? k = t.get? k := by
  obtain ⟨e, he⟩ := Option.ne_none_iff_exists'.mp hsome
  rw [he]
  cases e with
  | folder => exact h.folder k he
  | file b => exact (h.file k hfile b).mpr he
  | link q => exact (h.link k q).mpr he

/-- A folder that is named is taken away itself. -/
theorem removeFolder_join (hn : Path.IsName n)
    (hok : t.removeFolder (p.join ⟨n⟩) = (.ok (), u)) :
    ∃ k, t.resolve false (p.join ⟨n⟩) = .ok k ∧
      ((∃ q, t.get? k = some (.link q)) ∨
        (t.get? k = some .folder ∧ u = (t.clear k).erase k)) := by
  have hdot : n.toList ≠ ['.'] := fun h => hn.2.1 (String.toList_inj.mp (by simpa using h))
  have hdots : n.toList ≠ ['.', '.'] := fun h =>
    hn.2.2.1 (String.toList_inj.mp (by simpa using h))
  unfold removeFolder at hok
  split at hok
  · cases hok
  · next k hk =>
      refine ⟨k, hk, ?_⟩
      split at hok
      · cases hok
      · cases hok
      · next q hq => exact .inl ⟨q, hq⟩
      · next hfolder =>
          refine .inr ⟨hfolder, ?_⟩
          simp only [Path.getLast?_segments_join hn] at hok
          split at hok
          · next heq => exact absurd (Option.some.inj heq) hdot
          · next heq => exact absurd (Option.some.inj heq) hdots
          · cases hok
            rfl

end FileTree

theorem Attempt.orFail_eq_ok {α ε : Type} {a : Action (Except FileError α)}
    {failure : FileError → ε} {x : α} {w w' : World}
    (h : (Attempt.orFail a failure).run.run w = (.ok x, w')) : a.run w = (.ok x, w') := by
  rw [Attempt.run_orFail] at h
  obtain ⟨hok, hworld⟩ := Prod.mk.inj h
  exact Prod.ext (Except.mapError_eq_ok.mp hok) hworld

/-- An id of seven hexadecimal digits. -/
structure Run.IsShortId (id : String) : Prop where
  length : id.toList.length = 7
  digits : ∀ c ∈ id.toList, c ∈ "0123456789abcdefABCDEF".toList

namespace Run.IsShortId

variable {id : String}

theorem notMem (h : IsShortId id) {c : Char} (hc : c ∉ "0123456789abcdefABCDEF".toList) :
    c ∉ id.toList :=
  fun hmem => hc (h.digits c hmem)

theorem isName (h : IsShortId id) : Path.IsName id := by
  have hlength := h.length
  refine ⟨?_, ?_, ?_, h.notMem (by decide)⟩
  · rintro rfl
    cases hlength
  · rintro rfl
    cases hlength
  · rintro rfl
    cases hlength

theorem isName_runFileName (h : IsShortId id) : Path.IsName (RunStore.runFileName id) :=
  RunStore.isName_runFileName (h.notMem (by decide))

theorem ne_runs (h : IsShortId id) : id ≠ "runs" := by
  rintro rfl
  exact absurd h.length (by decide)

theorem utf8Len_eq (h : IsShortId id) : String.utf8Len id.toList = 7 := by
  have hsize : ∀ c ∈ "0123456789abcdefABCDEF".toList, c.utf8Size = 1 :=
    List.forall_iff_forall_mem.mp (by decide)
  have hlength : ∀ cs : List Char, (∀ c ∈ cs, c.utf8Size = 1) →
      String.utf8Len cs = cs.length := by
    intro cs hcs
    induction cs with
    | nil => rfl
    | cons c cs ih =>
        rw [String.utf8Len_cons, ih fun c' hc' => hcs c' (List.mem_cons_of_mem _ hc'),
          hcs c List.mem_cons_self]
        rfl
  rw [hlength _ fun c hc => hsize c (h.digits c hc), h.length]

end Run.IsShortId

namespace RunStore

open FileTree (Frame Nowhere IsInside)

variable {s : RunStore} {S : Place} {id id' : String} {t u v : FileTree} {w w' : World}
  {i : RunIndex} {r : Run} {changed changed' : Place → Prop}

/-! ## The places of a run -/

theorem runFileName_ne_of_isShortId (h : Run.IsShortId id) (id' : String) :
    runFileName id' ≠ id := by
  intro heq
  refine h.notMem (c := '.') (by decide) ?_
  rw [← heq]
  simp [runFileName, String.toList_append]

theorem eq_of_isOf_both (h : Run.IsShortId id) (h' : Run.IsShortId id') {k : Place} (hk : IsOf id k)
    (hk' : IsOf id' k) : id = id' := by
  rcases hk with ⟨rest, rfl⟩ | rfl
  · rcases hk' with ⟨rest', heq⟩ | heq
    · exact (List.cons.inj heq).1
    · exact absurd (List.cons.inj heq).1.symm (runFileName_ne_of_isShortId h id')
  · rcases hk' with ⟨rest', heq⟩ | heq
    · exact absurd (List.cons.inj heq).1 (runFileName_ne_of_isShortId h' id)
    · exact runFileName_inj (List.singleton_inj.mp heq)

theorem IsOf.not_isText_index (h : Run.IsShortId id) {k : Place} (hk : IsOf id k) :
    ¬IsText "runs.json" k := by
  have hdot : id ≠ "runs.json" ∧ id ≠ temporaryName "runs.json" := by
    constructor
    · rintro rfl
      exact absurd h.length (by decide)
    · rintro rfl
      exact absurd h.length (by decide)
  rcases hk with ⟨rest, rfl⟩ | rfl
  · rintro (heq | heq)
    · exact hdot.1 (List.cons.inj heq).1
    · exact hdot.2 (List.cons.inj heq).1
  · exact not_isText_runFileName h.ne_runs

/-! ## Changes that stay in the folder -/

/-- A change that touches only the given places in the store's folder, and nothing that stands
elsewhere. -/
structure Confined (s : RunStore) (S : Place) (changed : Place → Prop) (t u : FileTree) : Prop
    extends Alters s S changed t u where
  around : ∀ k, ¬IsInside S k → t.get? k ≠ none → u.get? k = t.get? k

theorem Confined.refl (h : s.Placed S t) : s.Confined S changed t t :=
  ⟨.refl h, fun _ _ _ => rfl⟩

theorem Confined.mono (h : s.Confined S changed t u) (hchanged : ∀ r, changed r → changed' r) :
    s.Confined S changed' t u :=
  ⟨h.toAlters.mono hchanged, h.around⟩

theorem Confined.trans (h : s.Confined S changed t u) (h' : s.Confined S changed u v) :
    s.Confined S changed t v := by
  refine ⟨h.toAlters.trans h'.toAlters, fun k hk hsome => ?_⟩
  have hsame := h.around k hk hsome
  rw [h'.around k hk (hsame ▸ hsome), hsame]

/-! ## Storing the index -/

/-- The path of the index can be looked up. -/
def Reaches (s : RunStore) : Prop :=
  ∃ steps, FileTree.stepsOf (s.folder.join ⟨temporaryName "runs.json"⟩) = .ok steps

theorem Placed.direct_index (h : s.Placed S t) : s.Direct "runs.json" t :=
  (h.guarded []).direct (by simp) List.mem_cons_self

theorem Direct.vacated_of_rename {name : String} (h : s.Direct name t)
    (hS : t.leadOf s.folder = some S)
    (hok : t.rename (s.folder.join ⟨temporaryName name⟩) (s.folder.join ⟨name⟩) =
      (.ok (), u)) :
    u.get? (S ++ [temporaryName name]) = none ∧
      ∃ steps, FileTree.stepsOf (s.folder.join ⟨temporaryName name⟩) = .ok steps := by
  rcases FileTree.rename_cases (t := t) (s.folder.join ⟨temporaryName name⟩)
    (s.folder.join ⟨name⟩) with
    ⟨e, herror⟩ | ⟨k, k', e, hk, hk', -, -, hrename⟩
  · rw [herror] at hok
    cases hok
  · obtain ⟨S₁, hS₁, rfl⟩ := h.temporary.eq_of_resolve hk
    obtain ⟨S₂, hS₂, rfl⟩ := h.target.eq_of_resolve hk'
    obtain rfl := Option.some.inj (hS.symm.trans hS₁)
    obtain rfl := Option.some.inj (hS.symm.trans hS₂)
    rw [hrename] at hok
    cases hok
    refine ⟨?_, _, (FileTree.resolve_eq_ok hk).1⟩
    rw [FileTree.get?_put_of_ne (place_ne_temporary S name).symm, FileTree.get?_erase]
    simp

/-- The index is stored, and nothing changes but its text. -/
structure Saved (s : RunStore) (S : Place) (i : RunIndex) (t u : FileTree) : Prop where
  housed : s.Housed S u
  stored : s.Stores u "runs.json" i.text
  again : s.Storable u "runs.json"
  vacated : u.get? (S ++ [temporaryName "runs.json"]) = none
  confined : s.Confined S (IsText "runs.json") t u
  reaches : s.Reaches

/-- Where the store's folder is there, storing the index changes nothing else anywhere. -/
theorem Housed.saveIndex_of_ok (h : s.Housed S w.tree)
    (hrun : (s.saveIndex i).run.run w = (.ok (), w')) :
    s.Saved S i w.tree w'.tree ∧ ∀ k, k ≠ S ++ ["runs.json"] →
      k ≠ S ++ [temporaryName "runs.json"] → w'.tree.get? k = w.tree.get? k := by
  have hdirect := Placed.direct_index (.inl h)
  obtain ⟨hkept, hdone⟩ := store_spec hdirect hrun
  obtain ⟨hstored, hagain⟩ := hdone rfl
  have halters := (hkept.alters h).mono fun r hr => hr.elim (fun h => h) fun hno => hno.elim
  have hbelow : ∀ {k}, s.Below w.tree (IsText "runs.json") k →
      k = S ++ ["runs.json"] ∨ k = S ++ [temporaryName "runs.json"] := by
    rintro k ⟨S', r, hS', hr, rfl⟩
    obtain rfl := Option.some.inj (h.lead.symm.trans hS')
    exact hr.imp (congrArg _) (congrArg _)
  have helsewhere : ∀ k, k ≠ S ++ ["runs.json"] → k ≠ S ++ [temporaryName "runs.json"] →
      w'.tree.get? k = w.tree.get? k := by
    intro k hk hk'
    refine hkept.frame.get?_eq (fun hfile => (hbelow hfile).elim hk hk') ?_
    rintro (hno | ⟨_, _, _, hno, _⟩)
    · exact hno h.hasFolder
    · exact hno
  have haround : ∀ k, ¬IsInside S k → w.tree.get? k ≠ none →
      w'.tree.get? k = w.tree.get? k := by
    refine fun k hk _ => helsewhere k ?_ ?_
    · rintro rfl
      exact hk (FileTree.isInside_cons _ _ _)
    · rintro rfl
      exact hk (FileTree.isInside_cons _ _ _)
  -- the last step is the move of the written text
  obtain ⟨_, w₁, hcreate, hrest⟩ := Attempt.bind_eq_ok hrun
  rw [Attempt.createFolders_of_ok (FileTree.createFolders_of_hasFolder h.hasFolder)] at hcreate
  obtain ⟨-, rfl⟩ := Prod.mk.inj hcreate
  obtain ⟨_, w₂, hwrite, hrename⟩ := Attempt.bind_eq_ok hrest
  obtain ⟨hwritten, rfl⟩ := Prod.mk.inj (Attempt.orFail_eq_ok hwrite)
  have hkept₂ : s.Kept (IsText "runs.json") Nowhere w ((Action.writeText _ i.text).run w).2 :=
    Kept.write h.wellFormed (fun k hk => by
      obtain ⟨S', hS', rfl⟩ := hdirect.temporary.eq_of_resolve hk
      exact ⟨S', _, hS', .inr rfl, rfl⟩) i.text.toBytes
  obtain ⟨hmoved, rfl⟩ := Prod.mk.inj (Attempt.orFail_eq_ok hrename)
  obtain ⟨hvacated, hreaches⟩ :=
    (hkept₂.direct hdirect).vacated_of_rename ((hkept₂.frame.leadOf _).trans h.lead)
    (Prod.ext hmoved rfl)
  exact ⟨⟨h.frame hkept.wellFormed hkept.frame, hstored, hagain, hvacated,
    ⟨halters, haround⟩, hreaches⟩, helsewhere⟩

/-- The index is stored, whether or not the store's folder is there. -/
theorem Placed.saveIndex_of_ok (h : s.Placed S w.tree)
    (hrun : (s.saveIndex i).run.run w = (.ok (), w')) : s.Saved S i w.tree w'.tree := by
  obtain ⟨_, w₁, hcreate, hrest⟩ := Attempt.bind_eq_ok hrun
  have hcreate := Attempt.orFail_eq_ok hcreate
  obtain ⟨hhoused, halters, -⟩ := h.createFolders_run hcreate
  obtain ⟨-, rfl⟩ := Prod.mk.inj hcreate
  have hconfined : s.Confined S (IsText "runs.json") w.tree (w.tree.createFolders s.folder).2 :=
    ⟨halters.mono fun _ hno => hno.elim, fun k _ hsome =>
      (FileTree.frame_createFolders w.tree s.folder).get?_of_some (fun hno => hno) hsome⟩
  have hstore : (s.saveIndex i).run.run { w with tree := (w.tree.createFolders s.folder).2 } =
      (.ok (), w') := by
    have hagain := FileTree.createFolders_of_hasFolder hhoused.hasFolder
    exact (Attempt.bind_of_ok (Attempt.createFolders_of_ok hagain)).trans hrest
  have hsaved := (hhoused.saveIndex_of_ok hstore).1
  exact ⟨hsaved.housed, hsaved.stored, hsaved.again, hsaved.vacated,
    hconfined.trans hsaved.confined, hsaved.reaches⟩

/-! ## Taking away -/

/-- A name that is no longer than those of the index. -/
structure IsShortName (n : String) : Prop where
  isName : Path.IsName n
  notNul : '\x00' ∉ n.toList
  length : String.utf8Len n.toList ≤ String.utf8Len (temporaryName "runs.json").toList

theorem isShortName_of_isShortId (h : Run.IsShortId id) :
    IsShortName id ∧ IsShortName (runFileName id) := by
  have hnul := h.notMem (c := '\x00') (by decide)
  have hsize := h.utf8Len_eq
  have hends : String.utf8Len ".json".toList = 5 ∧
      String.utf8Len (temporaryName "runs.json").toList = 13 := by decide
  refine ⟨⟨h.isName, hnul, by omega⟩, h.isName_runFileName, ?_, ?_⟩
  · simp [runFileName, String.toList_append, hnul]
  · rw [runFileName, String.toList_append, String.utf8Len_append]
    omega

/-- Nothing stands under a short name that is not found. -/
theorem Placed.get?_eq_none (h : s.Placed S t) {n : String} (hn : IsShortName n)
    (hreaches : s.Reaches) (habsent : t.isPresent (s.folder.join ⟨n⟩) = false) :
    t.get? (S ++ [n]) = none := by
  rcases h with h | h
  · obtain ⟨steps, hsteps⟩ := hreaches
    have hsize : String.utf8Len (temporaryName "runs.json").toList = 13 := by decide
    have hlength := hn.length
    rw [hsize, String.utf8Len_toList] at hlength
    have hshort : n.utf8ByteSize ≤ FileTree.nameLimit := by
      rw [FileTree.nameLimit]
      omega
    have hresolve := (h.resolve_join_iff hn.isName).mpr ⟨rfl, hshort,
      FileTree.stepsOf_join_of_le (by decide) hn.isName hn.notNul hn.length hsteps⟩
    by_contra hsome
    obtain ⟨e, he⟩ := Option.ne_none_iff_exists'.mp hsome
    rw [FileTree.isPresent_of_resolve hresolve he] at habsent
    cases habsent
  · exact h.vacant _ (FileTree.isInside_cons _ _ _)

theorem Placed.housed_of_isPresent (h : s.Placed S t) {n : String} (hn : Path.IsName n)
    (hpresent : t.isPresent (s.folder.join ⟨n⟩) = true) : s.Housed S t := by
  rcases h with h | h
  · exact h
  · rw [Placed.not_isPresent (.inr h) hn (h.vacant _ (FileTree.isInside_cons _ _ _))] at hpresent
    cases hpresent

/-- All that stood at the given places in the store's folder is gone, and nothing else was
touched. -/
structure Takes (s : RunStore) (S : Place) (taken : Place → Prop) (t u : FileTree) : Prop where
  confined : s.Confined S taken t u
  gone : s.Reaches → ∀ k, k ≠ [] → taken k → u.get? (S ++ k) = none

variable {taken taken' : Place → Prop}

theorem Takes.congr (h : s.Takes S taken t u) (hiff : ∀ k, taken k ↔ taken' k) :
    s.Takes S taken' t u := by
  rwa [← funext fun k => propext (hiff k)]

theorem Takes.trans (h : s.Takes S taken t u) (h' : s.Takes S taken' u v) :
    s.Takes S (fun k => taken k ∨ taken' k) t v where
  confined := (h.confined.mono fun _ => .inl).trans (h'.confined.mono fun _ => .inr)
  gone := by
    intro hreaches k hk htaken
    by_cases htaken' : taken' k
    · exact h'.gone hreaches k hk htaken'
    · rw [h'.confined.inside k hk htaken']
      exact h.gone hreaches k hk (htaken.resolve_right htaken')

theorem Placed.takes_of_absent (h : s.Placed S t) {n : String} (hn : IsShortName n)
    (habsent : t.isPresent (s.folder.join ⟨n⟩) = false) :
    s.Takes S (fun k => ∃ rest, k = n :: rest) t t := by
  refine ⟨.refl h, fun hreaches k _ ⟨rest, hrest⟩ => ?_⟩
  subst hrest
  have hfresh : s.IsFresh n t := by
    intro S' hS'
    obtain rfl := Option.some.inj (h.lead.symm.trans hS')
    exact h.get?_eq_none hn hreaches habsent
  exact hfresh.get?_eq_none h.wellFormed h.lead

/-- A folder in the store's folder is taken away with all that stands in it. -/
theorem Housed.takes_of_removeFolder (h : s.Housed S t) {n : String} (hn : Path.IsName n)
    (hok : t.removeFolder (s.folder.join ⟨n⟩) = (.ok (), u)) :
    s.Takes S (fun k => ∃ rest, k = n :: rest) t u := by
  have halters := h.removeFolder hn hok
  obtain ⟨k, hk, hcases⟩ := FileTree.removeFolder_join hn hok
  obtain rfl := Placed.eq_of_resolve (.inl h) hn hk
  rcases hcases with ⟨q, hq⟩ | ⟨-, rfl⟩
  · exact absurd hq (h.noLink _ (FileTree.isInside_cons _ _ _) q)
  · refine ⟨⟨halters, fun k hk _ => ?_⟩, fun _ k _ ⟨rest, hrest⟩ => ?_⟩
    · have hbelow : ∀ {k}, S ++ [n] <+: k → IsInside S k := by
        rintro _ ⟨rest, rfl⟩
        rw [List.append_assoc]
        exact FileTree.isInside_cons _ _ _
      have hne : k ≠ S ++ [n] := fun heq => hk (hbelow ⟨[], by rw [List.append_nil, heq]⟩)
      rw [FileTree.get?_erase_of_ne hne,
        FileTree.get?_clear_of_not fun hinside => hk (hbelow hinside.1)]
    · subst hrest
      rw [FileTree.get?_erase]
      split
      · rfl
      · next hne =>
          have hinside : IsInside (S ++ [n]) (S ++ n :: rest) :=
            ⟨⟨rest, by simp⟩, fun heq => hne ⟨by simp, heq.symm⟩⟩
          exact FileTree.get?_clear_of_isInside hinside

theorem Housed.takes_of_removeFile (h : s.Housed S t) {n : String} (hn : Path.IsName n)
    (hok : t.removeFile (s.folder.join ⟨n⟩) = (.ok (), u)) : s.Takes S (· = [n]) t u := by
  obtain ⟨halters, hgone⟩ := h.removeFile hn hok
  refine ⟨⟨halters, fun k hk _ => ?_⟩, fun _ k _ hk => hk ▸ hgone⟩
  rcases FileTree.removeFile_cases t (s.folder.join ⟨n⟩) with ⟨e, herror⟩ |
    ⟨k', hk', -, hremoved⟩
  · rw [herror] at hok
    cases hok
  · obtain rfl := Placed.eq_of_resolve (.inl h) hn hk'
    rw [hremoved] at hok
    cases hok
    refine FileTree.get?_erase_of_ne fun heq => hk ?_
    rw [heq]
    exact FileTree.isInside_cons _ _ _

/-! ## Taking runs away -/

theorem discardFile_of_ok (h : s.Placed S w.tree) (hid : Run.IsShortId r.id)
    (hrun : (s.discardFile r).run.run w = (.ok (), w')) :
    s.Takes S (· = [runFileName r.id]) w.tree w'.tree := by
  have hshort := (isShortName_of_isShortId hid).2
  unfold discardFile at hrun
  rw [Attempt.bind_of_ok (Attempt.run_isPresent _ _)] at hrun
  cases hpresent : w.tree.isPresent (s.runPath r.id) with
  | false =>
      rw [hpresent] at hrun
      cases hrun
      exact ⟨.refl h, fun hreaches k _ hk => hk ▸ h.get?_eq_none hshort hreaches hpresent⟩
  | true =>
      rw [hpresent, if_pos rfl] at hrun
      obtain ⟨hremoved, rfl⟩ := Prod.mk.inj (Attempt.orFail_eq_ok hrun)
      exact (h.housed_of_isPresent hshort.isName hpresent).takes_of_removeFile hshort.isName
        (Prod.ext hremoved rfl)

/-- All that is kept of a run is taken away. -/
theorem discard_of_ok (h : s.Placed S w.tree) (hid : Run.IsShortId r.id)
    (hrun : (s.discard r).run.run w = (.ok (), w')) : s.Takes S (IsOf r.id) w.tree w'.tree := by
  have hshort := (isShortName_of_isShortId hid).1
  rw [discard_eq, Attempt.bind_of_ok (Attempt.run_isPresent _ _)] at hrun
  cases hpresent : w.tree.isPresent (s.backupFolder r.id) with
  | false =>
      rw [hpresent] at hrun
      exact (h.takes_of_absent hshort hpresent).trans (discardFile_of_ok h hid hrun)
  | true =>
      rw [hpresent, if_pos rfl] at hrun
      obtain ⟨_, w₁, hremove, hrun⟩ := Attempt.bind_eq_ok hrun
      obtain ⟨hremoved, rfl⟩ := Prod.mk.inj (Attempt.orFail_eq_ok hremove)
      have hfolder := (h.housed_of_isPresent hshort.isName hpresent).takes_of_removeFolder
        hshort.isName
        (Prod.ext hremoved rfl)
      exact hfolder.trans (discardFile_of_ok hfolder.confined.placed hid hrun)

/-- All that is kept of some runs is taken away, one after the other. -/
theorem forM_discard_of_ok {rs : List Run} (h : s.Placed S w.tree)
    (hids : ∀ r ∈ rs, Run.IsShortId r.id)
    (hrun : (rs.forM s.discard).run.run w = (.ok (), w')) :
    s.Takes S (fun k => ∃ r ∈ rs, IsOf r.id k) w.tree w'.tree := by
  induction rs generalizing w with
  | nil =>
      cases hrun
      exact ⟨.refl h, by simp⟩
  | cons r rs ih =>
      have hcons : (r :: rs).forM s.discard = (s.discard r >>= fun _ => rs.forM s.discard) := rfl
      rw [hcons] at hrun
      obtain ⟨_, w₁, hfirst, hrest⟩ := Attempt.bind_eq_ok hrun
      have hfirst := discard_of_ok h (hids r List.mem_cons_self) hfirst
      have hrest := ih hfirst.confined.placed
        (fun r' hr' => hids r' (List.mem_cons_of_mem _ hr')) hrest
      exact (hfirst.trans hrest).congr fun k => by simp

end RunStore

end Rewrap
