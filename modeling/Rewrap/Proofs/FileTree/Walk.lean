import Mathlib.Data.List.Induction
import Mathlib.Data.List.Nodup
import Rewrap.Proofs.FileTree.Leading
import Rewrap.Proofs.FileTree.Plain
import Rewrap.Proofs.Path.Order

/-! # What a walk finds

Each path of a walk leads to a file below the place of the root, and each such file is found once.
Siblings are visited by name, so the names down to the files come in the order of lists of names,
and the paths in theirs. -/

namespace Rewrap

/-- The path that names lead to from a root, as a walk spells it. -/
def Path.below (root : Path) (names : Place) : Path := names.foldl (fun p n => p.join ⟨n⟩) root

theorem Path.below_append (root : Path) (names : Place) (n : String) :
    root.below (names ++ [n]) = (root.below names).join ⟨n⟩ := by
  simp [below, List.foldl_append]

theorem Path.components_below (root : Path) {names : Place} (hnames : ∀ n ∈ names, IsName n) :
    (root.below names).components = root.components ++ names.map .name := by
  induction names using List.reverseRecOn with
  | nil => simp [below]
  | append_singleton names n ih =>
      have hfirst := ih fun m hm => hnames m (List.mem_append_left _ hm)
      rw [below_append, components_join (hnames n (by simp)), hfirst]
      simp

theorem Path.relativeTo?_below (root : Path) {names : Place} (hnames : ∀ n ∈ names, IsName n) :
    (root.below names).relativeTo? root = some (ofComponents (names.map .name)) := by
  rw [relativeTo?, components_below root hnames, List.isPrefixOf?_eq_some_iff_append_eq.mpr rfl]
  rfl

theorem Path.compare_below (root : Path) {names names' : Place} (hnames : ∀ n ∈ names, IsName n)
    (hnames' : ∀ n ∈ names', IsName n) :
    (root.below names).compare (root.below names') = List.compareLex Ord.compare names names' := by
  rw [compare_eq, components_below root hnames, components_below root hnames']
  induction root.components with
  | nil =>
      induction names generalizing names' with
      | nil => cases names' <;> rfl
      | cons n names ih =>
          cases names' with
          | nil => rfl
          | cons n' names' =>
              have hrest := ih (fun m hm => hnames m (List.mem_cons_of_mem _ hm))
                fun m hm => hnames' m (List.mem_cons_of_mem _ hm)
              simp only [List.nil_append, List.map_cons, List.compareLex_cons_cons] at hrest ⊢
              rw [hrest]
              rfl
  | cons c cs ih =>
      have hself : Component.compare c c = .eq := Std.ReflCmp.compare_self
      rw [List.cons_append, List.cons_append, List.compareLex_cons_cons, hself]
      exact ih

namespace FileTree

variable {t u : FileTree}

/-- The files below a folder, as names that lead to them from there, in the order of the entries. -/
def filesBelow (t : FileTree) (k : Place) : List Place :=
  t.entries.filterMap fun (k', e) =>
    match e, k.isPrefixOf? k' with
    | .file _, some rest => some rest
    | _, _ => none

theorem lookup_of_mem {κ α : Type} [BEq κ] [LawfulBEq κ] {es : List (κ × α)}
    (hnodup : (es.map Prod.fst).Nodup) {k : κ} {e : α} (hmem : (k, e) ∈ es) :
    es.lookup k = some e := by
  induction es with
  | nil => simp at hmem
  | cons e' es ih =>
      obtain ⟨k', e'⟩ := e'
      simp only [List.map_cons, List.nodup_cons] at hnodup
      rw [List.lookup_cons]
      rcases List.mem_cons.mp hmem with heq | htail
      · cases heq
        simp
      · have hne : k ≠ k' := by
          rintro rfl
          exact hnodup.1 (List.mem_map_of_mem htail)
        have hbeq : (k == k') = false := by simpa using hne
        rw [hbeq]
        exact ih hnodup.2 htail

theorem WellFormed.get?_of_mem (h : t.WellFormed) {k : Place} {e : Entry}
    (hmem : (k, e) ∈ t.entries) : t.get? k = some e := by
  have hlookup := lookup_of_mem h.nodup hmem
  have hne : k ≠ [] := by
    rintro rfl
    rw [h.top] at hlookup
    simp at hlookup
  rw [get?, if_neg hne, hlookup]

theorem WellFormed.mem_filesBelow (h : t.WellFormed) {k names : Place} :
    names ∈ t.filesBelow k ↔ ∃ b, t.get? (k ++ names) = some (.file b) := by
  unfold filesBelow
  rw [List.mem_filterMap]
  constructor
  · rintro ⟨⟨k', e⟩, hentry, hnames⟩
    simp only at hnames
    split at hnames
    · next b rest hrest =>
        cases hnames
        rw [List.isPrefixOf?_eq_some_iff_append_eq.mp hrest]
        exact ⟨b, h.get?_of_mem hentry⟩
    · simp at hnames
  · rintro ⟨b, hb⟩
    have hne : k ++ names ≠ [] := by
      intro hnil
      rw [hnil, get?_nil] at hb
      cases hb
    have hrest : k.isPrefixOf? (k ++ names) = some names :=
      List.isPrefixOf?_eq_some_iff_append_eq.mpr rfl
    exact ⟨(k ++ names, .file b), mem_of_get? hne hb, by simp [hrest]⟩

theorem WellFormed.names_of_append (h : t.WellFormed) {k names : Place}
    (hsome : t.get? (k ++ names) ≠ none) :
    (∀ n ∈ names, Path.IsName n) ∧ (names ≠ [] → t.get? k = some .folder) := by
  induction names using List.reverseRecOn with
  | nil => simp
  | append_singleton names n ih =>
      rw [← List.append_assoc] at hsome
      have hparent := h.parent (k ++ names) n hsome
      obtain ⟨hnames, hfolder⟩ := ih (by simp [hparent])
      refine ⟨fun m hm => ?_, fun _ => ?_⟩
      · rcases List.mem_append.mp hm with hm | hm
        · exact hnames m hm
        · obtain rfl := List.mem_singleton.mp hm
          exact h.name (k ++ names) m hsome
      · by_cases hnil : names = []
        · simpa [hnil] using hparent
        · exact hfolder hnil

/-! ## Visiting by name -/

theorem nameIn_eq_some {k k' : Place} {n : String} :
    (match k.isPrefixOf? k' with
      | some [n] => some n
      | _ => none) = some n ↔ k ++ [n] = k' := by
  rw [← List.isPrefixOf?_eq_some_iff_append_eq]
  split
  · next hrest => rw [hrest, Option.some.injEq, Option.some.injEq, List.cons.injEq,
      and_iff_left rfl]
  · next hrest =>
      refine ⟨nofun, fun heq => absurd heq (hrest n)⟩

theorem WellFormed.nodup_namesIn (h : t.WellFormed) (k : Place) : (t.namesIn k).Nodup := by
  have hnodup := h.nodup
  unfold namesIn
  rw [(List.mergeSort_perm _ _).nodup_iff, List.nodup_iff_pairwise_ne, List.pairwise_filterMap]
  rw [List.nodup_iff_pairwise_ne, List.pairwise_map] at hnodup
  refine hnodup.imp fun {x y} hne n hn n' hn' heq => hne ?_
  rw [← nameIn_eq_some.mp hn, ← nameIn_eq_some.mp hn', heq]

theorem WellFormed.mem_namesIn (h : t.WellFormed) {k : Place} {n : String} :
    n ∈ t.namesIn k ↔ t.get? (k ++ [n]) ≠ none := by
  unfold namesIn
  rw [List.mem_mergeSort, List.mem_filterMap]
  constructor
  · rintro ⟨⟨k', e⟩, hentry, hname⟩
    rw [nameIn_eq_some.mp hname, h.get?_of_mem hentry]
    exact Option.some_ne_none e
  · intro hsome
    obtain ⟨e, he⟩ := Option.ne_none_iff_exists'.mp hsome
    exact ⟨(k ++ [n], e), mem_of_get? (by simp) he, nameIn_eq_some.mpr rfl⟩

/-- Siblings are visited in the order of their names, each of them once. -/
theorem WellFormed.pairwise_namesIn (h : t.WellFormed) (k : Place) :
    (t.namesIn k).Pairwise fun n n' => compare n n' = .lt := by
  have hsorted : (t.namesIn k).Pairwise fun n n' => (compare n n').isLE = true := by
    refine List.pairwise_mergeSort (fun _ _ _ => Std.TransCmp.isLE_trans) (fun n n' => ?_) _
    have hswap : compare n' n = (compare n n').swap := Std.OrientedCmp.eq_swap
    rw [hswap]
    cases compare n n' <;> rfl
  refine (hsorted.and (h.nodup_namesIn k)).imp fun {n n'} ⟨hle, hne⟩ => ?_
  cases hcompare : compare n n' with
  | lt => rfl
  | eq => exact absurd (Std.LawfulEqCmp.eq_of_compare hcompare) hne
  | gt => simp [hcompare] at hle

theorem mem_visit {n : String} {e : Option Entry} {inFolder : List Place} {names : Place} :
    names ∈ visit n e inFolder ↔
      (names = [n] ∧ ∃ b, e = some (.file b)) ∨
        (e = some .folder ∧ ∃ rest ∈ inFolder, n :: rest = names) := by
  cases e with
  | none => simp [visit]
  | some e => cases e <;> simp [visit]

theorem exists_cons_of_mem_visit {n : String} {e : Option Entry} {inFolder : List Place}
    {names : Place} (h : names ∈ visit n e inFolder) : ∃ rest, names = n :: rest := by
  obtain ⟨rfl, -⟩ | ⟨-, rest, -, rfl⟩ := mem_visit.mp h
  · exact ⟨[], rfl⟩
  · exact ⟨rest, rfl⟩

/-- A walk visits the files below a folder, down to the given level. -/
theorem WellFormed.mem_filesWithin (h : t.WellFormed) {levels : Nat} {k names : Place} :
    names ∈ t.filesWithin levels k ↔
      names ≠ [] ∧ names.length ≤ levels ∧ ∃ b, t.get? (k ++ names) = some (.file b) := by
  induction levels generalizing k names with
  | zero =>
      refine ⟨nofun, fun ⟨hne, hlength, _⟩ => ?_⟩
      exact absurd (List.length_eq_zero_iff.mp (Nat.le_zero.mp hlength)) hne
  | succ levels ih =>
      simp only [filesWithin, List.mem_flatMap, mem_visit]
      constructor
      · rintro ⟨n, -, ⟨rfl, hfile⟩ | ⟨-, rest, hrest, rfl⟩⟩
        · exact ⟨by simp, by simp, hfile⟩
        · obtain ⟨-, hlength, hfile⟩ := ih.mp hrest
          rw [List.append_assoc] at hfile
          exact ⟨by simp, by simpa using hlength, hfile⟩
      · rintro ⟨hne, hlength, b, hb⟩
        obtain ⟨n, rest, rfl⟩ := List.exists_cons_of_ne_nil hne
        have happend : k ++ n :: rest = (k ++ [n]) ++ rest := by simp
        rw [happend] at hb
        by_cases hrest : rest = []
        · subst hrest
          rw [List.append_nil] at hb
          exact ⟨n, h.mem_namesIn.mpr (by simp [hb]), .inl ⟨rfl, b, hb⟩⟩
        · have hsome : t.get? ((k ++ [n]) ++ rest) ≠ none :=
            Option.ne_none_iff_exists'.mpr ⟨_, hb⟩
          have hfolder := (h.names_of_append hsome).2 hrest
          refine ⟨n, h.mem_namesIn.mpr (by rw [hfolder]; exact Option.some_ne_none _),
            .inr ⟨hfolder, rest, ih.mpr ?_, rfl⟩⟩
          exact ⟨hrest, by simpa using hlength, b, hb⟩

theorem pairwise_visit {n : String} {e : Option Entry} {inFolder : List Place}
    (h : inFolder.Pairwise fun names names' => List.compareLex compare names names' = .lt) :
    (visit n e inFolder).Pairwise fun names names' =>
      List.compareLex compare names names' = .lt := by
  have hself : compare n n = .eq := Std.ReflCmp.compare_self
  unfold visit
  split
  · exact List.pairwise_singleton _ _
  · refine List.pairwise_map.mpr (h.imp fun hlt => ?_)
    rw [List.compareLex_cons_cons, hself]
    exact hlt
  · exact .nil

/-- Files are visited in the order of the names that lead to them. -/
theorem WellFormed.pairwise_filesWithin (h : t.WellFormed) (levels : Nat) (k : Place) :
    (t.filesWithin levels k).Pairwise fun names names' =>
      List.compareLex compare names names' = .lt := by
  induction levels generalizing k with
  | zero => exact .nil
  | succ levels ih =>
      rw [filesWithin, List.pairwise_flatMap]
      refine ⟨fun n _ => pairwise_visit (ih _), (h.pairwise_namesIn k).imp ?_⟩
      intro n n' hlt names hnames names' hnames'
      -- files of two siblings are told apart by the names of these
      obtain ⟨rest, rfl⟩ := exists_cons_of_mem_visit hnames
      obtain ⟨rest', rfl⟩ := exists_cons_of_mem_visit hnames'
      rw [List.compareLex_cons_cons, hlt]
      rfl

theorem length_le_height {k : Place} {e : Entry} (hmem : (k, e) ∈ t.entries) :
    k.length ≤ t.height := by
  unfold height
  generalize t.entries = es at hmem
  induction es with
  | nil => cases hmem
  | cons x es ih =>
      rcases List.mem_cons.mp hmem with rfl | hmem
      · exact Nat.le_max_left _ _
      · exact (ih hmem).trans (Nat.le_max_right _ _)

/-- The levels of the tree are enough to find all files below a folder. -/
theorem WellFormed.mem_filesWithin_height (h : t.WellFormed) {k names : Place}
    (hk : t.get? k = some .folder) :
    names ∈ t.filesWithin t.height k ↔ ∃ b, t.get? (k ++ names) = some (.file b) := by
  rw [h.mem_filesWithin]
  refine ⟨fun ⟨_, _, hfile⟩ => hfile, fun ⟨b, hb⟩ => ?_⟩
  have hne : names ≠ [] := by
    rintro rfl
    simp [hk] at hb
  have hlength := length_le_height (mem_of_get? (by simp [hne]) hb)
  rw [List.length_append] at hlength
  exact ⟨hne, by omega, b, hb⟩

/-! ## Leading to what is found -/

theorem WellFormed.leadOf_below (h : t.WellFormed) {root : Path} {R names : Place}
    (hR : t.leadOf root = some R) {e : Entry} (he : t.get? (R ++ names) = some e)
    (hno : ∀ q, e ≠ .link q) : t.leadOf (root.below names) = some (R ++ names) := by
  induction names using List.reverseRecOn generalizing e with
  | nil => simpa [Path.below] using hR
  | append_singleton names n ih =>
      rw [← List.append_assoc] at he
      have hsome : t.get? (R ++ names ++ [n]) ≠ none := by rw [he]; exact Option.some_ne_none e
      have hparent := h.parent (R ++ names) n hsome
      have hname := h.name (R ++ names) n hsome
      rw [Path.below_append, ← List.append_assoc]
      refine leadOf_join hname (ih hparent (by simp)) fun q hq => ?_
      rw [he] at hq
      exact hno q (Option.some.inj hq)

/-- A path that a walk from the root can find: it is spelled by the names down to a file. -/
def IsSource (t : FileTree) (root p : Path) (k : Place) : Prop :=
  ∃ R names b, t.leadOf root = some R ∧ k = R ++ names ∧ p = root.below names ∧
    t.get? k = some (.file b)

theorem IsSource.leadOf (h : t.WellFormed) {root p : Path} {k : Place} (hp : t.IsSource root p k) :
    t.leadOf p = some k := by
  obtain ⟨R, names, b, hR, rfl, rfl, hb⟩ := hp
  exact h.leadOf_below hR hb (by simp)

/-- Sources at the same place are spelled the same. -/
theorem IsSource.inj {root p q : Path} {k : Place} (hp : t.IsSource root p k)
    (hq : t.IsSource root q k) : p = q := by
  obtain ⟨R, names, b, hR, rfl, rfl, -⟩ := hp
  obtain ⟨R', names', b', hR', heq, rfl, -⟩ := hq
  rw [hR] at hR'
  cases hR'
  rw [List.append_cancel_left heq]

theorem IsSource.root_prefix {root p : Path} {k : Place} (hp : t.IsSource root p k) :
    ∃ R, t.leadOf root = some R ∧ R <+: k := by
  obtain ⟨R, names, b, hR, rfl, -, -⟩ := hp
  exact ⟨R, hR, List.prefix_append R names⟩

/-! ## Walks -/

theorem walk_eq {root : Path} {R : Place} (hR : t.resolve true root = .ok R)
    (hfolder : t.get? R = some .folder) :
    t.walk root = .ok ((t.filesWithin t.height R).map root.below) := by
  unfold walk
  rw [hR, Except.bind_ok, hfolder]
  rfl

/-- A walk that goes through is one of a folder, or finds just the file that its root is. -/
theorem walk_cases (h : t.WellFormed) {root : Path} {ps : List Path} (hps : t.walk root = .ok ps) :
    ∃ R, t.resolve true root = .ok R ∧
      ((t.get? R = some .folder ∧ ps = (t.filesWithin t.height R).map root.below) ∨
        ∃ b, t.get? R = some (.file b) ∧ ps = [root]) := by
  obtain ⟨R, hR, hfound⟩ := Except.bind_eq_ok.mp hps
  refine ⟨R, hR, ?_⟩
  cases hget : t.get? R with
  | none => simp [hget] at hfound
  | some e =>
      cases e with
      | folder =>
          rw [walk_eq hR hget] at hps
          exact .inl ⟨rfl, (Except.ok.inj hps).symm⟩
      | file b =>
          simp only [hget] at hfound
          cases hfound
          exact .inr ⟨b, rfl, rfl⟩
      | link q =>
          have hspot := placeOf_isSpot h (Path.areProper_steps root) (resolve_eq_ok hR).2
          rcases hspot with hfolder | ⟨-, -, -, -, -, hno⟩
          · simp [hfolder] at hget
          · exact absurd hget (hno rfl q)

/-- A walk finds the files below its root, and no other. -/
theorem mem_walk_iff (h : t.WellFormed) {root p : Path} {ps : List Path}
    (hps : t.walk root = .ok ps) : p ∈ ps ↔ ∃ k, t.IsSource root p k := by
  obtain ⟨R, hR, hfound⟩ := walk_cases h hps
  have hlead := leadOf_of_resolve hR
  rcases hfound with ⟨hfolder, rfl⟩ | ⟨b, hb, rfl⟩
  · rw [List.mem_map]
    constructor
    · rintro ⟨names, hnames, rfl⟩
      obtain ⟨b, hb⟩ := (h.mem_filesWithin_height hfolder).mp hnames
      exact ⟨R ++ names, R, names, b, hlead, rfl, rfl, hb⟩
    · rintro ⟨k, R', names, b, hR', rfl, rfl, hb⟩
      rw [hlead] at hR'
      cases hR'
      exact ⟨names, (h.mem_filesWithin_height hfolder).mpr ⟨b, hb⟩, rfl⟩
  · rw [List.mem_singleton]
    constructor
    · rintro rfl
      exact ⟨R, R, [], b, hlead, by simp, rfl, hb⟩
    · rintro ⟨k, R', names, b', hR', rfl, rfl, hb'⟩
      rw [hlead] at hR'
      cases hR'
      have hsome : t.get? (R ++ names) ≠ none := by rw [hb']; exact Option.some_ne_none _
      by_cases hnames : names = []
      · rw [hnames]
        rfl
      · rw [(h.names_of_append hsome).2 hnames] at hb
        cases hb

/-- A walk finds files in the order of their paths, each of them once. -/
theorem pairwise_walk (h : t.WellFormed) {root : Path} {ps : List Path}
    (hps : t.walk root = .ok ps) : ps.Pairwise fun p q => p.compare q = .lt := by
  obtain ⟨R, hR, ⟨hfolder, rfl⟩ | ⟨b, -, rfl⟩⟩ := walk_cases h hps
  · refine List.pairwise_map.mpr ((h.pairwise_filesWithin t.height R).imp_of_mem ?_)
    intro names names' hnames hnames' hlt
    have hproper : ∀ names ∈ t.filesWithin t.height R, ∀ n ∈ names, Path.IsName n := by
      intro names hnames
      obtain ⟨b, hb⟩ := (h.mem_filesWithin_height hfolder).mp hnames
      exact (h.names_of_append (by rw [hb]; exact Option.some_ne_none _)).1
    rw [root.compare_below (hproper names hnames) (hproper names' hnames')]
    exact hlt
  · exact List.pairwise_singleton _ _

theorem walk_spec (h : t.WellFormed) {root : Path} {ps : List Path} (hps : t.walk root = .ok ps) :
    ps.Nodup ∧ ∀ p ∈ ps, ∃ k, t.IsSource root p k := by
  refine ⟨(pairwise_walk h hps).imp fun {p q} hlt heq => ?_,
    fun p hp => (mem_walk_iff h hps).mp hp⟩
  rw [heq, Path.compare_self] at hlt
  cases hlt

end FileTree

end Rewrap
