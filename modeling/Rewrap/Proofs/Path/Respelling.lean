import Mathlib.Logic.Relation
import Rewrap.Proofs.Path.NormalForm

/-! # Other spellings of a path

A path keeps its meaning when it goes through a dot, or into a folder and back out, and when it is
made absolute. Its canonical form is the same then. The empty path has no absolute form, so it is
apart. -/

namespace Rewrap.Path

variable {cwd p q : Path} {x : String}

/-! ## Detours -/

/-- What leads back to where it begins: a dot, or a name and a parent step. -/
inductive IsDetour : String → Prop where
  | here : IsDetour "."
  | back (n : String) (hn : IsName n) : IsDetour (n ++ "/..")

theorem IsDetour.parts (hx : IsDetour x) :
    (⟨x⟩ : Path).parts = [] ∨ ∃ n, (⟨x⟩ : Path).parts = [.name n, .up] := by
  cases hx with
  | here => exact .inl rfl
  | back n hn =>
      have htext : (n ++ "/..").toList = n.toList ++ '/' :: "..".toList := by simp
      have hup : (segments "..".toList).filterMap componentOf? = [.up] := rfl
      refine .inr ⟨n, ?_⟩
      rw [Path.parts, htext, segments_append_slash, List.filterMap_append, hup,
        segments_of_no_slash hn.2.2.2]
      simp [componentOf?_of_isName hn]

theorem IsDetour.foldl (hx : IsDetour x) (done : List Component) :
    (⟨x⟩ : Path).parts.foldl normalStep done = done := by
  rcases hx.parts with h | ⟨n, h⟩
  · rw [h, List.foldl_nil]
  · rw [h, List.foldl_cons, normalStep_name]
    rfl

theorem IsDetour.isAbsolute_eq_false (hx : IsDetour x) : (⟨x⟩ : Path).isAbsolute = false := by
  cases hx with
  | here => rfl
  | back n hn =>
      obtain ⟨c, cs, hcs⟩ := List.exists_cons_of_ne_nil fun h => hn.1 (String.toList_inj.mp h)
      have hc : c ≠ '/' := by
        rintro rfl
        exact hn.2.2.2 (by simp [hcs])
      simp [isAbsolute, hcs, hc]

theorem IsDetour.ne_empty (hx : IsDetour x) : x ≠ "" := by
  cases hx with
  | here => decide
  | back n hn =>
      intro h
      simpa using congrArg String.toList h

/-! ## Spellings -/

/-- The second path is the first with a detour before, within or behind it, or made absolute. -/
inductive Respelling (cwd : Path) : Path → Path → Prop where
  | before {p : Path} {x : String} (hx : IsDetour x) (hp : p.isAbsolute = false) :
      Respelling cwd p ((⟨x⟩ : Path).join p)
  | within {x : String} (a b : String) (hx : IsDetour x) :
      Respelling cwd ⟨a ++ "/" ++ b⟩ ⟨a ++ "/" ++ x ++ "/" ++ b⟩
  | behind {x : String} (p : Path) (hx : IsDetour x) : Respelling cwd p (p.join ⟨x⟩)
  | absolute (p : Path) : Respelling cwd p (cwd.join p)

/-- The paths lead to the same place from wherever they are followed. -/
structure AreAlike (p q : Path) : Prop where
  isAbsolute_eq : q.isAbsolute = p.isAbsolute
  foldl_eq (done : List Component) : q.parts.foldl normalStep done = p.parts.foldl normalStep done

theorem AreAlike.normalize_eq (h : AreAlike p q) : q.normalize = p.normalize := by
  rw [normalize, normalize, normalComponents_eq, normalComponents_eq, h.isAbsolute_eq, h.foldl_eq]

theorem join_of_isAbsolute (a : Path) (hp : p.isAbsolute = true) : a.join p = p := if_pos hp

theorem AreAlike.join (h : AreAlike p q) (a : Path) : AreAlike (a.join p) (a.join q) := by
  cases hp : p.isAbsolute with
  | true =>
      have hq := h.isAbsolute_eq.trans hp
      rwa [join_of_isAbsolute a hp, join_of_isAbsolute a hq]
  | false =>
      have hq := h.isAbsolute_eq.trans hp
      obtain ⟨habsp, hpartsp⟩ := a.parts_join hp
      obtain ⟨habsq, hpartsq⟩ := a.parts_join hq
      exact ⟨habsq.trans habsp.symm, fun done => by
        rw [hpartsp, hpartsq, List.foldl_append, List.foldl_append, h.foldl_eq]⟩

theorem parts_slash (a b : String) :
    (⟨a ++ "/" ++ b⟩ : Path).parts = (⟨a⟩ : Path).parts ++ (⟨b⟩ : Path).parts := by
  have htext : (a ++ "/" ++ b).toList = a.toList ++ '/' :: b.toList := by simp
  rw [parts, htext, segments_append_slash, List.filterMap_append]
  rfl

theorem areAlike_before (hx : IsDetour x) (hp : p.isAbsolute = false) :
    AreAlike p ((⟨x⟩ : Path).join p) := by
  obtain ⟨habs, hparts⟩ := (⟨x⟩ : Path).parts_join hp
  exact ⟨by rw [habs, hx.isAbsolute_eq_false, hp],
    fun done => by rw [hparts, List.foldl_append, hx.foldl]⟩

theorem areAlike_within (a b : String) (hx : IsDetour x) :
    AreAlike ⟨a ++ "/" ++ b⟩ ⟨a ++ "/" ++ x ++ "/" ++ b⟩ where
  isAbsolute_eq := by
    unfold isAbsolute
    cases ha : a.toList <;> simp [ha]
  foldl_eq done := by
    rw [parts_slash, parts_slash, parts_slash, List.foldl_append, List.foldl_append,
      List.foldl_append, hx.foldl]

theorem areAlike_behind (p : Path) (hx : IsDetour x) : AreAlike p (p.join ⟨x⟩) := by
  obtain ⟨habs, hparts⟩ := p.parts_join hx.isAbsolute_eq_false
  exact ⟨habs, fun done => by rw [hparts, List.foldl_append, hx.foldl]⟩

theorem isAbsolute_join (a p : Path) (ha : a.isAbsolute = true) : (a.join p).isAbsolute = true := by
  cases hp : p.isAbsolute with
  | true => rwa [join_of_isAbsolute a hp]
  | false => exact (a.parts_join hp).1.trans ha

theorem ne_empty_of_isAbsolute (hp : p.isAbsolute = true) : p.text ≠ "" := by
  intro h
  simp [isAbsolute, h] at hp

theorem join_ne_empty {a : Path} (ha : a.text ≠ "") (p : Path) : (a.join p).text ≠ "" := by
  unfold join
  split
  · next hp => exact ne_empty_of_isAbsolute hp
  · split <;> simp [ha]

theorem canonical_of_ne_empty (hp : p.text ≠ "") (cwd : Path) :
    p.canonical cwd = (cwd.join p).normalize := by
  rw [canonical, if_neg (by simpa using hp)]

/-- A respelled path is no empty one, and has the same canonical form. -/
theorem Respelling.canonical_eq (hcwd : cwd.isAbsolute = true) (hp : p.text ≠ "")
    (h : Respelling cwd p q) : q.text ≠ "" ∧ q.canonical cwd = p.canonical cwd := by
  have key : q.text ≠ "" ∧ AreAlike (cwd.join p) (cwd.join q) := by
    cases h with
    | before hx hrelative =>
        exact ⟨join_ne_empty hx.ne_empty p, (areAlike_before hx hrelative).join cwd⟩
    | within a b hx => exact ⟨by simp, (areAlike_within a b hx).join cwd⟩
    | behind _ hx => exact ⟨join_ne_empty hp _, (areAlike_behind p hx).join cwd⟩
    | absolute =>
        have habs := isAbsolute_join cwd p hcwd
        refine ⟨ne_empty_of_isAbsolute habs, ?_⟩
        rw [join_of_isAbsolute cwd habs]
        exact ⟨rfl, fun _ => rfl⟩
  rw [canonical_of_ne_empty key.1, canonical_of_ne_empty hp, key.2.normalize_eq]
  exact ⟨key.1, rfl⟩

/-- However often a path is respelled, it has one canonical form. -/
theorem canonical_of_respellings (hcwd : cwd.isAbsolute = true) (hp : p.text ≠ "")
    (h : Relation.ReflTransGen (Respelling cwd) p q) :
    q.text ≠ "" ∧ q.canonical cwd = p.canonical cwd := by
  induction h with
  | refl => exact ⟨hp, rfl⟩
  | tail _ hstep ih =>
      obtain ⟨hne, heq⟩ := hstep.canonical_eq hcwd ih.1
      exact ⟨hne, heq.trans ih.2⟩

/-! ## The end of a normal form -/

theorem getLast?_parts {cs : List Component} (hcs : ∀ d ∈ cs, d.IsPart) :
    ("/".intercalate (cs.map Component.text)).toList.getLast? ≠ some '/' := by
  cases cs with
  | nil => simp
  | cons c cs =>
      intro hlast
      obtain ⟨u, hu⟩ := List.getLast?_eq_some_iff.mp hlast
      have hsegments := segments_text hcs
      rw [hu, segments_append_slash] at hsegments
      -- the last segment would be empty
      have hblank : [] ∈ (c :: cs).map fun d => d.text.toList := by
        rw [← hsegments]
        simp [segments]
      obtain ⟨d, hd, hempty⟩ := List.mem_map.mp hblank
      have hread := (hcs d hd).componentOf?_text
      rw [hempty] at hread
      cases hread

theorem AreNormal.text_of_slash {rooted : Bool} {cs : List Component} (h : AreNormal rooted cs)
    (hproper : AreProper cs) (hslash : (Path.ofComponents cs).text.toList.getLast? = some '/') :
    (Path.ofComponents cs).text = "/" := by
  obtain ⟨n, names, rfl⟩ := h
  have hnames : ∀ d ∈ names.map Component.name, d.IsPart := by
    intro d hd
    obtain ⟨m, hm, rfl⟩ := List.mem_map.mp hd
    exact .inr ⟨m, rfl, hproper m (by simp [hm])⟩
  cases rooted with
  | true =>
      have htext : (Path.ofComponents ([.root] ++ names.map .name)).text =
          "/" ++ "/".intercalate ((names.map Component.name).map Component.text) := rfl
      rw [if_pos rfl, htext] at hslash ⊢
      rw [String.toList_append, List.getLast?_append] at hslash
      cases hlast : ("/".intercalate
        ((names.map Component.name).map Component.text)).toList.getLast? with
      | none =>
          have hblank := String.toList_eq_nil_iff.mp (List.getLast?_eq_none_iff.mp hlast)
          rw [hblank]
          rfl
      | some c =>
          rw [hlast, Option.some_or] at hslash
          exact absurd (hlast.trans hslash) (getLast?_parts hnames)
  | false =>
      have hparts : ∀ d ∈ List.replicate n .up ++ names.map Component.name, d.IsPart := by
        intro d hd
        rcases List.mem_append.mp hd with hd | hd
        · exact .inl (List.eq_of_mem_replicate hd)
        · exact hnames d hd
      rw [if_neg (by decide), text_ofComponents_of_isPart hparts] at hslash
      exact absurd hslash (getLast?_parts hparts)

theorem text_normalize_of_slash (h : p.normalize.text.toList.getLast? = some '/') :
    p.normalize.text = "/" :=
  p.areNormal_normalComponents.text_of_slash p.areProper_normalComponents h

end Rewrap.Path
