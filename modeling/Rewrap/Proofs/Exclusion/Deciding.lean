import Rewrap.Exclusion.Basic
import Rewrap.Proofs.Exclusion.Matching
import Rewrap.Proofs.Path.Respelling

/-! # Which paths are excluded

Each entry that is added excludes what has its canonical form, and with a wildcard also what this
form matches as a pattern. The entries are added one after another, so a path is excluded if one of
them excludes it. How the path is spelled makes no difference. -/

namespace Rewrap.Exclusions

variable {cwd root p : Path} {entry : String} {entries : List String} {s s' : Exclusions}

/-- The path has the canonical form of the entry, or the entry has a wildcard and its canonical
form, in which only the wildcards are special, matches that of the path. -/
def Excludes (cwd root : Path) (entry : String) (p : Path) : Prop :=
  p.canonical cwd = (root.join ⟨entry⟩).canonical cwd ∨
    (('*' ∈ entry.toList ∨ '?' ∈ entry.toList) ∧
      Glob.Matches ((root.join ⟨entry⟩).canonical cwd).text.toList
        (p.canonical cwd).text.toList)

theorem hasWildcard_iff :
    hasWildcard entry = true ↔ '*' ∈ entry.toList ∨ '?' ∈ entry.toList := by
  simp only [hasWildcard, List.any_eq_true, Bool.or_eq_true, beq_iff_eq]
  constructor
  · rintro ⟨c, hc, rfl | rfl⟩
    · exact .inl hc
    · exact .inr hc
  · rintro (h | h)
    · exact ⟨_, h, .inl rfl⟩
    · exact ⟨_, h, .inr rfl⟩

theorem contains_iff : s.contains p = true ↔
    p.canonical s.cwd ∈ s.paths ∨
      ∃ g ∈ s.globs, g.accepts (p.canonical s.cwd).text.toList = true := by
  simp [contains]

/-- A canonical form does not end in directories that nothing follows. -/
theorem canonical_not_suffix (p cwd : Path) :
    ¬ ['*', '*', '/'] <:+ (p.canonical cwd).text.toList := by
  obtain ⟨q, hq⟩ : ∃ q : Path, p.canonical cwd = q.normalize := by
    unfold Path.canonical
    split
    · exact ⟨p, rfl⟩
    · exact ⟨cwd.join p, rfl⟩
  rw [hq]
  rintro ⟨u, hu⟩
  have hroot := Path.text_normalize_of_slash (p := q) (by rw [← hu]; simp)
  rw [hroot] at hu
  have hlength := congrArg List.length hu
  simp at hlength

theorem add_eq_ok (h : add root s entry = .ok s') :
    ∃ paths globs, s' = ⟨s.cwd, paths, s.globs ++ globs⟩ ∧
      (∀ q, q ∈ paths ↔ q ∈ s.paths ∨ q = (root.join ⟨entry⟩).canonical s.cwd) ∧
      ((hasWildcard entry = false ∧ globs = []) ∨
        (hasWildcard entry = true ∧ ∃ g, globs = [g] ∧
        Glob.ofText (Glob.quoteBrackets ((root.join ⟨entry⟩).canonical s.cwd).text.toList) =
          .ok g)) := by
  unfold add at h
  dsimp only at h
  generalize (root.join ⟨entry⟩).canonical s.cwd = place at h ⊢
  have hpaths : ∀ q, q ∈ (if s.paths.contains place then s.paths else s.paths ++ [place]) ↔
      q ∈ s.paths ∨ q = place := by
    intro q
    split
    · next hmem =>
        refine ⟨.inl, fun hq => hq.elim id ?_⟩
        rintro rfl
        simpa using hmem
    · simp
  split at h
  · next hwild =>
      split at h
      · next g hg => exact ⟨_, [g], (Except.ok.inj h).symm, hpaths,
          .inr ⟨hwild, g, rfl, hg⟩⟩
      · cases h
  · next hwild =>
      exact ⟨_, [], by rw [List.append_nil]; exact (Except.ok.inj h).symm, hpaths,
        .inl ⟨by simpa using hwild, rfl⟩⟩

/-- The entry that is added excludes what it excludes, and nothing else changes. -/
theorem contains_add (h : add root s entry = .ok s') :
    s'.cwd = s.cwd ∧ ∀ p, s'.contains p = true ↔ s.contains p = true ∨
      Excludes s.cwd root entry p := by
  obtain ⟨paths, globs, rfl, hpaths, hglobs⟩ := add_eq_ok h
  refine ⟨rfl, fun p => ?_⟩
  simp only [contains_iff, hpaths, List.mem_append, Excludes, ← hasWildcard_iff]
  rcases hglobs with ⟨hplain, rfl⟩ | ⟨hwild, g, rfl, hg⟩
  · simp [hplain, or_right_comm]
  · have haccepts :=
      Glob.accepts_iff (t := (p.canonical s.cwd).text.toList) hg (canonical_not_suffix _ _)
    simp only [hwild, true_and, ← haccepts, List.mem_singleton, or_and_right, exists_or,
      exists_eq_left]
    exact or_or_or_comm

theorem contains_foldlM (h : entries.foldlM (add root) s = .ok s') :
    s'.cwd = s.cwd ∧
      ∀ p, s'.contains p = true ↔ s.contains p = true ∨
        ∃ e ∈ entries, Excludes s.cwd root e p := by
  induction entries generalizing s with
  | nil =>
      obtain rfl := Except.ok.inj h
      simp
  | cons e entries ih =>
      rw [List.foldlM_cons] at h
      obtain ⟨next, hadd, hrest⟩ := Except.bind_eq_ok.mp h
      obtain ⟨hcwd, hcontains⟩ := contains_add hadd
      obtain ⟨hcwd', hcontains'⟩ := ih hrest
      refine ⟨hcwd'.trans hcwd, fun p => ?_⟩
      rw [hcontains', hcontains, hcwd, or_assoc]
      simp

/-- A path is excluded by what it means: it is so exactly if one of the entries excludes its
canonical form, and then it is so however it is spelled. -/
theorem ofEntries_contains (hcwd : cwd.isAbsolute = true) (h : ofEntries cwd root entries = .ok s)
    (p : Path) :
    (s.contains p = true ↔ ∃ e ∈ entries, Excludes cwd root e p) ∧
      (p.text ≠ "" → ∀ q, Relation.ReflTransGen (Path.Respelling cwd) p q →
        s.contains q = s.contains p) := by
  obtain ⟨hbase, hcontains⟩ := contains_foldlM h
  constructor
  · rw [hcontains]
    simp [contains]
  · intro hp q hq
    have hsame := (Path.canonical_of_respellings hcwd hp hq).2
    have hcwd' : s.cwd = cwd := hbase
    rw [contains, contains, hcwd', hsame]

/-- A bracketed name inside a pattern excludes what it spells, and not what its brackets would
list. -/
theorem ofEntries_contains_brackets : ∃ s, ofEntries ⟨"/"⟩ ⟨"a"⟩ ["[b]/?"] = .ok s ∧
    (⟨"/"⟩ : Path).isAbsolute = true ∧ (⟨"a/[b]/c"⟩ : Path).text ≠ "" ∧
    Excludes ⟨"/"⟩ ⟨"a"⟩ "[b]/?" ⟨"a/[b]/c"⟩ ∧
    ¬ Excludes ⟨"/"⟩ ⟨"a"⟩ "[b]/?" ⟨"a/b/c"⟩ ∧
    Path.Respelling ⟨"/"⟩ ⟨"a/[b]/c"⟩ ⟨"a/x/../[b]/c"⟩ ∧
    s.contains ⟨"a/x/../[b]/c"⟩ = true := by
  have hread : ofEntries ⟨"/"⟩ ⟨"a"⟩ ["[b]/?"] =
      .ok ⟨⟨"/"⟩, [⟨"/a/[b]/?"⟩], [⟨[.char '/', .char 'a', .char '/',
      .oneOf ⟨false, [('[', '[')]⟩, .char 'b', .oneOf ⟨false, [(']', ']')]⟩, .char '/',
        .anyChar]⟩]⟩ := by rfl
  have hcwd : (⟨"/"⟩ : Path).isAbsolute = true := by decide
  have hne : (⟨"a/[b]/c"⟩ : Path).text ≠ "" := by decide
  have hrespelled : Path.Respelling ⟨"/"⟩ ⟨"a/[b]/c"⟩ ⟨"a/x/../[b]/c"⟩ := by
    have h : Path.Respelling ⟨"/"⟩ _ _ :=
      .within "a" "[b]/c" (.back "x" ⟨by decide, by decide, by decide, by decide⟩)
    simpa using h
  have hspelled := ofEntries_contains hcwd hread ⟨"a/[b]/c"⟩
  have hlisted := ofEntries_contains hcwd hread ⟨"a/b/c"⟩
  simp only [List.mem_singleton, exists_eq_left] at hspelled hlisted
  have hexcluded : Excludes ⟨"/"⟩ ⟨"a"⟩ "[b]/?" ⟨"a/[b]/c"⟩ :=
    hspelled.1.mp (by decide +kernel)
  refine ⟨_, hread, hcwd, hne, hexcluded, fun h => ?_, hrespelled, ?_⟩
  · exact absurd (hlisted.1.mpr h) (by decide +kernel)
  · rw [hspelled.2 hne _ (.single hrespelled)]
    exact hspelled.1.mpr hexcluded

/-- The empty path stays apart when the folder that a dot before it leads to is excluded. -/
theorem contains_respelled_empty : ∃ s, ofEntries ⟨"/w"⟩ ⟨""⟩ ["."] = .ok s ∧
    Path.Respelling ⟨"/w"⟩ ⟨""⟩ ⟨"./"⟩ ∧ s.contains ⟨""⟩ = false ∧
      s.contains ⟨"./"⟩ = true :=
  ⟨⟨⟨"/w"⟩, [⟨"/w"⟩], []⟩, by rfl, .before .here (by rfl), by rfl, by rfl⟩

end Rewrap.Exclusions
