import Rewrap.Proofs.Text.Trimming

/-! # Line numbers

A word without a line feed stands on one line of the text, and the number of that line is found by
counting the line feeds before the word. -/

namespace Rewrap.Text

variable {t l w x z : Text} {earlier later : List Text} {line : Nat}

@[simp] theorem lineFeeds_append (s t : Text) : lineFeeds (s ++ t) = lineFeeds s + lineFeeds t :=
  List.count_append

theorem lineFeeds_eq_zero (h : '\n' ∉ t) : lineFeeds t = 0 := List.count_eq_zero.mpr h

theorem lines_eq_cons (h : t.lines = l :: later) :
    ∃ rest, t = l ++ rest ∧ rest.lines = later ∧
      ((∃ a, '\n' ∉ a ∧ l = a ++ ['\n']) ∨ ('\n' ∉ l ∧ later = [])) := by
  by_cases hmem : '\n' ∈ t
  · obtain ⟨a, rest, rfl, ha⟩ := List.eq_append_cons_of_mem hmem
    rw [lines_append_lineFeed ha] at h
    obtain ⟨rfl, rfl⟩ := List.cons.inj h
    exact ⟨rest, by simp, rfl, .inl ⟨a, ha, rfl⟩⟩
  · have hne : t ≠ [] := by
      rintro rfl
      simp [lines, linesBy] at h
    rw [lines_of_open hmem hne] at h
    obtain ⟨rfl, rfl⟩ := List.cons.inj h
    exact ⟨[], by simp, rfl, .inr ⟨hmem, rfl⟩⟩

theorem lineFeeds_of_lines (h : t.lines = earlier ++ l :: later) :
    lineFeeds earlier.flatten = earlier.length ∧ ∃ a, '\n' ∉ a ∧
      (l = a ∨ l = a ++ ['\n']) := by
  induction earlier generalizing t with
  | nil =>
      obtain ⟨-, -, -, ⟨a, ha, rfl⟩ | ⟨hl, -⟩⟩ := lines_eq_cons h
      · exact ⟨rfl, a, ha, .inr rfl⟩
      · exact ⟨rfl, l, hl, .inl rfl⟩
  | cons first earlier ih =>
      obtain ⟨rest, -, hrest, ⟨a, ha, rfl⟩ | ⟨-, hnil⟩⟩ := lines_eq_cons h
      · obtain ⟨hcount, hline⟩ := ih hrest
        refine ⟨?_, hline⟩
        have hfirst : lineFeeds (a ++ ['\n']) = 1 := by
          rw [lineFeeds_append, lineFeeds_eq_zero ha]
          rfl
        rw [List.flatten_cons, lineFeeds_append, hfirst, hcount, List.length_cons, Nat.add_comm]
      · simp at hnil

/-- The word `w` stands behind `x` in the text, and it stands on the line with the given number. -/
def StandsOnLine (t w x : Text) (line : Nat) : Prop :=
  ∃ earlier lead trail later, t.lines = earlier ++ (lead ++ (w ++ trail)) :: later ∧
    earlier.length + 1 = line ∧ x = earlier.flatten ++ lead

theorem StandsOnLine.eq (h : StandsOnLine t w x line) (hne : w ≠ []) :
    line = lineFeeds x + 1 := by
  obtain ⟨earlier, lead, trail, later, hlines, rfl, rfl⟩ := h
  obtain ⟨hcount, a, ha, hline⟩ := lineFeeds_of_lines hlines
  have hlead : '\n' ∉ lead := by
    intro hmem
    -- only the last character of the line can be a line feed, and that one stands behind `lead`
    obtain ⟨m, c, hm⟩ := (List.eq_nil_or_concat (w ++ trail)).resolve_left (by simp [hne])
    rw [hm, List.concat_eq_append, ← List.append_assoc] at hline
    rcases hline with rfl | hline
    · exact ha (by simp [hmem])
    · obtain ⟨rfl, -⟩ := List.append_inj' hline rfl
      exact ha (by simp [hmem])
  rw [lineFeeds_append, hcount, lineFeeds_eq_zero hlead, Nat.add_zero]

theorem not_standsOnLine (h : ∀ l ∈ t.lines[line - 1]?, ¬w <:+: l) :
    ¬∃ x, StandsOnLine t w x line := by
  rintro ⟨x, earlier, lead, trail, later, hlines, rfl, -⟩
  exact h (lead ++ (w ++ trail)) (by simp [hlines]) ⟨lead, trail, by simp⟩

theorem lines_append_eq_cons {u : Text} (hu : '\n' ∉ u) (hne : u ++ z ≠ []) :
    ∃ trail later, (u ++ z).lines = (u ++ trail) :: later := by
  obtain ⟨l, later, hlines⟩ := List.exists_cons_of_ne_nil (mt linesBy_eq_nil_iff.mp hne)
  refine ⟨l.drop u.length, later, ?_⟩
  obtain ⟨rest, heq, hrest, hl⟩ := lines_eq_cons hlines
  have hleads : u <+: l := by
    rcases List.append_eq_append_iff.mp heq with ⟨v, rfl, -⟩ | ⟨v, rfl, hv⟩
    · exact List.prefix_append u v
    · rcases hl with ⟨a, -, rfl⟩ | ⟨-, rfl⟩
      · simp at hu
      · obtain rfl : rest = [] := linesBy_eq_nil_iff.mp hrest
        obtain ⟨rfl, -⟩ : v = [] ∧ z = [] := by simpa using hv.symm
        simp
  rw [List.prefix_iff_eq_append.mp hleads]
  exact hlines

/-- A word without a line feed stands on a line. -/
theorem exists_standsOnLine (ht : t = x ++ (w ++ z)) (hne : w ≠ []) (hw : '\n' ∉ w) :
    ∃ line, StandsOnLine t w x line := by
  by_cases hmem : '\n' ∈ x
  · obtain ⟨s, hs, hlast⟩ := exists_lastLine hmem
    generalize x.lastLine = l at hs hlast
    subst hs
    obtain ⟨trail, later, hlines⟩ :=
      lines_append_eq_cons (u := l ++ w) (z := z) (by simp [hlast, hw]) (by simp [hne])
    have hsplit : t.lines = lines (s ++ ['\n']) ++ lines (l ++ w ++ z) := by
      rw [ht, ← lines_append (by simp)]
      simp
    refine ⟨_, lines (s ++ ['\n']), l, trail, later, ?_, rfl, ?_⟩
    · rw [hsplit, hlines, List.append_assoc]
    · rw [lines, flatten_linesBy, List.append_assoc, List.singleton_append]
  · obtain ⟨trail, later, hlines⟩ :=
      lines_append_eq_cons (u := x ++ w) (z := z) (by simp [hmem, hw]) (by simp [hne])
    exact ⟨1, [], x, trail, later, by simpa [ht] using hlines, rfl, rfl⟩

theorem standsOnLine_iff (ht : t = x ++ (w ++ z)) (hne : w ≠ []) (hw : '\n' ∉ w) :
    StandsOnLine t w x line ↔ line = lineFeeds x + 1 := by
  refine ⟨fun h => h.eq hne, ?_⟩
  rintro rfl
  obtain ⟨line, hline⟩ := exists_standsOnLine ht hne hw
  rwa [← hline.eq hne]

end Rewrap.Text
