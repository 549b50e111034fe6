import Rewrap.Proofs.Edit.Cuts
import Rewrap.Proofs.Text.Lines
import Rewrap.Proofs.Text.Search
import Rewrap.Proofs.Text.Trimming

/-! # Removing usage tags

Each removed piece is the whole line of a self-closing tag. -/

namespace Rewrap

/-! ## Taking out occurrences -/

/-- Taking out the occurrences of a pattern is making cuts. -/
theorem Pattern.Scan.exists_cuts {p : Pattern} {before t : Text} {os : List Occurrence}
    (h : Scan p before t os) :
    ∃ cs tail, t = Cut.source tail cs ∧
      (os.map fun o => Edit.delete o.start o.stop) = Cut.edits before.utf8Size cs ∧
      Cut.result tail cs = (MarkedText.mark before.length t os).unmarked ∧
      cs.length = os.length ∧
      ∀ c ∈ cs, c.added = [] ∧ ∃ (z : Text) (rest : Text),
        p z.getLast? (c.removed ++ rest) = some rest := by
  induction h with
  | @done before t absent =>
      exact ⟨[], t, rfl, rfl, by simp [Cut.result, MarkedText.mark], rfl, by simp⟩
  | @next before g m rest os nonempty absent reads more ih =>
      obtain ⟨cs, tail, rfl, hedits, hresult, hlength, hcs⟩ := ih
      refine ⟨⟨g, m, []⟩ :: cs, tail, rfl, ?_, ?_, by simp [hlength], ?_⟩
      · rw [List.map_cons, hedits, Cut.edits]
        simp [Edit.delete, Occurrence.start, Occurrence.stop, Nat.add_assoc]
      · simp [Cut.result, MarkedText.mark, hresult]
      · intro c hc
        rcases List.mem_cons.mp hc with rfl | hc
        · exact ⟨rfl, _, _, reads⟩
        · exact hcs c hc

namespace Tag

/-- A self-closing tag with the blanks beside it and the line break behind it. -/
def IsUsageLine (name : String) (d : Text) : Prop :=
  ∃ b w b' l, Text.IsBlank b ∧ Text.IsSpace w ∧ Text.IsBlank b' ∧
    (l = [] ∨ l = ['\n'] ∨ l = ['\r', '\n']) ∧
    d = b ++ ('<' :: name.toList ++ (w ++ (['/', '>'] ++ (b' ++ l))))

/-- A self-closing tag that has its line for itself: where a line begins, blanks, the tag, blanks
and a line break, which the end of the text stands for as well. -/
structure IsOwnLine (name : String) (o : Occurrence) : Prop where
  start : ∀ c ∈ o.before.getLast?, c = '\n'
  line : ∃ b w b' e, Text.IsBlank b ∧ Text.IsSpace w ∧ Text.IsBlank b' ∧
    Text.IsLineEnd e o.after ∧
    o.matched = b ++ ('<' :: name.toList ++ (w ++ (['/', '>'] ++ (b' ++ e))))

variable {name : String}

theorem IsOwnLine.isUsageLine {o : Occurrence} (h : IsOwnLine name o) :
    IsUsageLine name o.matched := by
  obtain ⟨b, w, b', e, hb, hw, hb', he, hmatched⟩ := h.line
  refine ⟨b, w, b', e, hb, hw, hb', ?_, hmatched⟩
  rcases he with rfl | rfl | ⟨rfl, -⟩ <;> simp

theorem ownLine_eq_some {before t rest : Text} (h : ownLine name before.getLast? t = some rest) :
    ∃ d, t = d ++ rest ∧ IsOwnLine name ⟨before, d, rest⟩ := by
  unfold ownLine at h
  split at h
  · next hstart =>
      obtain ⟨t₁, ht₁, h₁⟩ := Option.bind_eq_some_iff.mp h
      obtain ⟨t₂, ht₂, h₂⟩ := Option.bind_eq_some_iff.mp h₁
      obtain ⟨e, he, h₃⟩ := Text.dropLineEnd?_eq_some h₂
      have ht₁ := List.isPrefixOf?_eq_some_iff_append_eq.mp ht₁
      have ht₂ := List.isPrefixOf?_eq_some_iff_append_eq.mp ht₂
      refine ⟨_, ?_, by simpa [Option.all_eq_true] using
        hstart, t.indent, t₁.takeWhile isWhiteSpace,
        Text.indent t₂, e, t.isBlank_indent, fun c hc => List.mem_takeWhile_imp hc,
          Text.isBlank_indent t₂, he, rfl⟩
      calc
        t = t.indent ++ t.dropIndent := (Text.indent_append_dropIndent t).symm
        _ = t.indent ++ ('<' :: name.toList ++
            (t₁.takeWhile isWhiteSpace ++ t₁.dropWhile isWhiteSpace)) := by
          rw [← ht₁, List.takeWhile_append_dropWhile]
        _ = t.indent ++ ('<' :: name.toList ++
            (t₁.takeWhile isWhiteSpace ++
              (['/', '>'] ++ (Text.indent t₂ ++ (e ++ rest))))) := by
          rw [← ht₂, ← h₃, Text.indent_append_dropIndent]
        _ = _ := by simp
  · simp at h

theorem IsOwnLine.reads {o : Occurrence} (h : IsOwnLine name o) :
    ownLine name o.before.getLast? (o.matched ++ o.after) = some o.after := by
  obtain ⟨b, w, b', e, hb, hw, hb', he, hmatched⟩ := h.line
  have hstart : o.before.getLast?.all (· == '\n') = true := by
    simpa [Option.all_eq_true] using h.start
  have htag : Text.dropIndent (o.matched ++ o.after) =
      '<' :: name.toList ++ (w ++ (['/', '>'] ++ (b' ++ (e ++ o.after)))) := by
    have hlead := Text.dropIndent_append hb
      (t := '<' :: name.toList ++ (w ++ (['/', '>'] ++ (b' ++ (e ++ o.after)))))
        (by simp [Text.isBlank])
    simpa [hmatched] using hlead
  have hend : (w ++ (['/', '>'] ++ (b' ++ (e ++ o.after)))).dropWhile isWhiteSpace =
      ['/', '>'] ++ (b' ++ (e ++ o.after)) := by
    rw [List.dropWhile_append_of_pos hw]
    simp [show isWhiteSpace '/' = false by decide]
  have hskip : ∀ u v : Text, u.isPrefixOf? (u ++ v) = some v := fun u v =>
    List.isPrefixOf?_eq_some_iff_append_eq.mpr rfl
  rw [ownLine, if_pos hstart, htag]
  simp only [hskip, Option.bind_eq_bind, Option.bind_some, hend, he.dropIndent hb', he.dropLineEnd?]

theorem ownLine_proper (name : String) : Pattern.Proper (ownLine name) := by
  refine ⟨fun {prev t rest} h => ?_⟩
  obtain ⟨before, rfl⟩ : ∃ before : Text, prev = before.getLast? :=
    ⟨prev.toList, by cases prev <;> rfl⟩
  obtain ⟨d, rfl, hline⟩ := ownLine_eq_some h
  obtain ⟨b, w, b', e, -, -, -, -, hd⟩ := hline.line
  refine ⟨d, ?_, rfl⟩
  rintro rfl
  simp at hd

end Tag

namespace Swap

/-- The cuts that remove the usage tags. -/
theorem removeUsageTags_cuts (s : Swap) (t : Text) :
    ∃ cs tail, t = Cut.source tail cs ∧
      s.removeUsageTags t = .ok (Cut.result tail cs, cs.length) ∧
      ∀ c ∈ cs, c.added = [] ∧ Tag.IsUsageLine s.spec.oldComponent c.removed := by
  have hscan := Pattern.occurrences_scan (Tag.ownLine_proper s.spec.oldComponent) t
  obtain ⟨cs, tail, ht, hedits, -, hlength, hcs⟩ := hscan.exists_cuts
  refine ⟨cs, tail, ht, ?_, fun c hc => ⟨(hcs c hc).1, ?_⟩⟩
  · have hedit : edit t (Cut.edits 0 cs) = .ok (Cut.result tail cs) := by
      rw [ht, edit_cuts]
    simp only [removeUsageTags, hedits, Text.utf8Size_nil, hedit, hlength]
    rfl
  · obtain ⟨-, before, rest, hread⟩ := hcs c hc
    obtain ⟨d, heq, hd⟩ := Tag.ownLine_eq_some hread
    rw [List.append_cancel_right heq]
    exact hd.isUsageLine

end Swap

end Rewrap
