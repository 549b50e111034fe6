import Rewrap.Proofs.Swap.Faults
import Rewrap.Proofs.Swap.Layout
import Rewrap.Proofs.Text.LineNumbers

/-! # The line of an unclosed block

The line that is reported for an unclosed return block is counted in the text from which the imports
and the usage tags are gone, up to the end of the block's opening. It is the line of the keyword in
the text as it was given only if the line feeds that were taken out above make up for those that the
opening spans. -/

namespace Rewrap

/-! ## Words that edits leave alone -/

/-- Cuts that leave the word `w` alone: it stands behind `x` in the text that is cut and behind `y`
in the result, and `gone` is what they take out before it. -/
inductive Cut.Carries (w tail : Text) : List Cut → Text → Text → Text → Prop where
  | tail {a b} (h : tail = a ++ (w ++ b)) : Carries w tail [] [] a a
  | kept {c cs a b} (h : c.kept = a ++ (w ++ b)) : Carries w tail (c :: cs) [] a a
  | next {c cs gone x y} (h : Carries w tail cs gone x y) :
      Carries w tail (c :: cs) (c.removed ++ gone) (c.kept ++ (c.removed ++ x))
        (c.kept ++ (c.added ++ y))

/-- Edits of the text `t` that leave the word `w` alone: it stands behind `x` before and behind `y`
afterwards, and `gone` is what they take out before it. -/
def Edit.Carries (edits : List Edit) (t w gone x y : Text) : Prop :=
  ∃ cs tail, t = Cut.source tail cs ∧ edits = Cut.edits 0 cs ∧ Cut.Carries w tail cs gone x y

section Carries

variable {w tail t gone x y : Text} {cs : List Cut} {edits : List Edit}

theorem Cut.Carries.source (h : Cut.Carries w tail cs gone x y) :
    ∃ z, Cut.source tail cs = x ++ (w ++ z) := by
  induction h with
  | @tail a b h => exact ⟨b, h⟩
  | @kept c cs a b h => exact ⟨b ++ (c.removed ++ Cut.source tail cs), by simp [Cut.source, h]⟩
  | @next c cs gone x y h ih =>
      obtain ⟨z, hz⟩ := ih
      exact ⟨z, by simp [Cut.source, hz]⟩

theorem Cut.Carries.lineFeeds (h : Cut.Carries w tail cs gone x y)
    (hadded : ∀ c ∈ cs, '\n' ∉ c.added) : x.lineFeeds = y.lineFeeds + gone.lineFeeds := by
  induction h with
  | tail h => rfl
  | kept h => rfl
  | @next c cs gone x y h ih =>
      have hrest := ih fun d hd => hadded d (List.mem_cons_of_mem c hd)
      have hc := Text.lineFeeds_eq_zero (hadded c List.mem_cons_self)
      simp only [Text.lineFeeds_append]
      omega

theorem Cut.map_replacement_edits (offset : Nat) (cs : List Cut) :
    (Cut.edits offset cs).map Edit.replacement = cs.map Cut.added := by
  induction cs generalizing offset with
  | nil => rfl
  | cons c cs ih => rw [Cut.edits, List.map_cons, ih, List.map_cons]

theorem Edit.Carries.source (h : Edit.Carries edits t w gone x y) : ∃ z, t = x ++ (w ++ z) := by
  obtain ⟨cs, tail, rfl, -, hcarries⟩ := h
  exact hcarries.source

/-- Edits that bring no line feed move a word up by the line feeds that they take out above it. -/
theorem Edit.Carries.lineFeeds (h : Edit.Carries edits t w gone x y)
    (hreplacement : ∀ e ∈ edits, '\n' ∉ e.replacement) :
    x.lineFeeds = y.lineFeeds + gone.lineFeeds := by
  obtain ⟨cs, tail, -, rfl, hcarries⟩ := h
  refine hcarries.lineFeeds fun c hc => ?_
  have hmem : c.added ∈ (Cut.edits 0 cs).map Edit.replacement := by
    rw [Cut.map_replacement_edits]
    exact List.mem_map_of_mem hc
  obtain ⟨e, he, heq⟩ := List.mem_map.mp hmem
  exact heq ▸ hreplacement e he

end Carries

namespace Swap

variable {s : Swap} {t w gone x y : Text}

/-- The edits for the imports and those for the usage tags leave the word `w` alone: it stands
behind `x` in the text as given, and behind `y` in the text into which the wrapper is put. What they
take out before it is `gone`. -/
def Carries (s : Swap) (t w gone x y : Text) : Prop :=
  ∃ swapped imports z gone₁ gone₂, s.swapImport t = .ok (some (swapped, imports)) ∧
    Edit.Carries (s.importEdits (s.spec.replacement.clause.occursIn t)
      (s.spec.retiring.statement.occurrences t))
      t w gone₁ x z ∧
    Edit.Carries (((Tag.ownLine s.spec.oldComponent).occurrences swapped).map
      fun o => .delete o.start o.stop)
      swapped w gone₂ z y ∧
    gone = gone₁ ++ gone₂

theorem replacement_dropImport (o : Occurrence) : (dropImport o).replacement = [] := by
  unfold dropImport
  split <;> rfl

theorem replacement_of_mem_importEdits {present : Bool} {os : List Occurrence} {e : Edit}
    (h : e ∈ s.importEdits present os) :
    e.replacement = [] ∨ e.replacement = s.spec.replacement.canonical.toList := by
  cases os with
  | nil => simp [importEdits] at h
  | cons o os =>
      rw [importEdits] at h
      rcases List.mem_cons.mp h with rfl | h
      · cases present
        · exact .inr rfl
        · exact .inl (replacement_dropImport o)
      · obtain ⟨o', -, rfl⟩ := List.mem_map.mp h
        exact .inl (replacement_dropImport o')

theorem Carries.lineFeeds (h : s.Carries t w gone x y)
    (hs : '\n' ∉ s.spec.replacement.canonical.toList) :
    x.lineFeeds = y.lineFeeds + gone.lineFeeds := by
  obtain ⟨swapped, imports, z, gone₁, gone₂, -, himports, htags, rfl⟩ := h
  have hswapped := himports.lineFeeds fun e he => by
    rcases replacement_of_mem_importEdits he with h | h <;> simp [h, hs]
  have hstripped := htags.lineFeeds fun e he => by
    obtain ⟨o, -, rfl⟩ := List.mem_map.mp he
    simp [Edit.delete]
  rw [Text.lineFeeds_append]
  omega

theorem Carries.standsOnLine_iff (h : s.Carries t w gone x y)
    (hs : '\n' ∉ s.spec.replacement.canonical.toList) (hne : w ≠ []) (hw : '\n' ∉ w)
    {line : Nat} : t.StandsOnLine w x line ↔ line = y.lineFeeds + gone.lineFeeds + 1 := by
  obtain ⟨_, _, _, _, _, -, himports, -⟩ := id h
  obtain ⟨z, hz⟩ := himports.source
  rw [Text.standsOnLine_iff hz hne hw, h.lineFeeds hs]

/-! ## The report -/

/-- The line that is reported for the first return block is counted up to the end of the block's
opening. -/
theorem insertWrapper_eq_unclosedWrapper {line : Nat}
    (h : s.insertWrapper t .bareReturn = .error (.unclosedWrapper line)) :
    ∃ o, ReturnBlock.opening.first? t = some o ∧
      Pattern.Absent ReturnBlock.closing (o.before ++ o.matched) o.after ∧
      line = o.before.lineFeeds + o.matched.lineFeeds := by
  cases ho : ReturnBlock.opening.first? t with
  | none => simp [insertWrapper_of_first?_eq_none ho] at h
  | some o =>
      cases hc : ReturnBlock.closing.findAfter? (o.before ++ o.matched) o.after with
      | none =>
          rw [insertWrapper_of_findAfter?_eq_none ho hc] at h
          cases h
          exact ⟨o, rfl, Pattern.findAfter?_eq_none_iff.mp hc, Text.lineFeeds_append _ _⟩
      | some c =>
          obtain ⟨wrapping, -, hok, -⟩ := exists_isInReturnBlock (s := s) ho hc
          simp [hok] at h

theorem apply_eq_unclosedWrapper {line : Nat} (h : s.apply t = .error (.unclosedWrapper line)) :
    ∃ u, s.Strips t u ∧ s.insertWrapper u .bareReturn = .error (.unclosedWrapper line) := by
  rcases s.isFreeOf_or_clearing t with hfree | ⟨⟨c⟩⟩
  · rw [apply_of_isFreeOf hfree] at h
    cases h
  · rw [c.apply_eq] at h
    refine ⟨c.stripped, c.strips_iff.mpr rfl, ?_⟩
    rcases Clearing.finish_eq_error h with h | ⟨wrapped, -, h⟩
    · obtain ⟨hshape, -⟩ := insertWrapper_detectShape_eq_error h
      rwa [hshape] at h
    · obtain ⟨opened, closed, hfault⟩ := checkBalance_eq_error h
      cases hfault

/-- The line that is reported for an unclosed block is the line on which its keyword stood, if and
only if the line feeds taken out above the keyword are one less than those that the opening of the
block spans. -/
theorem default_apply_unclosedWrapper_iff {t : Text} {line : Nat}
    (h : Swap.default.apply t = .error (.unclosedWrapper line)) :
    ∃ u o, Swap.default.Strips t u ∧ ReturnBlock.opening.first? u = some o ∧
      Pattern.Absent ReturnBlock.closing (o.before ++ o.matched) o.after ∧
      ((∃ gone x, Swap.default.Carries t "return".toList gone x o.before ∧
        t.StandsOnLine "return".toList x line) ↔
        ∃ gone x, Swap.default.Carries t "return".toList gone x o.before ∧
          gone.lineFeeds + 1 = o.matched.lineFeeds) := by
  obtain ⟨u, hu, hwrapper⟩ := apply_eq_unclosedWrapper h
  obtain ⟨o, ho, habsent, rfl⟩ := insertWrapper_eq_unclosedWrapper hwrapper
  refine ⟨u, o, hu, ho, habsent, exists_congr fun gone => exists_congr fun x => and_congr_right
    fun hcarries => ?_⟩
  rw [hcarries.standsOnLine_iff (by decide) (by decide) (by decide)]
  omega

set_option maxRecDepth 4000 in
/-- The import above the keyword loses a line break, and an empty line follows the parenthesis. -/
theorem default_apply_unclosedWrapper_iff_emptyLine :
    ∃ t gone x y,
      t = "import\nNavBar from '@/components/NavBar'".toList ++ "\nreturn (\n\n".toList ∧
      Swap.default.apply t = .error (.unclosedWrapper 3) ∧
      Swap.default.Carries t "return".toList gone x y ∧
      Text.StandsOnLine t "return".toList x 3 := by
  have h : Swap.default.apply
      ("import\nNavBar from '@/components/NavBar'".toList ++ "\nreturn (\n\n".toList) =
      .error (.unclosedWrapper 3) := by
    rw [String.toList_ofList]
    cbv
  have hswapped : Swap.default.swapImport
        ("import\nNavBar from '@/components/NavBar'".toList ++ "\nreturn (\n\n".toList) =
      .ok (some ("import AppShell from \"@/components/AppShell\";".toList ++
        "\nreturn (\n\n".toList, 1)) := by
    rw [String.toList_ofList, String.toList_ofList, String.toList_ofList]
    cbv
  have hstripped : Swap.default.removeUsageTags
        ("import AppShell from \"@/components/AppShell\";".toList ++ "\nreturn (\n\n".toList) =
      .ok ("import AppShell from \"@/components/AppShell\";".toList ++
        "\nreturn (\n\n".toList, 0) := by
    rw [String.toList_ofList]
    cbv
  have hopening : ReturnBlock.opening.first?
        ("import AppShell from \"@/components/AppShell\";".toList ++ "\nreturn (\n\n".toList) =
      some ⟨"import AppShell from \"@/components/AppShell\";".toList ++ ['\n'],
        "return (\n\n".toList, []⟩ := by
    rw [String.toList_ofList]
    cbv
  have hcarries : Swap.default.Carries
      ("import\nNavBar from '@/components/NavBar'".toList ++ "\nreturn (\n\n".toList)
      "return".toList "import\nNavBar from '@/components/NavBar'".toList
      ("import\nNavBar from '@/components/NavBar'".toList ++ ['\n'])
      ("import AppShell from \"@/components/AppShell\";".toList ++ ['\n']) := by
    have hbehind : "\nreturn (\n\n".toList = ['\n'] ++ ("return".toList ++ " (\n\n".toList) := by
      decide
    have himport := Cut.Carries.next
      (c := ⟨[], "import\nNavBar from '@/components/NavBar'".toList,
      "import AppShell from \"@/components/AppShell\";".toList⟩) (.tail hbehind)
    simp only [List.nil_append, List.append_nil] at himport
    refine ⟨_, _, _, _, [], hswapped, ⟨_, _, rfl, ?_, himport⟩,
      ⟨[], _, rfl, ?_, .tail (b := " (\n\n".toList) ?_⟩, by rw [List.append_nil]⟩
    · rw [String.toList_ofList, String.toList_ofList, String.toList_ofList]
      cbv
    · rw [String.toList_ofList]
      cbv
    · rw [hbehind, List.append_assoc]
  obtain ⟨u, o, ⟨swapped, imports, tags, hswapped', hstripped'⟩, ho, -, hiff⟩ :=
    default_apply_unclosedWrapper_iff h
  rw [hswapped] at hswapped'
  cases hswapped'
  rw [hstripped] at hstripped'
  cases hstripped'
  obtain rfl := Option.some.inj (hopening.symm.trans ho)
  obtain ⟨gone, x, hcarried, hline⟩ := hiff.mpr ⟨_, _, hcarries, by decide⟩
  exact ⟨_, gone, x, _, rfl, h, hcarried, hline⟩

set_option maxRecDepth 4000 in
/-- A usage tag on a line above the block makes the report come short, an empty line behind the
parenthesis makes it go too far: the line that is reported holds no keyword. -/
theorem default_apply_unclosedWrapper_fails :
    (Swap.default.apply
          "import NavBar from '@/components/NavBar'\n<NavBar />\nfunction P() \x7b\n  return (\n    <p />".toList =
        .error (.unclosedWrapper 3) ∧
      ¬∃ x, Text.StandsOnLine
          "import NavBar from '@/components/NavBar'\n<NavBar />\nfunction P() \x7b\n  return (\n    <p />".toList
        "return".toList x 3) ∧
    Swap.default.apply
          "import NavBar from '@/components/NavBar'\nfunction P() \x7b\n  return (\n\n    <p />".toList =
        .error (.unclosedWrapper 4) ∧
      ¬∃ x, Text.StandsOnLine
          "import NavBar from '@/components/NavBar'\nfunction P() \x7b\n  return (\n\n    <p />".toList
        "return".toList x 4 := by
  refine ⟨⟨?_, Text.not_standsOnLine ?_⟩, ?_, Text.not_standsOnLine ?_⟩
  · rw [String.toList_ofList]
    cbv
  · rw [String.toList_ofList]
    decide
  · rw [String.toList_ofList]
    cbv
  · rw [String.toList_ofList]
    decide

end Swap

end Rewrap
