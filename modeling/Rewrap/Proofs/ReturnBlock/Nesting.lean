import Rewrap.Proofs.Swap.Layout
import Rewrap.Proofs.Text.Parentheses

/-! # Nesting in a return block

The wrapper opens in the first return block and closes before the first line that can end one. The
two are the ends of one block exactly when the parenthesis on that line closes the one of the
block. -/

namespace Rewrap

namespace ReturnBlock

/-- The parenthesis that closes the block which `o` opens is the one on the line that `c`
matches. -/
def IsPartner (o c : Occurrence) : Prop :=
  ∃ block rest, Text.partner? 0 o.after = some (block, rest) ∧
    (c.matched ++ c.after).dropWhile (· != ')') = ')' :: rest

theorem ne_parenthesis_of_isSpace {t : Text} (ht : Text.IsSpace t) :
    ∀ c ∈ t, c ≠ '(' ∧ c ≠ ')' := by
  intro c hc
  have hspace := ht c hc
  refine ⟨?_, ?_⟩ <;> rintro rfl <;> exact absurd hspace (by decide)

/-- The block's partner is on the line found if and only if what stands between is balanced. -/
theorem isPartner_iff_balanced {o c : Occurrence} {prev : Option Char} {inside e : Text}
    (he : Text.IsSpace e) (hafter : o.after = inside ++ (e ++ (c.matched ++ c.after)))
    (hclose : closing prev (c.matched ++ c.after) = some c.after) :
    IsPartner o c ↔ Text.Balanced inside := by
  obtain ⟨b, b', l, hb, -, -, hmatched⟩ := closing_eq_some hclose
  have hlead : Text.IsSpace (e ++ '\n' :: b) := by
    exact Text.isSpace_append.mpr
      ⟨he, Text.isSpace_append.mpr ⟨Text.isSpace_lineFeed, hb.isSpace⟩⟩
  have hnone := ne_parenthesis_of_isSpace hlead
  have hdrop : (c.matched ++ c.after).dropWhile (· != ')') =
      ')' :: ';' :: (b' ++ (l ++ '}' :: c.after)) := by
    rw [hmatched, ← List.cons_append, List.dropWhile_append_of_pos]
    · simp
    · intro d hd
      have := (hnone d (List.mem_append_right e hd)).2
      simpa using this
  have hblock : o.after = (inside ++ (e ++ '\n' :: b)) ++ ')' :: ';' ::
      (b' ++ (l ++ '}' :: c.after)) := by
    rw [hafter, hmatched]
    simp
  rw [Text.balanced_iff_closes, ← Text.closes_append hnone]
  constructor
  · rintro ⟨block, rest, hpartner, hrest⟩
    rw [hdrop] at hrest
    cases hrest
    obtain ⟨heq, hcloses⟩ := Text.partner?_eq_some_iff.mp hpartner
    rw [hblock] at heq
    rwa [(List.append_left_inj _).mp heq]
  · intro hcloses
    exact ⟨_, _, Text.partner?_eq_some_iff.mpr ⟨hblock, hcloses⟩, hdrop⟩

/-- The end of a block is a line and the brace that the next one begins with. -/
theorem exists_line_of_closing {prev : Option Char} {t rest : Text}
    (h : closing prev t = some rest) :
    ∃ line, '\n' ∉ line ∧ t = '\n' :: (line ++ '\n' :: '\x7d' :: rest) := by
  obtain ⟨b, b', e, hb, hb', he, rfl⟩ := closing_eq_some h
  obtain ⟨cr, rfl, hcr⟩ : ∃ cr, e = cr ++ ['\n'] ∧ '\n' ∉ cr := by
    rcases he with rfl | rfl
    · exact ⟨[], rfl, by simp⟩
    · exact ⟨['\r'], rfl, by decide⟩
  have hfeed := hb.not_mem (c := '\n') (by decide)
  have hfeed' := hb'.not_mem (c := '\n') (by decide)
  exact ⟨b ++ ')' :: ';' :: (b' ++ cr), by simp [hfeed, hfeed', hcr], by simp⟩

/-- A line that ends a block is found if no line before it begins with a brace. -/
theorem findAfter?_closing (before : Text) {body b b' e : Text} (rest : Text) (hb : Text.IsBlank b)
    (hb' : Text.IsBlank b') (he : e = ['\n'] ∨ e = ['\r', '\n'])
    (hlines : ¬['\n', '\x7d'] <:+: body) :
    closing.findAfter? before
        (body ++ (('\n' :: (b ++ ')' :: ';' :: (b' ++ (e ++ ['\x7d'])))) ++ rest)) =
      some ⟨before ++ body, '\n' :: (b ++ ')' :: ';' :: (b' ++ (e ++ ['\x7d']))), rest⟩ := by
  apply Pattern.findAfter?_of_absentBefore
  · intro a u hau hlt
    by_contra hread
    obtain ⟨rest', hread⟩ := Option.ne_none_iff_exists'.mp hread
    -- what is read in the body runs over one line break, and then a brace stands first on its line
    obtain ⟨line, hno, rfl⟩ := exists_line_of_closing hread
    obtain ⟨x, rfl, hx⟩ : ∃ x, body = a ++ x ∧ x ≠ [] := by
      rcases List.append_eq_append_iff.mp hau with ⟨x, rfl, -⟩ | ⟨x, rfl, -⟩
      · exact absurd hlt (by simp)
      · refine ⟨x, rfl, ?_⟩
        rintro rfl
        simp at hlt
    obtain ⟨d, x, rfl⟩ := List.exists_cons_of_ne_nil hx
    simp only [List.append_assoc, List.append_cancel_left_eq, List.cons_append, List.cons.injEq]
      at hau
    obtain ⟨rfl, hau⟩ := hau
    have hfirst : b ++ ')' :: ';' :: (b' ++ (e ++ '\x7d' :: rest)) ≠ '\x7d' :: rest' := by
      cases b with
      | nil => simp
      | cons f b =>
          rintro heq
          obtain ⟨rfl, -⟩ := List.cons.inj heq
          exact absurd (hb '\x7d' (by simp)) (by decide)
    have hau : x ++ '\n' :: (b ++ ')' :: ';' :: (b' ++ (e ++ '\x7d' :: rest))) =
        line ++ '\n' :: '\x7d' :: rest' := by
      simpa using hau
    rcases List.append_eq_append_iff.mp hau with ⟨z, rfl, hrest⟩ | ⟨z, rfl, hrest⟩
    · cases z with
      | nil => exact hfirst (by simpa using hrest)
      | cons f z =>
          obtain ⟨rfl, -⟩ := List.cons.inj hrest
          exact hno (by simp)
    · cases z with
      | nil => exact hfirst (by simpa using hrest.symm)
      | cons f z =>
          obtain ⟨rfl, hbrace⟩ := List.cons.inj hrest
          cases z with
          | nil => simp at hbrace
          | cons f z =>
              obtain ⟨rfl, -⟩ := List.cons.inj hbrace
              exact hlines ⟨a ++ '\n' :: line, z, by simp⟩
  · exact closing_eq_some_iff.mpr ⟨b, b', e, hb, hb', he, by simp⟩

end ReturnBlock

namespace Swap

/-- The wrapper opens behind the first `return (` and closes before the first line behind it that
can end the function. What it encloses is balanced if and only if both tags stand in the block of
that first `return (`, that is, if the parenthesis on the line found closes the one that was opened
first. -/
theorem bareReturn_balanced_iff {t r : Text}
    (h : Swap.default.insertWrapper t .bareReturn = .ok r) :
    ∃ (o c : Occurrence) (w : Wrapping), ReturnBlock.opening.first? t = some o ∧
      ReturnBlock.closing.findAfter? (o.before ++ o.matched) o.after = some c ∧
      w.source = t ∧ w.result Swap.default = r ∧ w.IsInReturnBlock o c ∧
      (Text.Balanced w.inside ↔ ReturnBlock.IsPartner o c) := by
  obtain ⟨_, hedits, -⟩ := insertWrapper_bareReturn_eq_ok h
  obtain ⟨o, c, -, -, -, ho, hc, -⟩ := bareReturnEdits_eq_ok hedits
  obtain ⟨w, hsource, hok, hplaced⟩ := exists_isInReturnBlock (s := Swap.default) ho hc
  refine ⟨o, c, w, ho, hc, hsource, Except.ok.inj (hok.symm.trans h), hplaced, ?_⟩
  obtain ⟨g, hg, ht, -, -, -⟩ := Pattern.findAfter?_eq_some ReturnBlock.opening_proper ho
  obtain ⟨-, -, -, -, hclose, -⟩ := Pattern.findAfter?_eq_some ReturnBlock.closing_proper hc
  obtain ⟨e, m, hafter, hmatched, he⟩ := hplaced.after
  have hspace : Text.IsSpace e := by
    rcases he with rfl | ⟨rfl, -⟩ <;> decide
  have hafter : o.after = w.inside ++ (e ++ (c.matched ++ c.after)) := by
    have hg : o.before = g := by simpa using hg
    have heq : o.before ++ o.matched ++ o.after = w.source := by
      rw [hsource, ht, hg, List.append_assoc]
    rw [Wrapping.source, hplaced.before, hafter] at heq
    rw [List.append_cancel_left heq, hmatched]
    rfl
  exact (ReturnBlock.isPartner_iff_balanced hspace hafter hclose).symm

theorem bareReturn_balanced_iff_callback :
    ∃ t r, Swap.default.insertWrapper t .bareReturn = .ok r ∧
      ∃ (o c : Occurrence) (w : Wrapping), ReturnBlock.opening.first? t = some o ∧
        ReturnBlock.closing.findAfter? (o.before ++ o.matched) o.after = some c ∧
        w.source = t ∧ w.result Swap.default = r ∧ w.IsInReturnBlock o c ∧
        (Text.Balanced w.inside ↔ ReturnBlock.IsPartner o c) := by
  have h : Swap.default.insertWrapper
      ("return (\n  xs.map(() => \x7b\n    return (\n      0\n    );\n" ++
      "  \x7d)\n);\n\x7d").toList .bareReturn =
    .ok ("return (\n  <AppShell>\n  xs.map(() => \x7b\n    return (\n      0\n    );\n  \x7d)\n" ++
      "  </AppShell>\n);\n\x7d").toList := by cbv
  exact ⟨_, _, h, bareReturn_balanced_iff h⟩

/-- An early return opens first, and the line that ends the function is found for it. -/
theorem bareReturn_not_balanced :
    ¬∀ t r, Swap.default.insertWrapper t .bareReturn = .ok r →
      ∃ opened closed, Swap.default.bareReturnEdits t = .ok [opened, closed] ∧
        Text.Balanced (Edit.slice t opened.start closed.start) := by
  intro hall
  have h : Swap.default.insertWrapper
      ("function Row() \x7b\n  if (!items) return (\n    <p>none</p>\n" ++
      "  );\n  return (\n    <ul />\n  );\n\x7d\n").toList .bareReturn =
    .ok ("function Row() \x7b\n  if (!items) return (\n    <AppShell>\n    <p>none</p>\n" ++
      "  );\n  return (\n    <ul />\n    </AppShell>\n  );\n\x7d\n").toList := by cbv
  obtain ⟨opened, closed, hedits, hbalanced, -⟩ := hall _ _ h
  have hplaces : Swap.default.bareReturnEdits
      ("function Row() \x7b\n  if (!items) return (\n    <p>none</p>\n" ++
      "  );\n  return (\n    <ul />\n  );\n\x7d\n").toList =
    .ok [⟨40, 40, "    <AppShell>\n".toList⟩, ⟨82, 82, "\n    </AppShell>".toList⟩] := by
      cbv
  rw [hplaces] at hedits
  cases hedits
  have hslice : Edit.slice ("function Row() \x7b\n  if (!items) return (\n    <p>none</p>\n" ++
      "  );\n  return (\n    <ul />\n  );\n\x7d\n").toList 40 82 =
    "    <p>none</p>\n  );\n  return (\n    <ul />".toList := by cbv
  rw [hslice] at hbalanced
  have := hbalanced "    <p>none</p>\n  )".toList (by decide)
  exact absurd this (by decide)

/-- A balanced block that ends at its own line, with no line before that begins with a brace, is
wrapped from end to end. -/
theorem insertWrapper_bareReturn_of_block {s : Swap} {t body b b' e rest : Text} {o : Occurrence}
    (ho : ReturnBlock.opening.first? t = some o) (hb : Text.IsBlank b) (hb' : Text.IsBlank b')
    (he : e = ['\n'] ∨ e = ['\r', '\n'])
    (hafter : o.after = body ++ (('\n' :: (b ++ ')' :: ';' :: (b' ++ (e ++ ['\x7d'])))) ++ rest))
    (hlines : ¬['\n', '\x7d'] <:+: body) (hbody : Text.Balanced body) :
    (∃ r, s.insertWrapper t .bareReturn = .ok r) ∧
      ∃ c, ReturnBlock.closing.findAfter? (o.before ++ o.matched) o.after = some c ∧
        ReturnBlock.IsPartner o c := by
  have hc := ReturnBlock.findAfter?_closing (o.before ++ o.matched) rest hb hb' he hlines
  rw [← hafter] at hc
  obtain ⟨-, -, -, -, hclose, -⟩ := Pattern.findAfter?_eq_some ReturnBlock.closing_proper hc
  refine ⟨?_, _, hc, ?_⟩
  · obtain ⟨edits, hedits⟩ : ∃ edits, s.bareReturnEdits t = .ok edits := by
      simp [bareReturnEdits, ho, hc]
    obtain ⟨o', c, inside, e', indent, ho', -, -, hinside, -, rfl⟩ :=
      bareReturnEdits_eq_ok hedits
    rw [ho] at ho'
    cases ho'
    obtain ⟨g, hbefore, ht, -, -, -⟩ := Pattern.findAfter?_eq_some ReturnBlock.opening_proper ho
    have hcuts := edit_cuts (e' ++ (c.matched ++ c.after))
      [⟨o.before ++ o.matched, [], indent ++ s.openTag ++ t.lineBreak⟩,
        ⟨inside, [], t.lineBreak ++ indent ++ s.closeTag⟩]
    have hsource : Cut.source (e' ++ (c.matched ++ c.after))
        [⟨o.before ++ o.matched, [], indent ++ s.openTag ++ t.lineBreak⟩,
          ⟨inside, [], t.lineBreak ++ indent ++ s.closeTag⟩] = t := by
      simp only [List.nil_append] at hbefore
      rw [ht, hinside, hbefore]
      simp [Cut.source]
    rw [hsource] at hcuts
    exact ⟨_, Except.bind_eq_ok.mpr ⟨_, hedits, hcuts⟩⟩
  · have hnil : Text.IsSpace [] := isSpace_nil
    exact (ReturnBlock.isPartner_iff_balanced hnil (by simpa using hafter) hclose).mpr hbody

end Swap

end Rewrap
