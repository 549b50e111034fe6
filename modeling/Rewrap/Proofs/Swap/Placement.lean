import Rewrap.Proofs.Edit.Cuts
import Rewrap.Proofs.Except
import Rewrap.Proofs.Swap.ImportEdits
import Rewrap.Proofs.Tag.Elements

/-! # Where the wrapper goes

Both shapes put the wrapper's tags at two places of the text, the opening tag first. Each tag comes
with white space of its own, and nothing else is added or taken out. -/

namespace Rewrap

/-! ## Guards -/

theorem Text.splitAtLast?_eq_some {w t before rest : Text}
    (h : Text.splitAtLast? w t = some (before, rest)) :
    t = before ++ rest ∧ ∃ u, rest = w ++ u := by
  induction t generalizing before with
  | nil => simp [splitAtLast?] at h
  | cons c t ih =>
      unfold splitAtLast? at h
      split at h
      · next b r hrec =>
          simp only [Option.some.injEq, Prod.mk.injEq] at h
          obtain ⟨rfl, rfl⟩ := h
          obtain ⟨rfl, hrest⟩ := ih hrec
          exact ⟨rfl, hrest⟩
      · split at h
        · next hfirst =>
            simp only [Option.some.injEq, Prod.mk.injEq] at h
            obtain ⟨rfl, rfl⟩ := h
            obtain ⟨u, hu⟩ := List.isPrefixOf_iff_prefix.mp hfirst
            exact ⟨rfl, u, hu.symm⟩
        · simp at h

namespace Swap

theorem guardBounds?_eq_some {tag : String} {t before inside rest : Text}
    (h : guardBounds? tag t = some (before, inside, rest)) :
    t = before ++ (inside ++ rest) ∧ (∃ x, before = x ++ ['>']) ∧
      ∃ u, rest = Tag.closing tag ++ u := by
  obtain ⟨o, ho, h⟩ := Option.bind_eq_some_iff.mp h
  obtain ⟨⟨a, b⟩, hsplit, h⟩ := Option.bind_eq_some_iff.mp h
  cases h
  obtain ⟨hafter, hclosing⟩ := Text.splitAtLast?_eq_some hsplit
  obtain ⟨g, hbefore, ht, hm, hread, -⟩ :=
    Pattern.findAfter?_eq_some (Tag.opening_proper tag) ho
  obtain ⟨inner, -, -, heq⟩ := Tag.opening_eq_some hread
  have hmatched : o.matched = '<' :: tag.toList ++ (inner ++ ['>']) :=
    (List.append_left_inj o.after).mp (by simpa using heq)
  refine ⟨?_, ⟨o.before ++ ('<' :: tag.toList ++ inner), by simp [hmatched]⟩, hclosing⟩
  rw [ht, hafter]
  simp only [List.nil_append] at hbefore
  simp [hbefore]

/-- The edits for a guard put the opening tag on a new line behind the guard's opening tag. They put
the closing tag on a line of its own before the guard's closing tag if that has nothing but blanks
before it on its line, and otherwise right before it. -/
theorem guardedEdits_of_guardBounds? {s : Swap} {tag : String} {t before inside rest : Text}
    (h : guardBounds? tag t = some (before, inside, rest)) :
    ∃ kept lead added, inside = kept ++ lead ∧ Text.IsBlank lead ∧
      (lead = if Text.IsBlank (before ++ inside).lastLine
        then (before ++ inside).lastLine else []) ∧
      (added = if Text.IsBlank (before ++ inside).lastLine
        then ((before ++ inside).lastLine ++ indentStep) ++ s.closeTag ++ t.lineBreak
          else s.closeTag) ∧
      s.guardedEdits tag t = .ok (Cut.edits 0
        [⟨before, [], t.lineBreak ++ (before.lastLine.indent ++ indentStep) ++ s.openTag⟩,
          ⟨kept, [], added⟩]) := by
  obtain ⟨-, ⟨x, hx⟩, -⟩ := guardBounds?_eq_some h
  have hindent : lineIndent before (inside ++ rest) = before.lastLine.indent := by
    rw [lineIndent, hx, Text.lastLine_append_of_not_mem (by decide)]
    exact Text.indent_append_of_not_isBlank ⟨'>', by simp, by decide⟩ _
  by_cases hlead : Text.IsBlank (before ++ inside).lastLine
  · have hanchored : Text.IsAnchored before := by
      rw [hx]
      exact Text.isAnchored_append_cons (by decide) (by decide) x (by simp)
    obtain ⟨kept, hkept⟩ := hanchored.exists_lead hlead
    refine ⟨kept, _, _, hkept, hlead, by rw [if_pos hlead], by rw [if_pos hlead], ?_⟩
    have hsize := congrArg Text.utf8Size hkept
    simp only [Text.utf8Size_append] at hsize
    simp only [guardedEdits, h, hindent, Text.isBlank_iff_all.mp hlead, if_true,
      Cut.edits, Edit.insert,
      Text.utf8Size_nil, Nat.add_zero, Nat.zero_add, List.append_assoc, Except.ok.injEq,
        List.cons.injEq,
      Edit.mk.injEq, true_and, and_true]
    omega
  · refine ⟨inside, [], _,
      by simp, Text.isBlank_nil, by rw [if_neg hlead], by rw [if_neg hlead], ?_⟩
    simp [guardedEdits, h, hindent, mt Text.isBlank_iff_all.mpr hlead, Cut.edits, Edit.insert]

theorem guardedEdits_eq_ok {s : Swap} {tag : String} {t : Text} {edits : List Edit}
    (h : s.guardedEdits tag t = .ok edits) :
    ∃ before inside lead rest indent, guardBounds? tag t = some (before, inside ++ lead, rest) ∧
      Text.IsBlank lead ∧ Text.IsBlank indent ∧
      ∃ added, edits = Cut.edits 0
          [⟨before, [], t.lineBreak ++ (indent ++ indentStep) ++ s.openTag⟩,
            ⟨inside, [], added⟩] ∧
        (added = s.closeTag ∨ added = (lead ++ indentStep) ++ s.closeTag ++ t.lineBreak) := by
  cases hbounds : guardBounds? tag t with
  | none => simp [guardedEdits, hbounds] at h
  | some bounds =>
      obtain ⟨before, inside, rest⟩ := bounds
      obtain ⟨kept, lead, added, rfl, hblank, hlead, hadded, hedits⟩ :=
        guardedEdits_of_guardBounds? (s := s) hbounds
      rw [hedits] at h
      cases h
      refine ⟨before, kept, lead, rest, _, rfl, hblank, Text.isBlank_indent _, added, rfl, ?_⟩
      split at hadded
      · next hline =>
          rw [if_pos hline] at hlead
          exact .inr (by rw [hadded, ← hlead])
      · exact .inl hadded

end Swap

/-! ## Return blocks -/

namespace ReturnBlock

theorem pastLastLineFeed_eq_some {t rest : Text} (h : pastLastLineFeed t = some rest) :
    ∃ w, Text.IsSpace w ∧ t = w ++ '\n' :: rest := by
  induction t with
  | nil => simp [pastLastLineFeed] at h
  | cons c t ih =>
      unfold pastLastLineFeed at h
      split at h
      · next hc =>
          split at h
          · next rest' hrec =>
              obtain ⟨w, hw, rfl⟩ := ih (hrec.trans h)
              exact ⟨c :: w, by simpa [Text.IsSpace, hc] using hw, rfl⟩
          · split at h
            · next hfeed =>
                cases h
                exact ⟨[], by simp [Text.IsSpace], by simpa using hfeed⟩
            · simp at h
      · simp at h

theorem opening_eq_some {prev : Option Char} {t rest : Text} (h : opening prev t = some rest) :
    ∃ v w, Text.IsSpace v ∧ Text.IsSpace w ∧
      t = "return".toList ++ (v ++ '(' :: (w ++ '\n' :: rest)) := by
  unfold opening at h
  split at h
  · simp at h
  · obtain ⟨t₁, ht₁, h₁⟩ := Option.bind_eq_some_iff.mp h
    obtain ⟨t₂, ht₂, h₂⟩ := Option.bind_eq_some_iff.mp h₁
    obtain ⟨w, hw, rfl⟩ := pastLastLineFeed_eq_some h₂
    have ht₁ := List.isPrefixOf?_eq_some_iff_append_eq.mp ht₁
    have ht₂ := List.isPrefixOf?_eq_some_iff_append_eq.mp ht₂
    refine ⟨t₁.takeWhile isWhiteSpace, w, fun c hc => List.mem_takeWhile_imp hc, hw, ?_⟩
    rw [← ht₁]
    congr 1
    rw [← List.singleton_append, ht₂, List.takeWhile_append_dropWhile]

theorem opening_proper : Pattern.Proper opening := by
  refine ⟨fun {prev t rest} h => ?_⟩
  obtain ⟨v, w, -, -, rfl⟩ := opening_eq_some h
  exact ⟨"return".toList ++ (v ++ '(' :: (w ++ ['\n'])), by simp, by simp⟩

theorem closing_eq_some {prev : Option Char} {t rest : Text} (h : closing prev t = some rest) :
    ∃ b b' e, Text.IsBlank b ∧ Text.IsBlank b' ∧ (e = ['\n'] ∨ e = ['\r', '\n']) ∧
      t = '\n' :: (b ++ ')' :: ';' :: (b' ++ (e ++ '}' :: rest))) := by
  obtain ⟨t₁, ht₁, h₁⟩ := Option.bind_eq_some_iff.mp h
  obtain ⟨t₂, ht₂, h₂⟩ := Option.bind_eq_some_iff.mp h₁
  have ht₁ := List.isPrefixOf?_eq_some_iff_append_eq.mp ht₁
  have ht₂ := List.isPrefixOf?_eq_some_iff_append_eq.mp ht₂
  have hfirst : t = '\n' ::
      (Text.indent t₁ ++ ')' :: ';' :: (Text.indent t₂ ++ Text.dropIndent t₂)) :=
    calc
      t = ['\n'] ++ (Text.indent t₁ ++ Text.dropIndent t₁) := by
        rw [Text.indent_append_dropIndent, ht₁]
      _ = ['\n'] ++ (Text.indent t₁ ++
        ([')', ';'] ++ (Text.indent t₂ ++ Text.dropIndent t₂))) := by
        rw [Text.indent_append_dropIndent t₂, ht₂]
      _ = _ := rfl
  refine ⟨Text.indent t₁, Text.indent t₂, ?_⟩
  split at h₂
  · next rest' hrest =>
      cases h₂
      exact ⟨['\n'], Text.isBlank_indent _, Text.isBlank_indent _, .inl rfl,
        by rw [hfirst, hrest]; rfl⟩
  · next rest' hrest =>
      cases h₂
      exact ⟨['\r', '\n'], Text.isBlank_indent _, Text.isBlank_indent _, .inr rfl,
        by rw [hfirst, hrest]; rfl⟩
  · simp at h₂

theorem closing_proper : Pattern.Proper closing := by
  refine ⟨fun {prev t rest} h => ?_⟩
  obtain ⟨b, b', e, -, -, -, rfl⟩ := closing_eq_some h
  exact ⟨'\n' :: (b ++ ')' :: ';' :: (b' ++ (e ++ ['}']))), by simp, by simp⟩

end ReturnBlock

namespace Swap

/-- The edits for a return block put the opening tag behind the first opening, and the closing tag
before the line break in front of the first end of a block after that. Both take the indentation of
the line that follows the opening. -/
theorem bareReturnEdits_of_findAfter? {s : Swap} {t : Text} {o c : Occurrence}
    (ho : ReturnBlock.opening.first? t = some o)
    (hc : ReturnBlock.closing.findAfter? (o.before ++ o.matched) o.after = some c) :
    ∃ inside e, o.after = inside ++ (e ++ (c.matched ++ c.after)) ∧
      c.before = (o.before ++ o.matched) ++ (inside ++ e) ∧
      (e = ['\r'] ∨ e = [] ∧ c.before.getLast? ≠ some '\r') ∧
      s.bareReturnEdits t = .ok (Cut.edits 0
        [⟨o.before ++ o.matched, [], o.after.indent ++ s.openTag ++ t.lineBreak⟩,
          ⟨inside, [], t.lineBreak ++ o.after.indent ++ s.closeTag⟩]) := by
  obtain ⟨-, -, -, -, hopen, -⟩ := Pattern.findAfter?_eq_some ReturnBlock.opening_proper ho
  obtain ⟨g, hbefore, hafter, -, -, -⟩ :=
    Pattern.findAfter?_eq_some ReturnBlock.closing_proper hc
  -- the opening ends in a line feed, so a carriage return lies in the part after it
  obtain ⟨x, hx⟩ : ∃ x, o.matched = x ++ ['\n'] := by
    obtain ⟨v, w, -, -, heq⟩ := ReturnBlock.opening_eq_some hopen
    exact ⟨"return".toList ++ (v ++ '(' :: w),
      (List.append_left_inj o.after).mp (by simpa using heq)⟩
  have hindent : lineIndent (o.before ++ o.matched) o.after = o.after.indent := by
    rw [lineIndent, hx, ← List.append_assoc, Text.lastLine_append_cons (by simp), List.nil_append]
  by_cases hcr : c.before.getLast? = some '\r'
  · obtain ⟨inside, rfl⟩ : ∃ inside, g = inside ++ ['\r'] := by
      cases hg : g.getLast? with
      | none =>
          have : g = [] := List.getLast?_eq_none_iff.mp hg
          simp [hbefore, this, hx] at hcr
      | some d =>
          have hd : d = '\r' := by simpa [hbefore, hg] using hcr
          obtain ⟨inside, hinside⟩ := List.getLast?_eq_some_iff.mp hg
          exact ⟨inside, by rw [hinside, hd]⟩
    refine ⟨inside, ['\r'], by simpa using hafter, hbefore, .inl rfl, ?_⟩
    have hstart : c.start - 1 = (o.before ++ o.matched).utf8Size + inside.utf8Size := by
      rw [Occurrence.start, hbefore]
      simp only [Text.utf8Size_append, Text.utf8Size_cons, Text.utf8Size_nil,
        show '\r'.utf8Size = 1 by decide]
      omega
    simp [bareReturnEdits, ho, hc, hindent, hcr, hstart, Cut.edits, Edit.insert]
  · refine ⟨g, [], by simpa using hafter, by simpa using hbefore, .inr ⟨rfl, hcr⟩, ?_⟩
    have hstart : c.start = (o.before ++ o.matched).utf8Size + g.utf8Size := by
      rw [Occurrence.start, hbefore, Text.utf8Size_append]
    simp [bareReturnEdits, ho, hc, hindent, hcr, hstart, Cut.edits, Edit.insert]

theorem bareReturnEdits_eq_ok {s : Swap} {t : Text} {edits : List Edit}
    (h : s.bareReturnEdits t = .ok edits) :
    ∃ o c inside e indent, ReturnBlock.opening.first? t = some o ∧
      ReturnBlock.closing.findAfter? (o.before ++ o.matched) o.after = some c ∧
      (e = [] ∨ e = ['\r']) ∧ o.after = inside ++ (e ++ (c.matched ++ c.after)) ∧
      Text.IsBlank indent ∧
      edits = Cut.edits 0
        [⟨o.before ++ o.matched, [], indent ++ s.openTag ++ t.lineBreak⟩,
          ⟨inside, [], t.lineBreak ++ indent ++ s.closeTag⟩] := by
  cases ho : ReturnBlock.opening.first? t with
  | none => simp [bareReturnEdits, ho] at h
  | some o =>
      cases hc : ReturnBlock.closing.findAfter? (o.before ++ o.matched) o.after with
      | none => simp [bareReturnEdits, ho, hc] at h
      | some c =>
          obtain ⟨inside, e, hafter, -, he, hedits⟩ :=
            bareReturnEdits_of_findAfter? (s := s) ho hc
          rw [hedits] at h
          cases h
          exact ⟨o, c, inside, e, _, rfl, hc, he.symm.imp_left And.left, hafter,
            Text.isBlank_indent _, rfl⟩

/-! ## Both shapes -/

/-- A text in three parts, and the white space that comes with the two tags put between them. -/
structure Wrapping where
  before : Text
  inside : Text
  after : Text
  openLead : Text
  openTrail : Text
  closeLead : Text
  closeTrail : Text

namespace Wrapping

def source (w : Wrapping) : Text := w.before ++ (w.inside ++ w.after)

def result (s : Swap) (w : Wrapping) : Text :=
  w.before ++ ((w.openLead ++ s.openTag ++ w.openTrail) ++
    (w.inside ++ ((w.closeLead ++ s.closeTag ++ w.closeTrail) ++ w.after)))

/-- Only white space comes with the tags, and the two places lie behind and before a bracket, with
nothing but white space between. -/
structure IsPlaced (w : Wrapping) : Prop where
  openLead : Text.IsSpace w.openLead
  openTrail : Text.IsSpace w.openTrail
  closeLead : Text.IsSpace w.closeLead
  closeTrail : Text.IsSpace w.closeTrail
  before : ∃ x c v, w.before = x ++ c :: v ∧ (c = '>' ∨ c = '(') ∧ Text.IsSpace v
  after : ∃ v c x, w.after = v ++ c :: x ∧ (c = '<' ∨ c = ')') ∧ Text.IsSpace v

/-- Only blanks and the line breaks of the text come with the tags, and neither tag goes between the
two characters of a CRLF. -/
structure IsLaidOut (w : Wrapping) : Prop where
  openLead : Text.IsLayout w.source.lineBreak w.openLead
  openTrail : Text.IsLayout w.source.lineBreak w.openTrail
  closeLead : Text.IsLayout w.source.lineBreak w.closeLead
  closeTrail : Text.IsLayout w.source.lineBreak w.closeTrail
  opened : ¬Text.SplitsCrLf w.before (w.inside ++ w.after)
  closed : ¬Text.SplitsCrLf w.inside w.after

end Wrapping

theorem isBlank_indentStep : Text.IsBlank indentStep := by decide

theorem isSpace_nil : Text.IsSpace [] := by simp [Text.IsSpace]

theorem insertWrapper_guarded_eq_ok {s : Swap} {t r : Text} {tag : String}
    (h : s.insertWrapper t (.guarded tag) = .ok r) :
    ∃ edits, s.guardedEdits tag t = .ok edits ∧ edit t edits = .ok r := by
  unfold insertWrapper at h
  simp only at h
  split at h
  · exact Except.bind_eq_ok.mp h
  · obtain ⟨edits, hedits, -⟩ := Except.bind_eq_ok.mp h
    cases hedits

theorem insertWrapper_bareReturn_eq_ok {s : Swap} {t r : Text}
    (h : s.insertWrapper t .bareReturn = .ok r) :
    ∃ edits, s.bareReturnEdits t = .ok edits ∧ edit t edits = .ok r :=
  Except.bind_eq_ok.mp h

theorem Wrapping.edit_source (s : Swap) (w : Wrapping) :
    edit w.source (Cut.edits 0 [⟨w.before, [], w.openLead ++ s.openTag ++ w.openTrail⟩,
      ⟨w.inside, [], w.closeLead ++ s.closeTag ++ w.closeTrail⟩]) = .ok (w.result s) := by
  have hcuts := edit_cuts w.after [⟨w.before, [], w.openLead ++ s.openTag ++ w.openTrail⟩,
    ⟨w.inside, [], w.closeLead ++ s.closeTag ++ w.closeTrail⟩]
  simpa [Cut.source, Cut.result, source, result] using hcuts

/-- The tags that go inside a guard stand behind and before the guard's own. -/
theorem exists_wrapping_of_guardedEdits {s : Swap} {t r : Text} {tag : String} {edits : List Edit}
    (hedits : s.guardedEdits tag t = .ok edits) (h : edit t edits = .ok r) :
    ∃ w : Wrapping, w.source = t ∧ w.result s = r ∧ w.IsPlaced ∧ w.IsLaidOut := by
  have hbreak := Text.isSpace_lineBreak t
  obtain ⟨before, inside, lead, rest, indent, hbounds, hlead, hindent, added, rfl, hadded⟩ :=
    guardedEdits_eq_ok hedits
  obtain ⟨ht, ⟨x, hx⟩, u, hu⟩ := guardBounds?_eq_some hbounds
  rw [List.append_assoc] at ht
  have hstep : Text.IsBlank (indent ++ indentStep) :=
    Text.isBlank_append.mpr ⟨hindent, isBlank_indentStep⟩
  obtain ⟨lead', trail, rfl, hlead', htrail⟩ : ∃ lead' trail,
      added = lead' ++ s.closeTag ++ trail ∧ Text.IsBlank lead' ∧
        (trail = [] ∨ trail = t.lineBreak) := by
    rcases hadded with rfl | rfl
    · exact ⟨[], [], by simp, Text.isBlank_nil, .inl rfl⟩
    · exact ⟨lead ++ indentStep, _, rfl,
        Text.isBlank_append.mpr ⟨hlead, isBlank_indentStep⟩, .inr rfl⟩
  let w : Wrapping :=
    ⟨before, inside, lead ++ rest, t.lineBreak ++ (indent ++ indentStep), [], lead', trail⟩
  have hsource : w.source = t := ht.symm
  have hedit : edit w.source _ = .ok (w.result s) := w.edit_source s
  rw [hsource, List.append_nil, h] at hedit
  refine ⟨w, hsource, (Except.ok.inj hedit).symm,
    ⟨?_, isSpace_nil, hlead'.isSpace, ?_, ?_, ?_⟩,
    ⟨?_, .blank Text.isBlank_nil, .blank hlead', ?_, ?_, ?_⟩⟩
  · exact Text.isSpace_append.mpr ⟨hbreak, hstep.isSpace⟩
  · rcases htrail with htrail | htrail <;> simp only [w, htrail]
    · exact isSpace_nil
    · exact hbreak
  · exact ⟨x, '>', [], hx, .inl rfl, isSpace_nil⟩
  · exact ⟨lead, '<', '/' :: (tag.toList ++ ['>']) ++ u,
      by simp [w, hu, Tag.closing], .inl rfl, hlead.isSpace⟩
  · rw [hsource]
    exact .lineBreak hstep
  · rw [hsource]
    rcases htrail with htrail | htrail <;> simp only [w, htrail]
    · exact .blank Text.isBlank_nil
    · exact Text.isLayout_self _
  · rintro ⟨hlast, -⟩
    simp [w, hx] at hlast
  · rintro ⟨-, hhead⟩
    -- the guard's closing tag or a blank comes next
    cases lead with
    | nil => simp [w, hu, Tag.closing] at hhead
    | cons c lead =>
        obtain rfl : c = '\n' := by simpa [w] using hhead
        exact absurd (hlead '\n' (by simp)) (by decide)

/-- The tags that go inside a return block stand behind and before its parentheses. -/
theorem exists_wrapping_of_bareReturnEdits {s : Swap} {t r : Text} {edits : List Edit}
    (hedits : s.bareReturnEdits t = .ok edits) (h : edit t edits = .ok r) :
    ∃ w : Wrapping, w.source = t ∧ w.result s = r ∧ w.IsPlaced := by
  have hbreak := Text.isSpace_lineBreak t
  obtain ⟨o, c, inside, e, indent, ho, hc, he, hafter, hindent, rfl⟩ :=
    bareReturnEdits_eq_ok hedits
  obtain ⟨g₀, hbefore, ht, -, hopen, -⟩ :=
    Pattern.findAfter?_eq_some ReturnBlock.opening_proper ho
  obtain ⟨-, -, -, -, hclose, -⟩ := Pattern.findAfter?_eq_some ReturnBlock.closing_proper hc
  obtain ⟨v, w, -, hw, hmatched⟩ := ReturnBlock.opening_eq_some hopen
  obtain ⟨b, b', l, hb, -, -, hclosed⟩ := ReturnBlock.closing_eq_some hclose
  have hmatched : o.matched = "return".toList ++ (v ++ '(' :: (w ++ ['\n'])) :=
    (List.append_left_inj o.after).mp (by simpa using hmatched)
  have ht : t = (o.before ++ o.matched) ++ (inside ++ (e ++ (c.matched ++ c.after))) := by
    rw [ht, hafter]
    simp only [List.nil_append] at hbefore
    simp [hbefore]
  have he : Text.IsSpace e := by
    rcases he with rfl | rfl <;> decide
  let wrapping : Wrapping :=
    ⟨o.before ++ o.matched, inside, e ++ (c.matched ++ c.after), indent, t.lineBreak,
      t.lineBreak ++ indent, []⟩
  have hedit : edit wrapping.source _ = .ok (wrapping.result s) := wrapping.edit_source s
  rw [show wrapping.source = t from ht.symm, List.append_nil, h] at hedit
  refine ⟨wrapping, ht.symm, (Except.ok.inj hedit).symm,
    ⟨hindent.isSpace, hbreak, ?_, isSpace_nil, ?_, ?_⟩⟩
  · exact Text.isSpace_append.mpr ⟨hbreak, hindent.isSpace⟩
  · exact ⟨o.before ++ ("return".toList ++ v), '(', w ++ ['\n'],
      by simp [wrapping, hmatched], .inr rfl,
      Text.isSpace_append.mpr ⟨hw, Text.isSpace_lineFeed⟩⟩
  · refine ⟨e ++ '\n' :: b, ')', ';' :: (b' ++ (l ++ '}' :: c.after)),
      by simp [wrapping, hclosed], .inr rfl, ?_⟩
    exact Text.isSpace_append.mpr
      ⟨he, Text.isSpace_append.mpr ⟨Text.isSpace_lineFeed, hb.isSpace⟩⟩

/-- Whatever the shape, the wrapper is put into the text by two insertions. -/
theorem insertWrapper_eq_ok {s : Swap} {t r : Text} {shape : Shape}
    (h : s.insertWrapper t shape = .ok r) :
    ∃ w : Wrapping, w.source = t ∧ w.result s = r ∧ w.IsPlaced := by
  cases shape with
  | guarded tag =>
      obtain ⟨edits, hedits, h⟩ := insertWrapper_guarded_eq_ok h
      obtain ⟨w, hsource, hresult, hplaced, -⟩ := exists_wrapping_of_guardedEdits hedits h
      exact ⟨w, hsource, hresult, hplaced⟩
  | bareReturn =>
      obtain ⟨edits, hedits, h⟩ := insertWrapper_bareReturn_eq_ok h
      exact exists_wrapping_of_bareReturnEdits hedits h

end Swap

end Rewrap
