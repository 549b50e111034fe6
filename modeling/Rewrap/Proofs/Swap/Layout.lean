import Rewrap.Proofs.Swap.Placement

/-! # How the wrapper is laid out

The white space that comes with the two tags of the wrapper, and the places at which they go, said
by the text alone: the line break, the indentation, the last closing tag of a guard, the first line
that a return block renders. -/

namespace Rewrap

namespace Text

/-! ## Line breaks -/

theorem hasCrLf_iff {t : Text} : t.hasCrLf = true ↔ ['\r', '\n'] <:+: t := by
  fun_induction hasCrLf t with
  | case1 t =>
      have hbegins : ['\r', '\n'] <+: '\r' :: '\n' :: t := List.prefix_append ['\r', '\n'] t
      exact iff_of_true rfl hbegins.isInfix
  | case2 c t hne ih =>
      have hhead : ¬['\r', '\n'] <+: c :: t := by
        rintro ⟨u, hu⟩
        obtain ⟨rfl, rfl⟩ := List.cons.inj hu
        exact hne u rfl rfl
      rw [ih, List.infix_cons_iff, or_iff_right hhead]
  | case3 => simp

theorem lineBreak_eq_ite (t : Text) :
    t.lineBreak = if ['\r', '\n'] <:+: t then ['\r', '\n'] else ['\n'] := by
  simp only [lineBreak, hasCrLf_iff]

/-! ## The last place of a word -/

/-- The word stands behind `before`, and nowhere further right. -/
structure IsLastPlace (w t before : Text) : Prop where
  stands : before ++ w <+: t
  last : ∀ a, a ++ w <+: t → a.length ≤ before.length

variable {w t before rest : Text}

theorem splitAtLast?_eq_none_iff (hw : w ≠ []) : splitAtLast? w t = none ↔ ¬w <:+: t := by
  induction t with
  | nil => simp [splitAtLast?, hw]
  | cons c t ih =>
      rw [splitAtLast?, List.infix_cons_iff]
      cases hrec : splitAtLast? w t with
      | some bounds =>
          have hlater : w <:+: t := not_not.mp (mt ih.mpr (by simp [hrec]))
          simp [hlater]
      | none =>
          have hno : ¬w <:+: t := ih.mp hrec
          simp [hno]

theorem isLastPlace_of_splitAtLast? (hw : w ≠ []) (h : splitAtLast? w t = some (before, rest)) :
    IsLastPlace w t before := by
  induction t generalizing before with
  | nil => simp [splitAtLast?] at h
  | cons c t ih =>
      rw [splitAtLast?] at h
      cases hrec : splitAtLast? w t with
      | some bounds =>
          simp only [hrec, Option.some.injEq, Prod.mk.injEq] at h
          obtain ⟨rfl, rfl⟩ := h
          have hlast := ih hrec
          refine ⟨List.cons_prefix_cons.mpr ⟨rfl, hlast.stands⟩, fun a ha => ?_⟩
          cases a with
          | nil => simp
          | cons d a =>
              obtain ⟨-, ha⟩ := List.cons_prefix_cons.mp ha
              simpa using hlast.last a ha
      | none =>
          simp only [hrec] at h
          split at h
          · next hbegins =>
              cases h
              refine ⟨List.isPrefixOf_iff_prefix.mp hbegins, fun a ha => ?_⟩
              cases a with
              | nil => simp
              | cons d a =>
                  obtain ⟨-, ha⟩ := List.cons_prefix_cons.mp ha
                  have hlater : w <:+: t :=
                    (List.infix_append' a w []).trans (by simpa using ha.isInfix)
                  exact absurd hlater ((splitAtLast?_eq_none_iff hw).mp hrec)
          · simp at h

theorem IsLastPlace.append_left (h : IsLastPlace w t before) (x : Text) :
    IsLastPlace w (x ++ t) (x ++ before) := by
  refine ⟨?_, fun a ha => ?_⟩
  · rw [List.append_assoc]
    exact (List.prefix_append_right_inj x).mpr h.stands
  · rcases Nat.le_total a.length x.length with hle | hle
    · rw [List.length_append]
      omega
    · -- the place lies in `t`
      obtain ⟨b, rfl⟩ : x <+: a :=
        List.prefix_of_prefix_length_le (List.prefix_append x t)
          ((List.prefix_append a w).trans ha) hle
      rw [List.append_assoc] at ha
      have hb := h.last b ((List.prefix_append_right_inj x).mp ha)
      simpa using hb

end Text

/-! ## Guards -/

namespace Swap

/-- The wrapper is put right inside a guard, whose first opening tag is `o`. Its opening tag goes on
a new line behind that tag, one step further in. Its closing tag goes before the guard's last
closing tag, on a line of its own if nothing but blanks stands before that one on its line; `lead`
is what stays between the two. -/
structure Wrapping.IsInGuard (w : Wrapping) (tag : String) (o : Occurrence)
    (lead : Text) : Prop where
  before : w.before = o.before ++ o.matched
  after : ∃ rest, w.after = lead ++ (Tag.closing tag ++ rest)
  blank : Text.IsBlank lead
  last : Text.IsLastPlace (Tag.closing tag) w.source (w.before ++ w.inside ++ lead)
  openLead : w.openLead = w.source.lineBreak ++ (w.before.lastLine.indent ++ [' ', ' '])
  openTrail : w.openTrail = []
  closeLead : w.closeLead =
    if Text.IsBlank (w.before ++ w.inside ++ lead).lastLine
    then (w.before ++ w.inside ++ lead).lastLine ++ [' ', ' '] else []
  closeTrail : w.closeTrail =
    if Text.IsBlank (w.before ++ w.inside ++ lead).lastLine then w.source.lineBreak else []

theorem closing_ne_nil (tag : String) : Tag.closing tag ≠ [] := by simp [Tag.closing]

/-- A guard that is opened and closed again reaches from its first opening tag to its last closing
tag. -/
theorem exists_guardBounds? {tag : String} {t : Text} {o : Occurrence}
    (ho : (Tag.opening tag).first? t = some o) (hclosing : Tag.closing tag <:+: o.after) :
    ∃ inside rest, guardBounds? tag t = some (o.before ++ o.matched, inside, rest) ∧
      Text.IsLastPlace (Tag.closing tag) t (o.before ++ o.matched ++ inside) := by
  cases hsplit : Text.splitAtLast? (Tag.closing tag) o.after with
  | none => exact absurd hclosing ((Text.splitAtLast?_eq_none_iff (closing_ne_nil tag)).mp hsplit)
  | some bounds =>
      obtain ⟨inside, rest⟩ := bounds
      obtain ⟨g, hbefore, ht, -⟩ := Pattern.findAfter?_eq_some (Tag.opening_proper tag) ho
      have hlast := (Text.isLastPlace_of_splitAtLast? (closing_ne_nil tag) hsplit).append_left
        (o.before ++ o.matched)
      have ht : t = o.before ++ o.matched ++ o.after := by simpa [hbefore] using ht
      exact ⟨inside, rest, by simp [guardBounds?, ho, hsplit], ht ▸ hlast⟩

/-- The wrapper goes inside a guard whose first opening tag has a closing tag somewhere behind
it. -/
theorem insertWrapper_guarded {s : Swap} {tag : String} {t : Text} {o : Occurrence}
    (hguard : tag ∈ s.spec.guards) (ho : (Tag.opening tag).first? t = some o)
    (hclosing : Tag.closing tag <:+: o.after) :
    (t.lineBreak = if ['\r', '\n'] <:+: t then ['\r', '\n'] else ['\n']) ∧
      ∃ (w : Wrapping) (lead : Text), w.source = t ∧
        s.insertWrapper t (.guarded tag) = .ok (w.result s) ∧ w.IsInGuard tag o lead := by
  refine ⟨Text.lineBreak_eq_ite t, ?_⟩
  obtain ⟨region, rest, hbounds, hlast⟩ := exists_guardBounds? ho hclosing
  obtain ⟨ht, -, rest, rfl⟩ := guardBounds?_eq_some hbounds
  obtain ⟨inside, lead, closed, rfl, hlead, -, hclosed, hedits⟩ :=
    guardedEdits_of_guardBounds? (s := s) hbounds
  simp only [← List.append_assoc] at ht hlast hclosed
  obtain ⟨closeLead, closeTrail, rfl, hcloseLead, hcloseTrail⟩ : ∃ closeLead closeTrail,
      closed = closeLead ++ s.closeTag ++ closeTrail ∧
        (closeLead = if Text.IsBlank (o.before ++ o.matched ++ inside ++ lead).lastLine
          then (o.before ++ o.matched ++ inside ++ lead).lastLine ++ indentStep else []) ∧
        closeTrail = if Text.IsBlank (o.before ++ o.matched ++ inside ++ lead).lastLine
          then t.lineBreak else [] := by
    refine ⟨_, _, ?_, rfl, rfl⟩
    rw [hclosed]
    split <;> simp
  let w : Wrapping := ⟨o.before ++ o.matched, inside, lead ++ (Tag.closing tag ++ rest),
    t.lineBreak ++ ((o.before ++ o.matched).lastLine.indent ++ indentStep), [],
      closeLead, closeTrail⟩
  have hsource : w.source = t := by simp [w, Wrapping.source, ht]
  have hresult : s.insertWrapper t (.guarded tag) = .ok (w.result s) := by
    have hedit : edit w.source _ = .ok (w.result s) := w.edit_source s
    rw [hsource, List.append_nil] at hedit
    rw [insertWrapper, if_pos (by simpa using hguard), hedits]
    exact hedit
  refine ⟨w, lead, hsource, hresult, rfl, ⟨rest, rfl⟩, hlead, ?_, ?_, rfl, hcloseLead, ?_⟩
  · rwa [hsource]
  · rw [hsource]
    rfl
  · rwa [hsource]

/-- An empty guard in a text with CRLF: the closing tag still comes after the opening one. -/
theorem insertWrapper_guarded_emptyGuard :
    ∃ (o : Occurrence) (w : Wrapping) (lead : Text),
      "AdminRoute" ∈ Swap.default.spec.guards ∧
      (Tag.opening "AdminRoute").first? "  <AdminRoute>\r\n  </AdminRoute>".toList = some o ∧
      Tag.closing "AdminRoute" <:+: o.after ∧
      w.source = "  <AdminRoute>\r\n  </AdminRoute>".toList ∧
      w.result Swap.default =
        "  <AdminRoute>\r\n    <AppShell>\r\n    </AppShell>\r\n  </AdminRoute>".toList ∧
      w.IsInGuard "AdminRoute" o lead := by
  have ho : (Tag.opening "AdminRoute").first? "  <AdminRoute>\r\n  </AdminRoute>".toList =
      some ⟨"  ".toList, "<AdminRoute>".toList, "\r\n  </AdminRoute>".toList⟩ := by cbv
  have hresult :
    Swap.default.insertWrapper "  <AdminRoute>\r\n  </AdminRoute>".toList (.guarded "AdminRoute") =
      .ok "  <AdminRoute>\r\n    <AppShell>\r\n    </AppShell>\r\n  </AdminRoute>".toList := by cbv
  have hguard : "AdminRoute" ∈ Swap.default.spec.guards := by decide
  have hclosing : Tag.closing "AdminRoute" <:+: "\r\n  </AdminRoute>".toList :=
    ⟨"\r\n  ".toList, [], by decide⟩
  obtain ⟨-, w, lead, hsource, hok, hplaced⟩ := insertWrapper_guarded hguard ho hclosing
  exact ⟨_, w, lead, hguard, ho, hclosing, hsource,
    Except.ok.inj (hok.symm.trans hresult), hplaced⟩

end Swap

/-! ## Return blocks -/

namespace ReturnBlock

theorem pastLastLineFeed_eq_none_iff {t : Text} :
    pastLastLineFeed t = none ↔ ∀ w rest, Text.IsSpace w → t ≠ w ++ '\n' :: rest := by
  constructor
  · intro h w rest hw ht
    induction w generalizing t with
    | nil =>
        subst ht
        have hfeed : isWhiteSpace '\n' = true := by decide
        cases hrec : pastLastLineFeed rest <;> simp [pastLastLineFeed, hfeed, hrec] at h
    | cons c w ih =>
        subst ht
        have hc : isWhiteSpace c = true := hw c (by simp)
        have hw : Text.IsSpace w := fun d hd => hw d (by simp [hd])
        cases hrec : pastLastLineFeed (w ++ '\n' :: rest) with
        | none => exact ih hrec hw rfl
        | some r => simp [pastLastLineFeed, hc, hrec] at h
  · intro h
    cases hpast : pastLastLineFeed t with
    | none => rfl
    | some rest =>
        obtain ⟨w, hw, ht⟩ := pastLastLineFeed_eq_some hpast
        exact absurd ht (h w rest hw)

theorem pastLastLineFeed_eq_some_iff {t rest : Text} :
    pastLastLineFeed t = some rest ↔
      (∃ w, Text.IsSpace w ∧ t = w ++ '\n' :: rest) ∧ pastLastLineFeed rest = none := by
  constructor
  · intro h
    refine ⟨pastLastLineFeed_eq_some h, ?_⟩
    induction t with
    | nil => simp [pastLastLineFeed] at h
    | cons c t ih =>
        rw [pastLastLineFeed] at h
        split at h
        · cases hrec : pastLastLineFeed t with
          | some rest' =>
              simp only [hrec] at h
              exact ih (hrec.trans h)
          | none =>
              simp only [hrec] at h
              split at h
              · cases h
                exact hrec
              · simp at h
        · simp at h
  · rintro ⟨⟨w, hw, rfl⟩, hnone⟩
    induction w with
    | nil => simp [pastLastLineFeed, hnone, show isWhiteSpace '\n' = true by decide]
    | cons c w ih =>
        have hc : isWhiteSpace c = true := hw c (by simp)
        simp [pastLastLineFeed, hc, ih fun d hd => hw d (by simp [hd])]

/-- The opening is a word of its own, and takes all the line breaks that follow its parenthesis. -/
theorem opening_eq_some_iff {prev : Option Char} {t rest : Text} :
    opening prev t = some rest ↔
      prev.any isWordChar = false ∧
        (∃ v w, Text.IsSpace v ∧ Text.IsSpace w ∧
          t = "return".toList ++ (v ++ '(' :: (w ++ '\n' :: rest))) ∧
        pastLastLineFeed rest = none := by
  constructor
  · intro h
    refine ⟨?_, opening_eq_some h, ?_⟩
    all_goals
      unfold opening at h
      split at h
      · simp at h
    · next hword => simpa using hword
    · obtain ⟨t₁, -, h₁⟩ := Option.bind_eq_some_iff.mp h
      obtain ⟨t₂, -, h₂⟩ := Option.bind_eq_some_iff.mp h₁
      exact (pastLastLineFeed_eq_some_iff.mp h₂).2
  · rintro ⟨hword, ⟨v, w, hv, hw, rfl⟩, hnone⟩
    have hreturn : "return".toList.isPrefixOf?
        ("return".toList ++ (v ++ '(' :: (w ++ '\n' :: rest))) =
        some (v ++ '(' :: (w ++ '\n' :: rest)) := List.isPrefixOf?_eq_some_iff_append_eq.mpr rfl
    have hdrop : (v ++ '(' :: (w ++ '\n' :: rest)).dropWhile isWhiteSpace =
        '(' :: (w ++ '\n' :: rest) := by
      rw [List.dropWhile_append_of_pos hv]
      simp [show isWhiteSpace '(' = false by decide]
    have hparen : ['('].isPrefixOf? ('(' :: (w ++ '\n' :: rest)) = some (w ++ '\n' :: rest) :=
      List.isPrefixOf?_eq_some_iff_append_eq.mpr rfl
    have hfeeds := pastLastLineFeed_eq_some_iff.mpr ⟨⟨w, hw, rfl⟩, hnone⟩
    simp only [opening, hword, Bool.false_eq_true, if_false, hreturn, Option.bind_eq_bind,
      Option.bind_some, hdrop, hparen, hfeeds]

/-- The end of a block is a line `);` and a brace in the first column of the next one. -/
theorem closing_eq_some_iff {prev : Option Char} {t rest : Text} :
    closing prev t = some rest ↔
      ∃ b b' e, Text.IsBlank b ∧ Text.IsBlank b' ∧ (e = ['\n'] ∨ e = ['\r', '\n']) ∧
        t = '\n' :: (b ++ ')' :: ';' :: (b' ++ (e ++ '}' :: rest))) := by
  refine ⟨closing_eq_some, ?_⟩
  rintro ⟨b, b', e, hb, hb', he, rfl⟩
  have hfeed : ∀ u : Text, ['\n'].isPrefixOf? ('\n' :: u) = some u := fun u =>
    List.isPrefixOf?_eq_some_iff_append_eq.mpr rfl
  have hparen : ∀ u : Text, [')', ';'].isPrefixOf? (')' :: ';' :: u) = some u := fun u =>
    List.isPrefixOf?_eq_some_iff_append_eq.mpr rfl
  have hline : Text.dropIndent (b ++ ')' :: ';' :: (b' ++ (e ++ '}' :: rest))) =
      ')' :: ';' :: (b' ++ (e ++ '}' :: rest)) := Text.dropIndent_append hb (by simp [Text.isBlank])
  have hend : Text.dropIndent (b' ++ (e ++ '}' :: rest)) = e ++ '}' :: rest := by
    refine Text.dropIndent_append hb' ?_
    rcases he with rfl | rfl <;> simp [Text.isBlank]
  simp only [closing, hfeed, Option.bind_eq_bind, Option.bind_some, hline, hparen, hend]
  rcases he with rfl | rfl <;> rfl

/-- What is rendered is more than white space: the opening takes all the line breaks that follow it,
and the end of the block begins with one. -/
theorem exists_rendered {prev : Option Char} {t inside e rest : Text} (he : Text.IsSpace e)
    (h : opening prev t = some (inside ++ (e ++ '\n' :: rest))) :
    ∃ c ∈ inside, isWhiteSpace c = false := by
  by_contra hno
  have hinside : Text.IsSpace inside := fun c hc => by
    cases hspace : isWhiteSpace c with
    | true => rfl
    | false => exact absurd ⟨c, hc, hspace⟩ hno
  have hnone := pastLastLineFeed_eq_none_iff.mp (opening_eq_some_iff.mp h).2.2 (inside ++ e) rest
  exact hnone (Text.isSpace_append.mpr ⟨hinside, he⟩) (by simp)

end ReturnBlock

namespace Swap

/-- The wrapper is put inside the return block that `o` opens and `c` closes: its opening tag before
the first line that the block renders, its closing tag behind the last one. Both take the
indentation of that first line, and what they enclose is more than white space. -/
structure Wrapping.IsInReturnBlock (w : Wrapping) (o c : Occurrence) : Prop where
  before : w.before = o.before ++ o.matched
  rendered : ∃ d ∈ w.inside, isWhiteSpace d = false
  after : ∃ e m, w.after = e ++ '\n' :: (m ++ c.after) ∧ c.matched = '\n' :: m ∧
    (e = ['\r'] ∨ e = [] ∧ w.inside.getLast? ≠ some '\r')
  openLead : w.openLead = w.inside.indent
  openTrail : w.openTrail = w.source.lineBreak
  closeLead : w.closeLead = w.source.lineBreak ++ w.inside.indent
  closeTrail : w.closeTrail = []

theorem exists_isInReturnBlock {s : Swap} {t : Text} {o c : Occurrence}
    (ho : ReturnBlock.opening.first? t = some o)
    (hc : ReturnBlock.closing.findAfter? (o.before ++ o.matched) o.after = some c) :
    ∃ w : Wrapping, w.source = t ∧ s.insertWrapper t .bareReturn = .ok (w.result s) ∧
      w.IsInReturnBlock o c := by
  obtain ⟨inside, e, hafter, hbefore, he, hedits⟩ :=
    bareReturnEdits_of_findAfter? (s := s) ho hc
  obtain ⟨g, hg, ht, -, hopen, -⟩ := Pattern.findAfter?_eq_some ReturnBlock.opening_proper ho
  obtain ⟨-, -, -, -, hclose, -⟩ := Pattern.findAfter?_eq_some ReturnBlock.closing_proper hc
  obtain ⟨m, hm⟩ : ∃ m, c.matched = '\n' :: m := by
    obtain ⟨b, b', l, -, -, -, heq⟩ := ReturnBlock.closing_eq_some_iff.mp hclose
    exact ⟨b ++ ')' :: ';' :: (b' ++ (l ++ ['}'])),
      (List.append_left_inj c.after).mp (by simpa using heq)⟩
  have hrendered : ∃ d ∈ inside, isWhiteSpace d = false := by
    have hspace : Text.IsSpace e := by
      rcases he with rfl | ⟨rfl, -⟩ <;> decide
    rw [hafter, hm] at hopen
    exact ReturnBlock.exists_rendered hspace hopen
  have hindent : o.after.indent = inside.indent := by
    obtain ⟨d, hd, hspace⟩ := hrendered
    have hblank : Text.isBlank d = false := Bool.eq_false_iff.mpr fun hblank => by
      simp [isWhiteSpace_of_isBlank hblank] at hspace
    rw [hafter, Text.indent_append_of_not_isBlank ⟨d, hd, hblank⟩]
  have hreturn : e = ['\r'] ∨ e = [] ∧ inside.getLast? ≠ some '\r' := by
    refine he.imp_right fun ⟨hnil, hlast⟩ => ⟨hnil, fun hcr => hlast ?_⟩
    rw [hbefore, hnil, List.append_nil, List.getLast?_append, hcr, Option.some_or]
  let w : Wrapping := ⟨o.before ++ o.matched, inside, e ++ (c.matched ++ c.after), inside.indent,
    t.lineBreak, t.lineBreak ++ inside.indent, []⟩
  have hsource : w.source = t := by
    have hg : o.before = g := by simpa using hg
    simp [w, Wrapping.source, ht, hafter, hg]
  have hresult : s.insertWrapper t .bareReturn = .ok (w.result s) := by
    have hedit : edit w.source _ = .ok (w.result s) := w.edit_source s
    rw [hsource, List.append_nil] at hedit
    rw [insertWrapper, hedits, hindent]
    exact hedit
  refine ⟨w, hsource, hresult, rfl, hrendered, ⟨e, m, by simp [w, hm], hm, hreturn⟩,
    rfl, ?_, ?_, rfl⟩
  all_goals rw [hsource]

theorem insertWrapper_of_first?_eq_none {s : Swap} {t : Text}
    (ho : ReturnBlock.opening.first? t = none) :
    s.insertWrapper t .bareReturn = .error (.noRenderBlock s.spec.newComponent) := by
  simp only [insertWrapper, bareReturnEdits, ho]
  rfl

theorem insertWrapper_of_findAfter?_eq_none {s : Swap} {t : Text} {o : Occurrence}
    (ho : ReturnBlock.opening.first? t = some o)
    (hc : ReturnBlock.closing.findAfter? (o.before ++ o.matched) o.after = none) :
    s.insertWrapper t .bareReturn =
      .error (.unclosedWrapper (o.before ++ o.matched).lineFeeds) := by
  simp only [insertWrapper, bareReturnEdits, ho, hc]
  rfl

/-- The wrapper goes inside the first return block. It is refused only if the text opens no block,
or if no block ends behind the first opening. -/
theorem insertWrapper_bareReturn (s : Swap) (t : Text) :
    ((∃ wrapper, s.insertWrapper t .bareReturn = .error (.noRenderBlock wrapper)) ↔
        Pattern.Absent ReturnBlock.opening [] t) ∧
      ((∃ line, s.insertWrapper t .bareReturn = .error (.unclosedWrapper line)) ↔
        ∃ o, ReturnBlock.opening.first? t = some o ∧
          Pattern.Absent ReturnBlock.closing (o.before ++ o.matched) o.after) ∧
      (∀ o c, ReturnBlock.opening.first? t = some o →
        ReturnBlock.closing.findAfter? (o.before ++ o.matched) o.after = some c →
        ∃ w : Wrapping, w.source = t ∧ s.insertWrapper t .bareReturn = .ok (w.result s) ∧
          w.IsInReturnBlock o c) ∧
      t.lineBreak = if ['\r', '\n'] <:+: t then ['\r', '\n'] else ['\n'] := by
  refine ⟨?_, ?_, fun o c ho hc => exists_isInReturnBlock ho hc, Text.lineBreak_eq_ite t⟩
  · rw [← Pattern.first?_eq_none_iff]
    cases ho : ReturnBlock.opening.first? t with
    | none => exact iff_of_true ⟨_, insertWrapper_of_first?_eq_none ho⟩ rfl
    | some o =>
        refine iff_of_false (fun ⟨wrapper, h⟩ => ?_) (by simp)
        cases hc : ReturnBlock.closing.findAfter? (o.before ++ o.matched) o.after with
        | none => simp [insertWrapper_of_findAfter?_eq_none ho hc] at h
        | some c =>
            obtain ⟨w, -, hok, -⟩ := exists_isInReturnBlock (s := s) ho hc
            simp [hok] at h
  · cases ho : ReturnBlock.opening.first? t with
    | none => simp [insertWrapper_of_first?_eq_none ho]
    | some o =>
        simp only [Option.some.injEq, exists_eq_left', ← Pattern.findAfter?_eq_none_iff]
        cases hc : ReturnBlock.closing.findAfter? (o.before ++ o.matched) o.after with
        | none => exact iff_of_true ⟨_, insertWrapper_of_findAfter?_eq_none ho hc⟩ rfl
        | some c =>
            obtain ⟨w, -, hok, -⟩ := exists_isInReturnBlock (s := s) ho hc
            simp [hok]

/-- The first line that is rendered comes after an empty line, and the line breaks are CRLF. -/
theorem insertWrapper_bareReturn_emptyLine :
    ∃ (o c : Occurrence) (w : Wrapping),
      ReturnBlock.opening.first? "return (\r\n\r\n  <p />\r\n);\r\n\x7d".toList = some o ∧
      ReturnBlock.closing.findAfter? (o.before ++ o.matched) o.after = some c ∧
      w.source = "return (\r\n\r\n  <p />\r\n);\r\n\x7d".toList ∧
      w.result Swap.default =
        "return (\r\n\r\n  <AppShell>\r\n  <p />\r\n  </AppShell>\r\n);\r\n\x7d".toList ∧
      w.IsInReturnBlock o c := by
  have ho : ReturnBlock.opening.first? "return (\r\n\r\n  <p />\r\n);\r\n\x7d".toList =
      some ⟨[], "return (\r\n\r\n".toList, "  <p />\r\n);\r\n\x7d".toList⟩ := by cbv
  have hc : ReturnBlock.closing.findAfter? ([] ++ "return (\r\n\r\n".toList)
        "  <p />\r\n);\r\n\x7d".toList =
      some ⟨"return (\r\n\r\n  <p />\r".toList, "\n);\r\n\x7d".toList, []⟩ := by cbv
  have hresult : Swap.default.insertWrapper
      "return (\r\n\r\n  <p />\r\n);\r\n\x7d".toList .bareReturn =
      .ok "return (\r\n\r\n  <AppShell>\r\n  <p />\r\n  </AppShell>\r\n);\r\n\x7d".toList := by cbv
  obtain ⟨-, -, hwrapped, -⟩ :=
    insertWrapper_bareReturn Swap.default "return (\r\n\r\n  <p />\r\n);\r\n\x7d".toList
  obtain ⟨w, hsource, hok, hplaced⟩ := hwrapped _ _ ho hc
  exact ⟨_, _, w, ho, hc, hsource, Except.ok.inj (hok.symm.trans hresult), hplaced⟩

end Swap

end Rewrap
