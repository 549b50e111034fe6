import Rewrap.Proofs.Swap.ImportEdits
import Rewrap.Proofs.Swap.UsageTags

/-! # Usage tags on lines of their own

A usage tag that has its line for itself begins where a line begins, and no other such tag begins
inside it. So the search misses none, and what it takes out is whole lines. -/

namespace Rewrap

/-! ## Whole lines -/

namespace MarkedText

theorem unmarkedLines_plain (t : Text) : unmarkedLines (plain t) = t.lines := by
  have hlines : linesBy (fun c => c.1 == '\n') (plain t) = t.lines.map plain :=
    linesBy_map (fun c => (c, false)) t
  have hkeep : ∀ l ∈ t.lines.map plain, (l.all fun c => !c.2) = true := by
    intro l hl
    obtain ⟨u, -, rfl⟩ := List.mem_map.mp hl
    simp [plain]
  rw [unmarkedLines, hlines, List.filter_eq_self.mpr hkeep, List.map_map]
  exact List.map_id'' map_fst_plain _

theorem unmarkedLines_taken (t : Text) : unmarkedLines (taken t) = [] := by
  have hgone : ∀ l ∈ linesBy (fun c => c.1 == '\n') (taken t),
      ¬(l.all fun c => !c.2) = true := by
    intro l hl hall
    obtain ⟨c, l, rfl⟩ := List.exists_cons_of_ne_nil (ne_nil_of_mem_linesBy hl)
    have hc : c ∈ taken t := by
      rw [← flatten_linesBy (taken t)]
      exact List.mem_flatten_of_mem hl (by simp)
    obtain ⟨d, -, hd⟩ := List.mem_map.mp hc
    simp [← hd] at hall
  rw [unmarkedLines, List.filter_eq_nil_iff.mpr hgone]
  rfl

theorem unmarkedLines_append {u : MarkedText} (hu : ∀ c ∈ u.getLast?, c.1 = '\n')
    (m : MarkedText) : unmarkedLines (u ++ m) = unmarkedLines u ++ unmarkedLines m := by
  have hclosed : ∀ c ∈ u.getLast?, (c.1 == '\n') = true := by simpa using hu
  rw [unmarkedLines, linesBy_append hclosed, List.filter_append, List.map_append]
  rfl

end MarkedText

/-! ## What a search covers -/

namespace Pattern

variable {p : Pattern} {before t : Text} {os : List Occurrence}

theorem Scan.of_mem (h : Scan p before t os) {o : Occurrence} (ho : o ∈ os) :
    o.text = before ++ t ∧ before.utf8Size ≤ o.start ∧
      p o.before.getLast? (o.matched ++ o.after) = some o.after := by
  induction h with
  | done absent => simp at ho
  | @next before g m rest os nonempty absent reads more ih =>
      rcases List.mem_cons.mp ho with rfl | ho
      · exact ⟨by simp [Occurrence.text], by simp [Occurrence.start], reads⟩
      · obtain ⟨htext, hstart, hread⟩ := ih ho
        simp only [Text.utf8Size_append] at hstart
        exact ⟨by simpa using htext, by omega, hread⟩

/-- The search goes from left to right, and no occurrence reaches into the next. -/
theorem Scan.pairwise (h : Scan p before t os) : os.Pairwise fun o o' => o.stop ≤ o'.start := by
  induction h with
  | done absent => exact .nil
  | @next before g m rest os nonempty absent reads more ih =>
      refine .cons (fun o ho => ?_) ih
      have hstart := (more.of_mem ho).2.1
      simp only [Text.utf8Size_append] at hstart
      simp only [Occurrence.stop, Occurrence.start, Text.utf8Size_append] at hstart ⊢
      omega

/-- A place at which the pattern reads lies in what the search finds. -/
theorem Scan.exists_covering (h : Scan p before t os) {a b : Text} (hab : t = a ++ b)
    (hread : (p (before ++ a).getLast? b).isSome) :
    ∃ o ∈ os, ∃ d d', o.matched = d ++ d' ∧ d' ≠ [] ∧ before ++ a = o.before ++ d ∧
      b = d' ++ o.after := by
  induction h generalizing a with
  | done absent =>
      rw [absent a b hab] at hread
      cases hread
  | @next before g m rest os nonempty absent reads more ih =>
      by_cases hlt : a.length < g.length
      · rw [absent a b hab hlt] at hread
        cases hread
      · obtain ⟨a, rfl⟩ : g <+: a :=
          List.prefix_of_prefix_length_le ⟨m ++ rest, hab⟩ ⟨b, rfl⟩ (by omega)
        have hab : m ++ rest = a ++ b := by simpa using hab
        by_cases hlt : a.length < m.length
        · obtain ⟨d', rfl⟩ : a <+: m :=
            List.prefix_of_prefix_length_le ⟨b, rfl⟩ ⟨rest, hab⟩ (by omega)
          refine ⟨_, List.mem_cons_self, a, d', rfl, ?_, by simp, by simpa using hab.symm⟩
          rintro rfl
          simp at hlt
        · obtain ⟨a, rfl⟩ : m <+: a :=
            List.prefix_of_prefix_length_le ⟨rest, hab⟩ ⟨b, rfl⟩ (by omega)
          have hab : rest = a ++ b := by simpa using hab
          obtain ⟨o, ho, d, d', hmatched, hne, hbefore, hb⟩ := ih hab (by simpa using hread)
          exact ⟨o, List.mem_cons_of_mem _ ho, d, d', hmatched, hne, by simpa using hbefore, hb⟩

end Pattern

theorem Text.exists_append_of_not_mem {c : Char} {u v x y : Text} (hx : c ∉ x)
    (h : x ++ y = u ++ c :: v) : ∃ u', u = x ++ u' ∧ y = u' ++ c :: v := by
  induction x generalizing u with
  | nil => exact ⟨u, rfl, h⟩
  | cons d x ih =>
      simp only [List.mem_cons, not_or] at hx
      cases u with
      | nil =>
          obtain ⟨rfl, -⟩ := List.cons.inj h
          exact absurd rfl hx.1
      | cons d' u =>
          obtain ⟨rfl, htail⟩ : d = d' ∧ x ++ y = u ++ c :: v := by simpa using h
          obtain ⟨u', rfl, hy⟩ := ih hx.2 htail
          exact ⟨u', rfl, hy⟩

theorem Text.IsLineEnd.eq_nil {e rest u v : Text} (h : IsLineEnd e rest)
    (he : e = u ++ '\n' :: v) : v = [] := by
  rcases h with rfl | rfl | ⟨rfl, -⟩
  · cases u <;> simp_all
  · rcases u with _ | ⟨c, _ | ⟨c', u⟩⟩ <;> simp_all
  · simp at he

namespace Tag

variable {name : String} {o : Occurrence}

theorem IsOwnLine.head?_dropWhile (h : IsOwnLine name o) :
    ((o.matched ++ o.after).dropWhile isWhiteSpace).head? = some '<' := by
  obtain ⟨b, w, b', e, hb, -, -, -, hline⟩ := h.line
  rw [hline, List.append_assoc, List.dropWhile_append_of_pos hb.isSpace]
  simp [show isWhiteSpace '<' = false by decide]

/-- No tag that has its line for itself begins inside another: behind a line feed in it comes white
space and then the slash. -/
theorem IsOwnLine.not_reads (h : IsOwnLine name o) (hname : '\n' ∉ name.toList) {d d' : Text}
    (hmatched : o.matched = d ++ d') (hd : d ≠ []) (hd' : d' ≠ []) :
    ownLine name (o.before ++ d).getLast? (d' ++ o.after) = none := by
  cases hread : ownLine name (o.before ++ d).getLast? (d' ++ o.after) with
  | none => rfl
  | some rest =>
      exfalso
      obtain ⟨b, w, b', e, hb, hw, hb', he, hline⟩ := h.line
      obtain ⟨d₂, htext, hinner⟩ := ownLine_eq_some hread
      have hbracket := hinner.head?_dropWhile
      obtain ⟨u, rfl⟩ : ∃ u, d = u ++ ['\n'] := by
        obtain ⟨u, c, rfl⟩ := (List.eq_nil_or_concat d).resolve_left hd
        obtain rfl := hinner.start c (by simp)
        exact ⟨u, by simp⟩
      have hlead : '\n' ∉ b ++ '<' :: name.toList := by
        simpa using ⟨hb.not_mem (by decide), hname⟩
      have hend : '\n' ∉ '/' :: '>' :: b' := by simpa using hb'.not_mem (by decide)
      obtain ⟨u, -, hrest⟩ := Text.exists_append_of_not_mem hlead
        (y := w ++ (['/', '>'] ++ (b' ++ e))) (u := u) (v := d') (by simpa [hline] using hmatched)
      rcases List.append_eq_append_iff.mp hrest with ⟨v, -, hv⟩ | ⟨v, rfl, hv⟩
      · obtain ⟨v, -, hv⟩ := Text.exists_append_of_not_mem hend (y := e) (by simpa using hv)
        exact hd' (he.eq_nil hv)
      · cases v with
        | nil => simp at hv
        | cons c v =>
            obtain ⟨rfl, rfl⟩ : '\n' = c ∧ d' = v ++ (['/', '>'] ++ (b' ++ e)) := by
              simpa using hv
            have hspace : ∀ c ∈ v, isWhiteSpace c = true := fun c hc => hw c (by simp [hc])
            rw [← htext, List.append_assoc, List.dropWhile_append_of_pos hspace] at hbracket
            simp [show isWhiteSpace '/' = false by decide] at hbracket

/-- The search finds the tags that have their lines for themselves, and no others. -/
theorem mem_occurrences_ownLine_iff (hname : '\n' ∉ name.toList) {t : Text} :
    o ∈ (ownLine name).occurrences t ↔ o.text = t ∧ IsOwnLine name o := by
  have hscan := Pattern.occurrences_scan (ownLine_proper name) t
  constructor
  · intro ho
    obtain ⟨htext, -, hread⟩ := hscan.of_mem ho
    obtain ⟨d, hd, hline⟩ := ownLine_eq_some hread
    obtain rfl := List.append_cancel_right hd
    exact ⟨htext, hline⟩
  · rintro ⟨rfl, hline⟩
    have hread := hline.reads
    obtain ⟨o', ho', d, d', hmatched, hne, hbefore, hafter⟩ := hscan.exists_covering
      (a := o.before) (b := o.matched ++ o.after) (by simp [Occurrence.text]) (by simp [hread])
    rw [List.nil_append] at hbefore
    obtain ⟨-, -, hread'⟩ := hscan.of_mem ho'
    obtain ⟨d₂, hd₂, hline'⟩ := ownLine_eq_some hread'
    obtain rfl := List.append_cancel_right hd₂
    -- it begins where the one that covers it begins
    have hd : d = [] := by
      by_contra hd
      rw [hbefore, hafter, hline'.not_reads hname hmatched hd hne] at hread
      cases hread
    subst hd
    rw [List.append_nil] at hbefore
    rw [List.nil_append] at hmatched
    rw [hbefore, hafter, ← hmatched, hread'] at hread
    have hrest : o'.after = o.after := Option.some.inj hread
    obtain ⟨b, m, r⟩ := o
    obtain ⟨b', m', r'⟩ := o'
    simp only at hbefore hmatched hafter hrest
    subst hbefore hmatched hrest
    obtain rfl := List.append_cancel_right hafter
    exact ho'

theorem IsOwnLine.ends (h : IsOwnLine name o) :
    o.after = [] ∨ ∃ x, o.matched = x ++ ['\n'] := by
  obtain ⟨b, w, b', e, -, -, -, he, hline⟩ := h.line
  rcases he with rfl | rfl | ⟨-, hnil⟩
  · exact .inr ⟨b ++ ('<' :: name.toList ++ (w ++ (['/', '>'] ++ b'))), by simp [hline]⟩
  · exact .inr ⟨b ++ ('<' :: name.toList ++ (w ++ (['/', '>'] ++ (b' ++ ['\r'])))),
      by simp [hline]⟩
  · exact .inl hnil

/-- The lines that are left are those on which no tag stood. -/
theorem lines_unmarked {before t : Text} {os : List Occurrence}
    (h : Pattern.Scan (ownLine name) before t os) :
    (MarkedText.mark before.length t os).unmarked.lines =
      (MarkedText.mark before.length t os).unmarkedLines := by
  induction h with
  | done absent => rw [MarkedText.mark, MarkedText.unmarked_plain, MarkedText.unmarkedLines_plain]
  | @next before g m rest os nonempty absent reads more ih =>
      obtain ⟨d, hd, hline⟩ := ownLine_eq_some reads
      obtain rfl := List.append_cancel_right hd
      have hmark : MarkedText.mark before.length (g ++ (m ++ rest))
          (⟨before ++ g, m, rest⟩ :: os) =
          .plain g ++ (.taken m ++ .mark (before ++ g ++ m).length rest os) := by
        simp [MarkedText.mark]
      -- what is kept before the tag ends a line, and so does the tag, unless the text ends with it
      have hkept : ∀ c ∈ g.getLast?, c = '\n' := fun c hc =>
        hline.start c (List.mem_getLast?_append_of_mem_getLast? hc)
      have htag : (MarkedText.taken m ++ .mark (before ++ g ++ m).length rest os).unmarkedLines =
          (MarkedText.mark (before ++ g ++ m).length rest os).unmarkedLines := by
        rcases hline.ends with rfl | ⟨x, rfl⟩
        · have hnone : MarkedText.mark (before ++ g ++ m).length [] os = [] :=
            List.map_eq_nil_iff.mp (MarkedText.map_fst_mark more)
          rw [hnone, List.append_nil, MarkedText.unmarkedLines_taken]
          rfl
        · rw [MarkedText.unmarkedLines_append (by simp [MarkedText.taken]),
            MarkedText.unmarkedLines_taken, List.nil_append]
      have hplain : ∀ c ∈ (MarkedText.plain g).getLast?, c.1 = '\n' := by
        simpa [MarkedText.plain, List.getLast?_map] using hkept
      have hlines : Text.lines (g ++ (MarkedText.mark (before ++ g ++ m).length rest os).unmarked) =
          Text.lines g ++ (MarkedText.mark (before ++ g ++ m).length rest os).unmarked.lines :=
        Text.lines_append hkept _
      rw [hmark, MarkedText.unmarkedLines_append hplain, htag, MarkedText.unmarkedLines_plain,
        MarkedText.unmarked_append, MarkedText.unmarked_append, MarkedText.unmarked_plain,
        MarkedText.unmarked_taken, List.nil_append, hlines, ih]

end Tag

namespace Swap

theorem lineFeed_not_mem_oldComponent (s : Swap) : '\n' ∉ s.spec.oldComponent.toList := by
  intro hmem
  have hspace := s.retiring_isNamed.2 '\n' hmem
  exact absurd hspace (by decide)

/-- Taking out the usage tags takes out the lines that hold nothing else, every one of them, and
keeps all other lines in order. -/
theorem removeUsageTags_ownLines (s : Swap) (t : Text) :
    ∃ os : List Occurrence,
      s.removeUsageTags t = .ok ((MarkedText.mark 0 t os).unmarked, os.length) ∧
      (os.Pairwise fun o o' => o.stop ≤ o'.start) ∧
      (∀ o, o ∈ os ↔ o.text = t ∧ Tag.IsOwnLine s.spec.oldComponent o) ∧
      (MarkedText.mark 0 t os).unmarked.lines = (MarkedText.mark 0 t os).unmarkedLines := by
  have hscan := Pattern.occurrences_scan (Tag.ownLine_proper s.spec.oldComponent) t
  refine ⟨(Tag.ownLine s.spec.oldComponent).occurrences t, ?_, hscan.pairwise,
    fun o => Tag.mem_occurrences_ownLine_iff s.lineFeed_not_mem_oldComponent,
      Tag.lines_unmarked hscan⟩
  obtain ⟨cs, tail, ht, hedits, hresult, -, -⟩ := hscan.exists_cuts
  have hedit : edit t (Cut.edits 0 cs) = .ok (Cut.result tail cs) := by
    rw [ht, edit_cuts]
  rw [removeUsageTags, hedits, Text.utf8Size_nil, hedit, hresult]
  rfl

/-- A tag may be broken over several lines. One with a carriage return behind it that ends no line
stays, and so does one with text beside it. -/
example : Swap.default.removeUsageTags ("<NavBar />\r\n\t<NavBar\n\n/> \n<NavBar />\r\r\n" ++
      "a <NavBar />\n<NavBar/>").toList =
    .ok ("<NavBar />\r\r\na <NavBar />\n".toList, 3) := by cbv

end Swap

end Rewrap
