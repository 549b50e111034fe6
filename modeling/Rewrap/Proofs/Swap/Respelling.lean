import Rewrap.Proofs.Edit.Shifting
import Rewrap.Proofs.Swap.Separation
import Rewrap.Proofs.Tag.Counting

/-! # Spellings of the retiring import

A swap does not notice how the retiring import is spelled. The search finds the same imports around
the spelling, the edits behind it are shifted by its length, and the edit that takes it out leaves
no trace of it. -/

namespace Rewrap

/-- The occurrence with `z` put before the text. -/
def Occurrence.behind (z : Text) (o : Occurrence) : Occurrence :=
  ⟨z ++ o.before, o.matched, o.after⟩

/-- The occurrence with `z` put behind the text. -/
def Occurrence.ahead (z : Text) (o : Occurrence) : Occurrence :=
  ⟨o.before, o.matched, o.after ++ z⟩

/-- A pattern that does not look back finds the same behind any text. -/
theorem Pattern.Scan.behind {p : Pattern} (hp : p.IsBlind) (z : Text)
    {before t : Text} {os : List Occurrence} (h : Scan p before t os) :
    Scan p (z ++ before) t (os.map (Occurrence.behind z)) := by
  induction h with
  | done absent => exact .done fun a b hab => (hp _ _ b).trans (absent a b hab)
  | @next before g m rest os nonempty absent reads more ih =>
      have hnext : Scan p (z ++ before) (g ++ (m ++ rest)) (⟨z ++ before ++ g, m, rest⟩ :: _) :=
        .next nonempty (fun a b hab hlt => (hp _ _ b).trans (absent a b hab hlt))
          ((hp _ _ _).trans reads)
          (by simpa using ih)
      simpa [Occurrence.behind] using hnext

namespace Import

variable {i : Import} {d B : Text}

/-- The text goes on with neither a blank nor a semicolon, so a statement before it ends there. -/
def EndsStatement (B : Text) : Prop := ∀ c ∈ B.head?, Text.isBlank c = false ∧ c ≠ ';'

/-! ## Terminators -/

theorem dropTerminator_append {e : Text} (he : IsTerminator e) (hB : EndsStatement B) :
    dropTerminator (e ++ B) = B := by
  obtain ⟨b, hb, rfl | rfl⟩ := he
  · rw [dropTerminator, Text.dropIndent_append hb fun c hc => (hB c hc).1]
    cases B with
    | nil => rfl
    | cons c B =>
        have hc : c ≠ ';' := (hB c (by simp)).2
        simp [hc]
  · have hdrop : Text.dropIndent (b ++ ';' :: B) = ';' :: B :=
      Text.dropIndent_append hb (by simp [Text.isBlank])
    simp only [List.append_assoc, List.singleton_append, dropTerminator, hdrop]

theorem dropIndent_append_letter (u v : Text) :
    Text.dropIndent (u ++ 'i' :: v) = u.dropIndent ++ 'i' :: v := by
  rw [Text.dropIndent, List.dropWhile_append]
  split
  · next hnil =>
      have hnil : u.dropIndent = [] := List.isEmpty_iff.mp hnil
      rw [hnil]
      rfl
  · rfl

theorem dropTerminator_append_letter (u v : Text) :
    dropTerminator (u ++ 'i' :: v) = dropTerminator u ++ 'i' :: v := by
  rw [dropTerminator, dropTerminator, dropIndent_append_letter]
  cases u.dropIndent with
  | nil => rfl
  | cons c u =>
      by_cases hc : c = ';'
      · subst hc
        rfl
      · simp [hc]

/-! ## The search around a statement -/

theorem statement_append_end (hi : i.IsNamed) (hd : i.IsStatement d) (hB : EndsStatement B)
    (prev : Option Char) : i.statement prev (d ++ B) = some B := by
  obtain ⟨m, e, hm, he, rfl⟩ := hd
  rw [List.append_assoc, statement_append hi hm, dropTerminator_append he hB]

/-- A statement ends where it did when another follows somewhere behind it. -/
theorem statement_append_letter (hi : i.IsNamed) {prev : Option Char} {t rest : Text}
    (reads : i.statement prev t = some rest) (v : Text) :
    i.statement prev (t ++ 'i' :: v) = some (rest ++ 'i' :: v) := by
  obtain ⟨m, e, hm, -, rfl⟩ := statement_eq_some reads
  rw [statement_append hi hm, Option.some_inj] at reads
  rw [List.append_assoc, statement_append hi hm, dropTerminator_append_letter, reads]

theorem absentBefore_of_isFreeOf (hi : i.BeginsOnce) {before g v : Text} (h : i.IsFreeOf g) :
    Pattern.AbsentBefore i.statement before g ('i' :: v) := by
  intro a b hab hlt
  cases hread : i.statement (before ++ a).getLast? b with
  | none => rfl
  | some rest =>
      obtain ⟨m, e, hm, -, rfl⟩ := statement_eq_some hread
      rcases exists_within hi hm hab.symm with ⟨k, rfl⟩ | ⟨k, rfl⟩
      · exact absurd ⟨a, k, by simp⟩ (h m hm)
      · simp at hlt

/-- A statement parts the search: the one before it goes on up to it, and the next begins behind
it. -/
theorem scan_statement (hi : i.IsNamed) (hi' : i.BeginsOnce) {before A : Text}
    {os os' : List Occurrence} (hA : Pattern.Scan i.statement before A os) (hd : i.IsStatement d)
    (hB : EndsStatement B) (more : Pattern.Scan i.statement (before ++ A ++ d) B os') :
    Pattern.Scan i.statement before (A ++ (d ++ B))
      (os.map (Occurrence.ahead (d ++ B)) ++ ⟨before ++ A, d, B⟩ :: os') := by
  obtain ⟨v, hv⟩ : ∃ v, d = 'i' :: v := hd.head
  induction hA with
  | @done before A absent =>
      have hfree : i.IsFreeOf A := isFreeOf_of_absent (x := []) hi absent
      refine .next (by simp [hv]) ?_ (statement_append_end hi hd hB _) more
      rw [hv]
      exact absentBefore_of_isFreeOf hi' hfree
  | @next before g n rest os nonempty absent reads _ ih =>
      obtain ⟨n', rfl⟩ := (isStatement_of_reads reads).head
      have hfree : i.IsFreeOf g :=
        isFreeOf_of_absentBefore (x := []) (z := []) hi (by simpa using absent)
      have hread : i.statement (before ++ g).getLast? ('i' :: n' ++ (rest ++ (d ++ B))) =
          some (rest ++ (d ++ B)) := by
        simpa [hv] using statement_append_letter hi reads (v ++ B)
      have hnext := Pattern.Scan.next nonempty (absentBefore_of_isFreeOf hi' hfree) hread
        (ih (by simpa using more))
      simpa [Occurrence.ahead] using hnext

theorem occurrences_statement (hi : i.IsNamed) (hi' : i.BeginsOnce) (A : Text)
    (hd : i.IsStatement d) (hB : EndsStatement B) :
    i.statement.occurrences (A ++ (d ++ B)) =
      (i.statement.occurrences A).map (Occurrence.ahead (d ++ B)) ++
        ⟨A, d, B⟩ :: (i.statement.occurrences B).map (Occurrence.behind (A ++ d)) := by
  have hA := Pattern.occurrences_scan (statement_proper i) A
  have hrest := (Pattern.occurrences_scan (statement_proper i) B).behind (fun _ _ _ => rfl) (A ++ d)
  exact (scan_statement hi hi' hA hd hB (by simpa using hrest)).eq_occurrences

end Import

namespace Swap

/-! ## The edits around a statement -/

theorem dropLineEnd?_append_letter {r : Text} (hr : r ≠ []) (v : Text) :
    Text.dropLineEnd? (r ++ 'i' :: v) = r.dropLineEnd?.map (· ++ 'i' :: v) := by
  obtain ⟨c, r, rfl⟩ := List.exists_cons_of_ne_nil hr
  by_cases hn : c = '\n'
  · subst hn
    rfl
  · by_cases hreturn : c = '\r'
    · subst hreturn
      cases r with
      | nil => rfl
      | cons d r =>
          by_cases hd : d = '\n'
          · subst hd
            rfl
          · simp [Text.dropLineEnd?, hd]
    · simp [Text.dropLineEnd?, hn, hreturn]

theorem behindLines?_append_letter (before after v : Text) :
    behindLines? before (after ++ 'i' :: v) =
      if after.dropIndent = [] then none else (behindLines? before after).map (· ++ 'i' :: v) := by
  rw [behindLines?, behindLines?, Import.dropIndent_append_letter]
  split
  · split
    · next hnil =>
        rw [hnil]
        rfl
    · next hne => exact dropLineEnd?_append_letter hne v
  · simp

theorem dropImport_ahead (o : Occurrence) (v v' : Text) :
    dropImport (o.ahead ('i' :: v)) = dropImport (o.ahead ('i' :: v')) := by
  rw [Occurrence.ahead, Occurrence.ahead, dropImport_eq, dropImport_eq, behindLines?_append_letter,
    behindLines?_append_letter]
  split_ifs
  · rfl
  · cases behindLines? o.before o.after with
    | none => rfl
    | some rest => simp [Text.utf8Size_append, Nat.add_sub_add_right]

/-- What dropping an occurrence takes out behind a text that leaves a line open with more than
blanks. -/
def dropBehind (o : Occurrence) : Edit :=
  if '\n' ∈ o.before then dropImport o else .delete o.start o.stop

theorem dropImport_behind {z : Text} (hz : ∃ c ∈ z.lastLine, Text.isBlank c = false)
    (o : Occurrence) : dropImport (o.behind z) = (dropBehind o).shift z.utf8Size := by
  obtain ⟨before, matched, after⟩ := o
  rw [dropBehind, Occurrence.behind, dropImport_eq]
  split_ifs with hmem
  · have hlines : behindLines? (z ++ before) after = behindLines? before after := by
      rw [behindLines?, behindLines?, Text.lastLine_append_of_mem hmem]
    have hlead : before.lastLine.utf8Size ≤ before.utf8Size := by
      obtain ⟨x, hx⟩ := Text.lastLine_suffix before
      have hsize := congrArg Text.utf8Size hx
      rw [Text.utf8Size_append] at hsize
      omega
    rw [dropImport_eq, hlines, Text.lastLine_append_of_mem hmem]
    cases behindLines? before after with
    | none | some =>
        simp only [Edit.shift, Text.utf8Size_append, Edit.mk.injEq, and_true]
        omega
  · have hopen : ¬Text.IsBlank (z ++ before).lastLine := by
      obtain ⟨c, hc, hblank⟩ := hz
      intro h
      have hno := h c (by rw [Text.lastLine_append_of_not_mem hmem]; simp [hc])
      simp [hblank] at hno
    simp only [behindLines?, if_neg hopen, Edit.delete, Edit.shift, Occurrence.start,
      Occurrence.stop, Text.utf8Size_append, Edit.mk.injEq, and_true]
    omega

/-- Dropping an import takes out the same beside it however the import is spelled. -/
theorem dropImport_middle (A B : Text) :
    ∃ kept lead n, A = kept ++ lead ∧
      ∀ d, dropImport ⟨A, d, B⟩ = ⟨kept.utf8Size, (A ++ d).utf8Size + n, []⟩ := by
  cases hlines : behindLines? A B with
  | none => exact ⟨A, [], 0, by simp, fun d => by rw [dropImport_eq, hlines]; rfl⟩
  | some rest =>
      obtain ⟨kept, hkept⟩ := Text.lastLine_suffix A
      have hsize := congrArg Text.utf8Size hkept
      rw [Text.utf8Size_append] at hsize
      refine ⟨kept, A.lastLine, B.utf8Size - rest.utf8Size, hkept.symm, fun d => ?_⟩
      rw [dropImport_eq, hlines, Edit.mk.injEq]
      exact ⟨by omega, rfl, rfl⟩

variable {s : Swap} {A B d d' : Text}

theorem importEdits_ahead (s : Swap) (present : Bool) (os : List Occurrence) (v v' : Text) :
    s.importEdits present (os.map (Occurrence.ahead ('i' :: v))) =
      s.importEdits present (os.map (Occurrence.ahead ('i' :: v'))) := by
  have hdrop : ∀ os : List Occurrence, (os.map (Occurrence.ahead ('i' :: v))).map dropImport =
      (os.map (Occurrence.ahead ('i' :: v'))).map dropImport := by
    intro os
    rw [List.map_map, List.map_map]
    exact List.map_congr_left fun o _ => dropImport_ahead o v v'
  cases os with
  | nil => rfl
  | cons o os =>
      rw [List.map_cons, List.map_cons, importEdits, importEdits, hdrop, dropImport_ahead o v v']
      rfl

/-- The edits of the import step around a statement: those before it do not depend on its spelling,
and those behind it are shifted by its length. -/
theorem importEdits_statement (s : Swap) (hi : s.spec.retiring.BeginsOnce) (present : Bool)
    (A : Text) (hB : Import.EndsStatement B) :
    ∃ (earlier : List Edit) (kept lead : Text) (n : Nat) (added : Text) (later : List Edit),
      A = kept ++ lead ∧ ∀ d, s.spec.retiring.IsStatement d →
      s.importEdits present (s.spec.retiring.statement.occurrences (A ++ (d ++ B))) =
        earlier ++ ⟨kept.utf8Size, (A ++ d).utf8Size + n, added⟩ ::
          later.map (Edit.shift (A ++ d).utf8Size) := by
  obtain ⟨kept, lead, n, hA, hdrop⟩ := dropImport_middle A B
  obtain ⟨later, hlater⟩ : ∃ later : List Edit, ∀ d, s.spec.retiring.IsStatement d →
      ((s.spec.retiring.statement.occurrences B).map (Occurrence.behind (A ++ d))).map dropImport =
        later.map (Edit.shift (A ++ d).utf8Size) := by
    refine ⟨(s.spec.retiring.statement.occurrences B).map dropBehind, ?_⟩
    intro d hd
    have hopen := hd.exists_not_blank (b := []) A (by simp)
    rw [List.append_nil] at hopen
    rw [List.map_map, List.map_map]
    exact List.map_congr_left fun o _ => dropImport_behind hopen o
  have hsplit := fun d hd => Import.occurrences_statement s.retiring_isNamed hi A (d := d) hd hB
  cases hos : s.spec.retiring.statement.occurrences A with
  | nil =>
      cases present with
      | true =>
          refine ⟨[], kept, lead, n, [], later, hA, fun d hd => ?_⟩
          rw [hsplit d hd, hos, List.map_nil, List.nil_append, importEdits, hlater d hd,
            if_pos rfl, hdrop]
          rfl
      | false =>
          refine ⟨[], A, [], 0, s.spec.replacement.canonical.toList, later,
            by simp, fun d hd => ?_⟩
          rw [hsplit d hd, hos, List.map_nil, List.nil_append, importEdits, hlater d hd]
          simp [Occurrence.start, Occurrence.stop]
  | cons o os =>
      refine ⟨s.importEdits present ((o :: os).map (Occurrence.ahead ['i'])), kept, lead, n,
        [], later, hA, fun d hd => ?_⟩
      obtain ⟨v, hv⟩ : ∃ v, d ++ B = 'i' :: v := by
        obtain ⟨d, rfl⟩ := hd.head
        exact ⟨d ++ B, rfl⟩
      rw [hsplit d hd, hos, hv, importEdits_ahead s present (o :: os) [] v, ← hdrop,
        ← hlater d hd]
      simp [importEdits]

/-! ## The import step -/

theorem swapImport_in_turn {t : Text} (h : ¬s.spec.retiring.IsFreeOf t) :
    ∃ u, s.swapImport t = .ok (some (u, (s.spec.retiring.statement.occurrences t).length)) ∧
      Edit.makeInTurn t (s.importEdits (s.spec.replacement.clause.occursIn t)
        (s.spec.retiring.statement.occurrences t)) = some u := by
  rcases s.swapImport_cuts t with ⟨hfree, -⟩ | ⟨first, others, tail, hcuts⟩
  · exact absurd hfree h
  · refine ⟨_, hcuts.count ▸ hcuts.swapImport, ?_⟩
    have hturn := Edit.makeInTurn_cuts [] tail (first :: others)
    rw [hcuts.edits]
    simpa [← hcuts.source] using hturn

theorem not_isFreeOf_statement {i : Import} (hd : i.IsStatement d) :
    ¬i.IsFreeOf (A ++ (d ++ B)) := by
  obtain ⟨m, e, hm, -, rfl⟩ := hd
  exact fun h => h m hm ⟨A, e ++ B, by simp⟩

theorem occursIn_respelled (hold : s.spec.retiring.BeginsOnce)
    (hnew : s.spec.replacement.BeginsOnce) (hd : s.spec.retiring.IsStatement d)
    (hd' : s.spec.retiring.IsStatement d') :
    s.spec.replacement.clause.occursIn (A ++ (d ++ B)) =
      s.spec.replacement.clause.occursIn (A ++ (d' ++ B)) := by
  have habsent : ∀ d, s.spec.retiring.IsStatement d →
      (s.spec.replacement.clause.occursIn (A ++ (d ++ B)) = false ↔
        s.spec.replacement.IsFreeOf A ∧ s.spec.replacement.IsFreeOf B) := by
    intro d hd
    rw [← Import.isFreeOf_iff_occursIn s.replacement_isNamed,
      hd.isSeparatedBy s.replacement_isNamed hnew s.retiring_isNamed hold s.name_ne]
  rw [Bool.eq_iff_iff, ← not_iff_not, Bool.not_eq_true, Bool.not_eq_true, habsent d hd,
    habsent d' hd']

theorem swapImport_respelled (hold : s.spec.retiring.BeginsOnce)
    (hnew : s.spec.replacement.BeginsOnce) (hB : Import.EndsStatement B)
    (hd : s.spec.retiring.IsStatement d) (hd' : s.spec.retiring.IsStatement d') :
    s.swapImport (A ++ (d ++ B)) = s.swapImport (A ++ (d' ++ B)) := by
  obtain ⟨u, hu, hturn⟩ := swapImport_in_turn (not_isFreeOf_statement (A := A) (B := B) hd)
  obtain ⟨u', hu', hturn'⟩ := swapImport_in_turn (not_isFreeOf_statement (A := A) (B := B) hd')
  obtain ⟨earlier, kept, lead, n, added, later, rfl, hedits⟩ :=
    s.importEdits_statement hold (s.spec.replacement.clause.occursIn (A ++ (d ++ B))) A hB
  rw [hedits d hd, Edit.makeInTurn_middle] at hturn
  rw [← occursIn_respelled hold hnew hd hd', hedits d' hd', Edit.makeInTurn_middle] at hturn'
  have hsame : some u = some u' := hturn.symm.trans hturn'
  rw [hu, hu', Option.some_inj.mp hsame,
    Import.occurrences_statement s.retiring_isNamed hold _ hd hB,
    Import.occurrences_statement s.retiring_isNamed hold _ hd' hB]
  simp

/-! ## The whole swap -/

theorem isFiller_statement (hbracket : s.spec.retiring.IsBracketFree)
    (hnew : s.spec.replacement.BeginsOnce) (hd : s.spec.retiring.IsStatement d) :
    Tag.IsFiller s.spec.newComponent d := by
  refine ⟨fun c hc => ?_, ?_, ?_⟩
  · have hopen : c ≠ '<' := fun h =>
      hd.isDropped_self.bracket_not_mem hbracket (by simp) (h ▸ hc)
    have hclose : c ≠ '>' := fun h =>
      hd.isDropped_self.bracket_not_mem hbracket (by simp) (h ▸ hc)
    simp [Tag.isInner, hopen, hclose]
  · obtain ⟨d, rfl⟩ := hd.head
    exact ⟨'i', d, rfl, by decide, hnew.1⟩
  · obtain ⟨u, c, -, hslash, rfl⟩ := hd.exists_last
    simpa using hslash

theorem wrapperTags_respelled (hbracket : s.spec.retiring.IsBracketFree)
    (hnew : s.spec.replacement.BeginsOnce) (hd : s.spec.retiring.IsStatement d)
    (hd' : s.spec.retiring.IsStatement d') :
    s.wrapperTags (A ++ (d ++ B)) = s.wrapperTags (A ++ (d' ++ B)) := by
  have hopen : '<' ∉ s.spec.newComponent.toList :=
    mark_not_mem_of_isTagName s.isTagName_components.2 (by simp)
  have hclosed : ∀ d, s.spec.retiring.IsStatement d → Text.places s.closeTag (A ++ (d ++ B)) =
      Text.places s.closeTag A + Text.places s.closeTag B :=
    fun d hd => separates_dropped hd.isDropped_self hbracket A B
  have hfill := isFiller_statement hbracket hnew hd
  have hfill' := isFiller_statement hbracket hnew hd'
  rw [wrapperTags, wrapperTags, Tag.count_opening hopen, Tag.count_opening hopen,
    hfill.places_eq hfill',
    s.isBracketed_closeTag.count_literal, s.isBracketed_closeTag.count_literal, hclosed d hd,
      hclosed d' hd']

theorem Clearing.finish_of_isKept {t : Text} (c : Clearing s t) {k : Char} (hk : s.IsKept k)
    (hmem : k ∈ s.spec.newComponent.toList) :
    c.finish = do
      let wrapped ← s.insertWrapper c.stripped (s.detectShape c.stripped)
      s.checkBalance t wrapped
      return ⟨wrapped, true, some (s.detectShape c.stripped), c.importsReplaced,
        c.tags.length⟩ := by
  rw [finish]
  cases hwrapped : s.insertWrapper c.stripped (s.detectShape c.stripped) with
  | error fault => rfl
  | ok wrapped =>
      cases hbalance : s.checkBalance t wrapped with
      | error fault => simp [hbalance]
      | ok =>
          have hfinish : c.finish =
              .ok ⟨wrapped, wrapped != t, some (s.detectShape c.stripped), c.importsReplaced,
                c.tags.length⟩ := by
            simp [finish, hwrapped, hbalance]
          obtain ⟨hchanged, -⟩ := c.changed hk hmem (c.apply_eq.trans hfinish)
          simp only at hchanged
          simp [hbalance, hchanged]

/-- However the retiring import is spelled, a swap makes the same of the text. -/
theorem apply_respelled (hold : s.spec.retiring.BeginsOnce) (hnew : s.spec.replacement.BeginsOnce)
    (hbracket : s.spec.retiring.IsBracketFree) {k : Char} (hk : s.IsKept k)
    (hmem : k ∈ s.spec.newComponent.toList) (hB : Import.EndsStatement B)
    (hd : s.spec.retiring.IsStatement d) (hd' : s.spec.retiring.IsStatement d') :
    s.apply (A ++ (d ++ B)) = s.apply (A ++ (d' ++ B)) := by
  obtain ⟨c⟩ := (s.isFreeOf_or_clearing _).resolve_left
    (not_isFreeOf_statement (A := A) (B := B) hd)
  obtain ⟨c'⟩ := (s.isFreeOf_or_clearing _).resolve_left
    (not_isFreeOf_statement (A := A) (B := B) hd')
  have himports := swapImport_respelled (A := A) hold hnew hB hd hd'
  rw [c.swapImport, c'.swapImport, Except.ok.injEq, Option.some.injEq, Prod.mk.injEq] at himports
  obtain ⟨hswapped, hreplaced⟩ := himports
  have htags := c.removeUsageTags
  rw [hswapped, c'.removeUsageTags, Except.ok.injEq, Prod.mk.injEq] at htags
  obtain ⟨hstripped, hremoved⟩ := htags
  have hstripped : c'.stripped = c.stripped := hstripped
  have hbalance : s.checkBalance (A ++ (d ++ B)) = s.checkBalance (A ++ (d' ++ B)) := by
    funext after
    rw [checkBalance, checkBalance, wrapperTags_respelled hbracket hnew hd hd']
  rw [c.apply_eq, c'.apply_eq, c.finish_of_isKept hk hmem, c'.finish_of_isKept hk hmem,
    hstripped, hreplaced, hremoved, hbalance]

/-- However the import of the navigation bar is spelled, swapping it for the application shell gives
the same text with the same report, or fails in the same way. -/
theorem default_apply_respelled {A B d d' : Text} (hB : Import.EndsStatement B)
    (hd : Swap.default.spec.retiring.IsStatement d)
    (hd' : Swap.default.spec.retiring.IsStatement d') :
    Swap.default.apply (A ++ (d ++ B)) = Swap.default.apply (A ++ (d' ++ B)) := by
  have hkept : Swap.default.IsKept 'S' := ⟨by decide, by decide, by decide, by decide⟩
  exact apply_respelled (by decide) (by decide) (by decide) hkept (by decide) hB hd hd'

set_option maxRecDepth 4000 in
/-- An import on one line, and one over three lines with quotes that do not agree and without a
semicolon. -/
theorem default_apply_respelled_lines :
    ∃ B d d', B = "\nexport default () => \x7b\n  return (\n    <main />\n  );\n\x7d\n".toList ∧
      d = "import NavBar from \"@/components/NavBar\";".toList ∧
      d' = "import\nNavBar\nfrom\t'@/components/NavBar\" ".toList ∧
      Swap.default.apply ("  ".toList ++ (d ++ B)) =
        Swap.default.apply ("  ".toList ++ (d' ++ B)) ∧
      Swap.default.apply ("  ".toList ++ (d' ++ B)) =
        .ok ⟨("  import AppShell from \"@/components/AppShell\";\nexport default () => \x7b\n  return (\n" ++
          "    <AppShell>\n    <main />\n    </AppShell>\n  );\n\x7d\n").toList,
          true, some .bareReturn, 1, 0⟩ := by
  have hB : Import.EndsStatement
      "\nexport default () => \x7b\n  return (\n    <main />\n  );\n\x7d\n".toList := by
    simp [Import.EndsStatement, Text.isBlank]
  have hd : Swap.default.spec.retiring.IsStatement
      "import NavBar from \"@/components/NavBar\";".toList := by
    obtain ⟨m, hm, hcanonical⟩ := Swap.default.spec.retiring.canonical_eq
    exact ⟨m, [';'], hm, ⟨[], by simp, .inr rfl⟩, hcanonical⟩
  have hd' : Swap.default.spec.retiring.IsStatement
      "import\nNavBar\nfrom\t'@/components/NavBar\" ".toList := by
    have hbreak : Text.IsSpace ['\n'] := by decide
    have htab : Text.IsSpace ['\t'] := by decide
    exact ⟨"import\nNavBar\nfrom\t'@/components/NavBar\"".toList, [' '],
      ⟨['\n'], ['\n'], ['\t'], '\'', '"', ⟨by simp, hbreak⟩, ⟨by simp, hbreak⟩,
        ⟨by simp, htab⟩, .inr rfl, .inl rfl,
        by decide⟩, ⟨[' '], by simp [Text.isBlank], .inl rfl⟩, by decide⟩
  exact ⟨_, _, _, rfl, rfl, rfl, default_apply_respelled hB hd hd', by cbv⟩

end Swap

end Rewrap
